import Dangless.DanglessRelease
import Dangless.PageTableThreadsSpec

/-! A call of the page tables in one step: run statement by statement with no other thread around, it does the same. And
the words that the page tables have for virtual memory that is not in use, from which the calls on it are in order. -/

namespace Dangless

open Rely TableTree

variable {T : Type} {S : PtPaths} {pt : PtState} {call : PtCall} {va a n p pa flags : Nat}

/-- The functions of `virtmem.c` and `dangless_malloc.c`, each as one step. -/
def PtCall.sequential : PtCall → PtState → PtAnswer × PtState
  | .mapRegion pa va n flags, s =>
      let r := ptMapRegion s pa va (n * PGSIZE) flags
      (.code r.1, r.2)
  | .invalidate p n, s => (.done, virtualInvalidate s p n)
  | .resolve va, s => (.address (ptResolve s va), s)

/-- A page whose word is 0 is neither mapped nor invalidated. -/
theorem entry_of_stopWord_zero (h : pt.stopWord a = 0) : pt.entry a = none ∧ ¬ pt.Marked a := by
  constructor
  · rw [PtState.entry_eq_none]
    show flagIsSet (pt.stopWord a) PTE_V = false
    rw [h]
    rfl
  · intro hmarked
    have hzero := h.symm.trans hmarked
    exact absurd hzero (by decide)

/-- A word that is present is in an entry of level 1. -/
theorem PtOk.entry_present (h : PtOk S pt) (hS : Within S va) (hvalid : flagIsSet (pt.stopWord va) PTE_V = true) :
    pt.entry va = some (.l1, pt.stopWord va) := by
  rw [h.entry hS, if_pos hvalid]

theorem stopWord_of_entry {level : PtLevel} {word : Nat} (h : pt.entry va = some (level, word)) : pt.stopWord va = word := by
  unfold PtState.entry at h
  dsimp only at h
  split_ifs at h
  exact (Prod.mk.inj (Option.some.inj h)).2

/-- A call that is in order does statement by statement what it does in one step. -/
theorem PtCall.Legal.run (h : call.Legal S pt.stopWord) (hok : PtOk S pt) (t : T) :
    (call.code t).run ⟨pt, none⟩ = some ((call.sequential pt).1, ⟨(call.sequential pt).2, none⟩) := by
  cases call with
  | mapRegion pa va n flags =>
      obtain ⟨hpa, hva, hflags, hdistinct, hpages⟩ := h
      have hzero : ∀ k, k < n → pt.entry (pgOffset va k) = none ∧ ¬ pt.Marked (pgOffset va k) := fun k hk =>
        entry_of_stopWord_zero (hpages k hk).2
      have hops := ptMapRegion_keepsMarks hok.inv hflags hpa hva (fun k hk => (hpages k hk).1) hdistinct
        (fun k hk => (hzero k hk).1) fun k hk => (hzero k hk).2
      exact Prog.run_bind_of (run_ptMapRegionProg hops.checks)
  | invalidate p n =>
      obtain ⟨hdistinct, hpages⟩ := h
      obtain ⟨hops, -⟩ := virtualInvalidate_ok hok.inv rfl (fun k hk => (hpages k hk).1) hdistinct fun k hk =>
        ⟨_, hok.entry_present (hpages k hk).1 (hpages k hk).2⟩
      exact Prog.run_bind_of (run_virtualInvalidateProg hops.checks)
  | resolve va =>
      obtain ⟨hS, hword⟩ := h
      refine Prog.run_bind_of (run_ptResolveProg fun _ hl4 => hword (hok.small va hS ?_))
      rw [hl4]
      decide

/-- The step of a call that is in order, on the words of the pages: it does what the call is for, and leaves the other
pages alone. -/
theorem PtCall.Legal.seq (h : call.Legal S pt.stopWord) (hok : PtOk S pt) :
    PtOk S (call.sequential pt).2 ∧
      (ptProtocol Unit S).Seq pt.stopWord call (call.sequential pt).1 (call.sequential pt).2.stopWord := by
  have hsound : (ptProtocol Unit S).Sound := ptProtocol_sound
  have hidle : (none : Option Unit) ≠ some () := nofun
  exact @Protocol.Sound.run _ _ _ _ _ _ _ hsound () call _ ⟨pt, none⟩ _ hok h hidle (h.run hok ())

section Fresh

variable {Z : Fin PT_NUM_ENTRIES → Prop} {U U' : Set Nat}

/-- The page tables of the virtual memory under the top-level entries of `Z`, where the words for the pages of `U`, which
are not in use, are 0. -/
structure Fresh (Z : Fin PT_NUM_ENTRIES → Prop) (U : Set Nat) (pt : PtState) : Prop where
  tables : PtOk (slotPaths Z) pt
  word : ∀ a ∈ U, pt.stopWord a = 0

theorem Fresh.mono (h : Fresh Z U pt) (hsub : U' ⊆ U) : Fresh Z U' pt := ⟨h.tables, fun a ha => h.word a (hsub ha)⟩

/-- A walk ends at a top-level entry that is 0. -/
theorem stopWord_of_root (hzero : pt.mem (pteSlot pt.cr3 (ptIndex a .l4)) = 0) : pt.stopWord a = 0 := by
  have hnone : pteChild (pt.mem (pteSlot pt.cr3 (ptIndex a .l4))) = none := by
    rw [hzero]
    rfl
  rw [PtState.stopWord, ptWalk_full, PtState.lookup, lookup_cons, hnone]
  exact hzero

/-- Where the top-level entries are 0, nothing is mapped yet. -/
theorem Fresh.start (hinv : PtInv (slotPaths Z) pt) (hzero : ∀ i, Z i → pt.mem (pteSlot pt.cr3 i) = 0) : Fresh Z ∅ pt :=
  ⟨⟨hinv, fun _ ha _ => stopWord_of_root (hzero _ (ha .l1 _ rfl))⟩, nofun⟩

/-- More virtual memory that is not in use. -/
theorem Fresh.union (h : Fresh Z U pt) (hword : ∀ a ∈ U', pt.stopWord a = 0) : Fresh Z (U ∪ U') pt :=
  ⟨h.tables, fun a ha => ha.elim (h.word a) (hword a)⟩

/-- The step of a call that is in order, and the pages that are not in use after it. -/
theorem Fresh.step (h : Fresh Z U pt) (hlegal : call.Legal (slotPaths Z) pt.stopWord)
    (hunused : ∀ a ∈ U', a ∈ call.pages → (call.sequential pt).2.stopWord a = 0) (hsub : ∀ a ∈ U', a ∉ call.pages → a ∈ U) :
    Fresh Z U' (call.sequential pt).2 := by
  obtain ⟨hok, -, -, hframe⟩ := hlegal.seq h.tables
  refine ⟨hok, fun a ha => ?_⟩
  by_cases hpages : a ∈ call.pages
  · exact hunused a ha hpages
  · rw [hframe a hpages]
    exact h.word a (hsub a ha hpages)

theorem mem_region_of_ptPages (hva : va % PGSIZE = 0) (hn : va + n * PGSIZE ≤ 2 ^ 48) (ha : a < 2 ^ 48)
    (hpages : a ∈ ptPages va n) : a ∈ region va n := (mem_region_iff_path hva hn ha).mpr hpages

section MapRegion

variable (h : Fresh Z U pt) (hpa : pa % PGSIZE = 0) (hva : va % PGSIZE = 0) (hin : region va n ⊆ vmem Z)
  (hbound : va + n * PGSIZE ≤ 2 ^ 48)

include h hpa hva hin hbound

/-- `pt_map_region` of pages that are not in use. -/
theorem Fresh.mapRegion_legal (hU : region va n ⊆ U) :
    (PtCall.mapRegion pa va n vremapFlags).Legal (slotPaths Z) pt.stopWord := by
  refine ⟨hpa, hva, vremapFlags_ok, pagesDistinct_of_bound hva hbound, fun k hk => ?_⟩
  have hpage := page_mem_region hbound hk
  exact ⟨within_of_mem_vmem (hin hpage), h.word _ (hU hpage)⟩

theorem Fresh.mapRegion_failed (hU : region va n ⊆ U)
    (hfail : (ptMapRegion pt pa va (n * PGSIZE) vremapFlags).1 ≠ 0) :
    Fresh Z U (ptMapRegion pt pa va (n * PGSIZE) vremapFlags).2 := by
  have hlegal := h.mapRegion_legal hpa hva hin hbound hU
  refine h.step hlegal (fun a _ hpages => ?_) fun a ha _ => ha
  obtain ⟨k, hk, hpath⟩ := hpages
  obtain ⟨-, -, hdoes, -⟩ := hlegal.seq h.tables
  rcases hdoes with ⟨hcode, -⟩ | ⟨-, hwords⟩
  · exact absurd (PtAnswer.code.inj hcode) hfail
  · rw [stopWord_of_path _ hpath]
    exact hwords k hk

theorem Fresh.mapRegion (hlt : ∀ a ∈ U', a < 2 ^ 48) (hapart : Disjoint U' (region va n)) (hU : U = U' ∪ region va n) :
    Fresh Z U' (ptMapRegion pt pa va (n * PGSIZE) vremapFlags).2 := by
  have hlegal := h.mapRegion_legal hpa hva hin hbound (hU ▸ Set.subset_union_right)
  refine h.step hlegal (fun a ha hpages => ?_) fun a ha _ => hU ▸ Or.inl ha
  exact absurd (mem_region_of_ptPages hva hbound (hlt a ha) hpages) (Set.disjoint_left.mp hapart ha)

end MapRegion

section Invalidate

variable {L : DuneLayout} {m : Mapping} {j : Nat} (hm : m.Ok L Z pt) (hj : j ≤ m.npages)
  (hp : roundDown p PGSIZE = m.base + j * PGSIZE)

include hm hj hp

/-- The end of a region. -/
theorem Mapping.Ok.region_end : roundDown p PGSIZE + (m.npages - j) * PGSIZE ≤ 2 ^ 48 ∧
    region (roundDown p PGSIZE) (m.npages - j) ⊆ m.pages := by
  have hend : roundDown p PGSIZE + (m.npages - j) * PGSIZE = m.base + m.npages * PGSIZE := by
    rw [hp, add_assoc, ← Nat.add_mul, Nat.add_sub_cancel' hj]
  refine ⟨hend.trans_le hm.bound, Set.Ico_subset_Ico ?_ hend.le⟩
  rw [hp]
  exact Nat.le_add_right _ _

/-- `virtual_invalidate` of the end of a region is in order. -/
theorem Mapping.Ok.invalidate_legal : (PtCall.invalidate p (m.npages - j)).Legal (slotPaths Z) pt.stopWord := by
  obtain ⟨hbound, -⟩ := hm.region_end hj hp
  refine ⟨pagesDistinct_of_bound (roundDown_aligned p) hbound, fun k hk => ?_⟩
  have hpage : pgOffset (roundDown p PGSIZE) k = pgOffset m.base (j + k) := by
    rw [hp]
    exact hm.pgOffset_add (by omega)
  have hpresent := hm.mapped (j + k) (by omega) _ rfl
  rw [hpage, stopWord_of_entry hpresent]
  exact ⟨within_of_mem_vmem (hm.inVmem (page_mem_region hm.bound (by omega))), entry_valid⟩

theorem Fresh.invalidate (h : Fresh Z U pt) (hlt : ∀ a ∈ U, a < 2 ^ 48) (hapart : Disjoint U m.pages) :
    Fresh Z U (virtualInvalidate pt p (m.npages - j)) := by
  obtain ⟨hbound, hsub⟩ := hm.region_end hj hp
  refine h.step (hm.invalidate_legal hj hp) (fun a ha hpages => ?_) fun a ha _ => ha
  have hmem := mem_region_of_ptPages (roundDown_aligned p) hbound (hlt a ha) hpages
  exact absurd (hsub hmem) (Set.disjoint_left.mp hapart ha)

end Invalidate

/-- `pt_resolve` of the pointer into a region is in order. -/
theorem Mapping.Ok.resolve_legal {L : DuneLayout} {m : Mapping} (hm : m.Ok L Z pt) (hn : 1 ≤ m.npages) :
    (PtCall.resolve m.ptr).Legal (slotPaths Z) pt.stopWord := by
  obtain ⟨hmem, hpath⟩ := hm.ptr_mem hn
  have hpresent := hm.mapped 0 hn m.ptr hpath
  refine ⟨within_of_mem_vmem (hm.inVmem hmem), fun hzero => ?_⟩
  -- a word that is 0 is not present
  have hnone := (entry_of_stopWord_zero hzero).1
  rw [hpresent] at hnone
  cases hnone

end Fresh

end Dangless
