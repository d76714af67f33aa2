import Dangless.VirtmemSpec

/-! `virtual_invalidate` walks once for each page table and steps through the entries next to each
other. Its specification is the loop that walks for every page. -/

namespace Dangless

open TableTree

variable {S : PtPaths} {s s' : PtState} {path : List (Fin PT_NUM_ENTRIES)} {t va a n : Nat}

/-- `virtual_invalidate` of one page. -/
def virtualInvalidatePage (s : PtState) (va : Nat) : PtState :=
  (s.write (ptWalk s va .l1).2 PTE_INVALIDATED).tlbFlushOne va

/-- The pages of a region, one after the other. -/
def virtualInvalidatePages (s : PtState) (va : Nat) : Nat → PtState
  | 0 => s
  | n + 1 => virtualInvalidatePage (virtualInvalidatePages s va n) (pgOffset va n)

theorem ptWalk_of_table (ht : s.follow (ptPrefix va .l1) = some t) :
    ptWalk s va .l1 = (.l1, pteSlot t (ptIndex va .l1)) := by
  have hlookup : s.lookup va = (0, pteSlot t (ptIndex va .l1)) := lookup_full ht rfl
  rw [ptWalk_full, hlookup]
  rfl

/-- What invalidating the first `n` pages of a region leaves. -/
structure Invalidated (s s' : PtState) (va n : Nat) : Prop where
  cr3 : s'.cr3 = s.cr3
  pool : s'.pool = s.pool
  keeps : PtKeeps s s'
  follow : ∀ path : List (Fin PT_NUM_ENTRIES), path.length ≤ 3 → s'.follow path = s.follow path
  words : ∀ k, k < n → s'.mem (ptWalk s (pgOffset va k) .l1).2 = PTE_INVALIDATED
  others : ∀ ppte, (∀ k, k < n → ppte ≠ (ptWalk s (pgOffset va k) .l1).2) → s'.mem ppte = s.mem ppte
  flushed : s'.flushed = ((List.range n).map (pgOffset va)).reverse ++ s.flushed
  cleared : Cleared s s' va 0 n

section Pages

variable (halign : s.cr3 % PGSIZE = 0) (htree : TreeOn pteSlot pteChild S s.mem s.cr3 3)

include halign htree

theorem virtualInvalidatePages_spec (hS : ∀ k, k < n → Within S (pgOffset va k))
    (htable : ∀ k, k < n → ∃ t, s.follow (ptPrefix (pgOffset va k) .l1) = some t) :
    Invalidated s (virtualInvalidatePages s va n) va n := by
  induction n with
  | zero =>
      exact ⟨rfl, rfl, PtKeeps.refl s, fun _ _ => rfl, fun k hk => absurd hk (by omega), fun _ _ => rfl,
        rfl, Cleared.refl s va 0⟩
  | succ n ih =>
      have hprev := ih (fun k hk => hS k (by omega)) fun k hk => htable k (by omega)
      obtain ⟨t, ht⟩ := htable n (by omega)
      -- the walk of this turn ends where the walk before the loop ends
      have ht' : (virtualInvalidatePages s va n).follow (ptPrefix (pgOffset va n) .l1) = some t :=
        (hprev.follow _ le_rfl).trans ht
      have hslot : (ptWalk s (pgOffset va n) .l1).2 = pteSlot t (ptIndex (pgOffset va n) .l1) := by
        rw [ptWalk_of_table ht]
      have halign' : (virtualInvalidatePages s va n).cr3 % PGSIZE = 0 := hprev.cr3 ▸ halign
      have htree' : TreeOn pteSlot pteChild S (virtualInvalidatePages s va n).mem
          (virtualInvalidatePages s va n).cr3 3 := by
        intro p q u hp hlp hlq hpu hqu
        exact htree p q u hp hlp hlq ((hprev.follow p hlp).symm.trans hpu)
          ((hprev.follow q hlq).symm.trans hqu)
      have hSn := hS n (by omega)
      unfold virtualInvalidatePages virtualInvalidatePage
      rw [ptWalk_of_table ht']
      refine ⟨hprev.cr3, hprev.pool, hprev.keeps.trans ?_, fun path hpath => ?_, fun k hk => ?_,
        fun ppte hppte => ?_, ?_, hprev.cleared.trans (Nat.zero_le n) (by omega) ?_⟩
      · have hkeeps : PtKeeps _ _ := PtKeeps.write (show PTE_INVALIDATED ≠ 0 by decide)
          (virtualInvalidatePages s va n) (pteSlot t (ptIndex (pgOffset va n) .l1))
        exact ⟨hkeeps.cr3, hkeeps.root⟩
      · exact (follow_write_l1 halign' htree' hSn ht' _ hpath).trans (hprev.follow path hpath)
      · show Function.update _ _ _ _ = _
        by_cases heq : (ptWalk s (pgOffset va k) .l1).2 = pteSlot t (ptIndex (pgOffset va n) .l1)
        · rw [heq, Function.update_self]
        · have hkn : k ≠ n := fun hkn => heq (by rw [hkn, hslot])
          rw [Function.update_of_ne heq]
          exact hprev.words k (by omega)
      · have hne : ppte ≠ pteSlot t (ptIndex (pgOffset va n) .l1) := by
          rw [← hslot]
          exact hppte n (by omega)
        show Function.update _ _ _ _ = _
        rw [Function.update_of_ne hne]
        exact hprev.others ppte fun k hk => hppte k (by omega)
      · show pgOffset va n :: (virtualInvalidatePages s va n).flushed = _
        rw [hprev.flushed, List.range_succ]
        simp
      · refine Cleared.single (fun a ha => ?_) fun a ha => ?_
        · exact tlbFlushOne_entry.trans ((entry_write_l1_self halign' htree' hSn ht' _ ha).trans (if_neg (by decide)))
        · exact tlbFlushOne_entry.trans (entry_write_l1_other halign' htree' hSn ht' _ ha)

end Pages

theorem pgOffset_pgOffset (p m n : Nat) : pgOffset (pgOffset p m) n = pgOffset p (m + n) := by
  simp only [pgOffset, u64, PGSIZE]
  omega

theorem virtualInvalidatePages_add (s : PtState) (va m n : Nat) :
    virtualInvalidatePages (virtualInvalidatePages s va m) (pgOffset va m) n =
      virtualInvalidatePages s va (m + n) := by
  induction n with
  | zero => rfl
  | succ n ih =>
      rw [virtualInvalidatePages, ih, pgOffset_pgOffset]
      rfl

/-- The pages of one table: `k` pages on, only the index of level 1 changes. -/
theorem ptPrefix_pgOffset {k : Nat} (hk : ptLevelOffset va .l1 + k < PT_NUM_ENTRIES) :
    ptPrefix (pgOffset va k) .l1 = ptPrefix va .l1 ∧
      ptLevelOffset (pgOffset va k) .l1 = ptLevelOffset va .l1 + k := by
  simp only [ptPrefix, ptIndex, List.cons.injEq, Fin.mk.injEq, ptLevelOffset_eq, ptLevelShift, PGSHIFT,
    PtLevel.toNat, PT_BITS_PER_LEVEL, and_true, PT_NUM_ENTRIES, pgOffset, u64, PGSIZE] at *
  omega

section Chunks

variable (halign : s.cr3 % PGSIZE = 0) (htree : TreeOn pteSlot pteChild S s.mem s.cr3 3)

include halign htree

/-- The inner loop of `virtual_invalidate` stays in one table, where its steps are walks. -/
theorem virtualInvalidatePtes_eq (hS : ∀ k, k < n → Within S (pgOffset va k))
    (ht : s.follow (ptPrefix va .l1) = some t) (hn : ptLevelOffset va .l1 + n ≤ PT_NUM_ENTRIES) :
    virtualInvalidatePtes s va (pteSlot t (ptIndex va .l1)) n = virtualInvalidatePages s va n := by
  have htable : ∀ k, k < n → s.follow (ptPrefix (pgOffset va k) .l1) = some t := by
    intro k hk
    rw [(ptPrefix_pgOffset (by omega)).1]
    exact ht
  induction n with
  | zero => rfl
  | succ n ih =>
      have hprev := virtualInvalidatePages_spec halign htree (n := n) (fun k hk => hS k (by omega))
        fun k hk => ⟨t, htable k (by omega)⟩
      have hwalk := ptWalk_of_table ((hprev.follow _ le_rfl).trans (htable n (by omega)))
      obtain ⟨-, hoffset⟩ := ptPrefix_pgOffset (k := n) (show ptLevelOffset va .l1 + n < _ by omega)
      have hslot : pteSlot t (ptIndex va .l1) + 8 * n = pteSlot t (ptIndex (pgOffset va n) .l1) := by
        simp only [pteSlot, ptIndex, hoffset]
        omega
      rw [virtualInvalidatePtes, hslot, virtualInvalidatePages, virtualInvalidatePage,
        ih (fun k hk => hS k (by omega)) (by omega) fun k hk => htable k (by omega), hwalk]

/-- From any page on, the loop of `virtual_invalidate` does the pages that are left. -/
theorem virtualInvalidateLoop_eq {npages pageOffset fuel : Nat}
    (hS : ∀ k, k < npages → Within S (pgOffset va k))
    (htable : ∀ k, k < npages → ∃ t, s.follow (ptPrefix (pgOffset va k) .l1) = some t)
    (hle : pageOffset ≤ npages) (hfuel : npages - pageOffset ≤ fuel) :
    virtualInvalidateLoop (virtualInvalidatePages s va pageOffset) va npages pageOffset fuel =
      virtualInvalidatePages s va npages := by
  induction fuel generalizing pageOffset with
  | zero =>
      obtain rfl : pageOffset = npages := by omega
      rfl
  | succ fuel ih =>
      rw [virtualInvalidateLoop]
      split_ifs with hlt
      · have hprev := virtualInvalidatePages_spec halign htree (n := pageOffset)
          (fun k hk => hS k (by omega)) fun k hk => htable k (by omega)
        obtain ⟨t, ht⟩ := htable pageOffset hlt
        have ht' := (hprev.follow _ le_rfl).trans ht
        have halign' : (virtualInvalidatePages s va pageOffset).cr3 % PGSIZE = 0 := hprev.cr3 ▸ halign
        have htree' : TreeOn pteSlot pteChild S (virtualInvalidatePages s va pageOffset).mem
            (virtualInvalidatePages s va pageOffset).cr3 3 := by
          intro p q u hp hlp hlq hpu hqu
          exact htree p q u hp hlp hlq ((hprev.follow p hlp).symm.trans hpu)
            ((hprev.follow q hlq).symm.trans hqu)
        have hbase := ptLevelOffset_lt (pgOffset va pageOffset) .l1
        dsimp only
        rw [ptWalk_of_table ht']
        dsimp only
        obtain ⟨nptes, hnptes⟩ : ∃ nptes, min
            (PT_NUM_ENTRIES - ptLevelOffset (pgOffset va pageOffset) .l1) (npages - pageOffset) = nptes :=
          ⟨_, rfl⟩
        rw [hnptes, virtualInvalidatePtes_eq halign' htree'
          (fun k hk => by rw [pgOffset_pgOffset]; exact hS _ (by omega)) ht' (by omega),
          virtualInvalidatePages_add]
        exact ih (by omega) (by omega)
      · obtain rfl : pageOffset = npages := by omega
        rfl

end Chunks

/-- `virtual_invalidate` of pages with page tables. -/
theorem virtualInvalidate_spec {p npages : Nat} (hinv : PtInv S s) (hva : roundDown p PGSIZE = va)
    (hS : ∀ k, k < npages → Within S (pgOffset va k))
    (hmapped : ∀ k, k < npages → ∃ w, s.entry (pgOffset va k) = some (.l1, w))
    (hs' : s' = virtualInvalidate s p npages) :
    PtInv S s' ∧ PtKeeps s s' ∧ Cleared s s' va 0 npages := by
  have htable : ∀ k, k < npages → ∃ t, s.follow (ptPrefix (pgOffset va k) .l1) = some t := by
    intro k hk
    obtain ⟨w, hw⟩ := hmapped k hk
    obtain ⟨-, t, ht, -⟩ := entry_l1_table hw
    exact ⟨t, ht⟩
  have hloop : s' = virtualInvalidatePages s va npages := by
    rw [hs', virtualInvalidate, hva]
    exact virtualInvalidateLoop_eq hinv.aligned hinv.tree hS htable (Nat.zero_le _) (by omega)
  have hpages := virtualInvalidatePages_spec hinv.aligned hinv.tree hS htable
  rw [hloop]
  exact ⟨hinv.of_follow hpages.cr3 hpages.pool hpages.follow, hpages.keeps, hpages.cleared⟩

/-- **Chunked invalidation is page-by-page invalidation**: the loop ends after at most `npages` turns,
exactly the entries of the pages become `PTE_INVALIDATED`, each page is flushed, and no other word and
no other translation changes. -/
theorem virtualInvalidate_eq_pages {p npages : Nat} (halign : s.cr3 % PGSIZE = 0)
    (htree : TreeOn pteSlot pteChild (fun _ => True) s.mem s.cr3 3)
    (hmapped : ∀ k, k < npages → ∃ w, s.entry (pgOffset (roundDown p PGSIZE) k) = some (.l1, w)) :
    virtualInvalidate s p npages = virtualInvalidatePages s (roundDown p PGSIZE) npages ∧
    (∀ fuel, npages ≤ fuel → virtualInvalidateLoop s (roundDown p PGSIZE) npages 0 fuel =
      virtualInvalidate s p npages) ∧
    (∀ k, k < npages → (virtualInvalidate s p npages).mem
      (ptWalk s (pgOffset (roundDown p PGSIZE) k) .l1).2 = PTE_INVALIDATED) ∧
    (∀ ppte, (∀ k, k < npages → ppte ≠ (ptWalk s (pgOffset (roundDown p PGSIZE) k) .l1).2) →
      (virtualInvalidate s p npages).mem ppte = s.mem ppte) ∧
    (virtualInvalidate s p npages).flushed =
      ((List.range npages).map (pgOffset (roundDown p PGSIZE))).reverse ++ s.flushed ∧
    (∀ k, k < npages → ∀ a, ptPath a = ptPath (pgOffset (roundDown p PGSIZE) k) →
      ptResolve (virtualInvalidate s p npages) a = 0) ∧
    ∀ a, (∀ k, k < npages → ptPath a ≠ ptPath (pgOffset (roundDown p PGSIZE) k)) →
      ptResolve (virtualInvalidate s p npages) a = ptResolve s a := by
  generalize hva : roundDown p PGSIZE = va at *
  have hS : ∀ k, k < npages → Within (fun _ => True) (pgOffset va k) := fun _ _ _ => trivial
  have htable : ∀ k, k < npages → ∃ t, s.follow (ptPrefix (pgOffset va k) .l1) = some t := by
    intro k hk
    obtain ⟨w, hw⟩ := hmapped k hk
    obtain ⟨-, t, ht, -⟩ := entry_l1_table hw
    exact ⟨t, ht⟩
  have hfuel : ∀ fuel, npages ≤ fuel → virtualInvalidateLoop s va npages 0 fuel =
      virtualInvalidatePages s va npages := fun fuel hfuel =>
    virtualInvalidateLoop_eq halign htree hS htable (Nat.zero_le _) (by omega)
  have hloop : virtualInvalidate s p npages = virtualInvalidatePages s va npages := by
    rw [virtualInvalidate, hva]
    exact hfuel npages le_rfl
  have hpages := virtualInvalidatePages_spec halign htree hS htable
  rw [hloop]
  refine ⟨rfl, hfuel, hpages.words, hpages.others, hpages.flushed, fun k hk a ha => ?_, fun a ha => ?_⟩
  · exact ptResolve_of_entry_none (hpages.cleared.cleared k (Nat.zero_le k) hk a ha)
  · exact ptResolve_congr (hpages.cleared.frame a fun k _ hk => ha k hk)

/-- Two pages that were mapped under an empty root, the last of one table and the first of the next. -/
theorem virtualInvalidate_eq_pages_two_tables :
    ptResolve (virtualInvalidate (ptMapRegion emptyTables 0x5000 0x401FF000 8192 PTE_W).2 0x401FF123 2)
      0x40200007 = 0 := by
  have hempty : PtInv (fun _ => True) emptyTables := emptyTables_inv
  have hflags : FlagsOk PTE_W := ⟨by decide, by decide⟩
  obtain ⟨hinv, -, -, hmap⟩ := ptMapRegion_spec hempty hflags (fun _ _ _ => trivial)
    (rfl : ptMapRegion emptyTables 0x5000 0x401FF000 (2 * PGSIZE) PTE_W = _)
  have hmapped := (hmap (pagesDistinct_of_le (by decide) (by decide))
    fun _ _ => emptyTables_entry _).2 (by decide +kernel)
  have hresolve := (virtualInvalidate_eq_pages (p := 0x401FF123) hinv.aligned hinv.tree
    fun k hk => ⟨_, hmapped.mapped k hk _ rfl⟩).2.2.2.2.2.1 1 (by decide)
  exact hresolve 0x40200007 (by decide)

end Dangless
