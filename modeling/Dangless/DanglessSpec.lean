import Dangless.DanglessMalloc
import Dangless.RemapInv

/-! What the remapper and the parts of `dangless_malloc.c` do to the invariant of the state. -/

namespace Dangless

variable {σ : Type} {A : SysAllocator σ} {L : DuneLayout}

section Resolve

variable {Z : Fin PT_NUM_ENTRIES → Prop} {maps : List Mapping} {items : List VpSpan} {pt : PtState}
  {m : Mapping} {p a k : Nat}

/-- The pages of a region resolve to the pages of the block. -/
theorem Mapping.Ok.resolve (hm : m.Ok L Z pt) (hframe : PGSIZE ≤ m.frame L) (hk : k < m.npages)
    (ha : ptPath a = ptPath (pgOffset m.base k)) :
    ptResolve pt a = m.frame L + k * PGSIZE + a % PGSIZE := by
  have hlt := hm.frame_lt
  have halign : m.frame L % PGSIZE = 0 := roundDown_aligned _
  have hpage : pgOffset (m.frame L) k = m.frame L + k * PGSIZE := by
    refine pgOffset_eq ?_
    simp only [PGSIZE] at *
    omega
  have hentry := hm.mapped k hk a ha
  rw [hpage] at hentry
  refine ptResolve_of_entry_l1 vremapFlags_ok ?_ ?_ ?_ hentry <;>
    simp only [PGSIZE] at * <;> omega

theorem Mapping.ptr_eq (m : Mapping) : m.ptr = m.base + m.ptr % PGSIZE := by
  rw [Mapping.base, roundDown_eq]
  simp only [PGSIZE]
  omega

theorem Mapping.Ok.ptr_mem (hm : m.Ok L Z pt) (hn : 1 ≤ m.npages) :
    m.ptr ∈ m.pages ∧ ptPath m.ptr = ptPath (pgOffset m.base 0) := by
  have hbound := hm.bound
  have hptr := m.ptr_eq
  have hbase := m.base_aligned
  have hoffset : m.ptr % PGSIZE < PGSIZE := Nat.mod_lt _ (by decide)
  have hpage : m.base + (0 + 1) * PGSIZE ≤ 2 ^ 48 :=
    (Nat.add_le_add_left (Nat.mul_le_mul_right _ hn) _).trans hbound
  have hmem : m.ptr ∈ m.pages := by
    rw [Mapping.pages, mem_region]
    simp only [PGSIZE] at *
    omega
  refine ⟨hmem, (path_eq_page_iff hbase hpage (hm.inVmem hmem).1).mpr ?_⟩
  simp only [PGSIZE] at *
  omega

theorem vmem_ge (hZ : SlotsOk L Z) (ha : a ∈ vmem Z) : 2 ^ 39 ≤ a := by
  by_contra hlt
  have hindex : ptIndex a .l4 = ptIndex 0 .l4 := by
    simp only [ptIndex, Fin.mk.injEq, ptLevelOffset_eq, ptLevelShift, PGSHIFT, PtLevel.toNat,
      PT_BITS_PER_LEVEL]
    omega
  exact hZ.zero (hindex ▸ ha.2)

/-- `vremap_resolve` of a remapped pointer gives its block. -/
theorem Mapping.Ok.vremapResolve_eq (hZ : SlotsOk L Z) (hm : m.Ok L Z pt) (hframe : PGSIZE ≤ m.frame L)
    (hn : 1 ≤ m.npages) : vremapResolve L pt m.ptr = (VREM_OK, some m.block) := by
  obtain ⟨hmem, hpath⟩ := hm.ptr_mem hn
  have hvmem := hm.inVmem hmem
  have hoffset := hm.offset
  have hresolve : ptResolve pt m.ptr = L.duneVaToPa m.block := by
    rw [hm.resolve hframe hn hpath, Mapping.frame, roundDown_eq, hoffset]
    have halign : L.duneVaToPa m.block % PGSIZE = m.block % PGSIZE := by
      have hbase := L.mmapBase_aligned
      rcases hm.home.pa with ⟨-, -, hpa⟩ | ⟨hlo, -, hpa⟩ <;> rw [hpa]
      simp only [PGSIZE, PHYS_LIMIT, GPA_STACK_SIZE, GPA_MAP_SIZE] at *
      omega
    simp only [PGSIZE] at *
    omega
  have hlt : m.ptr < 2 ^ 64 := hvmem.1.trans (by decide)
  exact vremapResolve_of_resolve hm.home (fun hhome => home_notMem_vmem hZ hhome hvmem) hlt
    (vmem_ge hZ hvmem) hresolve

/-- `vremap_resolve` of an address that Dune maps in advance. -/
theorem RemapInv.vremapResolve_home (h : RemapInv L Z maps items pt) (hp : L.Home p) :
    vremapResolve L pt p = (VREM_NOT_REMAPPED, some p) := vremapResolve_of_home hp (h.home p hp)

end Resolve

/-- The invariant of the state: the accounting of live blocks, and the remapped regions. -/
structure WorldInv (C : SysContract A L) (Z : Fin PT_NUM_ENTRIES → Prop) (others : Set Nat)
    (maps : List Mapping) (blocks : List (Nat × Nat)) (w : World σ) : Prop where
  sys : SysInv C others blocks w
  remap : RemapInv L Z maps w.items w.pt

/-- Before virtual memory is dedicated there is none. -/
def Undedicated (maps : List Mapping) (w : World σ) : Prop :=
  w.autoDedicated = false → w.items = [] ∧ maps = []

section World

variable {C : SysContract A L} {Z : Fin PT_NUM_ENTRIES → Prop} {others : Set Nat} {maps : List Mapping}
  {blocks : List (Nat × Nat)} {w w' : World σ} {b u : Nat} {m : Mapping}

/-- What `vp_free` of pages that are not owned does to the list. -/
theorem vpFree_wf {p npages : Nat} (hwf : FreelistWf w.items) (hf : Freeable (owned w.items) p npages) :
    FreelistWf (vpFree A p npages w).2.items ∧
      owned (vpFree A p npages w).2.items ⊆ owned w.items ∪ region p npages := by
  obtain ⟨node, -, hitems⟩ := vpFree_items A w p npages
  rw [hitems]
  rcases @freelistFree_spec w.items p npages node hwf hf with ⟨-, hwf', howned⟩ | ⟨heq, -, -⟩
  · exact ⟨hwf', howned.subset⟩
  · rw [heq]
    exact ⟨hwf, Set.subset_union_left⟩

/-- `vp_free` of pages that belong to nobody. -/
theorem vpFree_inv {p npages : Nat} (h : WorldInv C Z others maps blocks w)
    (hf : Freeable (owned w.items) p npages) (hin : region p npages ⊆ vmem Z)
    (hapart : ∀ m ∈ maps, Disjoint m.pages (region p npages)) :
    WorldInv C Z others maps blocks (vpFree A p npages w).2 ∧
      owned (vpFree A p npages w).2.items ⊆ owned w.items ∪ region p npages := by
  obtain ⟨node, -, hitems⟩ := vpFree_items A w p npages
  have hsys := vpFree_sysInv p npages h.sys
  rcases @freelistFree_spec w.items p npages node h.remap.wf hf with ⟨-, hwf, howned⟩ | ⟨heq, -, -⟩
  · refine ⟨⟨hsys, ?_⟩, ?_⟩
    · rw [hitems, vpFree_pt]
      exact h.remap.give hwf howned hin hapart
    · rw [hitems, howned]
  · rw [heq] at hitems
    refine ⟨⟨hsys, ?_⟩, ?_⟩
    · rw [hitems, vpFree_pt]
      exact h.remap
    · rw [hitems]
      exact Set.subset_union_left

/-- What a call of `vremap_map` leaves: no run of pages, no memory for page tables, or a new region. -/
inductive RemapResult (C : SysContract A L) (Z : Fin PT_NUM_ENTRIES → Prop) (others : Set Nat)
    (maps : List Mapping) (blocks : List (Nat × Nat)) (w : World σ) (b u : Nat) (r : VremapMap σ) :
    Prop where
  | noVm (hresult : r.result = EVREM_NO_VM) (hitems : r.world.items = w.items)
      (hinv : WorldInv C Z others maps blocks r.world) : RemapResult C Z others maps blocks w b u r
  | virtMap (hresult : r.result = EVREM_VIRT_MAP) (hinv : WorldInv C Z others maps blocks r.world) :
      RemapResult C Z others maps blocks w b u r
  | ok (hresult : r.result = VREM_OK)
      (hpages : (Mapping.mk r.remappedPtr b (numSpannedPages b u)).pages ⊆ owned w.items)
      (hinv : WorldInv C Z others (⟨r.remappedPtr, b, numSpannedPages b u⟩ :: maps) blocks r.world) :
      RemapResult C Z others maps blocks w b u r

/-- A region of the memory that may be dedicated ends within the width of addresses. -/
theorem region_bound {va n : Nat} (hn : 1 ≤ n) (hin : region va n ⊆ vmem Z) :
    va + n * PGSIZE ≤ 2 ^ 48 := by
  have hlast : va + n * PGSIZE - 1 ∈ region va n := by
    rw [mem_region]
    simp only [PGSIZE]
    omega
  have hlt := (hin hlast).1
  omega

/-- `vremap_map` on a region that was just taken from the freelist. -/
theorem vremapMapAt_inv {va : Nat} (hZ : SlotsOk L Z) (h : WorldInv C Z others maps blocks w)
    (hb : (b, u) ∈ blocks) (hn : 1 ≤ numSpannedPages b u) (halign : va % PGSIZE = 0)
    (hin : region va (numSpannedPages b u) ⊆ vmem Z)
    (howned : Disjoint (region va (numSpannedPages b u)) (owned w.items))
    (hapart : ∀ m ∈ maps, Disjoint m.pages (region va (numSpannedPages b u)))
    {r : VremapMap σ} (hr : vremapMapAt A L b (numSpannedPages b u) va w = r) :
    r.world.modes = w.modes ∧ r.world.autoDedicated = w.autoDedicated ∧
      owned r.world.items ⊆ owned w.items ∪ region va (numSpannedPages b u) ∧
      ((r.result = EVREM_VIRT_MAP ∧ WorldInv C Z others maps blocks r.world) ∨
        (r.result = VREM_OK ∧
          (Mapping.mk r.remappedPtr b (numSpannedPages b u)).pages = region va (numSpannedPages b u) ∧
          owned r.world.items = owned w.items ∧
          WorldInv C Z others (⟨r.remappedPtr, b, numSpannedPages b u⟩ :: maps) blocks r.world)) := by
  have hblock : L.HomeBlock b u := h.sys.homeBlock hb
  have hframeEnd := hblock.frames.2.2
  generalize numSpannedPages b u = npages at *
  have hbound := region_bound hn hin
  have hwithin : ∀ k, k < npages → Within (slotPaths Z) (pgOffset va k) := fun k hk =>
    within_of_mem_vmem (hin (page_mem_region hbound hk))
  have hunmapped : ∀ k, k < npages → w.pt.entry (pgOffset va k) = none := by
    intro k hk
    have hpage := page_mem_region hbound hk
    exact h.remap.unmapped _ (hin hpage) fun m hm hmem =>
      Set.disjoint_left.mp (hapart m hm) hmem hpage
  obtain ⟨pt, hpt, hkeeps, ⟨heq, hsame⟩ | ⟨heq, hmapped⟩⟩ := vremapMapAt_cases (A := A) (L := L) b
    h.remap.tables halign (by simp only [PGSIZE] at hbound; omega) hwithin hunmapped
  · -- the pages go back to the freelist
    rw [heq] at hr
    obtain rfl := hr
    have hfree : Freeable (owned w.items) va npages := ⟨halign, hn, by omega, howned⟩
    have hbefore : SysInv C others blocks { w with pt := pt } :=
      h.sys.congr (List.Perm.refl _) rfl rfl h.sys.own
    obtain ⟨hafter, hownedAfter⟩ :=
      vpFree_inv ⟨hbefore, h.remap.retable hpt hkeeps hsame⟩ hfree hin hapart
    exact ⟨vpFree_modes A _ _ _, vpFree_autoDedicated A _ _ _, hownedAfter, Or.inl ⟨rfl, hafter⟩⟩
  · rw [heq] at hr
    obtain rfl := hr
    have hbase : roundDown (va + b % PGSIZE) PGSIZE = va ∧ (va + b % PGSIZE) % PGSIZE = b % PGSIZE := by
      rw [roundDown_eq]
      simp only [PGSIZE] at *
      omega
    have hmbase : (Mapping.mk (va + b % PGSIZE) b npages).base = va := hbase.1
    have hmpages : (Mapping.mk (va + b % PGSIZE) b npages).pages = region va npages := by
      rw [Mapping.pages, hmbase]
    have hmap : RemapInv L Z (Mapping.mk (va + b % PGSIZE) b npages :: maps) w.items pt := by
      apply h.remap.map hZ hpt hkeeps
      · rw [hmbase]
        exact hmapped
      · exact hbase.2
      · rw [hmpages]
        exact hin
      · rw [hmbase]
        exact hbound
      · exact hblock.home
      · exact hframeEnd
      · rw [hmpages]
        exact hapart
      · rw [hmpages]
        exact howned
    have hbefore : SysInv C others blocks { w with pt := pt } :=
      h.sys.congr (List.Perm.refl _) rfl rfl h.sys.own
    exact ⟨rfl, rfl, Set.subset_union_left, Or.inr ⟨rfl, hmpages, rfl, hbefore, hmap⟩⟩

theorem vremapMap_inv (hZ : SlotsOk L Z) (h : WorldInv C Z others maps blocks w) (hb : (b, u) ∈ blocks)
    (hu : 0 < u) {r : VremapMap σ} (hr : vremapMap A L b u w = r) :
    r.world.modes = w.modes ∧ r.world.autoDedicated = w.autoDedicated ∧
      owned r.world.items ⊆ owned w.items ∧ RemapResult C Z others maps blocks w b u r := by
  have hblock : L.HomeBlock b u := h.sys.homeBlock hb
  have hn : 1 ≤ numSpannedPages b u := numSpannedPages_pos hblock hu
  have hsys := vpAlloc_sysInv (numSpannedPages b u) h.sys
  unfold vremapMap at hr
  dsimp only at hr
  rw [vpAlloc_va] at hr
  rcases freelistAlloc_spec h.remap.wf hn with ⟨heq, -⟩ | ⟨hleast, hwf, howned⟩
  · -- no span is large enough
    have hitems : (vpAlloc A (numSpannedPages b u) w).2.items = w.items := by rw [vpAlloc_items, heq]
    rw [if_pos (by rw [heq])] at hr
    obtain rfl := hr
    refine ⟨vpAlloc_modes A w _, vpAlloc_autoDedicated A w _, hitems ▸ subset_rfl,
      .noVm rfl hitems ⟨hsys, ?_⟩⟩
    rw [hitems, vpAlloc_pt]
    exact h.remap
  · generalize hva : (freelistAlloc (numSpannedPages b u) w.items).va = va at *
    obtain ⟨⟨halign, hrun⟩, -⟩ := hleast
    have hva0 : va ≠ 0 := by
      rintro rfl
      refine zero_notMem_vmem hZ (h.remap.ownedIn (hrun ?_))
      rw [mem_region]
      simp only [PGSIZE]
      omega
    rw [if_neg hva0] at hr
    have hsub : owned (freelistAlloc (numSpannedPages b u) w.items).items ⊆ owned w.items := by
      rw [howned]
      exact Set.sdiff_subset
    have htake : WorldInv C Z others maps blocks (vpAlloc A (numSpannedPages b u) w).2 := by
      refine ⟨hsys, ?_⟩
      rw [vpAlloc_items, vpAlloc_pt]
      exact h.remap.take hwf hsub
    have hitems := vpAlloc_items A w (numSpannedPages b u)
    obtain ⟨hmodes, hauto, hownedAfter, hresult⟩ := vremapMapAt_inv hZ htake hb hn halign
      (hrun.trans h.remap.ownedIn)
      (by rw [hitems, howned]; exact Set.disjoint_sdiff_right)
      (fun m hm => (h.remap.mapsOwned m hm).mono_right hrun) hr
    rw [hitems] at hownedAfter hresult
    refine ⟨hmodes.trans (vpAlloc_modes A w _), hauto.trans (vpAlloc_autoDedicated A w _),
      hownedAfter.trans (Set.union_subset hsub hrun), ?_⟩
    rcases hresult with ⟨hresult, hinv⟩ | ⟨hresult, hpages, -, hinv⟩
    · exact .virtMap hresult hinv
    · exact .ok hresult (hpages ▸ hrun) hinv

/-- The addresses under a top-level entry. -/
theorem mem_slotRegion {i a : Nat} (hi : i < PT_NUM_ENTRIES) (ha : a ∈ region (i * 2 ^ 39) (2 ^ 27)) :
    a < 2 ^ 48 ∧ ptIndex a .l4 = ⟨i, hi⟩ := by
  have hlt : i < 512 := hi
  rw [mem_region] at ha
  simp only [PGSIZE] at ha
  refine ⟨by omega, ?_⟩
  simp only [ptIndex, Fin.mk.injEq, ptLevelOffset_eq, ptLevelShift, PGSHIFT, PtLevel.toNat,
    PT_BITS_PER_LEVEL]
  omega

theorem vpFreeRegion_slot (i : Nat) (w : World σ) :
    vpFreeRegion A (i * 2 ^ ptLevelShift .l4) ((i + 1) * 2 ^ ptLevelShift .l4) w =
      vpFree A (i * 2 ^ 39) (2 ^ 27) w := by
  have hpages : u64 ((i + 1) * 2 ^ ptLevelShift .l4 + 2 ^ 64 - i * 2 ^ ptLevelShift .l4) / PGSIZE =
      2 ^ 27 := by
    simp only [u64, PGSIZE, ptLevelShift, PGSHIFT, PtLevel.toNat, PT_BITS_PER_LEVEL]
    omega
  unfold vpFreeRegion
  rw [hpages]
  rfl

/-- The freelist owns no page under a top-level entry that is 0. -/
def ClearOfZero (w : World σ) : Prop :=
  ∀ a ∈ owned w.items, w.pt.mem (pteSlot w.pt.cr3 (ptIndex a .l4)) ≠ 0

/-- The rule for the loop: an invariant that `vp_free` keeps where it is given pages that are not owned, under a
top-level entry that is 0. -/
theorem autoDedicateLoop_keeps {I : World σ → Prop} (hwf : ∀ w', I w' → FreelistWf w'.items)
    (hfree : ∀ w' p npages, I w' → Freeable (owned w'.items) p npages →
      (∀ a ∈ region p npages, a < 2 ^ 48 ∧ w.pt.mem (pteSlot w.pt.cr3 (ptIndex a .l4)) = 0) →
      I (vpFree A p npages w').2)
    (h : I w) (hclear : ClearOfZero w) {n : Nat} (hn : n ≤ PT_NUM_ENTRIES) :
    I (autoDedicateLoop A w n) ∧ (autoDedicateLoop A w n).pt = w.pt ∧
      (autoDedicateLoop A w n).modes = w.modes ∧
      ∀ a ∈ owned (autoDedicateLoop A w n).items, a ∈ owned w.items ∨ a < n * 2 ^ 39 := by
  induction n with
  | zero => exact ⟨h, rfl, rfl, fun a ha => Or.inl ha⟩
  | succ n ih =>
      obtain ⟨hinv, hpt, hmodes, howned⟩ := ih (by omega)
      have hlater : ∀ a ∈ owned (autoDedicateLoop A w n).items, a ∈ owned w.items ∨ a < (n + 1) * 2 ^ 39 := by
        intro a ha
        rcases howned a ha with hold | hlt
        · exact Or.inl hold
        · exact Or.inr (hlt.trans_le (Nat.mul_le_mul_right _ (Nat.le_succ n)))
      unfold autoDedicateLoop
      dsimp only
      split_ifs with hused
      · exact ⟨hinv, hpt, hmodes, hlater⟩
      · rw [not_not, hpt] at hused
        unfold danglessDedicateVmem
        rw [vpFreeRegion_slot]
        have hzero : ∀ a ∈ region (n * 2 ^ 39) (2 ^ 27),
            a < 2 ^ 48 ∧ w.pt.mem (pteSlot w.pt.cr3 (ptIndex a .l4)) = 0 := by
          intro a ha
          obtain ⟨hlt, hindex⟩ := mem_slotRegion (by omega) ha
          exact ⟨hlt, hindex ▸ hused⟩
        have hfreeable : Freeable (owned (autoDedicateLoop A w n).items) (n * 2 ^ 39) (2 ^ 27) := by
          refine ⟨?_, by decide, ?_, ?_⟩
          · simp only [PGSIZE]
            omega
          · simp only [PGSIZE, PT_NUM_ENTRIES] at hn ⊢
            omega
          · apply Set.disjoint_left.mpr
            intro a ha hmem
            rcases howned a hmem with hold | hlt
            · exact hclear a hold (hzero a ha).2
            · have hge := (mem_region.mp ha).1
              omega
        have howned' := (vpFree_wf (A := A) (hwf _ hinv) hfreeable).2
        refine ⟨hfree _ _ _ hinv hfreeable hzero, (vpFree_pt A _ _ _).trans hpt,
          (vpFree_modes A _ _ _).trans hmodes, fun a ha => ?_⟩
        rcases howned' ha with hold | hnew
        · exact hlater a hold
        · have hlt := (mem_region.mp hnew).2
          have hend : n * 2 ^ 39 + 2 ^ 27 * PGSIZE = (n + 1) * 2 ^ 39 := by
            rw [Nat.succ_mul]
            rfl
          exact Or.inr (hend ▸ hlt)

theorem autoDedicateLoop_inv (h : WorldInv C Z others maps blocks w) (hclear : ClearOfZero w) {n : Nat}
    (hn : n ≤ PT_NUM_ENTRIES) :
    WorldInv C Z others maps blocks (autoDedicateLoop A w n) ∧
      (autoDedicateLoop A w n).modes = w.modes := by
  have hloop := autoDedicateLoop_keeps (A := A) (I := WorldInv C Z others maps blocks)
    (fun w' hw' => hw'.remap.wf) ?_ h hclear hn
  · exact ⟨hloop.1, hloop.2.2.1⟩
  intro w' p npages hw' hf hzero
  have hin : region p npages ⊆ vmem Z := by
    intro a ha
    obtain ⟨hlt, hroot⟩ := hzero a ha
    exact ⟨hlt, h.remap.root _ hroot⟩
  -- a page of a region has a top-level entry in use
  have hapart : ∀ m ∈ maps, Disjoint m.pages (region p npages) := by
    intro m hm
    apply Set.disjoint_left.mpr
    intro a ham ha
    have hok := h.remap.mapsOk m hm
    obtain ⟨k, hk, hpath⟩ := (mem_region_iff_path m.base_aligned hok.bound (hzero a ha).1).mp ham
    exact root_ne_zero_of_entry (by rw [hok.mapped k hk a hpath]; simp) (hzero a ha).2
  exact (vpFree_inv hw' hf hin hapart).1

theorem autoDedicateVmem_inv (h : WorldInv C Z others maps blocks w) (hclear : ClearOfZero w) :
    WorldInv C Z others maps blocks (autoDedicateVmem A w) ∧ (autoDedicateVmem A w).modes = w.modes ∧
      (autoDedicateVmem A w).autoDedicated = true := by
  obtain ⟨hinv, hmodes⟩ := autoDedicateLoop_inv h hclear (le_refl PT_NUM_ENTRIES)
  unfold autoDedicateVmem
  generalize autoDedicateLoop A w PT_NUM_ENTRIES = v at hinv hmodes ⊢
  exact ⟨⟨hinv.sys.congr (List.Perm.refl _) rfl rfl hinv.sys.own, hinv.remap⟩, hmodes, rfl⟩

/-! ### The virtual memory in use -/

/-- The invariant, with virtual memory dedicated only by `auto_dedicate_vmem`. -/
structure Sound (C : SysContract A L) (Z : Fin PT_NUM_ENTRIES → Prop) (others : Set Nat)
    (maps : List Mapping) (blocks : List (Nat × Nat)) (w : World σ) : Prop
    extends WorldInv C Z others maps blocks w where
  undedicated : Undedicated maps w

/-- A call that leaves virtual memory alone. -/
theorem Sound.resys {others' : Set Nat} {blocks' : List (Nat × Nat)} (h : Sound C Z others maps blocks w)
    (hsys : SysInv C others' blocks' w') (hitems : w'.items = w.items) (hpt : w'.pt = w.pt)
    (hauto : w'.autoDedicated = w.autoDedicated) : Sound C Z others' maps blocks' w' := by
  have hremap : RemapInv L Z maps w'.items w'.pt := by
    rw [hitems, hpt]
    exact h.remap
  have hund : Undedicated maps w' := by
    unfold Undedicated
    rw [hauto, hitems]
    exact h.undedicated
  exact ⟨⟨hsys, hremap⟩, hund⟩

/-- The pages that may still be handed out, and those of the remapped regions. -/
def Used (maps : List Mapping) (w : World σ) : Set Nat := owned w.items ∪ {a | ∃ m ∈ maps, a ∈ m.pages}

/-- What every call does to virtual memory: once it is dedicated, no page comes back into use. -/
structure Spends (maps : List Mapping) (w : World σ) (maps' : List Mapping) (w' : World σ) : Prop where
  modes : w'.modes = w.modes
  dedicated : w.autoDedicated = true → w'.autoDedicated = true
  used : w.autoDedicated = true → Used maps' w' ⊆ Used maps w

theorem Spends.refl (maps : List Mapping) (w : World σ) : Spends maps w maps w :=
  ⟨rfl, fun h => h, fun _ => subset_rfl⟩

theorem Spends.trans {maps' maps'' : List Mapping} {w'' : World σ} (h : Spends maps w maps' w')
    (h' : Spends maps' w' maps'' w'') : Spends maps w maps'' w'' :=
  ⟨h'.modes.trans h.modes, fun hw => h'.dedicated (h.dedicated hw), fun hw =>
    (h'.used (h.dedicated hw)).trans (h.used hw)⟩

/-- A call that leaves the freelist as it is. -/
theorem Spends.of_items {maps' : List Mapping} (hmodes : w'.modes = w.modes)
    (hauto : w'.autoDedicated = w.autoDedicated) (hitems : w'.items = w.items)
    (hmaps : ∀ m' ∈ maps', ∃ m ∈ maps, m'.pages ⊆ m.pages) : Spends maps w maps' w' := by
  refine ⟨hmodes, fun h => hauto.trans h, fun _ => ?_⟩
  apply Set.union_subset_union
  · rw [hitems]
  · rintro a ⟨m', hm', ha⟩
    obtain ⟨m, hm, hsub⟩ := hmaps m' hm'
    exact ⟨m, hm, hsub ha⟩

theorem Spends.same (maps : List Mapping) (hmodes : w'.modes = w.modes)
    (hauto : w'.autoDedicated = w.autoDedicated) (hitems : w'.items = w.items) :
    Spends maps w maps w' :=
  Spends.of_items hmodes hauto hitems fun m hm => ⟨m, hm, subset_rfl⟩

theorem Spends.retable (maps : List Mapping) (w : World σ) (pt : PtState) :
    Spends maps w maps { w with pt := pt } := Spends.same maps rfl rfl rfl

/-- What `do_vremap` leaves of a block: nothing happens for size 0; else its answer is the block itself, or
a pointer into a new region. -/
inductive Remapped (C : SysContract A L) (Z : Fin PT_NUM_ENTRIES → Prop) (others : Set Nat)
    (maps : List Mapping) (blocks : List (Nat × Nat)) (w : World σ) (b u size : Nat)
    (r : Nat × World σ) : Prop where
  | zero (hsize : size = 0) (hr : r = (0, w)) : Remapped C Z others maps blocks w b u size r
  | fallback (hsize : size ≠ 0) (hr : r.1 = b) (hsound : Sound C Z others maps blocks r.2)
      (hspends : Spends maps w maps r.2) : Remapped C Z others maps blocks w b u size r
  | region (hsize : size ≠ 0)
      (hsound : Sound C Z others (⟨r.1, b, numSpannedPages b u⟩ :: maps) blocks r.2)
      (hspends : Spends maps w (⟨r.1, b, numSpannedPages b u⟩ :: maps) r.2) :
      Remapped C Z others maps blocks w b u size r

theorem owned_eq_empty {items : List VpSpan} (hwf : FreelistWf items) (h : owned items ⊆ ∅) :
    items = [] := by
  cases items with
  | nil => rfl
  | cons span items =>
      have hpos := hwf.nonempty List.mem_cons_self
      rw [owned_cons] at h
      exact absurd (h (Or.inl (Set.left_mem_Ico.mpr hpos))) (Set.notMem_empty _)

/-- A call of `vremap_map`, as part of `do_vremap`. -/
theorem vremapMap_remapped {r : VremapMap σ} {size : Nat} (hZ : SlotsOk L Z)
    (h : Sound C Z others maps blocks w) (hb : (b, u) ∈ blocks) (hsize : size ≠ 0) (hu : 0 < u)
    (hr : vremapMap A L b u w = r) :
    Remapped C Z others maps blocks w b u size
      (if r.result < 0 then (b, r.world) else (r.remappedPtr, r.world)) := by
  obtain ⟨hmodes, hauto, howned, hresult⟩ := vremapMap_inv hZ h.toWorldInv hb hu hr
  have hspends : Spends maps w maps r.world :=
    ⟨hmodes, fun hw => hauto.trans hw, fun _ => Set.union_subset_union_left _ howned⟩
  -- without dedicated memory the list stays empty
  have hnothing : WorldInv C Z others maps blocks r.world → Undedicated maps r.world := by
    intro hinv hnot
    obtain ⟨hitems, hmaps⟩ := h.undedicated (hauto.symm.trans hnot)
    rw [hitems, owned_nil] at howned
    exact ⟨owned_eq_empty hinv.remap.wf howned, hmaps⟩
  cases hresult with
  | noVm heq _ hinv =>
      rw [heq, if_pos (by decide)]
      exact .fallback hsize rfl ⟨hinv, hnothing hinv⟩ hspends
  | virtMap heq hinv =>
      rw [heq, if_pos (by decide)]
      exact .fallback hsize rfl ⟨hinv, hnothing hinv⟩ hspends
  | ok heq hpages hinv =>
      rw [heq, if_neg (by decide)]
      have hn : 1 ≤ numSpannedPages b u := numSpannedPages_pos (h.sys.homeBlock hb) hu
      have hded : w.autoDedicated = true := by
        cases hw : w.autoDedicated with
        | true => rfl
        | false =>
            rw [(h.undedicated hw).1, owned_nil] at hpages
            have hmem := (hinv.remap.mapsOk _ List.mem_cons_self).ptr_mem hn
            exact absurd (hpages hmem.1) (Set.notMem_empty _)
      refine .region hsize ⟨hinv, fun hnot => ?_⟩ ⟨hmodes, fun hw => hauto.trans hw, fun _ => ?_⟩
      · exact absurd (hnot.symm.trans (hauto.trans hded)) (by decide)
      · apply Set.union_subset (howned.trans Set.subset_union_left)
        rintro a ⟨m, hm, ha⟩
        rcases List.mem_cons.mp hm with rfl | hm
        · exact Or.inl (hpages ha)
        · exact Or.inr ⟨m, hm, ha⟩

theorem Remapped.after {r : Nat × World σ} {size : Nat} (hsize : size ≠ 0) (hspends : Spends maps w maps w')
    (h : Remapped C Z others maps blocks w' b u size r) : Remapped C Z others maps blocks w b u size r := by
  cases h with
  | zero hzero _ => exact absurd hzero hsize
  | fallback _ hr hsound h => exact .fallback hsize hr hsound (hspends.trans h)
  | region _ hsound h => exact .region hsize hsound (hspends.trans h)

/-- `auto_dedicate_vmem` where nothing was dedicated before. -/
theorem autoDedicateVmem_sound (h : WorldInv C Z others maps blocks w) (hitems : w.items = [])
    (hnot : w.autoDedicated = false) :
    Sound C Z others maps blocks (autoDedicateVmem A w) ∧ Spends maps w maps (autoDedicateVmem A w) := by
  have hclear : ClearOfZero w := by
    intro a ha
    rw [hitems, owned_nil] at ha
    exact absurd ha (Set.notMem_empty _)
  obtain ⟨hinv, hmodes, hauto⟩ := autoDedicateVmem_inv h hclear
  refine ⟨⟨hinv, fun hfalse => ?_⟩, ⟨hmodes, fun _ => hauto, fun hw => ?_⟩⟩
  · exact absurd (hauto.symm.trans hfalse) (by decide)
  · exact absurd (hw.symm.trans hnot) (by decide)

/-- The retry of `do_vremap`. -/
theorem vremapRetry_remapped {size : Nat} (hZ : SlotsOk L Z) (h : Sound C Z others maps blocks w)
    (hb : (b, u) ∈ blocks) (hsize : size ≠ 0) (hu : 0 < u) :
    Remapped C Z others maps blocks w b u size
      (if (vremapRetry A L b u w).result < 0 then (b, (vremapRetry A L b u w).world)
        else ((vremapRetry A L b u w).remappedPtr, (vremapRetry A L b u w).world)) := by
  obtain ⟨r, hr⟩ : ∃ r, vremapMap A L b u w = r := ⟨_, rfl⟩
  by_cases hretry : r.result = EVREM_NO_VM ∧ !r.world.autoDedicated
  · have heq : vremapRetry A L b u w = vremapMap A L b u (autoDedicateVmem A r.world) := by
      rw [← hr] at hretry ⊢
      exact if_pos hretry
    rw [heq]
    obtain ⟨hnoVm, hnot⟩ := hretry
    rw [Bool.not_eq_true'] at hnot
    obtain ⟨hmodes, hauto, howned, hresult⟩ := vremapMap_inv hZ h.toWorldInv hb hu hr
    have hfirst : Spends maps w maps r.world :=
      ⟨hmodes, fun hw => hauto.trans hw, fun _ => Set.union_subset_union_left _ howned⟩
    cases hresult with
    | noVm _ hitems hinv =>
        rw [(h.undedicated (hauto.symm.trans hnot)).1] at hitems
        obtain ⟨hsound, hspends⟩ := autoDedicateVmem_sound hinv hitems hnot
        generalize autoDedicateVmem A r.world = w2 at hsound hspends ⊢
        exact (vremapMap_remapped hZ hsound hb hsize hu rfl).after hsize (hfirst.trans hspends)
    | virtMap hvirt _ => exact absurd (hnoVm.symm.trans hvirt) (by decide)
    | ok hok _ _ => exact absurd (hnoVm.symm.trans hok) (by decide)
  · have heq : vremapRetry A L b u w = r := by
      rw [← hr] at hretry ⊢
      exact if_neg hretry
    rw [heq]
    exact vremapMap_remapped hZ h hb hsize hu hr

/-- `do_vremap` of a block with a usable byte. -/
theorem doVremap_remapped_of_pos {size : Nat} (hZ : SlotsOk L Z) (h : Sound C Z others maps blocks w)
    (hb : (b, u) ∈ blocks) (hu : size ≠ 0 → 0 < u) :
    Remapped C Z others maps blocks w b u size (doVremap A L b size w) := by
  have hb0 : b ≠ 0 := (h.sys.homeBlock hb).home.ne_zero
  unfold doVremap
  by_cases hsize : size = 0
  · rw [if_pos (Or.inr hsize)]
    exact .zero hsize rfl
  rw [if_neg (by simp [hb0, hsize])]
  dsimp only
  have husable : (sysmallocUsableSize A b w).1 = u := h.sys.usable _ hb
  have hw1 : Sound C Z others maps blocks (sysmallocUsableSize A b w).2 :=
    ⟨⟨h.sys.event (h.sys.mem_live hb), h.remap⟩, h.undedicated⟩
  have hspends1 : Spends maps w maps (sysmallocUsableSize A b w).2 :=
    Spends.same maps rfl rfl rfl
  rw [husable]
  exact (vremapRetry_remapped hZ hw1 hb hsize (hu hsize)).after hsize hspends1

/-- `do_vremap` of a block with at least `size` usable bytes. -/
theorem doVremap_remapped {size : Nat} (hZ : SlotsOk L Z) (h : Sound C Z others maps blocks w)
    (hb : (b, u) ∈ blocks) (hle : size ≤ u) :
    Remapped C Z others maps blocks w b u size (doVremap A L b size w) :=
  doVremap_remapped_of_pos hZ h hb fun hsize => by omega

end World

end Dangless
