import Dangless.Dedication
import Dangless.VirtmemMmu

/-! What `auto_dedicate_vmem` collects: exactly the slots of 512 GB whose top-level entries are 0. Slots from 256
on lie at addresses that the processor does not accept. -/

namespace Dangless

variable {σ : Type} {A : SysAllocator σ} {L : DuneLayout} {w : World σ} {n i j a : Nat}

/-- Entry `i` of the top-level table is 0. -/
def SlotUnused (pt : PtState) (i : Nat) : Prop := pt.mem (pt.cr3 + 8 * i) = 0

/-- The addresses under the first `n` entries that lie under one that is 0. -/
def unusedPages (pt : PtState) (n : Nat) : Set Nat := {a | a < n * 2 ^ 39 ∧ SlotUnused pt (a / 2 ^ 39)}

theorem mem_unusedPages {pt : PtState} :
    a ∈ unusedPages pt n ↔ a < n * 2 ^ 39 ∧ SlotUnused pt (a / 2 ^ 39) := Iff.rfl

theorem lt_slot_succ (h : a < n * 2 ^ 39) : a < (n + 1) * 2 ^ 39 :=
  h.trans_le (Nat.mul_le_mul_right _ (Nat.le_succ n))

theorem mem_slot_iff : a ∈ region (i * 2 ^ 39) (2 ^ 27) ↔ a / 2 ^ 39 = i := by
  rw [mem_region]
  simp only [PGSIZE]
  omega

theorem unusedPages_succ_used (pt : PtState) (hused : ¬ SlotUnused pt n) :
    unusedPages pt (n + 1) = unusedPages pt n := by
  ext a
  rw [mem_unusedPages, mem_unusedPages]
  constructor
  · rintro ⟨hlt, hunused⟩
    refine ⟨?_, hunused⟩
    by_contra hge
    have hslot : a / 2 ^ 39 = n := by omega
    rw [hslot] at hunused
    exact hused hunused
  · rintro ⟨hlt, hunused⟩
    exact ⟨lt_slot_succ hlt, hunused⟩

theorem unusedPages_succ (pt : PtState) (hunused : SlotUnused pt n) :
    unusedPages pt (n + 1) = unusedPages pt n ∪ region (n * 2 ^ 39) (2 ^ 27) := by
  ext a
  rw [Set.mem_union, mem_unusedPages, mem_unusedPages, mem_slot_iff]
  constructor
  · rintro ⟨hlt, ha⟩
    by_cases hslot : a / 2 ^ 39 = n
    · exact Or.inr hslot
    · have hlower : a / 2 ^ 39 < n := by omega
      exact Or.inl ⟨(Nat.div_lt_iff_lt_mul (Nat.two_pow_pos 39)).mp hlower, ha⟩
  · rintro (⟨hlt, ha⟩ | hslot)
    · exact ⟨lt_slot_succ hlt, ha⟩
    · rw [hslot]
      refine ⟨?_, hunused⟩
      omega

/-- Each turn of the loop comes to `MALLOC(struct vp_span)` with memory left for it. -/
def SpansAllocatable (A : SysAllocator σ) (w : World σ) : Prop :=
  ∀ i, i < PT_NUM_ENTRIES → (A.malloc VP_SPAN_SIZE (autoDedicateLoop A w i).sys).1 ≠ 0

theorem autoDedicateLoop_pt (w : World σ) (n : Nat) : (autoDedicateLoop A w n).pt = w.pt := by
  induction n with
  | zero => rfl
  | succ n ih =>
      unfold autoDedicateLoop
      dsimp only
      split_ifs
      · exact ih
      · exact (vpFree_pt ..).trans ih

/-- A slot that the loop comes to is not in the freelist yet. -/
theorem freeable_slot (hn : n < PT_NUM_ENTRIES) {pages : Set Nat} (hpages : pages ⊆ unusedPages w.pt n) :
    Freeable pages (n * 2 ^ 39) (2 ^ 27) := by
  refine ⟨?_, by decide, ?_, ?_⟩
  · simp only [PGSIZE]
    omega
  · simp only [PGSIZE, PT_NUM_ENTRIES] at *
    omega
  · apply Set.disjoint_left.mpr
    intro a ha hmem
    have hslot := mem_slot_iff.mp ha
    have hlt := (hpages hmem).1
    omega

/-- The loop collects nothing else. -/
theorem autoDedicateLoop_subset (hitems : w.items = []) (hn : n ≤ PT_NUM_ENTRIES) :
    FreelistWf (autoDedicateLoop A w n).items ∧ owned (autoDedicateLoop A w n).items ⊆ unusedPages w.pt n := by
  induction n with
  | zero =>
      have hnone : (autoDedicateLoop A w 0).items = [] := hitems
      rw [hnone, owned_nil]
      exact ⟨freelistWf_nil, Set.empty_subset _⟩
  | succ n ih =>
      obtain ⟨hwf, hsub⟩ := ih (Nat.le_of_succ_le hn)
      unfold autoDedicateLoop
      dsimp only
      split_ifs with hused
      · rw [autoDedicateLoop_pt] at hused
        rw [unusedPages_succ_used _ hused]
        exact ⟨hwf, hsub⟩
      · rw [not_not, autoDedicateLoop_pt] at hused
        unfold danglessDedicateVmem
        rw [vpFreeRegion_slot, unusedPages_succ _ hused]
        obtain ⟨hwf', howned⟩ := vpFree_wf (A := A) hwf (freeable_slot hn hsub)
        exact ⟨hwf', howned.trans (Set.union_subset_union_left _ hsub)⟩

/-- With memory for the span objects it collects all of it. -/
theorem autoDedicateLoop_owned (hitems : w.items = []) (hnodes : SpansAllocatable A w) (hn : n ≤ PT_NUM_ENTRIES) :
    owned (autoDedicateLoop A w n).items = unusedPages w.pt n := by
  induction n with
  | zero =>
      have hnone : (autoDedicateLoop A w 0).items = [] := hitems
      rw [hnone, owned_nil]
      ext a
      rw [mem_unusedPages]
      exact iff_of_false (Set.notMem_empty a) fun ha => absurd ha.1 (by omega)
  | succ n ih =>
      have hwas := ih (Nat.le_of_succ_le hn)
      have hwf := (autoDedicateLoop_subset (A := A) hitems (Nat.le_of_succ_le hn)).1
      unfold autoDedicateLoop
      dsimp only
      split_ifs with hused
      · rw [autoDedicateLoop_pt] at hused
        rw [unusedPages_succ_used _ hused]
        exact hwas
      · rw [not_not, autoDedicateLoop_pt] at hused
        unfold danglessDedicateVmem
        rw [vpFreeRegion_slot, unusedPages_succ _ hused, ← hwas]
        exact vpFree_owned hwf (freeable_slot hn hwas.subset) fun _ => hnodes n hn

theorem autoDedicateVmem_owned (hitems : w.items = []) (hnodes : SpansAllocatable A w) :
    FreelistWf (autoDedicateVmem A w).items ∧
      owned (autoDedicateVmem A w).items = unusedPages w.pt PT_NUM_ENTRIES := by
  have hwf := (autoDedicateLoop_subset (A := A) hitems (le_refl PT_NUM_ENTRIES)).1
  have howned := autoDedicateLoop_owned hitems hnodes le_rfl
  unfold autoDedicateVmem
  generalize autoDedicateLoop A w PT_NUM_ENTRIES = v at hwf howned ⊢
  exact ⟨hwf, howned⟩

/-- A maximal run of consecutive entries that are 0. -/
structure UnusedRun (pt : PtState) (i j : Nat) : Prop where
  nonempty : i < j
  inTable : j ≤ PT_NUM_ENTRIES
  unused : ∀ k, i ≤ k → k < j → SlotUnused pt k
  left : 0 < i → ¬ SlotUnused pt (i - 1)
  right : j < PT_NUM_ENTRIES → ¬ SlotUnused pt j

/-- A maximal interval of the collected addresses is a maximal run of entries. -/
theorem unusedRun_of_maximal {pt : PtState} {start end_ : Nat} (hlt : start < end_)
    (hsub : Set.Ico start end_ ⊆ unusedPages pt PT_NUM_ENTRIES) (hend : end_ ∉ unusedPages pt PT_NUM_ENTRIES)
    (hleft : ∀ x < start, ¬ Set.Ico x start ⊆ unusedPages pt PT_NUM_ENTRIES) :
    ∃ i j, UnusedRun pt i j ∧ start = i * 2 ^ 39 ∧ end_ = j * 2 ^ 39 := by
  have hin : ∀ a, start ≤ a → a < end_ → a < PT_NUM_ENTRIES * 2 ^ 39 ∧ SlotUnused pt (a / 2 ^ 39) :=
    fun a hlo hhi => mem_unusedPages.mp (hsub ⟨hlo, hhi⟩)
  rw [mem_unusedPages] at hend
  -- both bounds are at the beginning of a slot: the rest of the slot has the same entry
  have hstartEq : start / 2 ^ 39 * 2 ^ 39 = start := by
    by_contra hne
    refine hleft (start / 2 ^ 39 * 2 ^ 39) (by omega) ?_
    rintro a ⟨hlo, hhi⟩
    obtain ⟨hbound, hunused⟩ := hin start le_rfl hlt
    have hslot : a / 2 ^ 39 = start / 2 ^ 39 := by omega
    rw [mem_unusedPages, hslot]
    exact ⟨by omega, hunused⟩
  obtain ⟨hbound, hlast⟩ := hin (end_ - 1) (by omega) (by omega)
  have hendEq : end_ / 2 ^ 39 * 2 ^ 39 = end_ := by
    by_contra hne
    have hslot : (end_ - 1) / 2 ^ 39 = end_ / 2 ^ 39 := by omega
    rw [hslot] at hlast
    have hwidth : PT_NUM_ENTRIES * 2 ^ 39 = 512 * 2 ^ 39 := rfl
    exact hend ⟨by omega, hlast⟩
  refine ⟨start / 2 ^ 39, end_ / 2 ^ 39, ⟨by omega, by omega, ?_, ?_, ?_⟩, hstartEq.symm, hendEq.symm⟩
  · intro k hlo hhi
    have hmem := (hin (k * 2 ^ 39) (by omega) (by omega)).2
    rw [Nat.mul_div_cancel k (Nat.two_pow_pos 39)] at hmem
    exact hmem
  · intro hpos hunused
    refine hleft ((start / 2 ^ 39 - 1) * 2 ^ 39) (by omega) ?_
    rintro a ⟨hlo, hhi⟩
    have hfirst := (hin start le_rfl hlt).1
    have hslot : a / 2 ^ 39 = start / 2 ^ 39 - 1 := by omega
    rw [mem_unusedPages, hslot]
    exact ⟨by omega, hunused⟩
  · intro hmore hunused
    exact hend ⟨by omega, hunused⟩

theorem UnusedRun.maximal {pt : PtState} (h : UnusedRun pt i j) :
    i * 2 ^ 39 < j * 2 ^ 39 ∧ Set.Ico (i * 2 ^ 39) (j * 2 ^ 39) ⊆ unusedPages pt PT_NUM_ENTRIES ∧
      j * 2 ^ 39 ∉ unusedPages pt PT_NUM_ENTRIES ∧
      ∀ x < i * 2 ^ 39, ¬ Set.Ico x (i * 2 ^ 39) ⊆ unusedPages pt PT_NUM_ENTRIES := by
  obtain ⟨hlt, hin, hunused, hleft, hright⟩ := h
  refine ⟨by omega, ?_, ?_, ?_⟩
  · rintro a ⟨hlo, hhi⟩
    rw [mem_unusedPages]
    exact ⟨hhi.trans_le (Nat.mul_le_mul_right _ hin), hunused _ (by omega) (by omega)⟩
  · rw [mem_unusedPages]
    rintro ⟨hbound, hmem⟩
    rw [Nat.mul_div_cancel j (Nat.two_pow_pos 39)] at hmem
    exact hright (by omega) hmem
  · intro x hx hsub
    have hlast : i * 2 ^ 39 - 1 ∈ Set.Ico x (i * 2 ^ 39) := Set.mem_Ico.mpr (by omega)
    have hslot : (i * 2 ^ 39 - 1) / 2 ^ 39 = i - 1 := by omega
    have hmem := (mem_unusedPages.mp (hsub hlast)).2
    rw [hslot] at hmem
    exact hleft (by omega) hmem

/-- The freelist is the ascending list of the maximal runs of unused entries, and it owns a page of the virtual
address space where the entry that `pt_walk` reads first is 0. -/
structure CollectsUnused (w w' : World σ) : Prop where
  ascending : w'.items.Pairwise fun left right => left.end_ < right.start
  spans : ∀ start end_, (start, end_) ∈ w'.items.map VpSpan.bounds ↔
    ∃ i j, UnusedRun w.pt i j ∧ start = i * 2 ^ 39 ∧ end_ = j * 2 ^ 39
  pages : ∀ a, a ∈ owned w'.items ↔ a < VIRTMEM_END ∧ w.pt.mem (pteSlot w.pt.cr3 (ptIndex a .l4)) = 0

theorem ptIndex_l4 (a : Nat) : (ptIndex a .l4).val = a / 2 ^ 39 % 512 := by
  simp only [ptIndex, ptLevelOffset_eq, ptLevelShift, PGSHIFT, PtLevel.toNat, PT_BITS_PER_LEVEL]

theorem collectsUnused_of_empty (hitems : w.items = []) (hnodes : SpansAllocatable A w) :
    CollectsUnused w (autoDedicateVmem A w) := by
  obtain ⟨hwf, howned⟩ := autoDedicateVmem_owned hitems hnodes
  refine ⟨List.pairwise_map.mp hwf.separated.2, fun start end_ => ?_, fun a => ?_⟩
  · rw [SpanList.Separated.mem_iff hwf.separated]
    change (start < end_ ∧ Set.Ico start end_ ⊆ owned (autoDedicateVmem A w).items ∧
      end_ ∉ owned (autoDedicateVmem A w).items ∧
      ∀ x < start, ¬ Set.Ico x start ⊆ owned (autoDedicateVmem A w).items) ↔ _
    rw [howned]
    constructor
    · rintro ⟨hlt, hsub, hend, hleft⟩
      exact unusedRun_of_maximal hlt hsub hend hleft
    · rintro ⟨i, j, hrun, rfl, rfl⟩
      exact hrun.maximal
  · have hwidth : PT_NUM_ENTRIES * 2 ^ 39 = VIRTMEM_END := by decide
    rw [howned, mem_unusedPages, hwidth]
    apply and_congr_right
    intro hlt
    have hslot : (ptIndex a .l4).val = a / 2 ^ 39 := by
      rw [ptIndex_l4]
      simp only [VIRTMEM_END] at hlt
      omega
    rw [SlotUnused, pteSlot, hslot]

/-- A process whose top-level table has these unused entries, with memory for more tables. -/
def unusedWorld (slots : List Nat) : World BumpHeap :=
  bumpWorld [] ⟨DUNE_PML4, fun addr =>
    if DUNE_PML4 ≤ addr ∧ addr < DUNE_PML4 + PGSIZE ∧ (addr - DUNE_PML4) / 8 ∉ slots then PTE_V else 0,
    [2 ^ 46, 2 ^ 46 + PGSIZE, 2 ^ 46 + 2 * PGSIZE], []⟩

/-- One of the entries is in the upper half. -/
def threeUnused : World BumpHeap := unusedWorld [5, 6, 300]

theorem threeUnused_allocatable : SpansAllocatable bumpAllocator threeUnused := by
  have hnodes : ∀ i, i < 512 →
      (bumpAllocator.malloc VP_SPAN_SIZE (autoDedicateLoop bumpAllocator threeUnused i).sys).1 ≠ 0 := by
    decide +kernel
  exact hnodes

theorem collectsUnused_of_empty_three : CollectsUnused threeUnused (autoDedicateVmem bumpAllocator threeUnused) :=
  collectsUnused_of_empty rfl threeUnused_allocatable

/-- The walk also comes to entry 300 for an address of the upper half of the canonical addresses. The page is not
owned. -/
theorem collectsUnused_not_beyond : ∃ w : World BumpHeap, w.items = [] ∧ SpansAllocatable bumpAllocator w ∧
    ∃ a, a % PGSIZE = 0 ∧ Paging.Canonical a ∧ w.pt.mem (pteSlot w.pt.cr3 (ptIndex a .l4)) = 0 ∧
      a ∉ owned (autoDedicateVmem bumpAllocator w).items := by
  refine ⟨threeUnused, rfl, threeUnused_allocatable, 2 ^ 64 - 2 ^ 48 + 300 * 2 ^ 39, by decide, by decide,
    by decide +kernel, ?_⟩
  rw [(autoDedicateVmem_owned rfl threeUnused_allocatable).2, mem_unusedPages]
  rintro ⟨hlt, -⟩
  exact absurd hlt (by decide)

/-! ### Where the pages that are handed out lie -/

/-- The answer of `vp_alloc(npages)` lies in the lower half of the canonical addresses: all pages do, or the lowest
region that is long enough does. -/
def FindsLow (pages : Set Nat) (npages : Nat) : Prop :=
  (∀ a ∈ pages, a < 2 ^ 47) ∨
    (1 ≤ npages ∧ ∀ va, IsLeast {a | RunAt pages npages a} va → va + npages * PGSIZE ≤ 2 ^ 47)

/-- A page-aligned region in the lower half. -/
structure LowRegion (va npages : Nat) : Prop where
  aligned : va % PGSIZE = 0
  start : va < 2 ^ 47
  pages : va + npages * PGSIZE ≤ 2 ^ 47

theorem freelistAlloc_low {items : List VpSpan} (hwf : FreelistWf items) {npages : Nat}
    (hlow : FindsLow (owned items) npages) (hva : (freelistAlloc npages items).va ≠ 0) :
    LowRegion (freelistAlloc npages items).va npages := by
  have hspan : ∃ span ∈ items, (freelistAlloc npages items).va = span.start := by
    rcases freelistAlloc_cases npages items with ⟨heq, -⟩ | ⟨before, span, after, rfl, -, -, hres⟩
    · rw [heq] at hva
      exact absurd rfl hva
    · refine ⟨span, by simp, ?_⟩
      rcases hres with ⟨-, heq⟩ | ⟨-, heq⟩ <;> rw [heq]
  obtain ⟨span, hmem, hstart⟩ := hspan
  have haligned : (freelistAlloc npages items).va % PGSIZE = 0 := hstart ▸ (hwf.aligned span hmem).1
  rcases Nat.eq_zero_or_pos npages with rfl | hn
  · have hlt : (freelistAlloc 0 items).va < 2 ^ 47 := by
      rcases hlow with hall | ⟨hn, -⟩
      · rw [hstart]
        exact hall _ ⟨_, List.mem_map_of_mem hmem, le_rfl, hwf.nonempty hmem⟩
      · exact absurd hn (by decide)
    refine ⟨haligned, hlt, ?_⟩
    rw [Nat.zero_mul]
    exact hlt.le
  · have hpages : (freelistAlloc npages items).va + npages * PGSIZE ≤ 2 ^ 47 := by
      rcases freelistAlloc_spec hwf hn with ⟨heq, -⟩ | ⟨hleast, -, -⟩
      · rw [heq] at hva
        exact absurd rfl hva
      · rcases hlow with hall | ⟨-, hleastLow⟩
        · have hlast : (freelistAlloc npages items).va + npages * PGSIZE - 1 ∈ owned items := by
            apply hleast.1.2
            rw [mem_region]
            simp only [PGSIZE]
            omega
          have hlt := hall _ hlast
          omega
        · exact hleastLow _ hleast
    refine ⟨haligned, ?_, hpages⟩
    simp only [PGSIZE] at hpages
    omega

/-- The remapped pointer is in the first page of its region. -/
def LowPointer (ptr npages : Nat) : Prop := ptr < 2 ^ 47 ∧ LowRegion (roundDown ptr PGSIZE) npages

theorem LowRegion.pointer {va npages o : Nat} (h : LowRegion va npages) (ho : o < PGSIZE) :
    LowPointer (va + o) npages := by
  obtain ⟨haligned, hstart, hpages⟩ := h
  have hdown : roundDown (va + o) PGSIZE = va := by
    rw [roundDown_eq]
    simp only [PGSIZE] at *
    omega
  refine ⟨?_, ?_⟩
  · simp only [PGSIZE] at *
    omega
  · rw [hdown]
    exact ⟨haligned, hstart, hpages⟩

theorem vremapMapAt_ptr {ptr va : Nat} (hok : ¬ (vremapMapAt A L ptr n va w).result < 0) :
    (vremapMapAt A L ptr n va w).remappedPtr = va + ptr % PGSIZE := by
  obtain ⟨s, hs⟩ : ∃ s, ptMapRegion w.pt (roundDown (L.duneVaToPa ptr) PGSIZE) va (n * PGSIZE)
    (PTE_W ||| PTE_NX) = s := ⟨_, rfl⟩
  unfold vremapMapAt at hok ⊢
  dsimp only at hok ⊢
  rw [hs] at hok ⊢
  split_ifs at hok ⊢
  · exact absurd (show EVREM_VIRT_MAP < 0 by decide) hok
  · rw [getPageOffset_l1]

theorem vremapMap_low {ptr size : Nat} (hwf : FreelistWf w.items)
    (hlow : FindsLow (owned w.items) (numSpannedPages ptr size))
    (hok : ¬ (vremapMap A L ptr size w).result < 0) :
    LowPointer (vremapMap A L ptr size w).remappedPtr (numSpannedPages ptr size) := by
  by_cases hva : (vpAlloc A (numSpannedPages ptr size) w).1 = 0
  · have hmap : vremapMap A L ptr size w = ⟨EVREM_NO_VM, 0, (vpAlloc A (numSpannedPages ptr size) w).2⟩ :=
      if_pos hva
    rw [hmap] at hok
    exact absurd (show EVREM_NO_VM < 0 by decide) hok
  · have hmap : vremapMap A L ptr size w = vremapMapAt A L ptr (numSpannedPages ptr size)
        (vpAlloc A (numSpannedPages ptr size) w).1 (vpAlloc A (numSpannedPages ptr size) w).2 := if_neg hva
    rw [hmap] at hok ⊢
    rw [vremapMapAt_ptr hok]
    have hregion := freelistAlloc_low hwf hlow hva
    exact hregion.pointer (Nat.mod_lt _ (by decide))

theorem freeNodes_sys (nodes : List Nat) (w : World σ) :
    (freeNodes A nodes w).sys = nodes.foldl (fun sys node => A.free node sys) w.sys := by
  induction nodes generalizing w with
  | nil => rfl
  | cons node nodes ih => exact ih (sysfree A node w)

theorem vpFree_congr {w' : World σ} (hsys : w.sys = w'.sys) (hitems : w.items = w'.items) (p npages : Nat) :
    (vpFree A p npages w).2.sys = (vpFree A p npages w').2.sys ∧
      (vpFree A p npages w).2.items = (vpFree A p npages w').2.items := by
  unfold vpFree
  rw [hitems]
  cases freelistFreeNeedsNode w'.items p npages
  all_goals simp [freeNodes_sys, sysmalloc, hsys]

theorem autoDedicateLoop_congr {w' : World σ} (hsys : w.sys = w'.sys) (hitems : w.items = w'.items)
    (hpt : w.pt = w'.pt) (n : Nat) :
    (autoDedicateLoop A w n).sys = (autoDedicateLoop A w' n).sys ∧
      (autoDedicateLoop A w n).items = (autoDedicateLoop A w' n).items := by
  induction n with
  | zero => exact ⟨hsys, hitems⟩
  | succ n ih =>
      unfold autoDedicateLoop
      dsimp only
      rw [autoDedicateLoop_pt, autoDedicateLoop_pt, hpt]
      split_ifs
      · exact ih
      · exact vpFree_congr ih.1 ih.2 _ _

theorem SpansAllocatable.congr {w' : World σ} (h : SpansAllocatable A w) (hsys : w.sys = w'.sys)
    (hitems : w.items = w'.items) (hpt : w.pt = w'.pt) : SpansAllocatable A w' := by
  intro i hi
  rw [← (autoDedicateLoop_congr hsys hitems hpt i).1]
  exact h i hi

/-! ### Runs of `dangless_malloc` -/

/-- The pages for the next block lie in the lower half: those of the freelist, or, before the auto-dedication, those
that it is about to collect. -/
def DrawsLow (A : SysAllocator σ) (w : World σ) (npages : Nat) : Prop :=
  (w.autoDedicated = true → FindsLow (owned w.items) npages) ∧
  (w.autoDedicated = false → (∀ a ∈ unusedPages w.pt PT_NUM_ENTRIES, a < 2 ^ 47) ∨
    (SpansAllocatable A w ∧ FindsLow (unusedPages w.pt PT_NUM_ENTRIES) npages))

/-- Before the auto-dedication the freelist is empty. -/
structure DrawInv (w : World σ) : Prop where
  pages : DedicationInv w
  empty : w.autoDedicated = false → w.items = []

theorem DrawInv.clear (h : DrawInv w) (hnot : w.autoDedicated = false) : ClearOfZero w := by
  intro a ha
  rw [h.empty hnot, owned_nil] at ha
  exact absurd ha (Set.notMem_empty a)

/-- The retry goes on where the freelist was empty. -/
theorem DrawInv.vremapRetry_cases (h : DrawInv w) (ptr size : Nat) :
    (w.autoDedicated = true ∧ vremapRetry A L ptr size w = vremapMap A L ptr size w) ∨
    (w.autoDedicated = false ∧ ∃ w1 : World σ, w1.items = w.items ∧ w1.pt = w.pt ∧ w1.sys = w.sys ∧
      vremapRetry A L ptr size w = vremapMap A L ptr size (autoDedicateVmem A w1)) := by
  cases hauto : w.autoDedicated with
  | true =>
      have hnone : ¬ ((vremapMap A L ptr size w).result = EVREM_NO_VM ∧
          !(vremapMap A L ptr size w).world.autoDedicated) := by
        rintro ⟨hnoVm, hnot⟩
        rw [(vremapMap_noVm hnoVm).2, vpAlloc_autoDedicated, hauto] at hnot
        exact absurd hnot (by decide)
      exact Or.inl ⟨rfl, if_neg hnone⟩
  | false =>
      have hempty := h.empty hauto
      have hnull : (vpAlloc A (numSpannedPages ptr size) w).1 = 0 := by
        rw [vpAlloc_va, hempty]
        rfl
      have hmap : vremapMap A L ptr size w =
          ⟨EVREM_NO_VM, 0, (vpAlloc A (numSpannedPages ptr size) w).2⟩ := if_pos hnull
      have hnot : (vpAlloc A (numSpannedPages ptr size) w).2.autoDedicated = false :=
        (vpAlloc_autoDedicated A w (numSpannedPages ptr size)).trans hauto
      refine Or.inr ⟨rfl, (vpAlloc A (numSpannedPages ptr size) w).2, ?_, vpAlloc_pt .., ?_, ?_⟩
      · rw [vpAlloc_items, hempty]
        rfl
      · unfold vpAlloc
        rw [hempty]
        rfl
      · unfold vremapRetry
        dsimp only
        rw [hmap, hnot]
        exact if_pos ⟨rfl, rfl⟩

theorem autoDedicateVmem_subset (hitems : w.items = []) :
    FreelistWf (autoDedicateVmem A w).items ∧
      owned (autoDedicateVmem A w).items ⊆ unusedPages w.pt PT_NUM_ENTRIES := by
  have hloop := autoDedicateLoop_subset (A := A) hitems (le_refl PT_NUM_ENTRIES)
  unfold autoDedicateVmem
  generalize autoDedicateLoop A w PT_NUM_ENTRIES = v at hloop ⊢
  exact hloop

theorem vremapRetry_low {ptr size : Nat} (h : DrawInv w) (hdraws : DrawsLow A w (numSpannedPages ptr size))
    (hok : ¬ (vremapRetry A L ptr size w).result < 0) :
    LowPointer (vremapRetry A L ptr size w).remappedPtr (numSpannedPages ptr size) := by
  obtain ⟨hdedicated, hfresh⟩ := hdraws
  rcases h.vremapRetry_cases (A := A) (L := L) ptr size with ⟨hauto, heq⟩ | ⟨hauto, w1, hitems, hpt, hsys, heq⟩
  · rw [heq] at hok ⊢
    exact vremapMap_low h.pages.wf (hdedicated hauto) hok
  · have hempty : w1.items = [] := hitems.trans (h.empty hauto)
    obtain ⟨hwf, hsub⟩ := autoDedicateVmem_subset (A := A) hempty
    rw [hpt] at hsub
    rw [heq] at hok ⊢
    refine vremapMap_low hwf ?_ hok
    rcases hfresh hauto with hall | ⟨hnodes, hlow⟩
    · exact Or.inl fun a ha => hall a (hsub ha)
    · rw [(autoDedicateVmem_owned hempty (hnodes.congr hsys.symm hitems.symm hpt.symm)).2, hpt]
      exact hlow

theorem autoDedicateVmem_autoDedicated (w : World σ) : (autoDedicateVmem A w).autoDedicated = true := by
  unfold autoDedicateVmem
  generalize autoDedicateLoop A w PT_NUM_ENTRIES = v
  rfl

theorem vremapMapAt_autoDedicated (ptr va : Nat) (w : World σ) :
    (vremapMapAt A L ptr n va w).world.autoDedicated = w.autoDedicated := by
  obtain ⟨s, hs⟩ : ∃ s, ptMapRegion w.pt (roundDown (L.duneVaToPa ptr) PGSIZE) va (n * PGSIZE)
    (PTE_W ||| PTE_NX) = s := ⟨_, rfl⟩
  unfold vremapMapAt
  dsimp only
  rw [hs]
  split_ifs
  · exact vpFree_autoDedicated ..
  · rfl

theorem vremapMap_autoDedicated (ptr size : Nat) (w : World σ) :
    (vremapMap A L ptr size w).world.autoDedicated = w.autoDedicated := by
  have halloc := vpAlloc_autoDedicated A w (numSpannedPages ptr size)
  unfold vremapMap
  dsimp only
  split_ifs
  · exact halloc
  · exact (vremapMapAt_autoDedicated ..).trans halloc

theorem DrawInv.vremapRetry_autoDedicated (h : DrawInv w) (ptr size : Nat) :
    (vremapRetry A L ptr size w).world.autoDedicated = true := by
  rcases h.vremapRetry_cases (A := A) (L := L) ptr size with ⟨hauto, heq⟩ | ⟨-, w1, -, -, -, heq⟩
  · rw [heq, vremapMap_autoDedicated]
    exact hauto
  · rw [heq, vremapMap_autoDedicated, autoDedicateVmem_autoDedicated]

/-- The pages of the block that the underlying allocator has for `dangless_malloc(size)`. -/
def blockPages (A : SysAllocator σ) (size : Nat) (w : World σ) : Nat :=
  numSpannedPages (A.malloc size w.sys).1 (A.mallocUsableSize (A.malloc size w.sys).1 (A.malloc size w.sys).2)

/-- Where `dangless_malloc(size)` comes to remap its block, the pages for it lie in the lower half. -/
def StaysLow (A : SysAllocator σ) (size : Nat) (w : World σ) : Prop :=
  w.hookDepth = 0 → w.kernelMode = true → (A.malloc size w.sys).1 ≠ 0 → size ≠ 0 →
    DrawsLow A (sysmalloc A size w).2 (blockPages A size w)

theorem DrawsLow.congr {w' : World σ} {npages : Nat} (h : DrawsLow A w npages)
    (hauto : w'.autoDedicated = w.autoDedicated) (hsys : w'.sys = w.sys) (hitems : w'.items = w.items)
    (hpt : w'.pt = w.pt) : DrawsLow A w' npages := by
  obtain ⟨hdedicated, hfresh⟩ := h
  refine ⟨fun hauto' => ?_, fun hnot => ?_⟩
  · rw [hitems]
    exact hdedicated (hauto.symm.trans hauto')
  · rw [hpt]
    rcases hfresh (hauto.symm.trans hnot) with hall | ⟨hnodes, hlow⟩
    · exact Or.inl hall
    · exact Or.inr ⟨hnodes.congr hsys.symm hitems.symm hpt.symm, hlow⟩

theorem DrawInv.congr {w' : World σ} (h : DrawInv w) (hauto : w'.autoDedicated = w.autoDedicated)
    (hitems : w'.items = w.items) (htrace : w'.trace = w.trace) : DrawInv w' := by
  refine ⟨h.pages.congr hitems htrace, fun hnot => ?_⟩
  rw [hitems]
  exact h.empty (hauto.symm.trans hnot)

theorem DrawInv.doVremap (h : DrawInv w) (ptr size : Nat)
    (hdraws : ptr ≠ 0 → size ≠ 0 → DrawsLow A w (numSpannedPages ptr (A.mallocUsableSize ptr w.sys))) :
    DrawInv (doVremap A L ptr size w).2 ∧
      ((doVremap A L ptr size w).1 ≠ ptr → (doVremap A L ptr size w).1 ≠ 0 →
        LowPointer (doVremap A L ptr size w).1 (numSpannedPages ptr (A.mallocUsableSize ptr w.sys))) := by
  have hpages := h.pages.doVremap (A := A) (L := L) ptr size fun _ _ hnot _ => h.clear hnot
  unfold Dangless.doVremap at hpages ⊢
  dsimp only at hpages ⊢
  by_cases hnothing : ptr = 0 ∨ size = 0
  · rw [if_pos hnothing]
    exact ⟨h, fun _ hne => absurd rfl hne⟩
  · obtain ⟨hptr, hsize⟩ := not_or.mp hnothing
    rw [if_neg hnothing] at hpages ⊢
    have hasked : DrawInv (sysmallocUsableSize A ptr w).2 := ⟨⟨h.pages.wf, h.pages.out, h.pages.once⟩, h.empty⟩
    have hauto := hasked.vremapRetry_autoDedicated (A := A) (L := L) ptr (sysmallocUsableSize A ptr w).1
    have hlow := vremapRetry_low (L := L) hasked ((hdraws hptr hsize).congr rfl rfl rfl rfl)
    generalize hr : vremapRetry A L ptr (sysmallocUsableSize A ptr w).1 (sysmallocUsableSize A ptr w).2 = r
      at hpages hauto ⊢
    have husable : (sysmallocUsableSize A ptr w).1 = A.mallocUsableSize ptr w.sys := rfl
    rw [husable] at hr
    rw [hr] at hlow
    by_cases hneg : r.result < 0
    · rw [if_pos hneg] at hpages ⊢
      exact ⟨⟨hpages, fun hnot => absurd (hauto.symm.trans hnot) (by decide)⟩, fun hne _ => absurd rfl hne⟩
    · rw [if_neg hneg] at hpages ⊢
      exact ⟨⟨hpages, fun hnot => absurd (hauto.symm.trans hnot) (by decide)⟩, fun _ _ => hlow hneg⟩

theorem DrawInv.malloc {size : Nat} (h : DrawInv w) (hstays : StaysLow A size w) :
    DrawInv (danglessMalloc A L size w).2 ∧
      ((danglessMalloc A L size w).1 ≠ (A.malloc size w.sys).1 → (danglessMalloc A L size w).1 ≠ 0 →
        LowPointer (danglessMalloc A L size w).1 (blockPages A size w)) := by
  have hblock : DrawInv (sysmalloc A size w).2 := h.congr rfl rfl rfl
  unfold danglessMalloc
  dsimp only
  cases henter : hookEnter (sysmalloc A size w).2 with
  | none => exact ⟨hblock, fun hne _ => absurd rfl hne⟩
  | some w1 =>
      unfold hookEnter at henter
      split_ifs at henter with hdepth hmode
      cases henter
      have hentered : DrawInv { (sysmalloc A size w).2 with
          hookDepth := (sysmalloc A size w).2.hookDepth + 1 } := hblock.congr rfl rfl rfl
      obtain ⟨hinv, hlow⟩ := hentered.doVremap (A := A) (L := L) (sysmalloc A size w).1 size
        fun hptr hsize => (hstays (Nat.eq_zero_of_not_pos hdepth) (by simpa [sysmalloc] using hmode) hptr
          hsize).congr rfl rfl rfl rfl
      exact ⟨hinv.congr rfl rfl rfl, hlow⟩

/-- The state with what was remapped so far: each pointer that was returned for it, and its number of pages. -/
structure RemapState (σ : Type) where
  world : World σ
  remapped : List (Nat × Nat)

/-- One call. The pointer is remapped if it is neither `NULL` nor that of the underlying allocator. -/
inductive MallocStep (A : SysAllocator σ) (L : DuneLayout) : RemapState σ → Nat → RemapState σ → Prop
  | plain (s : RemapState σ) (size : Nat)
      (hptr : (danglessMalloc A L size s.world).1 = 0 ∨
        (danglessMalloc A L size s.world).1 = (A.malloc size s.world.sys).1) :
      MallocStep A L s size ⟨(danglessMalloc A L size s.world).2, s.remapped⟩
  | remapped (s : RemapState σ) (size : Nat) (hnonnull : (danglessMalloc A L size s.world).1 ≠ 0)
      (hptr : (danglessMalloc A L size s.world).1 ≠ (A.malloc size s.world.sys).1) :
      MallocStep A L s size ⟨(danglessMalloc A L size s.world).2,
        ((danglessMalloc A L size s.world).1, blockPages A size s.world) :: s.remapped⟩

/-- Every pointer that was remapped is canonical, and so are all addresses of its pages. -/
def RemapsCanonical (s : RemapState σ) : Prop :=
  ∀ ptr npages, (ptr, npages) ∈ s.remapped → Paging.Canonical ptr ∧
    ∀ a ∈ region (roundDown ptr PGSIZE) npages, Paging.Canonical a

theorem LowPointer.canonical {ptr npages : Nat} (h : LowPointer ptr npages) :
    Paging.Canonical ptr ∧ ∀ a ∈ region (roundDown ptr PGSIZE) npages, Paging.Canonical a := by
  refine ⟨Or.inl h.1, fun a ha => Or.inl ?_⟩
  exact ha.2.trans_le h.2.pages

theorem remapsCanonical_of_run {sizes : List Nat} {s : RemapState σ} (hitems : w.items = []) (htrace : w.trace = [])
    (hrun : Lts.Run (fun s size s' => MallocStep A L s size s' ∧ StaysLow A size s.world) ⟨w, []⟩ sizes s) :
    RemapsCanonical s := by
  have hstart : DrawInv w := by
    refine ⟨⟨hitems ▸ freelistWf_nil, ?_, htrace ▸ trivial⟩, fun _ => hitems⟩
    rw [htrace]
    exact Set.empty_disjoint _
  have hinv := hrun.invariant (I := fun s => DrawInv s.world ∧ RemapsCanonical s) ?_
    ⟨hstart, by simp [RemapsCanonical]⟩
  · exact hinv.2
  · rintro s size s' ⟨hdraw, hcanonical⟩ ⟨hstep, hstays⟩
    obtain ⟨hdraw', hlow⟩ := hdraw.malloc (L := L) hstays
    cases hstep with
    | plain => exact ⟨hdraw', hcanonical⟩
    | remapped hnonnull hptr =>
        refine ⟨hdraw', fun ptr npages hmem => ?_⟩
        rcases List.mem_cons.mp hmem with heq | hmem
        · cases heq
          exact (hlow hptr hnonnull).canonical
        · exact hcanonical ptr npages hmem

theorem threeUnused_slot : SlotUnused threeUnused.pt 5 := by
  show threeUnused.pt.mem (threeUnused.pt.cr3 + 8 * 5) = 0
  decide +kernel

/-- There is room for the block under entry 5. -/
theorem threeUnused_staysLow : StaysLow bumpAllocator 32 threeUnused := by
  intro _ _ _ _
  refine ⟨fun hauto => absurd hauto (by decide), fun _ => Or.inr ⟨?_, ?_⟩⟩
  · have hnodes : ∀ i, i < 512 → (bumpAllocator.malloc VP_SPAN_SIZE
        (autoDedicateLoop bumpAllocator (sysmalloc bumpAllocator 32 threeUnused).2 i).sys).1 ≠ 0 := by
      decide +kernel
    exact hnodes
  · have hone : blockPages bumpAllocator 32 threeUnused = 1 := by decide +kernel
    rw [hone]
    have hroom : RunAt (unusedPages threeUnused.pt PT_NUM_ENTRIES) 1 (5 * 2 ^ 39) := by
      refine ⟨by decide, ?_⟩
      rintro a ⟨hlo, hhi⟩
      simp only [PGSIZE] at hhi
      have hslot : a / 2 ^ 39 = 5 := by omega
      rw [mem_unusedPages, hslot]
      exact ⟨hhi.trans (by decide), threeUnused_slot⟩
    refine Or.inr ⟨le_rfl, fun va hleast => ?_⟩
    have hle := hleast.2 hroom
    simp only [PGSIZE]
    omega

/-- The block of 32 bytes is remapped to the first page under entry 5. -/
theorem remapsCanonical_of_run_three :
    RemapsCanonical (⟨(danglessMalloc bumpAllocator duneLayout 32 threeUnused).2,
      [((danglessMalloc bumpAllocator duneLayout 32 threeUnused).1, 1)]⟩ : RemapState BumpHeap) := by
  have hone : blockPages bumpAllocator 32 threeUnused = 1 := by decide +kernel
  have hstep : MallocStep bumpAllocator duneLayout ⟨threeUnused, []⟩ 32 _ :=
    MallocStep.remapped ⟨threeUnused, []⟩ 32 (by decide +kernel) (by decide +kernel)
  rw [hone] at hstep
  exact remapsCanonical_of_run rfl rfl (Lts.Run.single ⟨hstep, threeUnused_staysLow⟩)

/-- Only entry 300 is unused: the pointer is in the upper half of the 48-bit addresses, and not canonical. -/
theorem remapsCanonical_not_upper : ∃ (w : World BumpHeap) (s : RemapState BumpHeap), w.items = [] ∧
    Lts.Run (MallocStep bumpAllocator duneLayout) ⟨w, []⟩ [32] s ∧ ¬ RemapsCanonical s := by
  have hstep : MallocStep bumpAllocator duneLayout ⟨unusedWorld [300], []⟩ 32 _ :=
    MallocStep.remapped ⟨unusedWorld [300], []⟩ 32 (by decide +kernel) (by decide +kernel)
  refine ⟨unusedWorld [300], _, rfl, Lts.Run.single hstep, fun h => ?_⟩
  have hnot : ¬ Paging.Canonical (danglessMalloc bumpAllocator duneLayout 32 (unusedWorld [300])).1 := by
    decide +kernel
  exact hnot (h _ _ List.mem_cons_self).1

end Dangless
