import Dangless.TemporalSafety

/-! Virtual memory that the program dedicates itself, next to what `auto_dedicate_vmem` dedicates: which pages
`vp_alloc` hands out in a run of `dangless_dedicate_vmem` and `dangless_malloc`. -/

namespace Dangless

variable {σ : Type} {A : SysAllocator σ} {L : DuneLayout} {w : World σ} {npages p : Nat}

/-- The pages that `vp_alloc` has handed out and that no `vp_free` has taken back since. -/
def outPages : List (Event σ) → Set Nat
  | [] => ∅
  | .vpAlloc va npages :: trace => if va = 0 then outPages trace else outPages trace ∪ region va npages
  | .vpFree p npages :: trace => outPages trace \ region p npages
  | _ :: trace => outPages trace

instance decidableOut (a : Nat) : (trace : List (Event σ)) → Decidable (a ∈ outPages trace)
  | [] => isFalse (Set.notMem_empty a)
  | .vpAlloc va npages :: trace =>
      have := decidableOut a trace
      decidable_of_iff ((va ≠ 0 ∧ va ≤ a ∧ a < va + npages * PGSIZE) ∨ a ∈ outPages trace) (by
        by_cases hva : va = 0
        · simp [outPages, hva]
        · simp [outPages, hva, mem_region, or_comm])
  | .vpFree p npages :: trace =>
      have := decidableOut a trace
      decidable_of_iff (¬ (p ≤ a ∧ a < p + npages * PGSIZE) ∧ a ∈ outPages trace) and_comm
  | .sysrealloc _ _ :: trace | .sysfree _ _ :: trace | .mallocUsableSize _ _ :: trace => decidableOut a trace

/-- No page is handed out while it is out. -/
def HandsOutOnce : List (Event σ) → Prop
  | [] => True
  | .vpAlloc va npages :: trace =>
      (va = 0 ∨ Disjoint (region va npages) (outPages trace)) ∧ HandsOutOnce trace
  | _ :: trace => HandsOutOnce trace

/-- The spans of the freelist are disjoint, and no page has been handed out twice. -/
structure PagesApart (w : World σ) : Prop where
  spans : w.items.Pairwise fun left right =>
    Disjoint (Set.Ico left.start left.end_) (Set.Ico right.start right.end_)
  once : HandsOutOnce w.trace

/-- The invariant. -/
structure DedicationInv (w : World σ) : Prop where
  wf : FreelistWf w.items
  out : Disjoint (outPages w.trace) (owned w.items)
  once : HandsOutOnce w.trace

theorem DedicationInv.pagesApart (h : DedicationInv w) : PagesApart w := by
  refine ⟨?_, h.once⟩
  have hsorted : w.items.Pairwise fun left right => left.end_ < right.start :=
    List.pairwise_map.mp h.wf.separated.2
  apply hsorted.imp
  intro left right hlt
  apply Set.disjoint_left.mpr
  rintro a ⟨-, hhi⟩ ⟨hlo, -⟩
  omega

theorem DedicationInv.congr {w' : World σ} (h : DedicationInv w) (hitems : w'.items = w.items)
    (htrace : w'.trace = w.trace) : DedicationInv w' := by
  constructor
  · rw [hitems]
    exact h.wf
  · rw [hitems, htrace]
    exact h.out
  · rw [htrace]
    exact h.once

/-- Span objects that are freed are no pages. -/
theorem freeNodes_trace (A : SysAllocator σ) (nodes : List Nat) (w : World σ) :
    outPages (freeNodes A nodes w).trace = outPages w.trace ∧
      (HandsOutOnce (freeNodes A nodes w).trace ↔ HandsOutOnce w.trace) := by
  induction nodes generalizing w with
  | nil => exact ⟨rfl, Iff.rfl⟩
  | cons node nodes ih => exact ih (sysfree A node w)

/-- A list of which 0 pages are asked is left alone. -/
theorem freelistAlloc_zero {items : List VpSpan} (hwf : FreelistWf items) :
    (freelistAlloc 0 items).items = items ∧ (freelistAlloc 0 items).freed = [] := by
  cases items with
  | nil => exact ⟨rfl, rfl⟩
  | cons span rest =>
      have hspan := hwf.nonempty List.mem_cons_self
      have hwidth := hwf.inWidth span List.mem_cons_self
      have hu : u64 (span.start + 0 * PGSIZE) = span.start := by
        rw [Nat.zero_mul, Nat.add_zero]
        exact u64_of_lt (hspan.trans hwidth)
      have hnonempty : ({ span with start := u64 (span.start + 0 * PGSIZE) } : VpSpan).empty = false := by
        rw [VpSpan.empty, hu]
        exact beq_false_of_ne hspan.ne
      unfold freelistAlloc
      dsimp only
      rw [if_pos (Nat.zero_le _), hnonempty, hu]
      exact ⟨rfl, rfl⟩

/-- The pages that are handed out were in the freelist, and are not any more. -/
theorem freelistAlloc_takes {items : List VpSpan} (hwf : FreelistWf items) (npages : Nat) :
    FreelistWf (freelistAlloc npages items).items ∧ owned (freelistAlloc npages items).items ⊆ owned items ∧
      ((freelistAlloc npages items).va ≠ 0 → region (freelistAlloc npages items).va npages ⊆ owned items ∧
        Disjoint (region (freelistAlloc npages items).va npages) (owned (freelistAlloc npages items).items) ∧
        (1 ≤ npages → (freelistAlloc npages items).va % PGSIZE = 0 ∧
          (freelistAlloc npages items).va + npages * PGSIZE < 2 ^ 64)) := by
  rcases Nat.eq_zero_or_pos npages with rfl | hpos
  · have hnone : region (freelistAlloc 0 items).va 0 = ∅ := by simp [region]
    rw [(freelistAlloc_zero hwf).1, hnone]
    exact ⟨hwf, subset_rfl, fun _ => ⟨Set.empty_subset _, Set.empty_disjoint _, fun hpos => absurd hpos (by decide)⟩⟩
  · rcases freelistAlloc_spec hwf hpos with ⟨heq, -⟩ | ⟨hleast, hwf', howned⟩
    · rw [heq]
      exact ⟨hwf, subset_rfl, fun hne => absurd rfl hne⟩
    · rw [howned]
      exact ⟨hwf', Set.sdiff_subset, fun _ => ⟨hleast.1.2, Set.disjoint_sdiff_right, fun _ =>
        ⟨hleast.1.1, region_width hwf hpos hleast.1⟩⟩⟩

/-- `NULL`: there is no region, or one at address 0. -/
theorem freelistAlloc_null {items : List VpSpan} (hwf : FreelistWf items) {npages va : Nat}
    (hnull : (freelistAlloc npages items).va = 0) (hva : 0 < va) :
    ¬ IsLeast {a | RunAt (owned items) npages a} va := by
  intro hleast
  rcases Nat.eq_zero_or_pos npages with rfl | hpos
  · have hzero : RunAt (owned items) 0 0 := ⟨rfl, by simp [region]⟩
    exact absurd (hleast.2 hzero) (Nat.not_le.mpr hva)
  · rcases freelistAlloc_spec hwf hpos with ⟨-, hnone⟩ | ⟨hfound, -, -⟩
    · exact hnone va hleast.1
    · rw [hnull] at hfound
      exact absurd (hfound.unique hleast) hva.ne

/-- What `vp_alloc` hands out can be given back. -/
theorem DedicationInv.alloc (h : DedicationInv w) (npages : Nat) :
    DedicationInv (vpAlloc A npages w).2 ∧
      ((vpAlloc A npages w).1 ≠ 0 → 1 ≤ npages →
        Freeable (owned (vpAlloc A npages w).2.items) (vpAlloc A npages w).1 npages) := by
  obtain ⟨hout, honce⟩ := freeNodes_trace A (freelistAlloc npages w.items).freed
    { w with items := (freelistAlloc npages w.items).items }
  have htrace : (vpAlloc A npages w).2.trace = .vpAlloc (freelistAlloc npages w.items).va npages ::
      (freeNodes A (freelistAlloc npages w.items).freed
        { w with items := (freelistAlloc npages w.items).items }).trace := rfl
  obtain ⟨hwf, hsubset, hpages⟩ := freelistAlloc_takes h.wf npages
  refine ⟨⟨?_, ?_, ?_⟩, fun hva hpos => ?_⟩
  · rw [vpAlloc_items]
    exact hwf
  · rw [vpAlloc_items, htrace, outPages, hout]
    have hold := h.out.mono_right hsubset
    split_ifs with hva
    · exact hold
    · exact Set.disjoint_union_left.mpr ⟨hold, (hpages hva).2.1⟩
  · rw [htrace, HandsOutOnce, hout]
    refine ⟨?_, honce.mpr h.once⟩
    by_cases hva : (freelistAlloc npages w.items).va = 0
    · exact Or.inl hva
    · exact Or.inr (h.out.symm.mono_left (hpages hva).1)
  · obtain ⟨-, hdisjoint, hfree⟩ := hpages hva
    obtain ⟨halign, hwidth⟩ := hfree hpos
    rw [vpAlloc_items]
    exact ⟨halign, hpos, hwidth, hdisjoint⟩

@[simp] theorem handsOutOnce_vpFree (p npages : Nat) (trace : List (Event σ)) :
    HandsOutOnce (.vpFree p npages :: trace) ↔ HandsOutOnce trace := Iff.rfl

theorem DedicationInv.give (h : DedicationInv w) (hf : Freeable (owned w.items) p npages) :
    DedicationInv (vpFree A p npages w).2 := by
  obtain ⟨hwf, howned⟩ := vpFree_wf (A := A) h.wf hf
  have htrace : outPages (vpFree A p npages w).2.trace = outPages w.trace \ region p npages ∧
      (HandsOutOnce (vpFree A p npages w).2.trace ↔ HandsOutOnce w.trace) := by
    unfold vpFree
    dsimp only
    rw [outPages, handsOutOnce_vpFree, (freeNodes_trace A _ _).1, (freeNodes_trace A _ _).2]
    cases freelistFreeNeedsNode w.items p npages <;> exact ⟨rfl, Iff.rfl⟩
  refine ⟨hwf, ?_, htrace.2.mpr h.once⟩
  rw [htrace.1]
  apply Set.disjoint_left.mpr
  rintro a ⟨hout, hnot⟩ ha
  rcases howned ha with hold | hnew
  · exact Set.disjoint_left.mp h.out hout hold
  · exact hnot hnew

/-- Nothing of a region of no pages can fail. -/
theorem ptMapRegion_zero (pt : PtState) (pa va flags : Nat) : ptMapRegion pt pa va (0 * PGSIZE) flags = (0, pt) := by
  have hturns : (0 * PGSIZE + PGSIZE - 1) / PGSIZE = 0 := by decide
  unfold ptMapRegion
  rw [hturns]
  rfl

theorem DedicationInv.vremapMapAt (h : DedicationInv w) (ptr : Nat) {va n : Nat}
    (hfree : 1 ≤ n → Freeable (owned w.items) va n) :
    DedicationInv (vremapMapAt A L ptr n va w).world := by
  obtain ⟨s, hs⟩ : ∃ s, ptMapRegion w.pt (roundDown (L.duneVaToPa ptr) PGSIZE) va (n * PGSIZE)
    (PTE_W ||| PTE_NX) = s := ⟨_, rfl⟩
  have hmapped : DedicationInv { w with pt := s.2 } := h.congr rfl rfl
  unfold Dangless.vremapMapAt
  dsimp only
  rw [hs]
  split_ifs with hfailed
  · have hpos : 1 ≤ n := by
      rcases Nat.eq_zero_or_pos n with rfl | hpos
      · rw [ptMapRegion_zero] at hs
        rw [← hs] at hfailed
        exact absurd hfailed (lt_irrefl 0)
      · exact hpos
    exact hmapped.give (hfree hpos)
  · exact hmapped

theorem DedicationInv.vremapMap (h : DedicationInv w) (ptr size : Nat) :
    DedicationInv (vremapMap A L ptr size w).world := by
  obtain ⟨halloc, hfree⟩ := h.alloc (A := A) (numSpannedPages ptr size)
  unfold Dangless.vremapMap
  dsimp only
  split_ifs with hva
  · exact halloc
  · exact halloc.vremapMapAt ptr (hfree hva)

theorem DedicationInv.autoDedicate (h : DedicationInv w) (hclear : ClearOfZero w) :
    DedicationInv (autoDedicateVmem A w) := by
  have hloop := autoDedicateLoop_keeps (A := A) (fun w' (hw' : DedicationInv w') => hw'.wf)
    (fun w' p npages hw' hf _ => hw'.give hf) h hclear le_rfl
  unfold autoDedicateVmem
  generalize autoDedicateLoop A w PT_NUM_ENTRIES = v at hloop ⊢
  exact hloop.1.congr rfl rfl

theorem vremapMap_noVm {ptr size : Nat} (h : (vremapMap A L ptr size w).result = EVREM_NO_VM) :
    (freelistAlloc (numSpannedPages ptr size) w.items).va = 0 ∧
      (vremapMap A L ptr size w).world = (vpAlloc A (numSpannedPages ptr size) w).2 := by
  unfold vremapMap at h ⊢
  dsimp only at h ⊢
  split_ifs at h ⊢ with hva
  · exact ⟨hva, rfl⟩
  · unfold vremapMapAt at h
    dsimp only at h
    split_ifs at h
    · exact absurd h (show EVREM_VIRT_MAP ≠ EVREM_NO_VM by decide)
    · exact absurd h (show VREM_OK ≠ EVREM_NO_VM by decide)

/-- The auto-dedication is safe where the freelist owns nothing that it finds unused. -/
theorem DedicationInv.vremapRetry (h : DedicationInv w) {ptr size : Nat}
    (hclear : w.autoDedicated = false →
      (∀ va, 0 < va → ¬ IsLeast {a | RunAt (owned w.items) (numSpannedPages ptr size) a} va) → ClearOfZero w) :
    DedicationInv (vremapRetry A L ptr size w).world := by
  have hfirst := h.vremapMap (A := A) (L := L) ptr size
  unfold Dangless.vremapRetry
  dsimp only
  split_ifs with hretry
  · obtain ⟨hnoVm, hnot⟩ := hretry
    obtain ⟨hnull, hworld⟩ := vremapMap_noVm hnoVm
    rw [hworld] at hnot hfirst ⊢
    rw [vpAlloc_autoDedicated, Bool.not_eq_true'] at hnot
    have hbefore : ClearOfZero w := hclear hnot fun va => freelistAlloc_null h.wf hnull
    have hnow : ClearOfZero (vpAlloc A (numSpannedPages ptr size) w).2 := by
      intro a ha
      rw [vpAlloc_items] at ha
      rw [vpAlloc_pt]
      exact hbefore a ((freelistAlloc_takes h.wf _).2.1 ha)
    exact (hfirst.autoDedicate hnow).vremapMap ptr size
  · exact hfirst

/-- `dangless_malloc(size)` comes to `auto_dedicate_vmem`: the hook is entered, there is a block, no call has
dedicated before, and no region but one at address 0 is there for its pages. -/
def AutoDedicates (A : SysAllocator σ) (size : Nat) (w : World σ) : Prop :=
  w.hookDepth = 0 ∧ w.kernelMode = true ∧ (A.malloc size w.sys).1 ≠ 0 ∧ size ≠ 0 ∧ w.autoDedicated = false ∧
    ∀ va, 0 < va → ¬ IsLeast {a | RunAt (owned w.items) (numSpannedPages (A.malloc size w.sys).1
      (A.mallocUsableSize (A.malloc size w.sys).1 (A.malloc size w.sys).2)) a} va

theorem DedicationInv.doVremap (h : DedicationInv w) (ptr size : Nat)
    (hclear : ptr ≠ 0 → size ≠ 0 → w.autoDedicated = false →
      (∀ va, 0 < va → ¬ IsLeast {a | RunAt (owned w.items)
        (numSpannedPages ptr (A.mallocUsableSize ptr w.sys)) a} va) → ClearOfZero w) :
    DedicationInv (doVremap A L ptr size w).2 := by
  unfold Dangless.doVremap
  dsimp only
  split_ifs with hnothing hfailed
  · exact h
  all_goals
    obtain ⟨hptr, hsize⟩ := not_or.mp hnothing
    have hasked : DedicationInv (sysmallocUsableSize A ptr w).2 := ⟨h.wf, h.out, h.once⟩
    exact hasked.vremapRetry (hclear hptr hsize)

theorem DedicationInv.malloc (h : DedicationInv w) {size : Nat}
    (hclear : AutoDedicates A size w → ClearOfZero w) :
    DedicationInv (danglessMalloc A L size w).2 := by
  have hblock : DedicationInv (sysmalloc A size w).2 := h.congr rfl rfl
  unfold danglessMalloc
  dsimp only
  cases henter : hookEnter (sysmalloc A size w).2 with
  | none => exact hblock
  | some w1 =>
      unfold hookEnter at henter
      split_ifs at henter with hdepth hmode
      cases henter
      have hentered : DedicationInv { (sysmalloc A size w).2 with
          hookDepth := (sysmalloc A size w).2.hookDepth + 1 } := hblock.congr rfl rfl
      have hmapped := hentered.doVremap (A := A) (L := L) (sysmalloc A size w).1 size
        fun hptr hsize hnot hnone => hclear
          ⟨Nat.eq_zero_of_not_pos hdepth, by simpa [sysmalloc] using hmode, hptr, hsize, hnot, hnone⟩
      exact hmapped.congr rfl rfl

/-- The calls of the program. -/
inductive VmemCall where
  | dedicate (start end_ : Nat)
  | malloc (size : Nat)

/-- The state with the addresses that the program has dedicated itself. -/
structure VmemState (σ : Type) where
  world : World σ
  dedicated : Set Nat

/-- One call. A region that is dedicated is page-aligned, not mapped, and apart from the ones before. -/
inductive VmemStep (A : SysAllocator σ) (L : DuneLayout) : VmemState σ → VmemCall → VmemState σ → Prop
  | dedicate (s : VmemState σ) (start end_ : Nat) (haligned : start % PGSIZE = 0 ∧ end_ % PGSIZE = 0)
      (hlt : start < end_) (hwidth : end_ < 2 ^ 64)
      (hunmapped : ∀ a ∈ Set.Ico start end_, s.world.pt.entry a = none)
      (hapart : Disjoint (Set.Ico start end_) s.dedicated) :
      VmemStep A L s (.dedicate start end_)
        ⟨(danglessDedicateVmem A start end_ s.world).2, s.dedicated ∪ Set.Ico start end_⟩
  | malloc (s : VmemState σ) (size : Nat) :
      VmemStep A L s (.malloc size) ⟨(danglessMalloc A L size s.world).2, s.dedicated⟩

/-- The program dedicates nothing that the freelist owns, and nothing is auto-dedicated while the freelist owns
a page under a top-level entry that is 0. -/
def KeepsPagesApart (A : SysAllocator σ) (w : World σ) : VmemCall → Prop
  | .dedicate start end_ => Disjoint (Set.Ico start end_) (owned w.items)
  | .malloc size => AutoDedicates A size w → ClearOfZero w

theorem DedicationInv.dedicate (h : DedicationInv w) {start end_ : Nat}
    (haligned : start % PGSIZE = 0 ∧ end_ % PGSIZE = 0) (hlt : start < end_) (hwidth : end_ < 2 ^ 64)
    (hapart : Disjoint (Set.Ico start end_) (owned w.items)) :
    DedicationInv (danglessDedicateVmem A start end_ w).2 := by
  obtain ⟨hstart, hend⟩ := haligned
  have hlength : u64 (end_ + 2 ^ 64 - start) = end_ - start := by
    rw [u64]
    omega
  have hpages : start + (end_ - start) / PGSIZE * PGSIZE = end_ := by
    simp only [PGSIZE] at *
    omega
  have hregion : region start ((end_ - start) / PGSIZE) = Set.Ico start end_ := by
    rw [region, hpages]
  unfold danglessDedicateVmem vpFreeRegion
  rw [hlength]
  refine h.give ⟨hstart, ?_, ?_, ?_⟩
  · simp only [PGSIZE] at *
    omega
  · rw [hpages]
    exact hwidth
  · rw [hregion]
    exact hapart

theorem DedicationInv.step {s s' : VmemState σ} {call : VmemCall} (h : DedicationInv s.world)
    (hstep : VmemStep A L s call s') (hkeeps : KeepsPagesApart A s.world call) : DedicationInv s'.world := by
  cases hstep with
  | dedicate start end_ haligned hlt hwidth => exact h.dedicate haligned hlt hwidth hkeeps
  | malloc size => exact h.malloc hkeeps

theorem pagesApart_of_run {calls : List VmemCall} {s : VmemState σ} (hitems : w.items = []) (htrace : w.trace = [])
    (hrun : Lts.Run (fun s call s' => VmemStep A L s call s' ∧ KeepsPagesApart A s.world call) ⟨w, ∅⟩ calls s) :
    PagesApart s.world := by
  have hstart : DedicationInv w := by
    refine ⟨hitems ▸ freelistWf_nil, ?_, htrace ▸ trivial⟩
    rw [htrace]
    exact Set.empty_disjoint _
  have hinv := hrun.invariant (I := fun s => DedicationInv s.world)
    (fun s call s' h hstep => h.step hstep.1 hstep.2) hstart
  exact hinv.pagesApart

/-- The process has dedicated one page at 512 GB. -/
def onePage : VmemState BumpHeap :=
  ⟨(danglessDedicateVmem bumpAllocator PHYS_LIMIT (PHYS_LIMIT + PGSIZE) duneWorld).2,
    ∅ ∪ Set.Ico PHYS_LIMIT (PHYS_LIMIT + PGSIZE)⟩

/-- What follows is a call of `dangless_malloc`. -/
def VmemState.malloc (s : VmemState BumpHeap) (size : Nat) : VmemState BumpHeap :=
  ⟨(danglessMalloc bumpAllocator duneLayout size s.world).2, s.dedicated⟩

theorem VmemState.malloc_step (s : VmemState BumpHeap) (size : Nat) :
    VmemStep bumpAllocator duneLayout s (.malloc size) (s.malloc size) := VmemStep.malloc s size

theorem onePage_step : VmemStep bumpAllocator duneLayout ⟨duneWorld, ∅⟩
    (.dedicate PHYS_LIMIT (PHYS_LIMIT + PGSIZE)) onePage := by
  apply VmemStep.dedicate
  · decide
  · decide
  · decide
  · rintro a ⟨hlo, hhi⟩
    apply duneTables_entry
    have hslot : a ∈ region (1 * 2 ^ 39) (2 ^ 27) := by
      rw [mem_region]
      simp only [PHYS_LIMIT, PGSIZE] at *
      omega
    rw [(mem_slotRegion (by decide) hslot).2]
    rfl
  · exact Set.disjoint_empty _

theorem onePage_items : onePage.world.items = [⟨PGSIZE, PHYS_LIMIT, PHYS_LIMIT + PGSIZE⟩] := by decide +kernel

/-- The first block takes the page, and nothing is left where the second comes to the auto-dedication. -/
theorem pagesApart_of_run_onePage : PagesApart ((onePage.malloc 32).malloc 32).world := by
  have hdedicate : KeepsPagesApart bumpAllocator duneWorld (.dedicate PHYS_LIMIT (PHYS_LIMIT + PGSIZE)) := by
    have hnone : owned duneWorld.items = ∅ := owned_nil
    rw [KeepsPagesApart, hnone]
    exact Set.disjoint_empty _
  have hfirst : KeepsPagesApart bumpAllocator onePage.world (.malloc 32) := by
    rintro ⟨-, -, -, -, -, hnone⟩
    have hpages : numSpannedPages (bumpAllocator.malloc 32 onePage.world.sys).1
        (bumpAllocator.mallocUsableSize (bumpAllocator.malloc 32 onePage.world.sys).1
          (bumpAllocator.malloc 32 onePage.world.sys).2) = 1 := by decide +kernel
    rw [hpages, onePage_items, owned_cons, owned_nil, Set.union_empty] at hnone
    refine absurd ⟨⟨by decide, ?_⟩, ?_⟩ (hnone PHYS_LIMIT (by decide))
    · exact subset_rfl
    · rintro a ⟨-, ha⟩
      exact (ha ⟨le_rfl, Nat.lt_add_of_pos_right (by decide)⟩).1
  have hsecond : KeepsPagesApart bumpAllocator (onePage.malloc 32).world (.malloc 32) := by
    intro _ a ha
    have hitems : (onePage.malloc 32).world.items = [] := by decide +kernel
    rw [hitems, owned_nil] at ha
    exact absurd ha (Set.notMem_empty a)
  have hstart : Lts.Run (fun s call s' => VmemStep bumpAllocator duneLayout s call s' ∧
      KeepsPagesApart bumpAllocator s.world call) ⟨duneWorld, ∅⟩ [] ⟨duneWorld, ∅⟩ := Lts.Run.nil _
  exact pagesApart_of_run rfl rfl (((hstart.snoc ⟨onePage_step, hdedicate⟩).snoc
    ⟨VmemState.malloc_step _ 32, hfirst⟩).snoc ⟨VmemState.malloc_step _ 32, hsecond⟩)

/-- The last event hands out a page that is out. -/
def HandsOutAgain : List (Event σ) → Prop
  | .vpAlloc va npages :: trace => va ≠ 0 ∧ 0 < npages ∧ va ∈ outPages trace
  | _ => False

instance decidableAgain : (trace : List (Event σ)) → Decidable (HandsOutAgain trace)
  | .vpAlloc va npages :: trace => inferInstanceAs (Decidable (va ≠ 0 ∧ 0 < npages ∧ va ∈ outPages trace))
  | [] | .vpFree _ _ :: _ | .sysrealloc _ _ :: _ | .sysfree _ _ :: _ | .mallocUsableSize _ _ :: _ =>
      inferInstanceAs (Decidable False)

theorem HandsOutAgain.not_once {trace : List (Event σ)} (h : HandsOutAgain trace) : ¬ HandsOutOnce trace := by
  intro honce
  cases trace with
  | nil => exact h
  | cons event trace =>
      cases event with
      | vpAlloc va npages =>
          obtain ⟨hva, hpos, hout⟩ := h
          rcases honce.1 with hzero | hapart
          · exact hva hzero
          · refine Set.disjoint_left.mp hapart ⟨le_rfl, ?_⟩ hout
            simp only [PGSIZE]
            omega
      | _ => exact h

theorem HandsOutAgain.not_pagesApart (h : HandsOutAgain w.trace) : ¬ PagesApart w :=
  fun hapart => h.not_once hapart.once

/-- A block that does not fit comes to the auto-dedication, and the next one gets a page that is out. -/
theorem onePage_again : HandsOutAgain ((onePage.malloc 8192).malloc 32).world.trace := by decide +kernel

theorem pagesApart_not_of_run : ∃ calls s, Lts.Run (VmemStep bumpAllocator duneLayout) ⟨duneWorld, ∅⟩ calls s ∧
    ¬ PagesApart s.world := by
  have hstart : Lts.Run (VmemStep bumpAllocator duneLayout) ⟨duneWorld, ∅⟩ [] ⟨duneWorld, ∅⟩ := Lts.Run.nil _
  have hrun := ((hstart.snoc onePage_step).snoc (VmemState.malloc_step _ 8192)).snoc
    (VmemState.malloc_step _ 32)
  exact ⟨_, _, hrun, onePage_again.not_pagesApart⟩

end Dangless
