import Dangless.AutoDedicate
import Dangless.PageTableTrace

/-! The calls of the allocator follow the protocol of the page tables. -/

namespace Dangless

variable {σ : Type} {A : SysAllocator σ} {L : DuneLayout} {C : SysContract A L}
  {Z : Fin PT_NUM_ENTRIES → Prop} {others : Set Nat} {maps : List Mapping} {blocks : List (Nat × Nat)}
  {w w' : World σ} {b u size : Nat} {m : Mapping} {H : Set Nat} {p n a : Nat}

/-- The assertions of `vremap_map` about a block that is live. -/
theorem vremapMapChecks_trace (h : WorldInv C Z others maps blocks w) (hb : (b, u) ∈ blocks) (hu : 0 < u)
    (hkernel : w.kernelMode = true) : PtTrace Z w.pt H (vremapMapChecks L b u w) w.pt H := by
  have hblock : L.HomeBlock b u := h.sys.homeBlock hb
  have hend : b + u ≤ 2 ^ 47 := by
    have hmmap := L.mmapEnd_le
    have hstack := L.stackEnd_le
    rcases hblock with ⟨-, -, hend⟩ | ⟨-, -, hend⟩ <;> simp only [GPA_STACK_SIZE] at * <;> omega
  have hresolve := h.remap.home b hblock.home
  have hpage : (ptResolvePage w.pt b).1 ≠ 0 ∧
      u64 ((ptResolvePage w.pt b).1 + getPageOffset b (ptResolvePage w.pt b).2) = L.duneVaToPa b := by
    have hne := hblock.home.pa_ne_zero
    rw [← hresolve] at hne ⊢
    unfold ptResolve at hne ⊢
    dsimp only at hne ⊢
    split_ifs at hne ⊢ with hzero
    · exact absurd rfl hne
    · exact ⟨hzero, rfl⟩
  have hcount : numSpannedPages b u = roundUp (u64 (getPageOffset b .l1 + u)) PGSIZE / PGSIZE := by
    have hlt : b % PGSIZE + u + PGSIZE < 2 ^ 64 := by
      simp only [PGSIZE]
      omega
    rw [numSpannedPages_eq (by simp only [PGSIZE]; omega), getPageOffset_l1,
      u64_of_lt (by simp only [PGSIZE] at *; omega), roundUp_eq (by simp only [PGSIZE] at *; omega)]
    simp only [PGSIZE]
    omega
  have hchecks : PtTrace Z w.pt H ([decide (b ≠ 0 ∧ u ≠ 0), w.kernelMode,
      decide (numSpannedPages b u = roundUp (u64 (getPageOffset b .l1 + u)) PGSIZE / PGSIZE),
      decide ((ptResolvePage w.pt b).1 ≠ 0),
      decide (u64 ((ptResolvePage w.pt b).1 + getPageOffset b (ptResolvePage w.pt b).2) = L.duneVaToPa b)].map
        PtOp.check) w.pt H := by
    apply PtTrace.checks
    have hb0 := hblock.home.ne_zero
    simp only [List.forall_mem_cons, decide_eq_true_eq]
    exact ⟨⟨hb0, by omega⟩, hkernel, hcount, hpage.1, hpage.2, by simp⟩
  exact hchecks

theorem vremapMapAt_pt (ptr npages va : Nat) (w : World σ) : (vremapMapAt A L ptr npages va w).world.pt =
    (ptMapRegion w.pt (roundDown (L.duneVaToPa ptr) PGSIZE) va (npages * PGSIZE) vremapFlags).2 := by
  unfold vremapMapAt
  dsimp only
  rw [show PTE_W ||| PTE_NX = vremapFlags from rfl]
  split_ifs
  · exact vpFree_pt A _ va npages
  · rfl

theorem ptResolvePage_of_entry_absent {s : PtState} (h : s.entry a = none) : (ptResolvePage s a).1 = 0 := by
  have hinvalid := PtState.entry_eq_none.mp h
  unfold ptResolvePage
  dsimp only
  rw [hinvalid]
  rfl

/-- `vremap_map` maps pages that it has just taken from the freelist. -/
theorem vremapMap_trace (hZ : SlotsOk L Z) (h : WorldInv C Z others maps blocks w) (hb : (b, u) ∈ blocks)
    (hu : 0 < u) (hkernel : w.kernelMode = true) (hfresh : Disjoint (owned w.items) H) :
    PtTrace Z w.pt H (vremapMapOps A L b u w) (vremapMap A L b u w).world.pt H := by
  have hblock : L.HomeBlock b u := h.sys.homeBlock hb
  have hn : 1 ≤ numSpannedPages b u := numSpannedPages_pos hblock hu
  have hchecks : PtTrace Z w.pt H (vremapMapChecks L b u w) w.pt H := vremapMapChecks_trace h hb hu hkernel
  unfold vremapMapOps vremapMap
  dsimp only
  refine hchecks.trans ?_
  rw [vpAlloc_va]
  rcases freelistAlloc_spec h.remap.wf hn with ⟨heq, -⟩ | ⟨⟨⟨halign, hrun⟩, -⟩, -, -⟩
  · rw [heq, if_pos rfl, if_pos rfl]
    show PtTrace Z w.pt H [] (vpAlloc A _ w).2.pt H
    rw [vpAlloc_pt]
    exact .nil
  · generalize hva : (freelistAlloc (numSpannedPages b u) w.items).va = va at *
    have hva0 : va ≠ 0 := by
      rintro rfl
      refine zero_notMem_vmem hZ (h.remap.ownedIn (hrun ?_))
      rw [mem_region]
      simp only [PGSIZE]
      omega
    have hin := hrun.trans h.remap.ownedIn
    have hbound := region_bound hn hin
    have hunmapped : ∀ k, k < numSpannedPages b u → w.pt.entry (pgOffset va k) = none := by
      intro k hk
      have hpage := page_mem_region hbound hk
      exact h.remap.unmapped _ (hin hpage) fun m hm hmem =>
        Set.disjoint_left.mp (h.remap.mapsOwned m hm) hmem (hrun hpage)
    have hmap : CanMap Z w.pt H (roundDown (L.duneVaToPa b) PGSIZE) va (numSpannedPages b u) :=
      ⟨h.remap.tables, roundDown_aligned _, halign, hn, hin, hunmapped, hfresh.mono_left hrun⟩
    have hpages : PtTrace Z w.pt H (vremapMapAtChecks (numSpannedPages b u) va (vpAlloc A (numSpannedPages b u) w).2)
        w.pt H := by
      have hconditions : vremapMapAtChecks (numSpannedPages b u) va (vpAlloc A (numSpannedPages b u) w).2 =
          ((List.range (numSpannedPages b u)).map fun i =>
            decide ((ptResolvePage w.pt (pgOffset va i)).1 = 0)).map PtOp.check := by
        rw [vremapMapAtChecks, List.map_map, vpAlloc_pt]
        rfl
      rw [hconditions]
      apply PtTrace.checks
      simp only [List.mem_map, List.mem_range]
      rintro c ⟨k, hk, rfl⟩
      exact decide_eq_true (ptResolvePage_of_entry_absent (hunmapped k hk))
    rw [if_neg hva0, if_neg hva0, vremapMapAt_pt, vpAlloc_pt]
    exact hpages.trans hmap.region

/-- Pages that were invalidated are not handed out again. -/
theorem disjoint_owned_of_outOfUse (hout : ∀ a ∈ H, OutOfUse Z maps w a) : Disjoint (owned w.items) H :=
  Set.disjoint_left.mpr fun a howned ha => (hout a ha).notUsed (Or.inl howned)

theorem autoDedicateVmem_pt (w : World σ) : (autoDedicateVmem A w).pt = w.pt := by
  have hpt := autoDedicateLoop_pt (A := A) w PT_NUM_ENTRIES
  unfold autoDedicateVmem
  generalize autoDedicateLoop A w PT_NUM_ENTRIES = v at hpt ⊢
  exact hpt

theorem vremapRetry_trace (hZ : SlotsOk L Z) (h : Sound C Z others maps blocks w) (hb : (b, u) ∈ blocks)
    (hu : 0 < u) (hkernel : w.kernelMode = true) (hout : ∀ a ∈ H, OutOfUse Z maps w a) :
    PtTrace Z w.pt H (vremapRetryOps A L b u w) (vremapRetry A L b u w).world.pt H := by
  have hfirst := vremapMap_trace hZ h.toWorldInv hb hu hkernel (disjoint_owned_of_outOfUse hout)
  obtain ⟨r, hr⟩ : ∃ r, vremapMap A L b u w = r := ⟨_, rfl⟩
  obtain ⟨hmodes, hauto, -, hresult⟩ := vremapMap_inv hZ h.toWorldInv hb hu hr
  unfold vremapRetryOps vremapRetry
  dsimp only
  rw [hr] at hfirst ⊢
  split_ifs with hretry
  · obtain ⟨hnoVm, hnot⟩ := hretry
    rw [Bool.not_eq_true'] at hnot
    -- before virtual memory is dedicated nothing was invalidated
    have hempty : H = ∅ := by
      refine Set.eq_empty_of_forall_notMem fun a ha => ?_
      have hded := (hout a ha).dedicated
      rw [← hauto, hnot] at hded
      cases hded
    cases hresult with
    | noVm _ hitems hinv =>
        rw [(h.undedicated (hauto.symm.trans hnot)).1] at hitems
        obtain ⟨hsound, hspends⟩ := autoDedicateVmem_sound hinv hitems hnot
        have hpt := autoDedicateVmem_pt (A := A) r.world
        have hkernel' : (autoDedicateVmem A r.world).kernelMode = true := by
          have hsame := hspends.modes.trans hmodes
          simp only [World.modes, Prod.mk.injEq] at hsame
          exact hsame.1.trans hkernel
        have hsecond := vremapMap_trace (H := H) hZ hsound.toWorldInv hb hu hkernel'
          (by rw [hempty]; exact Set.disjoint_empty _)
        rw [hpt] at hsecond
        exact hfirst.trans hsecond
    | virtMap hvirt _ => exact absurd (hnoVm.symm.trans hvirt) (by decide)
    | ok hok _ _ => exact absurd (hnoVm.symm.trans hok) (by decide)
  · rw [List.append_nil]
    exact hfirst

theorem doVremap_trace (hZ : SlotsOk L Z) (h : Sound C Z others maps blocks w) (hb : (b, u) ∈ blocks)
    (hle : size ≤ u) (hkernel : w.kernelMode = true) (hout : ∀ a ∈ H, OutOfUse Z maps w a) :
    PtTrace Z w.pt H (doVremapOps A L b size w) (doVremap A L b size w).2.pt H := by
  have hb0 : b ≠ 0 := (h.sys.homeBlock hb).home.ne_zero
  unfold doVremapOps doVremap
  by_cases hsize : size = 0
  · rw [if_pos (Or.inr hsize), if_pos (Or.inr hsize)]
    exact .nil
  rw [if_neg (by simp [hb0, hsize]), if_neg (by simp [hb0, hsize])]
  dsimp only
  have husable : (sysmallocUsableSize A b w).1 = u := h.sys.usable _ hb
  have hw1 : Sound C Z others maps blocks (sysmallocUsableSize A b w).2 :=
    ⟨⟨h.sys.event (h.sys.mem_live hb), h.remap⟩, h.undedicated⟩
  have hout1 : ∀ a ∈ H, OutOfUse Z maps (sysmallocUsableSize A b w).2 a := fun a ha =>
    (hout a ha).spends (Spends.same maps rfl rfl rfl)
  rw [husable]
  have htrace := vremapRetry_trace hZ hw1 hb (by omega) hkernel hout1
  split_ifs
  · exact htrace
  · exact htrace

theorem doVremapOps_null (n : Nat) (w : World σ) : doVremapOps A L 0 n w = [] := if_pos (Or.inl rfl)

theorem OutOfUse.mono {maps' : List Mapping} (h : OutOfUse Z maps w a) (hsub : maps' ⊆ maps) :
    OutOfUse Z maps' w a := by
  refine ⟨h.dedicated, h.inVmem, fun hused => h.notUsed ?_⟩
  rcases hused with howned | ⟨m, hm, ha⟩
  · exact Or.inl howned
  · exact Or.inr ⟨m, hsub hm, ha⟩

/-- The end of a region may be invalidated. -/
theorem RemapInv.canInvalidate {items : List VpSpan} {pt : PtState} (h : RemapInv L Z (m :: maps) items pt)
    (hn : n ≤ m.npages) (hp : roundDown p PGSIZE = m.base + n * PGSIZE) : CanInvalidate Z pt p (m.npages - n) := by
  have hok := h.mapsOk m List.mem_cons_self
  have hbound := hok.bound
  have hle : n * PGSIZE ≤ m.npages * PGSIZE := Nat.mul_le_mul_right _ hn
  refine ⟨h.tables, ?_, fun a ha => hok.inVmem ?_, fun k hk => ?_⟩
  · rw [hp, Nat.sub_mul]
    omega
  · rw [hp, mem_region, Nat.sub_mul] at ha
    rw [Mapping.pages, mem_region]
    omega
  · rw [hp, hok.pgOffset_add (by omega)]
    exact ⟨_, hok.mapped (n + k) (by omega) _ rfl⟩

theorem RemapInv.canInvalidateAll {items : List VpSpan} {pt : PtState} (h : RemapInv L Z (m :: maps) items pt) :
    CanInvalidate Z pt m.ptr m.npages := h.canInvalidate (n := 0) (Nat.zero_le _) (by simp [Mapping.base])

theorem danglessFreeHooked_trace (hZ : SlotsOk L Z) (h : Sound C Z others (m :: maps) ((b, u) :: blocks) w)
    (hm : m.Of b u) (hu : 0 < u) (hkernel : w.kernelMode = true) :
    PtTrace Z w.pt H (danglessFreeHookedOps A L m.ptr w) (danglessFreeHooked A L m.ptr w).pt (H ∪ m.pages) := by
  have hresolve := (h.resolve hZ List.mem_cons_self List.mem_cons_self hm hu).2
  have hnpages : numSpannedPages b (A.mallocUsableSize b w.sys) = m.npages := by
    rw [hm.npages, h.sys.usable _ List.mem_cons_self]
  unfold danglessFreeHookedOps danglessFreeHooked
  rw [hresolve, hkernel]
  dsimp only [Option.getD_some, sysmallocSpannedPages, sysmallocUsableSize]
  rw [if_pos rfl, if_pos rfl, hnpages]
  exact h.remap.canInvalidateAll.region.cons

theorem danglessFreeHooked_trace_home (h : Sound C Z others maps ((b, u) :: blocks) w)
    (hkernel : w.kernelMode = true) :
    PtTrace Z w.pt H (danglessFreeHookedOps A L b w) (danglessFreeHooked A L b w).pt H := by
  have hresolve := h.remap.vremapResolve_home (h.sys.homeBlock List.mem_cons_self).home
  unfold danglessFreeHookedOps danglessFreeHooked
  rw [hresolve, hkernel]
  dsimp only
  rw [if_neg (by decide), if_neg (by decide)]
  exact PtTrace.check .nil

/-- The pages of a region that `dangless_realloc` invalidates once the library has answered with a block: those past
the new last page where the block stays, else all. -/
def releasedPages (A : SysAllocator σ) (m : Mapping) (b : Nat) (r : Nat × σ) : Set Nat :=
  {a ∈ m.pages | r.1 = b → reallocPages A r ≤ m.npages → m.base + reallocPages A r * PGSIZE ≤ a}

/-- The pages of a region from `k` on. -/
theorem pages_from (m : Mapping) {k : Nat} (hk : k ≤ m.npages) :
    region (m.base + k * PGSIZE) (m.npages - k) = {a ∈ m.pages | m.base + k * PGSIZE ≤ a} := by
  have hle : k * PGSIZE ≤ m.npages * PGSIZE := Nat.mul_le_mul_right _ hk
  ext a
  rw [Set.mem_ofPred_eq, Mapping.pages, mem_region, mem_region, Nat.sub_mul]
  omega

theorem danglessReallocNew_trace {newp u' : Nat} (hZ : SlotsOk L Z)
    (hsys : SysInv C others ((newp, u') :: blocks) w) (hremap : RemapInv L Z (m :: maps) w.items w.pt)
    (hauto : Undedicated (m :: maps) w) (hn : 1 ≤ m.npages) (hle : n ≤ u') (hblock : m.block = b)
    (hkernel : w.kernelMode = true) (hout : ∀ a ∈ H, OutOfUse Z (m :: maps) w a) :
    PtTrace Z w.pt H (danglessReallocNewOps A L m.ptr b m.npages newp n w)
      (danglessReallocNew A L m.ptr b m.npages newp n w).2.pt (H ∪ releasedPages A m b (newp, w.sys)) := by
  have husable : A.mallocUsableSize newp w.sys = u' := hsys.usable _ List.mem_cons_self
  have hpages : reallocPages A (newp, w.sys) = numSpannedPages newp u' := by rw [reallocPages, husable]
  have hevent : SysInv C others ((newp, u') :: blocks) (sysmallocUsableSize A newp w).2 :=
    hsys.event (hsys.mem_live List.mem_cons_self)
  have hremap1 : RemapInv L Z (m :: maps) (sysmallocUsableSize A newp w).2.items
      (sysmallocUsableSize A newp w).2.pt := hremap
  have hauto1 : Undedicated (m :: maps) (sysmallocUsableSize A newp w).2 := hauto
  have hout1 : ∀ a ∈ H, OutOfUse Z (m :: maps) (sysmallocUsableSize A newp w).2 a := fun a ha =>
    (hout a ha).spends (Spends.same _ rfl rfl rfl)
  have hkernel1 : (sysmallocUsableSize A newp w).2.kernelMode = true := hkernel
  unfold danglessReallocNewOps danglessReallocNew releasedPages
  dsimp only
  rw [show (sysmallocUsableSize A newp w).1 = u' from husable, hpages,
    show w.pt = (sysmallocUsableSize A newp w).2.pt from rfl, decide_eq_true hle]
  generalize (sysmallocUsableSize A newp w).2 = w1 at hevent hremap1 hauto1 hout1 hkernel1 ⊢
  refine PtTrace.cons ?_
  by_cases hsame : newp = b ∧ numSpannedPages newp u' ≤ m.npages
  · obtain ⟨rfl, hfewer⟩ := hsame
    have hset : {a ∈ m.pages | newp = newp → numSpannedPages newp u' ≤ m.npages →
        m.base + numSpannedPages newp u' * PGSIZE ≤ a} =
          region (m.base + numSpannedPages newp u' * PGSIZE) (m.npages - numSpannedPages newp u') := by
      rw [pages_from m hfewer]
      ext a
      simp [hfewer]
    rw [hset]
    by_cases hequal : numSpannedPages newp u' = m.npages
    · have hkept : newp = newp ∧ numSpannedPages newp u' = m.npages := ⟨rfl, hequal⟩
      have hnone : region (m.base + m.npages * PGSIZE) 0 = ∅ := by simp [region]
      rw [if_pos hkept, if_pos hkept, hequal, Nat.sub_self, hnone, Set.union_empty]
      exact .nil
    · have hnotKept : ¬ (newp = newp ∧ numSpannedPages newp u' = m.npages) := fun h => hequal h.2
      have hshrunk : newp = newp ∧ numSpannedPages newp u' < m.npages := ⟨rfl, by omega⟩
      rw [if_neg hnotKept, if_pos hshrunk, if_neg hnotKept, if_pos hshrunk]
      have hhome : L.HomeBlock m.block u' := by
        rw [hblock]
        exact hsys.homeBlock List.mem_cons_self
      have hfrom := (hremap1.mapsOk m List.mem_cons_self).cut_point hn hhome
      rw [hblock] at hfrom
      rw [← hfrom]
      exact (hremap1.canInvalidate hfewer hfrom).region
  · have hset : {a ∈ m.pages | newp = b → numSpannedPages newp u' ≤ m.npages →
        m.base + numSpannedPages newp u' * PGSIZE ≤ a} = m.pages := by
      ext a
      exact ⟨fun ha => ha.1, fun ha => ⟨ha, fun heq hfewer => absurd ⟨heq, hfewer⟩ hsame⟩⟩
    have hnotKept : ¬ (newp = b ∧ numSpannedPages newp u' = m.npages) := fun h => hsame ⟨h.1, h.2.le⟩
    have hnotShrunk : ¬ (newp = b ∧ numSpannedPages newp u' < m.npages) := fun h => hsame ⟨h.1, h.2.le⟩
    rw [hset, if_neg hnotKept, if_neg hnotShrunk, if_neg hnotKept, if_neg hnotShrunk]
    have hsound0 : Sound C Z others (m :: maps) ((newp, u') :: blocks) w1 := ⟨⟨hevent, hremap1⟩, hauto1⟩
    have hsound : Sound C Z others maps ((newp, u') :: blocks)
        { w1 with pt := virtualInvalidate w1.pt m.ptr m.npages } :=
      ⟨⟨hevent.retable _, hremap1.invalidateAll hZ⟩,
        hauto1.retable _ fun hnil => absurd hnil (List.cons_ne_nil _ _)⟩
    have hspends : Spends maps w1 maps { w1 with pt := virtualInvalidate w1.pt m.ptr m.npages } :=
      Spends.retable _ _ _
    refine hremap1.canInvalidateAll.region.trans (doVremap_trace hZ hsound List.mem_cons_self hle hkernel1 ?_)
    rintro a (ha | ha)
    · exact ((hout1 a ha).mono (List.subset_cons_self _ _)).spends hspends
    · exact hsound0.outOfUse hspends ha

theorem danglessReallocRemapped_trace (hZ : SlotsOk L Z) (h : Sound C Z others (m :: maps) ((b, u) :: blocks) w)
    (hm : m.Of b u) (hu : 0 < u) (hkernel : w.kernelMode = true) (hout : ∀ a ∈ H, OutOfUse Z (m :: maps) w a) :
    PtTrace Z w.pt H (danglessReallocRemappedOps A L m.ptr b n w) (danglessReallocRemapped A L m.ptr b n w).2.pt
      (H ∪ {a ∈ releasedPages A m b (A.realloc b n w.sys) | (A.realloc b n w.sys).1 ≠ 0}) := by
  obtain ⟨hn, -⟩ := h.resolve hZ List.mem_cons_self List.mem_cons_self hm hu
  have hevent : SysInv C others ((b, u) :: blocks) (sysmallocUsableSize A b w).2 :=
    h.sys.event (h.sys.mem_live List.mem_cons_self)
  have hnpages : numSpannedPages b (sysmallocUsableSize A b w).1 = m.npages := by
    rw [hm.npages, show (sysmallocUsableSize A b w).1 = u from h.sys.usable _ List.mem_cons_self]
  unfold danglessReallocRemappedOps danglessReallocRemapped
  dsimp only
  rw [hnpages]
  have hundedicated : Undedicated (m :: maps) (sysrealloc A b n (sysmallocUsableSize A b w).2).2 := h.undedicated
  have hout' : ∀ a ∈ H, OutOfUse Z (m :: maps) (sysrealloc A b n (sysmallocUsableSize A b w).2).2 a := fun a ha =>
    (hout a ha).spends (Spends.same _ rfl rfl rfl)
  have hnull : (A.realloc b n w.sys).1 = 0 →
      H ∪ {a ∈ releasedPages A m b (A.realloc b n w.sys) | (A.realloc b n w.sys).1 ≠ 0} = H := by
    intro hzero
    ext a
    simp [hzero]
  rcases sysrealloc_inv hevent (rfl : sysrealloc A b n _ = _) with
    ⟨hzero, -⟩ | ⟨hzero, -, -⟩ | ⟨hne, hsize, hnew⟩
  · rw [if_pos hzero, if_pos hzero, hnull hzero]
    exact .nil
  · rw [if_pos hzero, if_pos hzero, hnull hzero]
    exact .nil
  · have hset : {a ∈ releasedPages A m b (A.realloc b n w.sys) | (A.realloc b n w.sys).1 ≠ 0} =
        releasedPages A m b (A.realloc b n w.sys) := by
      ext a
      exact ⟨fun ha => ha.1, fun ha => ⟨ha, hne⟩⟩
    rw [if_neg hne, if_neg hne, hset]
    exact danglessReallocNew_trace hZ hnew h.remap hundedicated hn hsize hm.block hkernel hout'

/-- `dangless_realloc` of a pointer into a region. -/
theorem danglessReallocHooked_trace (hZ : SlotsOk L Z) (h : Sound C Z others (m :: maps) ((b, u) :: blocks) w)
    (hm : m.Of b u) (hu : 0 < u) (hkernel : w.kernelMode = true) (hout : ∀ a ∈ H, OutOfUse Z (m :: maps) w a) :
    PtTrace Z w.pt H (danglessReallocHookedOps A L m.ptr n w) (danglessReallocHooked A L m.ptr n w).2.pt
      (H ∪ {a ∈ releasedPages A m b (A.realloc b n w.sys) | (A.realloc b n w.sys).1 ≠ 0}) := by
  obtain ⟨hn, hresolve⟩ := h.resolve hZ List.mem_cons_self List.mem_cons_self hm hu
  have hne : m.ptr ≠ 0 := by
    intro hzero
    have hmem := ((h.remap.mapsOk m List.mem_cons_self).ptr_mem hn).1
    exact zero_notMem_vmem hZ (hzero ▸ (h.remap.mapsOk m List.mem_cons_self).inVmem hmem)
  unfold danglessReallocHookedOps danglessReallocHooked
  dsimp only
  rw [hresolve, hkernel, if_pos hne, if_pos ⟨hne, rfl⟩, if_pos ⟨hne, rfl⟩, List.singleton_append, Option.getD_some]
  exact (danglessReallocRemapped_trace hZ h hm hu hkernel hout).cons

/-- `dangless_realloc` of a pointer that is the block itself. -/
theorem danglessReallocHooked_trace_home (hZ : SlotsOk L Z) (h : Sound C Z others maps ((b, u) :: blocks) w)
    (hkernel : w.kernelMode = true) (hout : ∀ a ∈ H, OutOfUse Z maps w a) :
    PtTrace Z w.pt H (danglessReallocHookedOps A L b n w) (danglessReallocHooked A L b n w).2.pt H := by
  have hhome := (h.sys.homeBlock List.mem_cons_self).home
  have hresolve := h.remap.vremapResolve_home hhome
  have hnot : ¬ (b ≠ 0 ∧ VREM_NOT_REMAPPED = VREM_OK) := fun hok =>
    absurd hok.2 (show VREM_NOT_REMAPPED ≠ VREM_OK by decide)
  unfold danglessReallocHookedOps danglessReallocHooked
  dsimp only
  rw [hresolve, hkernel, if_pos hhome.ne_zero, if_neg hnot, if_neg hnot, List.singleton_append]
  refine PtTrace.cons ?_
  have hout' : ∀ a ∈ H, OutOfUse Z maps (sysrealloc A b n w).2 a := fun a ha =>
    (hout a ha).spends (Spends.same _ rfl rfl rfl)
  rcases sysrealloc_inv h.sys (rfl : sysrealloc A b n w = _) with
    ⟨hzero, -⟩ | ⟨hzero, -, -⟩ | ⟨hne, hsize, hnew⟩
  · rw [hzero, doVremap_null, doVremapOps_null]
    exact .nil
  · rw [hzero, doVremap_null, doVremapOps_null]
    exact .nil
  · have hsound : Sound C Z others maps (((sysrealloc A b n w).1, _) :: blocks) (sysrealloc A b n w).2 :=
      ⟨⟨hnew, h.remap⟩, h.undedicated⟩
    exact doVremap_trace hZ hsound List.mem_cons_self hsize hkernel hout'

/-! ### The calls of a client -/

/-- The operations of a call. -/
def clientOps (A : SysAllocator σ) (L : DuneLayout) (storage : Nat) (w : World σ) : ClientCall → List PtOp
  | .malloc size => danglessMallocOps A L size w
  | .calloc num size => danglessCallocOps A L storage num size w
  | .realloc p n => danglessReallocOps A L p n w
  | .free p => danglessFreeOps A L p w

section Depth

theorem vremapMapAt_modes (ptr npages va : Nat) (w : World σ) :
    (vremapMapAt A L ptr npages va w).world.modes = w.modes := by
  unfold vremapMapAt
  dsimp only
  split_ifs
  · exact vpFree_modes A _ _ _
  · rfl

theorem vremapMap_modes (ptr size : Nat) (w : World σ) : (vremapMap A L ptr size w).world.modes = w.modes := by
  unfold vremapMap
  dsimp only
  split_ifs
  · exact vpAlloc_modes A w _
  · exact (vremapMapAt_modes ..).trans (vpAlloc_modes A w _)

theorem autoDedicateVmem_modes (w : World σ) : (autoDedicateVmem A w).modes = w.modes := by
  have hloop : ∀ n, (autoDedicateLoop A w n).modes = w.modes := by
    intro n
    induction n with
    | zero => rfl
    | succ n ih =>
        unfold autoDedicateLoop
        dsimp only
        split_ifs
        · exact ih
        · exact (vpFree_modes ..).trans ih
  have hall := hloop PT_NUM_ENTRIES
  unfold autoDedicateVmem
  generalize autoDedicateLoop A w PT_NUM_ENTRIES = v at hall ⊢
  exact hall

theorem doVremap_modes (p size : Nat) (w : World σ) : (doVremap A L p size w).2.modes = w.modes := by
  have hretry : ∀ n w', (vremapRetry A L p n w').world.modes = w'.modes := by
    intro n w'
    unfold vremapRetry
    dsimp only
    split_ifs
    · exact (vremapMap_modes ..).trans ((autoDedicateVmem_modes _).trans (vremapMap_modes ..))
    · exact vremapMap_modes ..
  unfold doVremap
  dsimp only
  split_ifs
  · rfl
  · exact hretry _ _
  · exact hretry _ _

theorem danglessFreeHooked_modes (p : Nat) (w : World σ) : (danglessFreeHooked A L p w).modes = w.modes := by
  unfold danglessFreeHooked
  dsimp only
  split_ifs <;> rfl

theorem danglessReallocHooked_modes (p n : Nat) (w : World σ) :
    (danglessReallocHooked A L p n w).2.modes = w.modes := by
  unfold danglessReallocHooked danglessReallocRemapped danglessReallocNew
  dsimp only
  split_ifs
  · rfl
  · rfl
  · rfl
  · exact doVremap_modes ..
  · exact doVremap_modes ..

/-- The assertion of `do_hook_exit`. -/
theorem PtTrace.hookReturn {s s' : PtState} {H' : Set Nat} {ops : List PtOp} {w1 : World σ}
    (h : PtTrace Z s H ops s' H') (hmodes : w'.modes = w1.modes) (hdepth : w1.hookDepth = 1) :
    PtTrace Z s H (hookReturnOps ops w') s' H' := by
  simp only [World.modes, Prod.mk.injEq] at hmodes
  rw [hookReturnOps, hmodes.2.1, hdepth]
  exact h.check

end Depth

/-- `do_vremap` of what the library has answered. -/
theorem doVremap_trace_obtained {size : Nat} {r : Nat × σ} (w' : World σ) (hZ : SlotsOk L Z)
    (h : Sound C Z others maps blocks w) (hok : C.Ok r.2) (hr : Obtains A C.live w.sys n r) (hle : size ≤ n)
    (hsys : w'.sys = r.2) (hitems : w'.items = w.items) (hpt : w'.pt = w.pt)
    (hauto : w'.autoDedicated = w.autoDedicated) (hmodes : w'.modes = w.modes)
    (hown : ∀ e ∈ w'.trace, e.Own C.live) (hkernel : w'.kernelMode = true) (hout : ∀ a ∈ H, OutOfUse Z maps w a) :
    PtTrace Z w'.pt H (doVremapOps A L r.1 size w') (doVremap A L r.1 size w').2.pt H := by
  by_cases hnull : r.1 = 0
  · rw [hnull, doVremap_null, doVremapOps_null]
    exact .nil
  · have hsound := h.resys (h.sys.obtain hok hr hnull hsys hitems hown) hitems hpt hauto
    exact doVremap_trace hZ hsound List.mem_cons_self (hle.trans (hr.size hnull)) hkernel fun a ha =>
      (hout a ha).spends (Spends.same maps hmodes hauto hitems)

section Client

variable {hs : List Handle} {stale : List Mapping} {c c' : Client σ} {storage : Nat} {x : Handle} {hs0 : List Handle}

theorem OutOfUse.rehook (h : OutOfUse Z maps w a) (depth : Nat) :
    OutOfUse Z maps { w with hookDepth := depth } a := ⟨h.dedicated, h.inVmem, h.notUsed⟩

theorem ClientInv.malloc_trace (hZ : SlotsOk L Z) (h : ClientInv C Z others hs stale c)
    (hout : ∀ a ∈ H, OutOfUse Z (mapsOf hs ++ stale) c.world a) (size : Nat) :
    PtTrace Z c.world.pt H (danglessMallocOps A L size c.world) (danglessMalloc A L size c.world).2.pt H := by
  obtain ⟨hok, hr⟩ := C.malloc c.world.sys size h.accounted.sound.sys.ok
  have htrace := doVremap_trace_obtained (H := H) { c.world with sys := (A.malloc size c.world.sys).2, hookDepth := 1 }
    hZ (h.accounted.sound.rehook 1) hok hr le_rfl rfl rfl rfl rfl rfl h.accounted.sound.sys.own h.ready.kernelMode
    fun a ha => (hout a ha).rehook 1
  have hready : Ready (sysmalloc A size c.world).2 := h.ready.of_modes rfl
  rw [danglessMalloc_eq h.ready]
  unfold danglessMallocOps
  dsimp only
  rw [hready.hookEnter]
  exact htrace.hookReturn (doVremap_modes ..) rfl

theorem ClientInv.calloc_trace (hZ : SlotsOk L Z) (h : ClientInv C Z others hs stale c)
    (hout : ∀ a ∈ H, OutOfUse Z (mapsOf hs ++ stale) c.world a) (storage num size : Nat) :
    PtTrace Z c.world.pt H (danglessCallocOps A L storage num size c.world)
      (danglessCalloc A L storage num size c.world).2.pt H := by
  obtain ⟨hok, hr⟩ := C.calloc c.world.sys num size h.accounted.sound.sys.ok
  have hle : u64 (num * size) ≤ num * size := Nat.mod_le _ _
  have htrace := doVremap_trace_obtained (H := H)
    { c.world with sys := (A.calloc num size c.world.sys).2, hookDepth := 1 }
    hZ (h.accounted.sound.rehook 1) hok hr hle rfl rfl rfl rfl rfl h.accounted.sound.sys.own h.ready.kernelMode
    fun a ha => (hout a ha).rehook 1
  have hready : Ready { c.world with sys := (A.calloc num size c.world.sys).2 } := h.ready.of_modes rfl
  rw [danglessCalloc_eq h.ready]
  unfold danglessCallocOps
  rw [syscalloc_eq h.ready.addr]
  dsimp only
  rw [hready.hookEnter]
  exact htrace.hookReturn (doVremap_modes ..) rfl

theorem danglessReallocOps_eq (hready : Ready w) (p n : Nat) : danglessReallocOps A L p n w =
    hookReturnOps (danglessReallocHookedOps A L p n { w with hookDepth := 1 })
      (danglessReallocHooked A L p n { w with hookDepth := 1 }).2 := by
  unfold danglessReallocOps
  rw [hready.hookEnter]

theorem ClientInv.reallocNull_trace (hZ : SlotsOk L Z) (h : ClientInv C Z others hs stale c)
    (hout : ∀ a ∈ H, OutOfUse Z (mapsOf hs ++ stale) c.world a) (n : Nat) :
    PtTrace Z c.world.pt H (danglessReallocOps A L 0 n c.world) (danglessRealloc A L 0 n c.world).2.pt H := by
  obtain ⟨hok, hr⟩ := C.reallocNull c.world.sys n h.accounted.sound.sys.ok
  rw [danglessRealloc_eq h.ready, danglessReallocOps_eq h.ready]
  refine PtTrace.hookReturn ?_ (danglessReallocHooked_modes ..) rfl
  unfold danglessReallocHookedOps danglessReallocHooked
  dsimp only
  rw [if_neg (not_not.mpr rfl), if_neg (by simp), if_neg (by simp), List.nil_append]
  refine doVremap_trace_obtained (sysrealloc A 0 n { c.world with hookDepth := 1 }).2 hZ (h.accounted.sound.rehook 1) hok hr
    le_rfl rfl rfl rfl rfl rfl ?_ h.ready.kernelMode fun a ha => (hout a ha).rehook 1
  intro e he
  rcases List.mem_cons.mp he with rfl | he
  · exact Or.inl rfl
  · exact h.accounted.sound.sys.own e he

theorem ClientInv.free_trace (hZ : SlotsOk L Z) (h : ClientInv C Z others hs stale c) (hp : p ∈ c.held) :
    PtTrace Z c.world.pt H (danglessFreeOps A L p c.world) (danglessFree A L p c.world).pt
      (H ∪ Released A L c (.free p)) := by
  obtain ⟨x, hs0, rfl, hx⟩ := h.picked hZ hp
  have husable := hx.accounted.usable x List.mem_cons_self
  have hops : danglessFreeOps A L x.ptr c.world =
      hookReturnOps (danglessFreeHookedOps A L x.ptr { c.world with hookDepth := 1 })
        (danglessFreeHooked A L x.ptr { c.world with hookDepth := 1 }) := by
    unfold danglessFreeOps
    rw [if_neg hx.ne_zero, h.ready.hookEnter]
  rw [danglessFree_eq h.ready hx.ne_zero, hops, Released]
  refine PtTrace.hookReturn ?_ (danglessFreeHooked_modes ..) rfl
  rcases (hx.accounted.resolve hZ).2.2 with ⟨-, hresolve, hsound⟩ | ⟨hhome, hresolve, hsound⟩
  · rw [regionOf_region hx.ne_zero hresolve (hsound.sys.usable _ List.mem_cons_self)]
    exact danglessFreeHooked_trace (m := x.mapping) hZ (hsound.rehook 1) ⟨rfl, rfl⟩ husable h.ready.kernelMode
  · have htrace := danglessFreeHooked_trace_home (H := H) (hsound.rehook 1) h.ready.kernelMode
    rw [regionOf_home hresolve, Set.union_empty, hhome]
    exact htrace

theorem ClientInv.realloc_trace (hZ : SlotsOk L Z) (h : ClientInv C Z others hs stale c) (hp : p ∈ c.held)
    (hout : ∀ a ∈ H, OutOfUse Z (mapsOf hs ++ stale) c.world a) (n : Nat) :
    PtTrace Z c.world.pt H (danglessReallocOps A L p n c.world) (danglessRealloc A L p n c.world).2.pt
      (H ∪ Released A L c (.realloc p n)) := by
  obtain ⟨x, hs0, rfl, hx⟩ := h.picked hZ hp
  have husable := hx.accounted.usable x List.mem_cons_self
  rw [danglessRealloc_eq h.ready, danglessReallocOps_eq h.ready]
  refine PtTrace.hookReturn ?_ (danglessReallocHooked_modes ..) rfl
  rcases (hx.accounted.resolve hZ).2.2 with ⟨hregion, hresolve, hsound⟩ | ⟨hhome, hresolve, hsound⟩
  · have hsize := hsound.sys.usable _ List.mem_cons_self
    have hset : Released A L c (.realloc x.ptr n) =
        {a ∈ releasedPages A x.mapping x.block (A.realloc x.block n c.world.sys) |
          (A.realloc x.block n c.world.sys).1 ≠ 0} := by
      rw [Released, hx.original, regionOf_region hx.ne_zero hresolve hsize, hsize]
      ext a
      constructor
      · rintro ⟨ha, hne, hcut⟩
        exact ⟨⟨ha, hcut⟩, hne⟩
      · rintro ⟨⟨ha, hcut⟩, hne⟩
        exact ⟨ha, hne, hcut⟩
    rw [hset]
    exact danglessReallocHooked_trace (m := x.mapping) hZ (hsound.rehook 1) ⟨rfl, rfl⟩ husable h.ready.kernelMode
      fun a ha => ((hout a ha).mono (hx.subset_region hregion)).rehook 1
  · have hnone : Released A L c (.realloc x.ptr n) = ∅ := by
      refine Set.eq_empty_of_forall_notMem fun a ha => ?_
      have hmem := ha.1
      rw [regionOf_home hresolve] at hmem
      exact Set.notMem_empty a hmem
    rw [hnone, Set.union_empty, hhome]
    exact danglessReallocHooked_trace_home hZ (hsound.rehook 1) h.ready.kernelMode
      fun a ha => ((hout a ha).mono hx.subset).rehook 1

/-- Every call of a client follows the protocol, and invalidates the pages that it releases. -/
theorem ClientInv.trace {call : ClientCall} (hZ : SlotsOk L Z) (h : ClientInv C Z others hs stale c)
    (hstep : ClientStep C storage c call c') (hout : ∀ a ∈ H, OutOfUse Z (mapsOf hs ++ stale) c.world a) :
    PtTrace Z c.world.pt H (clientOps A L storage c.world call) c'.world.pt (H ∪ Released A L c call) := by
  have hnothing : ∀ n, Released A L c (.realloc 0 n) = ∅ := fun n =>
    Set.eq_empty_of_forall_notMem fun a ha => ha.1.1 rfl
  cases hstep with
  | malloc size =>
      rw [Released, Set.union_empty]
      exact h.malloc_trace hZ hout size
  | calloc num size =>
      rw [Released, Set.union_empty]
      exact h.calloc_trace hZ hout storage num size
  | reallocNull n =>
      rw [hnothing, Set.union_empty]
      exact h.reallocNull_trace hZ hout n
  | realloc p n hp _ => exact h.realloc_trace hZ hp hout n
  | reallocFailed p n hp _ _ => exact h.realloc_trace hZ hp hout n
  | reallocReleased p n hp _ _ => exact h.realloc_trace hZ hp hout n
  | freeNull =>
      have hempty : Released A L c (.free 0) = ∅ := Set.eq_empty_of_forall_notMem fun a ha => ha.1 rfl
      rw [hempty, Set.union_empty]
      exact .nil
  | free p hp => exact h.free_trace hZ hp

end Client

end Dangless
