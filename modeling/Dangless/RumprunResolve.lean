import Dangless.DanglessSpec
import Dangless.LibRun
import Dangless.RumprunRemap
import Dangless.VirtmemInvalidate

/-! `vremap_resolve` of Rumprun (`platform/rumprun/virtual_remap.c`), and runs of `vremap_map` and of `virtual_invalidate`
for what it has returned. A pointer is taken for a remapped one if its page is a 4K page, since Rumprun itself maps 2M
pages only. -/

namespace Dangless.Rumprun

variable {σ : Type} {A : SysAllocator σ} {S : PtPaths} {w : World σ} {s pt pt' : PtState} {p ptr size va word : Nat}
  {level : PtLevel}

/-- `vremap_resolve`. There is no result where the assertion fails. -/
def vremapResolve (pt : PtState) (ptr : Nat) : Option (Int × Nat) :=
  let (paPage, level) := ptResolvePage pt ptr
  if paPage = 0 then none
  else if level ≠ .l1 then some (VREM_NOT_REMAPPED, ptr)
  else
    let pa := paPage + getPageOffset ptr .l1
    some (VREM_OK, pa)

/-- A successful call of `vremap_map`: the object, and the pointer that is returned for it. -/
structure Remapping where
  ptr : Nat
  remapped : Nat
  deriving DecidableEq

/-- The virtual page of the call. -/
def Remapping.page (m : Remapping) : Nat := roundDown m.remapped PGSIZE

/-- The state, the remapped pointers that are in use, and those whose page has been invalidated. -/
structure RemapState (σ : Type) where
  world : World σ
  live : List Remapping
  gone : List Remapping

inductive RemapCall where
  | map (ptr size : Nat)
  | invalidate (m : Remapping)

/-- What is in use after a call of `vremap_map`. -/
def addRemapping (live : List Remapping) (ptr : Nat) (r : VremapMap σ) : List Remapping :=
  if r.result = VREM_OK then live ++ [⟨ptr, r.remappedPtr⟩] else live

/-- A call: an object of up to a page is remapped, or the page of a remapped pointer is invalidated. -/
inductive RemapStep (A : SysAllocator σ) : RemapState σ → RemapCall → RemapState σ → Prop
  | map {w : World σ} {live gone : List Remapping} {ptr size : Nat} (hlow : PGSIZE ≤ ptr) (hhigh : ptr < 2 ^ 52)
      (hsize : 0 < size) (hmax : size ≤ PGSIZE) :
      RemapStep A ⟨w, live, gone⟩ (.map ptr size)
        ⟨(vremapMap A ptr size w).world, addRemapping live ptr (vremapMap A ptr size w), gone⟩
  | invalidate {w : World σ} {before after gone : List Remapping} {m : Remapping} :
      RemapStep A ⟨w, before ++ m :: after, gone⟩ (.invalidate m)
        ⟨{ w with pt := virtualInvalidate w.pt m.remapped 1 }, before ++ after, m :: gone⟩

/-- Pages of the freelist can be mapped: they are not, and no two of them have the same entry. -/
def FreeUnmapped (S : PtPaths) (w : World σ) : Prop :=
  ∀ a ∈ owned w.items, a < VIRTMEM_END ∧ Within S a ∧ w.pt.entry a = none

/-- A remapped pointer in use, where the tables were `s` at first. -/
structure Remapping.Live (S : PtPaths) (s pt : PtState) (m : Remapping) : Prop where
  object : PGSIZE ≤ m.ptr ∧ m.ptr < 2 ^ 52
  offset : m.remapped % PGSIZE = m.ptr % PGSIZE
  width : m.page + PGSIZE < 2 ^ 64
  within : Within S m.page
  fresh : s.entry m.page = none
  entry : ∀ a, ptPath a = ptPath m.page → pt.entry a = some (.l1, roundDown m.ptr PGSIZE ||| vremapFlags ||| PTE_V)

/-- One whose page has been invalidated: it is not mapped, and not in the freelist. -/
structure Remapping.Gone (w : World σ) (m : Remapping) : Prop where
  entry : ∀ a, ptPath a = ptPath m.page → w.pt.entry a = none
  notFree : ∀ a ∈ owned w.items, ptPath a ≠ ptPath m.page

/-- What holds between calls. -/
structure RemapsInv (S : PtPaths) (s : PtState) (c : RemapState σ) : Prop where
  pt : PtInv S c.world.pt
  freelist : FreelistWf c.world.items
  free : FreeUnmapped S c.world
  live : ∀ m ∈ c.live, m.Live S s c.world.pt
  gone : ∀ m ∈ c.gone, m.Gone c.world
  apart : c.live.Pairwise fun m m' => ptPath m.page ≠ ptPath m'.page
  kept : ∀ a, s.entry a ≠ none → c.world.pt.entry a = s.entry a

theorem vremapResolve_huge (hentry : s.entry p = some (level, word)) (hlevel : level ≠ .l1)
    (hbacked : ptEntryPage word level ≠ 0) : vremapResolve s p = some (VREM_NOT_REMAPPED, p) := by
  unfold vremapResolve
  rw [ptResolvePage_of_entry hentry]
  dsimp only
  rw [if_neg hbacked, if_pos hlevel]

theorem vremapResolve_none (hentry : s.entry p = none) : vremapResolve s p = none := by
  unfold vremapResolve
  dsimp only
  rw [if_pos (ptResolvePage_of_entry_none hentry)]

/-- **A remapped pointer resolves to its object**, as far as its page goes. -/
theorem Remapping.Live.resolve {m : Remapping} (h : m.Live S s pt) {o : Nat} (ho : m.ptr % PGSIZE + o < PGSIZE) :
    vremapResolve pt (m.remapped + o) = some (VREM_OK, m.ptr + o) := by
  obtain ⟨hlow, hhigh⟩ := h.object
  have hoffset := h.offset
  have hpath : ptPath (m.remapped + o) = ptPath m.page := by
    rw [ptPath_eq_iff, Remapping.page, roundDown_eq]
    simp only [PGSIZE] at *
    omega
  have hframe : ptEntryPage (roundDown m.ptr PGSIZE ||| vremapFlags ||| PTE_V) .l1 = roundDown m.ptr PGSIZE := by
    refine entry_frame vremapFlags_ok ?_ ?_ <;> rw [roundDown_eq] <;> simp only [PGSIZE] at * <;> omega
  have hne : roundDown m.ptr PGSIZE ≠ 0 := by
    rw [roundDown_eq]
    simp only [PGSIZE] at *
    omega
  unfold vremapResolve
  rw [ptResolvePage_of_entry (h.entry _ hpath), hframe]
  dsimp only
  rw [if_neg hne, if_neg (not_not.mpr rfl), getPageOffset_l1, roundDown_eq]
  congr 2
  simp only [PGSIZE] at *
  omega

theorem Remapping.Live.congr {m : Remapping} (h : m.Live S s pt)
    (hentry : ∀ a, ptPath a = ptPath m.page → pt'.entry a = pt.entry a) : m.Live S s pt' :=
  { h with entry := fun a ha => (hentry a ha).trans (h.entry a ha) }

section Step

variable {live gone : List Remapping} {w' : World σ}

/-- The invariant, when translations are as before and the freelist has not grown. -/
theorem RemapsInv.shrink (h : RemapsInv S s ⟨w, live, gone⟩) (hpt : PtInv S w'.pt)
    (hsame : ∀ a, w'.pt.entry a = w.pt.entry a) (hwf : FreelistWf w'.items) (howned : owned w'.items ⊆ owned w.items) :
    RemapsInv S s ⟨w', live, gone⟩ := by
  refine ⟨hpt, hwf, fun a ha => ?_, fun m hm => ?_, fun m hm => ?_, h.apart, fun a ha => ?_⟩
  · rw [hsame]
    exact h.free a (howned ha)
  · exact (h.live m hm).congr fun a _ => hsame a
  · refine ⟨fun a ha => ?_, fun a ha => (h.gone m hm).notFree a (howned ha)⟩
    exact (hsame a).trans ((h.gone m hm).entry a ha)
  · exact (hsame a).trans (h.kept a ha)

/-- A page is unmapped where the tables did not map one at first, unless a remapped pointer has it. -/
theorem RemapsInv.fresh (h : RemapsInv S s ⟨w, live, gone⟩) (hnone : w.pt.entry va = none) : s.entry va = none := by
  by_contra hne
  exact hne ((h.kept va hne).symm.trans hnone)

/-- The invariant after a successful call. -/
theorem RemapsInv.map (h : RemapsInv S s ⟨w, live, gone⟩) (hlow : PGSIZE ≤ ptr) (hhigh : ptr < 2 ^ 52)
    (hpt : PtInv S w'.pt) (hrun : RunAt (owned w.items) 1 va) (hwidth : va + PGSIZE < 2 ^ 64)
    (hmapped : MappedTo w.pt w'.pt (roundDown ptr PGSIZE) va vremapFlags 1) (hwf : FreelistWf w'.items)
    (howned : owned w'.items = owned w.items \ region va 1) :
    RemapsInv S s ⟨w', live ++ [⟨ptr, va + ptr % PGSIZE⟩], gone⟩ := by
  have hva : va ∈ owned w.items := hrun.2 (mem_region.mpr ⟨le_rfl, by simp only [PGSIZE]; omega⟩)
  obtain ⟨hvalow, hwithin, hnone⟩ := h.free va hva
  have halign := hrun.1
  have hpage : (⟨ptr, va + ptr % PGSIZE⟩ : Remapping).page = va := by
    rw [Remapping.page, roundDown_eq]
    simp only [PGSIZE] at *
    omega
  have hframe : ∀ a, ptPath a ≠ ptPath va → w'.pt.entry a = w.pt.entry a := by
    intro a ha
    refine hmapped.frame a fun k hk => ?_
    obtain rfl : k = 0 := by omega
    rwa [pgOffset_zero hwidth]
  have hother : ∀ a, w.pt.entry a ≠ none → ptPath a ≠ ptPath va := by
    intro a ha hpath
    rw [entry_of_path w.pt hpath] at ha
    exact ha hnone
  have hold : ∀ m ∈ live, ptPath m.page ≠ ptPath va := by
    intro m hm
    refine hother _ ?_
    rw [(h.live m hm).entry _ rfl]
    exact Option.some_ne_none _
  refine ⟨hpt, hwf, fun a ha => ?_, fun m hm => ?_, fun m hm => ?_, ?_, fun a ha => ?_⟩
  · dsimp only at ha
    rw [howned] at ha
    obtain ⟨halow, hawithin, hanone⟩ := h.free a ha.1
    refine ⟨halow, hawithin, ?_⟩
    rw [hframe a, hanone]
    intro hpath
    refine ha.2 (mem_region.mpr ?_)
    rw [ptPath_eq_iff] at hpath
    simp only [VIRTMEM_END, PGSIZE] at *
    omega
  · rcases List.mem_append.mp hm with hm | hm
    · exact (h.live m hm).congr fun a ha => hframe a (ha ▸ hold m hm)
    · obtain rfl := List.mem_singleton.mp hm
      have hentry := hmapped.mapped 0 Nat.one_pos
      rw [pgOffset_zero hwidth, pgOffset_zero (by rw [roundDown_eq]; simp only [PGSIZE]; omega)] at hentry
      refine ⟨⟨hlow, hhigh⟩, ?_, ?_, ?_, ?_, ?_⟩
      · simp only [PGSIZE] at *
        omega
      · rw [hpage]
        exact hwidth
      · rw [hpage]
        exact hwithin
      · rw [hpage]
        exact h.fresh hnone
      · rw [hpage]
        exact hentry
  · have hgone := h.gone m hm
    refine ⟨fun a ha => ?_, fun a ha => ?_⟩
    · rw [hframe a (ha ▸ (hgone.notFree va hva).symm)]
      exact hgone.entry a ha
    · dsimp only at ha
      rw [howned] at ha
      exact hgone.notFree a ha.1
  · refine List.pairwise_append.mpr ⟨h.apart, List.pairwise_singleton _ _, fun m hm m' hm' => ?_⟩
    rw [List.mem_singleton.mp hm', hpage]
    exact hold m hm
  · rw [← h.kept a ha]
    refine hframe a (hother a ?_)
    rw [h.kept a ha]
    exact ha

/-- The invariant after a page has been invalidated. -/
theorem RemapsInv.invalidate {before after : List Remapping} {m : Remapping}
    (h : RemapsInv S s ⟨w, before ++ m :: after, gone⟩) :
    RemapsInv S s ⟨{ w with pt := virtualInvalidate w.pt m.remapped 1 }, before ++ after, m :: gone⟩ := by
  have hm := h.live m (List.mem_append_right _ List.mem_cons_self)
  have hzero : ∀ k, k < 1 → pgOffset m.page k = m.page := by
    intro k hk
    obtain rfl : k = 0 := by omega
    exact pgOffset_zero hm.width
  obtain ⟨hpt, -, hcleared⟩ := virtualInvalidate_spec h.pt rfl (fun k hk => (hzero k hk).symm ▸ hm.within)
    (fun k hk => ⟨_, (hzero k hk).symm ▸ hm.entry _ rfl⟩) rfl
  have hentry := hcleared.cleared 0 le_rfl Nat.one_pos
  have hframe : ∀ a, ptPath a ≠ ptPath m.page →
      (virtualInvalidate w.pt m.remapped 1).entry a = w.pt.entry a := by
    intro a ha
    refine hcleared.frame a fun k _ hk => ?_
    rw [← Remapping.page, hzero k hk]
    exact ha
  rw [← Remapping.page, hzero 0 Nat.one_pos] at hentry
  have hother : ∀ a, w.pt.entry a = none → ptPath a ≠ ptPath m.page := by
    intro a hnone hpath
    rw [hm.entry a hpath] at hnone
    cases hnone
  have hapart := (List.pairwise_middle fun hne => Ne.symm hne).mp h.apart
  obtain ⟨hothers, hrest⟩ := List.pairwise_cons.mp hapart
  refine ⟨hpt, h.freelist, fun a ha => ?_, fun m' hm' => ?_, fun m' hm' => ?_, hrest, fun a ha => ?_⟩
  · obtain ⟨hlow, hwithin, hnone⟩ := h.free a ha
    exact ⟨hlow, hwithin, (hframe a (hother a hnone)).trans hnone⟩
  · have hmem : m' ∈ before ++ m :: after := by
      rcases List.mem_append.mp hm' with hm' | hm'
      · exact List.mem_append_left _ hm'
      · exact List.mem_append_right _ (List.mem_cons_of_mem m hm')
    exact (h.live m' hmem).congr fun a ha => hframe a (ha ▸ (hothers m' hm').symm)
  · rcases List.mem_cons.mp hm' with rfl | hm'
    · exact ⟨hentry, fun a ha => hother a (h.free a ha).2.2⟩
    · have hgone := h.gone m' hm'
      refine ⟨fun a ha => ?_, hgone.notFree⟩
      have hnone := hgone.entry a ha
      exact (hframe a (hother a hnone)).trans hnone
  · have hne : ptPath a ≠ ptPath m.page := by
      intro hpath
      rw [entry_of_path s hpath] at ha
      exact ha hm.fresh
    exact (hframe a hne).trans (h.kept a ha)

/-- A call of `vremap_map` keeps the invariant: it maps a page, or takes one out of the freelist that is lost or given
back. -/
theorem RemapsInv.vremapMap (h : RemapsInv S s ⟨w, live, gone⟩) (hlow : PGSIZE ≤ ptr) (hhigh : ptr < 2 ^ 52)
    (hsize : 0 < size) (hmax : size ≤ PGSIZE) :
    RemapsInv S s ⟨(vremapMap A ptr size w).world, addRemapping live ptr (vremapMap A ptr size w), gone⟩ := by
  have hpt : (vpAlloc A 1 w).2.pt = w.pt := vpAlloc_pt ..
  have hitems : (vpAlloc A 1 w).2.items = (freelistAlloc 1 w.items).items := vpAlloc_items ..
  have hlost : FreelistWf (freelistAlloc 1 w.items).items →
      owned (freelistAlloc 1 w.items).items ⊆ owned w.items → RemapsInv S s ⟨(vpAlloc A 1 w).2, live, gone⟩ := by
    intro hwf howned
    refine h.shrink ?_ (fun a => ?_) ?_ ?_
    · rw [hpt]
      exact h.pt
    · rw [hpt]
    · rw [hitems]
      exact hwf
    · rw [hitems]
      exact howned
  obtain ⟨res, hres⟩ : ∃ res, Rumprun.vremapMap A ptr size w = res := ⟨_, rfl⟩
  rw [hres]
  unfold Rumprun.vremapMap at hres
  dsimp only at hres
  rw [vpAlloc_va] at hres
  rcases freelistAlloc_spec h.freelist (le_refl 1) with ⟨heq, -⟩ | ⟨hleast, hwf, howned⟩
  · rw [heq, if_pos rfl] at hres
    rw [← hres, addRemapping, if_neg (show EVREM_NO_VM ≠ VREM_OK by decide)]
    rw [heq] at hlost
    exact hlost h.freelist subset_rfl
  obtain ⟨va, hva⟩ : ∃ va, (freelistAlloc 1 w.items).va = va := ⟨_, rfl⟩
  rw [hva] at hleast howned hres
  by_cases hva0 : va = 0
  · rw [if_pos hva0] at hres
    rw [← hres, addRemapping, if_neg (show EVREM_NO_VM ≠ VREM_OK by decide)]
    exact hlost hwf (howned ▸ Set.sdiff_subset)
  have hwidth := region_width h.freelist (le_refl 1) hleast.1
  rw [Nat.one_mul] at hwidth
  have hpage : ∀ k, k < 1 → pgOffset va k ∈ owned w.items := by
    intro k hk
    obtain rfl : k = 0 := by omega
    rw [pgOffset_zero hwidth]
    exact hleast.1.2 (mem_region.mpr ⟨le_rfl, by simp only [PGSIZE]; omega⟩)
  obtain ⟨r, hr⟩ : ∃ r, ptMapRegion w.pt (roundDown ptr PGSIZE) va (1 * PGSIZE) vremapFlags = r := ⟨_, rfl⟩
  obtain ⟨hinv, -, -, hmap⟩ := ptMapRegion_spec h.pt vremapFlags_ok (fun k hk => (h.free _ (hpage k hk)).2.1) hr
  obtain ⟨hfail, hok⟩ := hmap (pagesDistinct_of_le hleast.1.1 (by decide)) fun k hk => (h.free _ (hpage k hk)).2.2
  rw [vremapFlags] at hr
  rw [if_neg hva0, roundUp_size hsize hmax, hpt, hr] at hres
  by_cases hneg : r.1 < 0
  · rw [if_pos hneg] at hres
    rw [← hres, addRemapping, if_neg (show EVREM_VIRT_MAP ≠ VREM_OK by decide)]
    let w₁ : World σ := { (vpAlloc A 1 w).2 with pt := r.2 }
    have hitems₁ : w₁.items = (freelistAlloc 1 w.items).items := hitems
    have hwf₁ : FreelistWf w₁.items := by
      rw [hitems₁]
      exact hwf
    have hfree : Freeable (owned w₁.items) va 1 := by
      refine ⟨hleast.1.1, le_refl 1, by rwa [Nat.one_mul], ?_⟩
      rw [hitems₁, howned]
      exact Set.disjoint_sdiff_right
    obtain ⟨hwf', hback⟩ := vpFree_wf (A := A) hwf₁ hfree
    refine h.shrink ?_ (fun a => ?_) hwf' (hback.trans ?_)
    · rw [vpFree_pt]
      exact hinv
    · rw [vpFree_pt]
      exact hfail hneg a
    · refine Set.union_subset ?_ hleast.1.2
      rw [hitems₁, howned]
      exact Set.sdiff_subset
  · rw [if_neg hneg, getPageOffset_l1] at hres
    rw [← hres, addRemapping, if_pos rfl]
    refine h.map hlow hhigh hinv hleast.1 hwidth (hok hneg) ?_ ?_
    · rw [hitems]
      exact hwf
    · rw [hitems, howned]

theorem RemapsInv.step {c c' : RemapState σ} {call : RemapCall} (h : RemapsInv S s c) (hstep : RemapStep A c call c') :
    RemapsInv S s c' := by
  cases hstep with
  | map hlow hhigh hsize hmax => exact h.vremapMap hlow hhigh hsize hmax
  | invalidate => exact h.invalidate

end Step

/-- **In every run of `vremap_map` and of `virtual_invalidate` of what it has returned, `vremap_resolve` leads from each
remapped pointer in use to its object, finds no page at one that is not in use any more, and leaves every pointer to a
larger page as it is.** The page of a remapped pointer is never used again. -/
theorem remaps_resolve (A : SysAllocator σ) {w : World σ} {calls : List RemapCall} {c : RemapState σ}
    (hinv : PtInv S w.pt) (hwf : FreelistWf w.items) (hfree : FreeUnmapped S w) (hrun : Lts.Run (RemapStep A) ⟨w, [], []⟩ calls c) :
    (∀ m ∈ c.live, ∀ o, m.ptr % PGSIZE + o < PGSIZE →
        vremapResolve c.world.pt (m.remapped + o) = some (VREM_OK, m.ptr + o)) ∧
      (c.live.Pairwise fun m m' => m.page ≠ m'.page) ∧
      (∀ m ∈ c.gone, m.page ∉ owned c.world.items ∧ (∀ m' ∈ c.live, m'.page ≠ m.page) ∧
        ∀ o < PGSIZE, vremapResolve c.world.pt (m.page + o) = none) ∧
      ∀ p level word, w.pt.entry p = some (level, word) → level ≠ .l1 → ptEntryPage word level ≠ 0 →
        vremapResolve c.world.pt p = some (VREM_NOT_REMAPPED, p) := by
  have hstart : RemapsInv S w.pt (⟨w, [], []⟩ : RemapState σ) :=
    ⟨hinv, hwf, hfree, nofun, nofun, List.Pairwise.nil, fun _ _ => rfl⟩
  have h := hrun.invariant (fun _ _ _ h hstep => RemapsInv.step h hstep) hstart
  refine ⟨fun m hm o ho => (h.live m hm).resolve ho, h.apart.imp fun hne heq => hne (congrArg ptPath heq),
    fun m hm => ⟨fun hmem => (h.gone m hm).notFree _ hmem rfl, fun m' hm' heq => ?_, fun o ho => ?_⟩,
    fun p level word hentry hlevel hbacked => ?_⟩
  · have hnone := (h.gone m hm).entry m'.page (congrArg ptPath heq)
    rw [(h.live m' hm').entry _ rfl] at hnone
    cases hnone
  · refine vremapResolve_none ((h.gone m hm).entry _ ?_)
    rw [ptPath_eq_iff, Remapping.page, roundDown_eq]
    simp only [PGSIZE] at *
    omega
  · refine vremapResolve_huge ?_ hlevel hbacked
    rw [h.kept p (by rw [hentry]; exact Option.some_ne_none _)]
    exact hentry

/-- An object is remapped, and its page invalidated; the next object does not get the page. -/
theorem remaps_resolve_released : FreelistWf duneFreshWorld.items ∧
    ∃ c, Lts.Run (RemapStep bumpAllocator) ⟨duneFreshWorld, [], []⟩
        [.map 0x5010 32, .invalidate ⟨0x5010, 2 ^ 39 + 0x10⟩, .map 0x6020 8] c ∧
      c.live = [] ∧ vremapResolve c.world.pt (2 ^ 39 + 0x15) = none := by
  have hinv : PtInv duneFree duneFreshWorld.pt := duneTables_inv (fun _ i h => h i) (by decide) (by decide)
  have hwf : FreelistWf duneFreshWorld.items := oneSpan_wf (by decide) (by decide) (by decide) (by decide)
  have hfree : FreeUnmapped duneFree duneFreshWorld := by
    intro a ha
    have hregion : a ∈ region (2 ^ 39) 1 := by
      rw [show duneFreshWorld.items = [⟨1, 2 ^ 39, 2 ^ 39 + 4096⟩] from rfl, owned_cons, owned_nil, Set.union_empty] at ha
      exact ha
    refine ⟨?_, duneFree_page hregion⟩
    rw [mem_region] at hregion
    simp only [PGSIZE, VIRTMEM_END] at *
    omega
  let m : Remapping := ⟨0x5010, 2 ^ 39 + 0x10⟩
  let w₁ : World BumpHeap := (vremapMap bumpAllocator 0x5010 32 duneFreshWorld).world
  let w₂ : World BumpHeap := { w₁ with pt := virtualInvalidate w₁.pt m.remapped 1 }
  have hmap := @RemapStep.map _ bumpAllocator duneFreshWorld [] [] 0x5010 32 (by decide) (by decide) (by decide) (by decide)
  have hlive : addRemapping [] 0x5010 (vremapMap bumpAllocator 0x5010 32 duneFreshWorld) = [m] := by decide +kernel
  rw [hlive] at hmap
  have hinvalidate := @RemapStep.invalidate _ bumpAllocator w₁ [] [] [] m
  have hnext := @RemapStep.map _ bumpAllocator w₂ [] [m] 0x6020 8 (by decide) (by decide) (by decide) (by decide)
  have hnone : addRemapping [] 0x6020 (vremapMap bumpAllocator 0x6020 8 w₂) = [] := by decide +kernel
  have hrun := ((Lts.Run.single hmap).snoc hinvalidate).snoc hnext
  obtain ⟨-, -, hgone, -⟩ := remaps_resolve bumpAllocator hinv hwf hfree hrun
  have hpage : m.page = 2 ^ 39 := by decide
  have hresolve := (hgone m List.mem_cons_self).2.2 0x15 (by decide)
  rw [hpage] at hresolve
  exact ⟨hwf, _, hrun, hnone, hresolve⟩

end Dangless.Rumprun
