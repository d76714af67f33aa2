import Dangless.DanglessMalloc

/-! What the calls of the allocator do to the page tables, operation by operation: the pages taken for new tables, the
stores into entries, the `invlpg`s, and the conditions of the assertions on the way, in the order of the source. -/

namespace Dangless

/-- One operation. `check` is an `ASSERT` or `ASSERT0` with the value of its condition. -/
inductive PtOp where
  | zalloc
  | store (ppte word : Nat)
  | invlpg (va : Nat)
  | check (condition : Bool)
  deriving DecidableEq

def PtState.apply (s : PtState) : PtOp → PtState
  | .zalloc => (ppZallocOne s).2
  | .store ppte word => s.write ppte word
  | .invlpg va => s.tlbFlushOne va
  | .check _ => s

def PtState.applyAll (s : PtState) (ops : List PtOp) : PtState := ops.foldl PtState.apply s

@[simp] theorem applyAll_nil (s : PtState) : s.applyAll [] = s := rfl

@[simp] theorem applyAll_cons (s : PtState) (op : PtOp) (ops : List PtOp) :
    s.applyAll (op :: ops) = (s.apply op).applyAll ops := rfl

@[simp] theorem applyAll_append (s : PtState) (ops more : List PtOp) :
    s.applyAll (ops ++ more) = (s.applyAll ops).applyAll more := List.foldl_append ..

/-- `pt_map_page_create_level`. -/
def ptMapPageCreateLevelOps (s : PtState) (ppte flags : Nat) : List PtOp :=
  let ptpa := (ppZallocOne s).1
  if ptpa = 0 then [.zalloc] else [.zalloc, .store ppte (ptpa ||| flags ||| PTE_V)]

/-- The levels that the `switch` of `pt_map_page` creates below a level. -/
def levelsBelow : PtLevel → List PtLevel
  | .l4 => [.l3, .l2, .l1]
  | .l3 => [.l2, .l1]
  | .l2 => [.l1]
  | .l1 => []

/-- `CREATE_LEVEL`, for one level after the other. -/
def ptMapPageCreateLevelsOps (s : PtState) (ppte va flags : Nat) : List PtLevel → List PtOp
  | [] => []
  | level :: levels => ptMapPageCreateLevelOps s ppte flags ++
      match ptMapPageCreateLevel s ppte va level flags with
      | .error _ => []
      | .ok (s, ppte) => ptMapPageCreateLevelsOps s ppte va flags levels

/-- The end of `pt_map_page`, once the entry is there. -/
def ptMapPageStoreOps (s : PtState) (ppte pa va flags : Nat) : List PtOp :=
  (if flagIsSet (s.mem ppte) PTE_V then [.invlpg va] else []) ++ [.store ppte (pa ||| flags ||| PTE_V)]

/-- `pt_map_page`. -/
def ptMapPageOps (s : PtState) (pa va flags : Nat) : List PtOp :=
  let (level, ppte) := ptWalk s va .l1
  [.check (pa % PGSIZE = 0), .check (va % PGSIZE = 0), .check (!flagIsSet (s.mem ppte) PTE_V)] ++
    ptMapPageCreateLevelsOps s ppte va flags (levelsBelow level) ++
    match ptMapPageCreateLevels s ppte va flags level with
    | .error _ => []
    | .ok (s, ppte) => ptMapPageStoreOps s ppte pa va flags

/-- `pt_unmap_page`. -/
def ptUnmapPageOps (s : PtState) (va : Nat) (onLevel : PtLevel) : List PtOp :=
  let (level, ppte) := ptWalk s va onLevel
  if level ≠ onLevel then []
  else .store ppte 0 :: if flagIsSet (s.mem ppte) PTE_V then [.invlpg va] else []

/-- The first `n` turns of the loop of `pt_map_region`. -/
def ptMapRegionLoopOps (s : PtState) (pa va flags : Nat) : Nat → List PtOp
  | 0 => []
  | n + 1 => ptMapRegionLoopOps s pa va flags n ++
      match ptMapRegionLoop s pa va flags n with
      | .error _ => []
      | .ok s => ptMapPageOps s (pgOffset pa n) (pgOffset va n) flags

/-- The first `n` turns of the loop after `fail_unmap`. -/
def ptUnmapRegionLoopOps (s : PtState) (va : Nat) : Nat → List PtOp
  | 0 => []
  | n + 1 => ptUnmapRegionLoopOps s va n ++ ptUnmapPageOps (ptUnmapRegionLoop s va n) (pgOffset va n) .l1

/-- `pt_map_region`. -/
def ptMapRegionOps (s : PtState) (pa va size flags : Nat) : List PtOp :=
  let turns := (size + PGSIZE - 1) / PGSIZE
  [.check (pa % PGSIZE = 0), .check (va % PGSIZE = 0), .check (size % PGSIZE = 0)] ++
    ptMapRegionLoopOps s pa va flags turns ++
    match ptMapRegionLoop s pa va flags turns with
    | .ok _ => []
    | .error (done, s) => ptUnmapRegionLoopOps s va done

/-- The turns of the inner loop of `virtual_invalidate`. -/
def virtualInvalidatePtesOps (ppage ppte : Nat) : Nat → List PtOp
  | 0 => []
  | n + 1 => virtualInvalidatePtesOps ppage ppte n ++
      [.store (ppte + 8 * n) PTE_INVALIDATED, .invlpg (pgOffset ppage n)]

/-- The loop of `virtual_invalidate`. -/
def virtualInvalidateLoopOps (s : PtState) (p npages pageOffset : Nat) : Nat → List PtOp
  | 0 => []
  | fuel + 1 =>
      if pageOffset < npages then
        let ppage := pgOffset p pageOffset
        let (level, ppte) := ptWalk s ppage .l1
        let pteBaseOffset := ptLevelOffset ppage .l1
        let nptes := min (PT_NUM_ENTRIES - pteBaseOffset) (npages - pageOffset)
        [.check (level = .l1), .check (flagIsSet (s.mem ppte) PTE_V)] ++ virtualInvalidatePtesOps ppage ppte nptes ++
          virtualInvalidateLoopOps (virtualInvalidatePtes s ppage ppte nptes) p npages (pageOffset + nptes) fuel
      else []

/-- `virtual_invalidate`. -/
def virtualInvalidateOps (s : PtState) (p npages : Nat) : List PtOp :=
  virtualInvalidateLoopOps s (roundDown p PGSIZE) npages 0 npages

theorem ptMapPageCreateLevel_eq (s : PtState) (ppte va : Nat) (level : PtLevel) (flags : Nat) :
    (∃ t, ptMapPageCreateLevel s ppte va level flags = .error t ∧
      s.applyAll (ptMapPageCreateLevelOps s ppte flags) = t) ∨
    ∃ t ppte', ptMapPageCreateLevel s ppte va level flags = .ok (t, ppte') ∧
      s.applyAll (ptMapPageCreateLevelOps s ppte flags) = t := by
  unfold ptMapPageCreateLevel ptMapPageCreateLevelOps
  dsimp only
  split_ifs with hzero
  · exact Or.inl ⟨_, rfl, rfl⟩
  · exact Or.inr ⟨_, _, rfl, rfl⟩

/-- The cases of the `switch` as a recursion over the levels. -/
theorem ptMapPageCreateLevels_eq (s : PtState) (ppte va flags : Nat) {level lower : PtLevel}
    (hlevel : levelsBelow level = lower :: levelsBelow lower) :
    ptMapPageCreateLevels s ppte va flags level =
      match ptMapPageCreateLevel s ppte va lower flags with
      | .error t => .error t
      | .ok (t, ppte') => ptMapPageCreateLevels t ppte' va flags lower := by
  have hbelow : (level = .l4 ∧ lower = .l3) ∨ (level = .l3 ∧ lower = .l2) ∨ (level = .l2 ∧ lower = .l1) := by
    cases level <;> cases lower <;> simp [levelsBelow] at hlevel ⊢
  rcases hbelow with ⟨rfl, rfl⟩ | ⟨rfl, rfl⟩ | ⟨rfl, rfl⟩ <;> simp only [ptMapPageCreateLevels]
  · cases ptMapPageCreateLevel s ppte va .l3 flags <;> rfl
  · cases ptMapPageCreateLevel s ppte va .l2 flags <;> rfl
  · cases ptMapPageCreateLevel s ppte va .l1 flags <;> rfl

theorem levelsBelow_cons {level : PtLevel} (hlevel : level ≠ .l1) :
    ∃ lower, levelsBelow level = lower :: levelsBelow lower := by
  cases level with
  | l1 => exact absurd rfl hlevel
  | l2 => exact ⟨.l1, rfl⟩
  | l3 => exact ⟨.l2, rfl⟩
  | l4 => exact ⟨.l3, rfl⟩

theorem ptMapPageCreateLevels_ops (s : PtState) (ppte va flags : Nat) (level : PtLevel) :
    (∃ t, ptMapPageCreateLevels s ppte va flags level = .error t ∧
      s.applyAll (ptMapPageCreateLevelsOps s ppte va flags (levelsBelow level)) = t) ∨
    ∃ t ppte', ptMapPageCreateLevels s ppte va flags level = .ok (t, ppte') ∧
      s.applyAll (ptMapPageCreateLevelsOps s ppte va flags (levelsBelow level)) = t := by
  generalize hlevels : levelsBelow level = levels
  induction levels generalizing s ppte level with
  | nil =>
      cases level with
      | l1 => exact Or.inr ⟨s, ppte, rfl, rfl⟩
      | l2 | l3 | l4 => cases hlevels
  | cons lower levels ih =>
      have hlevel : level ≠ .l1 := by
        rintro rfl
        cases hlevels
      obtain ⟨lower', hlower⟩ := levelsBelow_cons hlevel
      obtain ⟨rfl, rfl⟩ := List.cons.inj (hlevels.symm.trans hlower)
      rw [ptMapPageCreateLevels_eq s ppte va flags hlower, ptMapPageCreateLevelsOps, applyAll_append]
      rcases ptMapPageCreateLevel_eq s ppte va lower flags with ⟨t, hlevel, happly⟩ | ⟨t, ppte', hlevel, happly⟩
      · rw [hlevel, happly]
        exact Or.inl ⟨t, rfl, rfl⟩
      · rw [hlevel, happly]
        exact ih t ppte' lower rfl

theorem applyAll_ptMapPageOps (s : PtState) (pa va flags : Nat) :
    s.applyAll (ptMapPageOps s pa va flags) = (ptMapPage s pa va flags).2 := by
  unfold ptMapPageOps ptMapPage
  dsimp only
  rw [applyAll_append, applyAll_append]
  rcases ptMapPageCreateLevels_ops s (ptWalk s va .l1).2 va flags (ptWalk s va .l1).1 with
    ⟨t, hlevels, happly⟩ | ⟨t, ppte, hlevels, happly⟩
  · rw [hlevels]
    exact happly
  · rw [hlevels]
    dsimp only [applyAll_cons, PtState.apply, applyAll_nil]
    rw [happly, ptMapPageStoreOps, applyAll_append]
    split_ifs <;> rfl

theorem applyAll_ptUnmapPageOps (s : PtState) (va : Nat) (onLevel : PtLevel) :
    s.applyAll (ptUnmapPageOps s va onLevel) = (ptUnmapPage s va onLevel).2 := by
  unfold ptUnmapPageOps ptUnmapPage
  dsimp only
  split_ifs <;> rfl

theorem applyAll_ptMapRegionLoopOps (s : PtState) (pa va flags n : Nat) :
    s.applyAll (ptMapRegionLoopOps s pa va flags n) =
      match ptMapRegionLoop s pa va flags n with
      | .ok t => t
      | .error e => e.2 := by
  induction n with
  | zero => rfl
  | succ n ih =>
      rw [ptMapRegionLoopOps, ptMapRegionLoop, applyAll_append, ih]
      cases ptMapRegionLoop s pa va flags n with
      | error e => rfl
      | ok t =>
          dsimp only
          rw [applyAll_ptMapPageOps]
          show _ = match (if (ptMapPage t (pgOffset pa n) (pgOffset va n) flags).1 < 0 then _ else _ :
            Except (Nat × PtState) PtState) with | .ok t => t | .error e => e.2
          split_ifs <;> rfl

theorem applyAll_ptUnmapRegionLoopOps (s : PtState) (va n : Nat) :
    s.applyAll (ptUnmapRegionLoopOps s va n) = ptUnmapRegionLoop s va n := by
  induction n with
  | zero => rfl
  | succ n ih => rw [ptUnmapRegionLoopOps, applyAll_append, ih, applyAll_ptUnmapPageOps, ptUnmapRegionLoop]

theorem applyAll_ptMapRegionOps (s : PtState) (pa va size flags : Nat) :
    s.applyAll (ptMapRegionOps s pa va size flags) = (ptMapRegion s pa va size flags).2 := by
  unfold ptMapRegionOps ptMapRegion
  dsimp only
  rw [applyAll_append, applyAll_append]
  show (PtState.applyAll s _).applyAll _ = _
  rw [applyAll_ptMapRegionLoopOps]
  cases ptMapRegionLoop s pa va flags ((size + PGSIZE - 1) / PGSIZE) with
  | ok t => rfl
  | error e => exact applyAll_ptUnmapRegionLoopOps e.2 va e.1

theorem applyAll_virtualInvalidatePtesOps (s : PtState) (ppage ppte n : Nat) :
    s.applyAll (virtualInvalidatePtesOps ppage ppte n) = virtualInvalidatePtes s ppage ppte n := by
  induction n with
  | zero => rfl
  | succ n ih =>
      rw [virtualInvalidatePtesOps, applyAll_append, ih]
      rfl

theorem applyAll_virtualInvalidateLoopOps (s : PtState) (p npages pageOffset fuel : Nat) :
    s.applyAll (virtualInvalidateLoopOps s p npages pageOffset fuel) =
      virtualInvalidateLoop s p npages pageOffset fuel := by
  induction fuel generalizing s pageOffset with
  | zero => rfl
  | succ fuel ih =>
      rw [virtualInvalidateLoopOps, virtualInvalidateLoop]
      split_ifs with hlt
      · dsimp only
        rw [applyAll_append, applyAll_append]
        show (PtState.applyAll s _).applyAll _ = _
        rw [applyAll_virtualInvalidatePtesOps]
        exact ih _ _
      · rfl

theorem applyAll_virtualInvalidateOps (s : PtState) (p npages : Nat) :
    s.applyAll (virtualInvalidateOps s p npages) = virtualInvalidate s p npages :=
  applyAll_virtualInvalidateLoopOps s _ npages 0 npages

section Calls

variable {σ : Type} (A : SysAllocator σ) (L : DuneLayout)

/-- The assertions of `vremap_map` before it allocates, with those that `DEBUG_VIRTREMAP` adds on the first page of the
block. Its loop over the further pages, which asserts that they are contiguous at one page size, is left out. -/
def vremapMapChecks (ptr size : Nat) (w : World σ) : List PtOp :=
  let basePaPage := ptResolvePage w.pt ptr
  [.check (ptr ≠ 0 ∧ size ≠ 0), .check w.kernelMode,
    .check (numSpannedPages ptr size = roundUp (u64 (getPageOffset ptr .l1 + size)) PGSIZE / PGSIZE),
    .check (basePaPage.1 ≠ 0),
    .check (u64 (basePaPage.1 + getPageOffset ptr basePaPage.2) = L.duneVaToPa ptr)]

/-- The assertions of `DEBUG_VIRTREMAP` on the pages that were allocated. -/
def vremapMapAtChecks (npages va : Nat) (w : World σ) : List PtOp :=
  (List.range npages).map fun i => .check ((ptResolvePage w.pt (pgOffset va i)).1 = 0)

/-- `vremap_map`. -/
def vremapMapOps (ptr size : Nat) (w : World σ) : List PtOp :=
  let npages := numSpannedPages ptr size
  let r := vpAlloc A npages w
  vremapMapChecks L ptr size w ++
    if r.1 = 0 then []
    else vremapMapAtChecks npages r.1 r.2 ++
      ptMapRegionOps r.2.pt (roundDown (L.duneVaToPa ptr) PGSIZE) r.1 (npages * PGSIZE) (PTE_W ||| PTE_NX)

/-- The call of `vremap_map` in `do_vremap`, with the retry. -/
def vremapRetryOps (p actualSize : Nat) (w : World σ) : List PtOp :=
  let r := vremapMap A L p actualSize w
  vremapMapOps A L p actualSize w ++
    if r.result = EVREM_NO_VM ∧ !r.world.autoDedicated then vremapMapOps A L p actualSize (autoDedicateVmem A r.world)
    else []

/-- `do_vremap`. -/
def doVremapOps (p size : Nat) (w : World σ) : List PtOp :=
  if p = 0 ∨ size = 0 then []
  else
    let actualSize := sysmallocUsableSize A p w
    vremapRetryOps A L p actualSize.1 actualSize.2

/-- `HOOK_RETURN`, with the assertion of `do_hook_exit`. -/
def hookReturnOps (ops : List PtOp) (w : World σ) : List PtOp := ops ++ [.check (0 < w.hookDepth)]

/-- `dangless_malloc`. -/
def danglessMallocOps (size : Nat) (w : World σ) : List PtOp :=
  let p := sysmalloc A size w
  match hookEnter p.2 with
  | none => []
  | some w => hookReturnOps (doVremapOps A L p.1 size w) (doVremap A L p.1 size w).2

/-- `dangless_calloc`. -/
def danglessCallocOps (storage num size : Nat) (w : World σ) : List PtOp :=
  let p := syscalloc A storage num size w
  match hookEnter p.2 with
  | none => []
  | some w => hookReturnOps (doVremapOps A L p.1 (u64 (num * size)) w) (doVremap A L p.1 (u64 (num * size)) w).2

/-- `dangless_free` once the hook is entered, with the assertion of `vremap_resolve`. -/
def danglessFreeHookedOps (p : Nat) (w : World σ) : List PtOp :=
  let resolved := vremapResolve L w.pt p
  .check w.kernelMode ::
    if resolved.1 = VREM_OK then
      let npages := sysmallocSpannedPages A (resolved.2.getD p) w
      virtualInvalidateOps npages.2.pt p npages.1
    else []

/-- `dangless_free`. -/
def danglessFreeOps (p : Nat) (w : World σ) : List PtOp :=
  if p = 0 then []
  else
    match hookEnter w with
    | none => []
    | some w => hookReturnOps (danglessFreeHookedOps A L p w) (danglessFreeHooked A L p w)

/-- `dangless_realloc` of a block that was remapped to `p`, once `sysrealloc` has given `newp`. -/
def danglessReallocNewOps (p originalPtr oldNpages newp newSize : Nat) (w : World σ) : List PtOp :=
  let actualNewSize := sysmallocUsableSize A newp w
  let w := actualNewSize.2
  let newNpages := numSpannedPages newp actualNewSize.1
  .check (newSize ≤ actualNewSize.1) ::
    if newp = originalPtr ∧ newNpages = oldNpages then []
    else if newp = originalPtr ∧ newNpages < oldNpages then
      virtualInvalidateOps w.pt (roundUp (u64 (p + actualNewSize.1)) PGSIZE) (oldNpages - newNpages)
    else
      virtualInvalidateOps w.pt p oldNpages ++
        doVremapOps A L newp newSize { w with pt := virtualInvalidate w.pt p oldNpages }

/-- `dangless_realloc` of a pointer that was remapped from `originalPtr`. -/
def danglessReallocRemappedOps (p originalPtr newSize : Nat) (w : World σ) : List PtOp :=
  let actualOldSize := sysmallocUsableSize A originalPtr w
  let oldNpages := numSpannedPages originalPtr actualOldSize.1
  let newp := sysrealloc A originalPtr newSize actualOldSize.2
  if newp.1 = 0 then []
  else danglessReallocNewOps A L p originalPtr oldNpages newp.1 newSize newp.2

/-- `dangless_realloc` once the hook is entered. -/
def danglessReallocHookedOps (p newSize : Nat) (w : World σ) : List PtOp :=
  let resolved := vremapResolve L w.pt p
  (if p ≠ 0 then [.check w.kernelMode] else []) ++
    if p ≠ 0 ∧ resolved.1 = VREM_OK then danglessReallocRemappedOps A L p (resolved.2.getD p) newSize w
    else
      let newp := sysrealloc A p newSize w
      doVremapOps A L newp.1 newSize newp.2

/-- `dangless_realloc`. -/
def danglessReallocOps (p newSize : Nat) (w : World σ) : List PtOp :=
  match hookEnter w with
  | none => []
  | some w => hookReturnOps (danglessReallocHookedOps A L p newSize w) (danglessReallocHooked A L p newSize w).2

end Calls

end Dangless
