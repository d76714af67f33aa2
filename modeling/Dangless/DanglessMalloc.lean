import Dangless.VirtualRemap

/-! The entry points of `dangless_malloc.c`, with `AUTO_DEDICATE_PML4ES` and `ALLOW_SYSMALLOC_FALLBACK`
on, as they are by default. -/

namespace Dangless

variable {σ : Type} (A : SysAllocator σ) (L : DuneLayout)

/-- `dangless_dedicate_vmem`. -/
def danglessDedicateVmem (start end_ : Nat) (w : World σ) : Int × World σ := vpFreeRegion A start end_ w

/-- The first `n` turns of the loop of `auto_dedicate_vmem`. -/
def autoDedicateLoop (w : World σ) : Nat → World σ
  | 0 => w
  | i + 1 =>
      let w := autoDedicateLoop w i
      let pteMappedSize := 2 ^ ptLevelShift .l4
      if w.pt.mem (w.pt.cr3 + 8 * i) ≠ 0 then w
      else (danglessDedicateVmem A (i * pteMappedSize) ((i + 1) * pteMappedSize) w).2

/-- `auto_dedicate_vmem`. -/
def autoDedicateVmem (w : World σ) : World σ :=
  { autoDedicateLoop A w PT_NUM_ENTRIES with autoDedicated := true }

/-- `do_hook_enter`: `none` where it returns `false`. -/
def hookEnter (w : World σ) : Option (World σ) :=
  if w.hookDepth > 0 then none
  else if !w.kernelMode then none
  else some { w with hookDepth := w.hookDepth + 1 }

/-- `do_hook_exit`. -/
def hookExit (w : World σ) : World σ := { w with hookDepth := w.hookDepth - 1 }

/-- The call of `vremap_map` in `do_vremap`, with the retry after `auto_dedicate_vmem`. That sets
`g_auto_dedicate_happened`, so there is one retry at most. -/
def vremapRetry (p actualSize : Nat) (w : World σ) : VremapMap σ :=
  let r := vremapMap A L p actualSize w
  if r.result = EVREM_NO_VM ∧ !r.world.autoDedicated then
    vremapMap A L p actualSize (autoDedicateVmem A r.world)
  else r

/-- `do_vremap`. -/
def doVremap (p size : Nat) (w : World σ) : Nat × World σ :=
  if p = 0 ∨ size = 0 then (0, w)
  else
    let actualSize := sysmallocUsableSize A p w
    let r := vremapRetry A L p actualSize.1 actualSize.2
    if r.result < 0 then (p, r.world) else (r.remappedPtr, r.world)

/-- `HOOK_RETURN(do_vremap(p, size))` of an allocating entry point that was entered. -/
def hookVremap (p size : Nat) (w : World σ) : Nat × World σ :=
  let r := doVremap A L p size w
  (r.1, hookExit r.2)

/-- `dangless_malloc`. -/
def danglessMalloc (size : Nat) (w : World σ) : Nat × World σ :=
  let p := sysmalloc A size w
  match hookEnter p.2 with
  | none => p
  | some w => hookVremap A L p.1 size w

/-- `dangless_calloc`. -/
def danglessCalloc (storage num size : Nat) (w : World σ) : Nat × World σ :=
  let p := syscalloc A storage num size w
  match hookEnter p.2 with
  | none => p
  | some w => hookVremap A L p.1 (u64 (num * size)) w

/-- `dangless_posix_memalign`, where `*pp` holds `old`: the result, what `*pp` holds then, the state. -/
def danglessPosixMemalign (pp align size old : Nat) (w : World σ) : Nat × Nat × World σ :=
  let result := sysmemalign A pp align w
  if result.1 ≠ 0 then (result.1, old, result.2)
  else
    match hookEnter result.2 with
    | none => (result.1, old, result.2)
    | some w => (0, hookVremap A L old size w)

/-- `dangless_free` once the hook is entered. -/
def danglessFreeHooked (p : Nat) (w : World σ) : World σ :=
  let resolved := vremapResolve L w.pt p
  let originalPtr := resolved.2.getD p
  if resolved.1 = VREM_OK then
    let npages := sysmallocSpannedPages A originalPtr w
    sysfree A originalPtr { npages.2 with pt := virtualInvalidate npages.2.pt p npages.1 }
  else sysfree A originalPtr w

/-- `dangless_free`. -/
def danglessFree (p : Nat) (w : World σ) : World σ :=
  if p = 0 then w
  else
    match hookEnter w with
    | none => sysfree A p w
    | some w => hookExit (danglessFreeHooked A L p w)

/-- `dangless_realloc` of a block that was remapped to `p`, once `sysrealloc` has given `newp`. -/
def danglessReallocNew (p originalPtr oldNpages newp newSize : Nat) (w : World σ) : Nat × World σ :=
  let actualNewSize := sysmallocUsableSize A newp w
  let w := actualNewSize.2
  let newNpages := numSpannedPages newp actualNewSize.1
  if newp = originalPtr ∧ newNpages = oldNpages then (p, w)
  else if newp = originalPtr ∧ newNpages < oldNpages then
    let pInvalidateFrom := roundUp (u64 (p + actualNewSize.1)) PGSIZE
    let numInvalidPages := oldNpages - newNpages
    (p, { w with pt := virtualInvalidate w.pt pInvalidateFrom numInvalidPages })
  else
    -- moved, or grown in place: the old region goes, and the block gets a new one
    doVremap A L newp newSize { w with pt := virtualInvalidate w.pt p oldNpages }

/-- `dangless_realloc` of a pointer that was remapped from `originalPtr`. -/
def danglessReallocRemapped (p originalPtr newSize : Nat) (w : World σ) : Nat × World σ :=
  let actualOldSize := sysmallocUsableSize A originalPtr w
  let oldNpages := numSpannedPages originalPtr actualOldSize.1
  let newp := sysrealloc A originalPtr newSize actualOldSize.2
  if newp.1 = 0 then (0, newp.2)
  else danglessReallocNew A L p originalPtr oldNpages newp.1 newSize newp.2

/-- `dangless_realloc` once the hook is entered. -/
def danglessReallocHooked (p newSize : Nat) (w : World σ) : Nat × World σ :=
  let resolved := vremapResolve L w.pt p
  if p ≠ 0 ∧ resolved.1 = VREM_OK then
    danglessReallocRemapped A L p (resolved.2.getD p) newSize w
  else
    let newp := sysrealloc A p newSize w
    doVremap A L newp.1 newSize newp.2

/-- `dangless_realloc`. -/
def danglessRealloc (p newSize : Nat) (w : World σ) : Nat × World σ :=
  match hookEnter w with
  | none => sysrealloc A p newSize w
  | some w =>
      let r := danglessReallocHooked A L p newSize w
      (r.1, hookExit r.2)

end Dangless
