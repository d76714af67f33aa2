import Dangless.ClientTrace
import Dangless.LibLedger
import Dangless.PageTableThreadsSpec
import Dangless.VirtmemAllocThreads

/-! The entry points of `dangless_malloc.c` for threads that run at the same time. A statement is a call of the system
allocator, a step of `vp_alloc` or `vp_free` under the mutex of the freelist, or the beginning or the end of a call of
`pt_map_region`, `virtual_invalidate` or `pt_resolve` or of the work on the list: it takes effect when it ends, as it may
where no other thread works on the same pages or on the list. Every thread has a `g_hook_depth` of its own. -/

namespace Dangless

open Rely

/-- `g_auto_dedicate_once`. -/
inductive Once where
  | init
  | running
  | done
  deriving DecidableEq

/-- What the threads share: the state of the program, whether the mutex of the freelist is locked, and
`g_auto_dedicate_once`. The hook depth in it is that of no thread. -/
structure SharedWorld (σ : Type) where
  world : World σ
  locked : Bool
  once : Once

/-- A call of the page tables, or the work of a function on the list that its thread has locked. -/
inductive Work where
  | tables (call : PtCall)
  | list (op : VpOp)
  deriving DecidableEq

/-- What a thread has for itself: `g_hook_depth`, and, for the record, the work that it is in the middle of. -/
structure ThreadVars where
  hookDepth : Nat
  working : Option Work

variable {σ R : Type}

/-- The state of the program as a thread sees it. -/
def loadWorld (s : SharedWorld σ × ThreadVars) : World σ := { s.1.world with hookDepth := s.2.hookDepth }

def storeWorld (w : World σ) (s : SharedWorld σ × ThreadVars) : SharedWorld σ × ThreadVars :=
  ({ s.1 with world := w }, { s.2 with hookDepth := w.hookDepth })

abbrev MtProg (σ R : Type) := Prog (SharedWorld σ × ThreadVars) R

/-- A statement that does a function of the model. -/
def callWorld (f : World σ → R × World σ) : MtProg σ R :=
  .fetch (fun s => (f (loadWorld s)).1) fun s => storeWorld (f (loadWorld s)).2 s

def readWorld (f : World σ → R) : MtProg σ R := .read fun s => f (loadWorld s)

/-- An assertion about the state. -/
def assertWorld (f : World σ → Bool) : MtProg σ Unit := do
  let condition ← readWorld f
  Prog.check condition

/-- Whether an assertion holds. -/
def PtOp.passes : PtOp → Bool
  | .check condition => condition
  | _ => true

section

variable (A : SysAllocator σ) (L : DuneLayout)

def sysmallocProg (size : Nat) : MtProg σ Nat := callWorld (sysmalloc A size)

def syscallocProg (storage num size : Nat) : MtProg σ Nat := callWorld (syscalloc A storage num size)

def sysreallocProg (p size : Nat) : MtProg σ Nat := callWorld (sysrealloc A p size)

def sysfreeProg (p : Nat) : MtProg σ Unit := callWorld fun w => ((), sysfree A p w)

def sysmallocUsableSizeProg (p : Nat) : MtProg σ Nat := callWorld (sysmallocUsableSize A p)

def sysmallocSpannedPagesProg (p : Nat) : MtProg σ Nat := callWorld (sysmallocSpannedPages A p)

def freelistLock : MtProg σ Unit := .await (fun s => !s.1.locked) fun s => ({ s.1 with locked := true }, s.2)

def freelistUnlock : MtProg σ Unit := .modify fun s => ({ s.1 with locked := false }, s.2)

/-- What is recorded of a run. -/
def recordEvent (e : Event σ) : MtProg σ Unit := callWorld fun w => ((), { w with trace := e :: w.trace })

/-- `FREE(span)` of several span objects. -/
def freeNodesProg : List Nat → MtProg σ Unit
  | [] => return
  | node :: nodes => do
      sysfreeProg A node
      freeNodesProg nodes

/-- Work on the page tables or on the list, from its beginning to its end. -/
def workProg (work : Work) (f : World σ → R × World σ) : MtProg σ R := do
  .modify fun s => (s.1, { s.2 with working := some work })
  .fetch (fun s => (f (loadWorld s)).1) fun s =>
    let s := storeWorld (f (loadWorld s)).2 s
    (s.1, { s.2 with working := none })

/-- `vp_alloc`. -/
def vpAllocProg (npages : Nat) : MtProg σ Nat := do
  freelistLock
  let r ← workProg (.list (.alloc npages)) fun w =>
    (freelistAlloc npages w.items, { w with items := (freelistAlloc npages w.items).items })
  freeNodesProg A r.freed
  recordEvent (.vpAlloc r.va npages)
  freelistUnlock
  return r.va

/-- `MALLOC(struct vp_span)`, where `freelist_free` comes to it. -/
def spanNodeProg (needsNode : Bool) : MtProg σ Nat := if needsNode then sysmallocProg A VP_SPAN_SIZE else return 0

/-- `vp_free`. -/
def vpFreeProg (p npages : Nat) : MtProg σ Int := do
  freelistLock
  let needsNode ← readWorld fun w => freelistFreeNeedsNode w.items p npages
  let node ← spanNodeProg A needsNode
  let r ← workProg (.list (.free p npages)) fun w =>
    (freelistFree w.items p npages node, { w with items := (freelistFree w.items p npages node).items })
  freeNodesProg A r.freed
  recordEvent (.vpFree p npages)
  freelistUnlock
  return r.result

/-- `pt_map_region`, with the flags of `vremap_map`. -/
def ptMapRegionCall (pa va npages : Nat) : MtProg σ Int :=
  workProg (.tables (.mapRegion pa va npages (PTE_W ||| PTE_NX))) fun w =>
    let r := ptMapRegion w.pt pa va (npages * PGSIZE) (PTE_W ||| PTE_NX)
    (r.1, { w with pt := r.2 })

/-- `virtual_invalidate`. -/
def virtualInvalidateCall (p npages : Nat) : MtProg σ Unit :=
  workProg (.tables (.invalidate p npages)) fun w => ((), { w with pt := virtualInvalidate w.pt p npages })

/-- `vremap_resolve`. -/
def vremapResolveProg (p : Nat) : MtProg σ (Int × Option Nat) := do
  assertWorld World.kernelMode
  workProg (.tables (.resolve p)) fun w => (vremapResolve L w.pt p, w)

/-- `vremap_map` once `vp_alloc` has given the region at `va`; what `DEBUG_VIRTREMAP` asserts of the new pages is one
look at the tables here. -/
def vremapMapAtProg (ptr npages va : Nat) : MtProg σ (Int × Nat) := do
  assertWorld fun w => (vremapMapAtChecks npages va w).all PtOp.passes
  let inpageOffset := getPageOffset ptr .l1
  let paPage := roundDown (L.duneVaToPa ptr) PGSIZE
  let result ← ptMapRegionCall paPage va npages
  if result < 0 then
    let _ ← vpFreeProg A va npages
    return (EVREM_VIRT_MAP, 0)
  else return (VREM_OK, va + inpageOffset)

/-- `vremap_map`. -/
def vremapMapProg (ptr size : Nat) : MtProg σ (Int × Nat) := do
  assertWorld fun w => (vremapMapChecks L ptr size w).all PtOp.passes
  let npages := numSpannedPages ptr size
  let va ← vpAllocProg A npages
  if va = 0 then return (EVREM_NO_VM, 0) else vremapMapAtProg A L ptr npages va

/-- The first `n` turns of the loop of `auto_dedicate_vmem`. -/
def autoDedicateLoopProg : Nat → MtProg σ Unit
  | 0 => return
  | i + 1 => do
      autoDedicateLoopProg i
      let pteMappedSize := 2 ^ ptLevelShift .l4
      let word ← readWorld fun w => w.pt.mem (w.pt.cr3 + 8 * i)
      if word ≠ 0 then return
      else
        let _ ← vpFreeProg A (i * pteMappedSize)
          (u64 ((i + 1) * pteMappedSize + 2 ^ 64 - i * pteMappedSize) / PGSIZE)
        return

/-- `auto_dedicate_vmem`. -/
def autoDedicateProg : MtProg σ Unit := do
  autoDedicateLoopProg A PT_NUM_ENTRIES
  callWorld fun w => ((), { w with autoDedicated := true })

/-- `pthread_once(&g_auto_dedicate_once, auto_dedicate_vmem)`: the first thread runs the function, and the others wait
for its end. -/
def pthreadOnce : MtProg σ Unit := do
  let first ← Prog.step (fun s => s.1.once != .running)
    (fun s => ({ s.1 with once := if s.1.once = .init then .running else s.1.once }, s.2))
    fun s => return s.1.once == .init
  if first then
    autoDedicateProg A
    .modify fun s => ({ s.1 with once := .done }, s.2)
  else return

/-- The loop at `retry` of `do_vremap`, for at most `fuel` turns. -/
def vremapRetryProg (p actualSize : Nat) : Nat → MtProg σ (Int × Nat)
  | 0 => .fail
  | fuel + 1 => do
      let r ← vremapMapProg A L p actualSize
      if r.1 = EVREM_NO_VM then
        let happened ← readWorld World.autoDedicated
        if happened then return r
        else
          pthreadOnce A
          vremapRetryProg p actualSize fuel
      else return r

/-- `do_vremap`. Virtual memory is dedicated once, so there are two turns at most. -/
def doVremapProg (p size : Nat) : MtProg σ Nat :=
  if p = 0 ∨ size = 0 then return 0
  else do
    let actualSize ← sysmallocUsableSizeProg A p
    let r ← vremapRetryProg A L p actualSize 2
    if r.1 < 0 then return p else return r.2

/-- `HOOK_ENTER`. -/
def hookEnterProg : MtProg σ Bool := callWorld fun w => ((hookEnter w).isSome, (hookEnter w).getD w)

/-- `HOOK_EXIT`. -/
def hookExitProg : MtProg σ Unit := do
  assertWorld fun w => 0 < w.hookDepth
  callWorld fun w => ((), hookExit w)

/-- `HOOK_RETURN(do_vremap(p, size))` of an allocating entry point that was entered. -/
def hookVremapProg (p size : Nat) : MtProg σ Nat := do
  let r ← doVremapProg A L p size
  hookExitProg
  return r

/-- `dangless_malloc`. -/
def danglessMallocProg (size : Nat) : MtProg σ Nat := do
  let p ← sysmallocProg A size
  let entered ← hookEnterProg
  if entered then hookVremapProg A L p size else return p

/-- `dangless_calloc`. -/
def danglessCallocProg (storage num size : Nat) : MtProg σ Nat := do
  let p ← syscallocProg A storage num size
  let entered ← hookEnterProg
  if entered then hookVremapProg A L p (u64 (num * size)) else return p

/-- `dangless_free` once the hook is entered. -/
def danglessFreeHookedProg (p : Nat) : MtProg σ Unit := do
  let resolved ← vremapResolveProg L p
  let originalPtr := resolved.2.getD p
  if resolved.1 = VREM_OK then
    let npages ← sysmallocSpannedPagesProg A originalPtr
    virtualInvalidateCall p npages
    sysfreeProg A originalPtr
  else sysfreeProg A originalPtr

/-- `dangless_free`. -/
def danglessFreeProg (p : Nat) : MtProg σ Unit :=
  if p = 0 then return
  else do
    let entered ← hookEnterProg
    if entered then
      danglessFreeHookedProg A L p
      hookExitProg
    else sysfreeProg A p

/-- `dangless_realloc` of a block that was remapped to `p`, once `sysrealloc` has given `newp`. -/
def danglessReallocNewProg (p originalPtr oldNpages newp newSize : Nat) : MtProg σ Nat := do
  let actualNewSize ← sysmallocUsableSizeProg A newp
  Prog.check (newSize ≤ actualNewSize)
  let newNpages := numSpannedPages newp actualNewSize
  if newp = originalPtr ∧ newNpages = oldNpages then return p
  else if newp = originalPtr ∧ newNpages < oldNpages then
    virtualInvalidateCall (roundUp (u64 (p + actualNewSize)) PGSIZE) (oldNpages - newNpages)
    return p
  else
    virtualInvalidateCall p oldNpages
    doVremapProg A L newp newSize

/-- `dangless_realloc` of a pointer that was remapped from `originalPtr`. -/
def danglessReallocRemappedProg (p originalPtr newSize : Nat) : MtProg σ Nat := do
  let actualOldSize ← sysmallocUsableSizeProg A originalPtr
  let oldNpages := numSpannedPages originalPtr actualOldSize
  let newp ← sysreallocProg A originalPtr newSize
  if newp = 0 then return 0 else danglessReallocNewProg A L p originalPtr oldNpages newp newSize

/-- `dangless_realloc` of a pointer that was not remapped. -/
def danglessReallocPlainProg (p newSize : Nat) : MtProg σ Nat := do
  let newp ← sysreallocProg A p newSize
  doVremapProg A L newp newSize

/-- `dangless_realloc` once the hook is entered. -/
def danglessReallocHookedProg (p newSize : Nat) : MtProg σ Nat :=
  if p = 0 then danglessReallocPlainProg A L p newSize
  else do
    let resolved ← vremapResolveProg L p
    if resolved.1 = VREM_OK then danglessReallocRemappedProg A L p (resolved.2.getD p) newSize
    else danglessReallocPlainProg A L p newSize

/-- `dangless_realloc`. -/
def danglessReallocProg (p newSize : Nat) : MtProg σ Nat := do
  let entered ← hookEnterProg
  if entered then
    let r ← danglessReallocHookedProg A L p newSize
    hookExitProg
    return r
  else sysreallocProg A p newSize

/-- The code of a call; `free` answers nothing, which is 0 here. -/
def ClientCall.code (storage : Nat) : ClientCall → MtProg σ Nat
  | .malloc size => danglessMallocProg A L size
  | .calloc num size => danglessCallocProg A L storage num size
  | .realloc p newSize => danglessReallocProg A L p newSize
  | .free p => do
      danglessFreeProg A L p
      return 0

end

end Dangless
