import Dangless.LibPaging
import Dangless.VirtualRemap

/-! The hooks around system calls (`platform/dune/vmcall_hooks.c`) and the fixup of pointers in arguments and
in the memory behind them (`vmcall_fixup.c`, `vmcall_fixup_restore.c`), without multithreading and logs. The argument
array, the records and the page tables are apart from the memory that arguments point to. An access to a
pointer slot that is not aligned, which C leaves undefined, ends a run as a page fault does. -/

namespace Dangless

/-- `struct vmcall_fixup_info`; the table of them is a file that the build generates. -/
inductive VmcallParam where
  | none
  | flatPtr
  | iovec
  | ptrPtr
  | msghdr
  deriving DecidableEq, Repr

def SYSCALL_MAX_ARGS : Nat := 6

structure VmcallFixupInfo where
  params : List VmcallParam
  length_le : params.length ≤ SYSCALL_MAX_ARGS

/-- Where a pointer is stored: an element of the argument array, or memory. -/
inductive Slot where
  | arg (i : Nat)
  | mem (va : Nat)
  deriving DecidableEq, Repr

/-- Why a run of a hook does not return. -/
inductive HookError where
  | misaligned (va : Nat)
  | fault (va : Nat)
  | endless
  deriving DecidableEq, Repr

/-- The state: the argument array on the stack (`args`; the saved registers follow it), the words of memory by
physical address, the globals of the three files and `dangless_is_hook_running()`. `growths` counts the calls
of `sysrealloc`. `visited` is the history: the slots that `fixup_ptr` was called on. -/
structure HookState where
  args : Nat → Nat
  mem : Nat → Nat
  depth : Nat
  records : List (Slot × Nat)
  capacity : Nat
  growths : Nat
  currentSyscallno : Nat
  currentArgs : Nat → Nat
  hookRunning : Bool
  visited : List Slot

/-- The two options of the build that tracing looks at. -/
structure TraceConfig where
  noWriteStdout : Bool
  noWriteStderr : Bool

section

variable (L : DuneLayout) (pt : PtState) (grows : Nat → Bool) (config : TraceConfig)

/-- A word can be read and written. -/
def Accessible (va : Nat) : Prop := va % 8 = 0 ∧ Paging.Canonical va ∧ ptResolve pt va ≠ 0

def checkAccess (va : Nat) : Except HookError Unit :=
  if va % 8 ≠ 0 then .error (.misaligned va)
  else if Paging.Canonical va ∧ ptResolve pt va ≠ 0 then .ok ()
  else .error (.fault va)

/-- `*pptr`. -/
def readSlot (pptr : Slot) (s : HookState) : Except HookError Nat :=
  match pptr with
  | .arg i => .ok (s.args i)
  | .mem va => do
      checkAccess pt va
      .ok (s.mem (ptResolve pt va))

/-- `*pptr = value`. -/
def writeSlot (pptr : Slot) (value : Nat) (s : HookState) : Except HookError HookState :=
  match pptr with
  | .arg i => .ok { s with args := Function.update s.args i value }
  | .mem va => do
      checkAccess pt va
      .ok { s with mem := Function.update s.mem (ptResolve pt va) value }

/-- `grow_records_buffer`: `grows` says which calls of `sysrealloc` succeed. -/
def growRecordsBuffer (newCapacity : Nat) (s : HookState) : Bool × HookState :=
  if grows s.growths then (true, { s with capacity := newCapacity, growths := s.growths + 1 })
  else (false, { s with growths := s.growths + 1 })

/-- The record is written, past the buffer where that has been given no room at all. -/
def addRecord (location : Slot) (originalValue : Nat) (s : HookState) : HookState :=
  { s with records := s.records ++ [(location, originalValue)] }

/-- `vmcall_fixup_restore_on_return`. -/
def vmcallFixupRestoreOnReturn (location : Slot) (originalValue : Nat) (s : HookState) : HookState :=
  if s.records.length = s.capacity then
    let grown := growRecordsBuffer grows (s.capacity * 2) s
    if !grown.1 then grown.2 else addRecord location originalValue grown.2
  else addRecord location originalValue s

/-- The loop of `vmcall_fixup_restore_originals`. -/
def restoreRecords : List (Slot × Nat) → HookState → Except HookError HookState
  | [], s => .ok s
  | record :: records, s => do
      let s ← writeSlot pt record.1 record.2 s
      restoreRecords records s

/-- `vmcall_fixup_restore_originals`. -/
def vmcallFixupRestoreOriginals (s : HookState) : Except HookError HookState :=
  if s.records.length = 0 then .ok s
  else do
    let s ← restoreRecords pt s.records s
    .ok { s with records := [] }

/-- `is_trivially_not_remapped`. -/
def isTriviallyNotRemapped (addr : Nat) : Prop :=
  L.stackBase ≤ addr ∧ addr < L.stackBase + GPA_STACK_SIZE

instance (addr : Nat) : Decidable (isTriviallyNotRemapped L addr) := inferInstanceAs (Decidable (_ ∧ _))

/-- What `fixup_ptr` returns, `*is_valid`, and the state. -/
structure FixupPtr where
  result : Int
  isValid : Bool
  state : HookState

/-- `fixup_ptr`. -/
def fixupPtr (pptr : Slot) (s : HookState) : Except HookError FixupPtr := do
  let originalPtr ← readSlot pt pptr s
  let s := { s with visited := s.visited ++ [pptr] }
  if originalPtr < PGSIZE then .ok ⟨VREM_NOT_REMAPPED, false, s⟩
  else if isTriviallyNotRemapped L originalPtr then .ok ⟨VREM_NOT_REMAPPED, true, s⟩
  else
    let resolved := vremapResolve L pt originalPtr
    let isValid := resolved.1 != EVREM_NO_PHYS_BACK
    if resolved.1 = VREM_OK then do
      let s ← writeSlot pt pptr (resolved.2.getD originalPtr) s
      -- only a nested pointer is to be restored
      if s.depth > 1 then
        .ok ⟨resolved.1, isValid, vmcallFixupRestoreOnReturn grows pptr originalPtr s⟩
      else .ok ⟨resolved.1, isValid, s⟩
    else .ok ⟨resolved.1, isValid, s⟩

/-- `FIXUP_SCOPE`. -/
def fixupScope (body : HookState → Except HookError (Int × HookState)) (s : HookState) :
    Except HookError (Int × HookState) := do
  let r ← body { s with depth := s.depth + 1 }
  .ok (r.1, { r.2 with depth := r.2.depth - 1 })

/-- `result--` where a call has failed. -/
def countFailure (result : Int) (r : Int) : Int := if r < 0 then result - 1 else result

/-- No array has more elements: 8 bytes each, in a space of 2^64. -/
def MAX_ITEMS : Nat := 2 ^ 61

/-- `&ptrs[i]`. -/
def itemSlot (ptrs i : Nat) : Slot := .mem (u64 (ptrs + 8 * i))

/-- The loop that counts the items for the trace, from item `i` on. -/
def countItems (ptrs : Nat) (s : HookState) : Nat → Nat → Except HookError Unit
  | 0, _ => .error .endless
  | left + 1, i => do
      let item ← readSlot pt (itemSlot ptrs i) s
      if item = 0 then .ok () else countItems ptrs s left (i + 1)

/-- The loop of `fixup_ptr_ptr_nullterm`, from item `i` on. -/
def fixupItems (ptrs : Nat) : Nat → Nat → Int → HookState → Except HookError (Int × HookState)
  | 0, _, _, _ => .error .endless
  | left + 1, i, result, s => do
      let item ← readSlot pt (itemSlot ptrs i) s
      if item = 0 then .ok (result, s)
      else do
        let r ← fixupPtr L pt grows (itemSlot ptrs i) s
        fixupItems ptrs left (i + 1) (countFailure result r.result) r.state

/-- `vmcall_should_trace_current`. -/
def vmcallShouldTraceCurrent (s : HookState) : Bool :=
  if s.hookRunning then false
  else if s.currentSyscallno = 186 then false
  else if config.noWriteStdout ∧ s.currentSyscallno = 1 ∧ s.currentArgs 0 = 1 then false
  else if config.noWriteStderr ∧ s.currentSyscallno = 1 ∧ s.currentArgs 0 = 2 then false
  else true

/-- `fixup_ptr_ptr_nullterm`. -/
def fixupPtrPtrNullterm (pptrs : Slot) (s : HookState) : Except HookError (Int × HookState) := do
  let r ← fixupPtr L pt grows pptrs s
  let result : Int := if r.result < 0 then -2 else 0
  if !r.isValid then .ok (-1, r.state)
  else do
    let ptrs ← readSlot pt pptrs r.state
    if vmcallShouldTraceCurrent config r.state then countItems pt ptrs r.state MAX_ITEMS 0
    fixupScope (fixupItems L pt grows ptrs MAX_ITEMS 0 result) r.state

/-- `&iovecs[i].iov_base`. -/
def iovBaseSlot (iovecs i : Nat) : Slot := .mem (u64 (iovecs + 16 * i))

/-- The loop of `fixup_iovec_array`, from item `i` on. -/
def fixupIovecs (piovecs : Slot) : Nat → Nat → Int → HookState → Except HookError (Int × HookState)
  | 0, _, result, s => .ok (result, s)
  | left + 1, i, result, s => do
      let iovecs ← readSlot pt piovecs s
      let r ← fixupPtr L pt grows (iovBaseSlot iovecs i) s
      fixupIovecs piovecs left (i + 1) (countFailure result r.result) r.state

/-- `fixup_iovec_array`. -/
def fixupIovecArray (piovecs : Slot) (numIovecs : Nat) (s : HookState) :
    Except HookError (Int × HookState) := do
  let r ← fixupPtr L pt grows piovecs s
  let result : Int := if r.result < 0 then -2 else 0
  if !r.isValid then .ok (-1, r.state)
  else fixupScope (fixupIovecs L pt grows piovecs numIovecs 0 result) r.state

def msgNameSlot (msghdr : Nat) : Slot := .mem (u64 msghdr)
def msgIovSlot (msghdr : Nat) : Slot := .mem (u64 (msghdr + 16))
def msgIovlenSlot (msghdr : Nat) : Slot := .mem (u64 (msghdr + 24))
def msgControlSlot (msghdr : Nat) : Slot := .mem (u64 (msghdr + 32))

/-- The members of a `struct msghdr`. -/
def fixupMsghdrMembers (msghdr : Nat) (result : Int) (s : HookState) :
    Except HookError (Int × HookState) := do
  let name ← fixupPtr L pt grows (msgNameSlot msghdr) s
  let numIovecs ← readSlot pt (msgIovlenSlot msghdr) name.state
  let iov ← fixupIovecArray L pt grows (msgIovSlot msghdr) numIovecs name.state
  let control ← fixupPtr L pt grows (msgControlSlot msghdr) iov.2
  .ok (countFailure (countFailure (countFailure result name.result) iov.1) control.result, control.state)

/-- `fixup_msghdr`. -/
def fixupMsghdr (pmsghdr : Slot) (s : HookState) : Except HookError (Int × HookState) := do
  let r ← fixupPtr L pt grows pmsghdr s
  let result : Int := if r.result < 0 then -2 else 0
  if !r.isValid then .ok (-1, r.state)
  else do
    let msghdr ← readSlot pt pmsghdr r.state
    fixupScope (fixupMsghdrMembers L pt grows msghdr result) r.state

/-- The `switch` of `vmcall_fixup_args`. -/
def fixupArg (param : VmcallParam) (argIndex : Nat) (s : HookState) : Except HookError (Int × HookState) :=
  match param with
  | .none => .ok (0, s)
  | .flatPtr => do
      let r ← fixupPtr L pt grows (.arg argIndex) s
      .ok (r.result, r.state)
  | .iovec => fixupIovecArray L pt grows (.arg argIndex) (s.args (argIndex + 1)) s
  | .ptrPtr => fixupPtrPtrNullterm L pt grows config (.arg argIndex) s
  | .msghdr => fixupMsghdr L pt grows (.arg argIndex) s

/-- The loop of `vmcall_fixup_args` over the parameters from `argIndex` on. With `skip`, the last turn has
advanced the index past a count. -/
def fixupArgsLoop : List VmcallParam → Nat → Bool → Int → HookState → Except HookError (Int × HookState)
  | [], _, _, finalResult, s => .ok (finalResult, s)
  | param :: params, argIndex, skip, finalResult, s =>
      if skip ∨ param = .none ∨ s.args argIndex < PGSIZE then
        fixupArgsLoop params (argIndex + 1) false finalResult s
      else do
        let r ← fixupScope (fixupArg L pt grows config param argIndex) s
        fixupArgsLoop params (argIndex + 1) (param = .iovec) (countFailure finalResult r.1) r.2

/-- `s_clone_info`. -/
def cloneInfo : VmcallFixupInfo := ⟨[.none, .flatPtr, .flatPtr, .flatPtr, .none], by decide⟩

/-- `vmcall_get_fixup_info`. -/
def vmcallGetFixupInfo (table : List VmcallFixupInfo) (syscallno : Nat) : Option VmcallFixupInfo :=
  if syscallno = 56 then some cloneInfo else table[syscallno]?

/-- `vmcall_fixup_args`. -/
def vmcallFixupArgs (table : List VmcallFixupInfo) (syscallno : Nat) (s : HookState) :
    Except HookError (Int × HookState) :=
  match vmcallGetFixupInfo table syscallno with
  | none => .ok (0, s)
  | some info => fixupArgsLoop L pt grows config info.params 0 false 0 s

/-- `dangless_vmcall_prehook`. -/
def danglessVmcallPrehook (table : List VmcallFixupInfo) (syscallno : Nat) (s : HookState) :
    Except HookError HookState := do
  let r ← vmcallFixupArgs L pt grows config table syscallno
    { s with currentSyscallno := syscallno, currentArgs := s.args }
  .ok r.2

/-- `dangless_vmcall_posthook`: the result of the system call and the state. -/
def danglessVmcallPosthook (result : Nat) (s : HookState) : Except HookError (Nat × HookState) := do
  -- a `brk` above 4 GB is reported as failed
  let result := if s.currentSyscallno = 12 ∧ s.currentArgs 0 > 0x100000000 then 0 else result
  let s ← vmcallFixupRestoreOriginals pt s
  .ok (result, s)

end

end Dangless
