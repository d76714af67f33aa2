import Dangless.Queue
import Dangless.VirtmemAllocSpec

/-! The critical sections of `virtmem_alloc.c` on the memory that holds the `vp_span` objects, one access, macro of
`queue.h` or call of `MALLOC` and `FREE` at a time. A statement has no result where it would touch an object that is not
allocated, free one twice, or fail an assertion. -/

namespace Dangless

open LinkedList

/-- The fields of `struct vp_span` besides `freelist`. -/
structure SpanRange where
  start : Nat
  end_ : Nat
  deriving DecidableEq, Repr

/-- `g_freelist_main.items` and the `vp_span` objects, by their addresses. -/
abbrev SpanStore := Store Nat SpanRange

/-- `span->start`, `span->end`. -/
def loadSpan (s : SpanStore) (span : Nat) : Option SpanRange := if s.live span then some (s.val span) else none

def storeSpan (s : SpanStore) (span : Nat) (r : SpanRange) : Option SpanStore :=
  if s.live span then some (s.setVal span r) else none

/-- `FREE(span)`. -/
def freeSpan (s : SpanStore) (span : Nat) : Option SpanStore :=
  if s.live span then some (s.setLive span false) else none

/-- A critical section: the body of `freelist_alloc`, `freelist_free` or `freelist_reset` between
`pthread_mutex_lock` and `pthread_mutex_unlock`. -/
inductive VpOp where
  | alloc (npages : Nat)
  | free (p npages : Nat)
  | reset
  deriving DecidableEq, Repr

/-- What a critical section returns: a pointer (0 for `NULL`), a code, or nothing. -/
inductive VpAnswer where
  | ptr (va : Nat)
  | code (result : Int)
  | unit
  deriving DecidableEq, Repr

/-- The statement that is next, with the local variables that the rest of the body reads. -/
inductive VpPc where
  | start (op : VpOp)
  | allocFor (npages : Nat) (span : Option Nat)
  | allocTake (npages span : Nat)
  | allocEmpty (span va : Nat)
  | allocFree (span va : Nat)
  | freeFor (start end_ : Nat) (prev next : Option Nat)
  | freePrev (start end_ : Nat) (prev next : Option Nat)
  | freeNext (start end_ : Nat) (prev next : Option Nat)
  | freeMalloc (start end_ : Nat) (prev next : Option Nat)
  | freeInit (start end_ span : Nat) (prev next : Option Nat)
  | freeLink (span : Nat) (prev next : Option Nat)
  | merge (left right : Nat)
  | mergeFree (right : Nat)
  | resetFor (span : Option Nat)
  | resetFree (span : Nat) (tmp : Option Nat)
  | done (answer : VpAnswer)
  deriving DecidableEq, Repr

/-- One statement. `node` is the answer of `MALLOC(struct vp_span)`, 0 for `NULL`, which `freeMalloc` alone reads. -/
def vpMicro (node : Nat) (s : SpanStore) : VpPc → Option (VpPc × SpanStore)
  | .start (.alloc npages) => some (.allocFor npages s.first, s)
  | .allocFor _ none => some (.done (.ptr 0), s)
  | .allocFor npages (some span) => do
      let r ← loadSpan s span
      if npages ≤ spanPages r.start r.end_ then return (.allocTake npages span, s)
      let next ← loadPtr s (.next span)
      return (.allocFor npages next, s)
  | .allocTake npages span => do
      let r ← loadSpan s span
      let t ← storeSpan s span { r with start := u64 (r.start + npages * PGSIZE) }
      return (.allocEmpty span r.start, t)
  | .allocEmpty span va => do
      let r ← loadSpan s span
      if r.start ≠ r.end_ then return (.done (.ptr va), s)
      let t ← listRemove s span
      return (.allocFree span va, t)
  | .allocFree span va => do
      let t ← freeSpan s span
      return (.done (.ptr va), t)
  | .start (.free p npages) =>
      if p % PGSIZE ≠ 0 then none
      else if npages = 0 then none
      else some (.freeFor p (pgOffset p npages) none s.first, s)
  | .freeFor start end_ prev none => some (.freePrev start end_ prev none, s)
  | .freeFor start end_ prev (some next) => do
      let r ← loadSpan s next
      if end_ ≤ r.start then return (.freePrev start end_ prev (some next), s)
      let after ← loadPtr s (.next next)
      return (.freeFor start end_ (some next) after, s)
  | .freePrev start end_ none next => some (.freeNext start end_ none next, s)
  | .freePrev start end_ (some prev) next => do
      let r ← loadSpan s prev
      if r.end_ ≠ start then return (.freeNext start end_ (some prev) next, s)
      let t ← storeSpan s prev { r with end_ := end_ }
      match next with
      | some next => return (.merge prev next, t)
      | none => return (.done (.code 0), t)
  | .freeNext start end_ prev none => some (.freeMalloc start end_ prev none, s)
  | .freeNext start end_ prev (some next) => do
      let r ← loadSpan s next
      if r.start ≠ end_ then return (.freeMalloc start end_ prev (some next), s)
      let t ← storeSpan s next { r with start := start }
      match prev with
      | some prev => return (.merge prev next, t)
      | none => return (.done (.code 0), t)
  | .freeMalloc start end_ prev next =>
      if node = 0 then some (.done (.code (-1)), s)
      else some (.freeInit start end_ node prev next, s.setLive node true)
  | .freeInit start end_ span prev next => do
      let t ← storeSpan s span ⟨start, end_⟩
      return (.freeLink span prev next, t)
  | .freeLink span (some prev) _ => do
      let t ← listInsertAfter s prev span
      return (.done (.code 0), t)
  | .freeLink span none (some next) => do
      let t ← listInsertBefore s next span
      return (.done (.code 0), t)
  | .freeLink span none none => do
      let t ← listInsertHead s span
      return (.done (.code 0), t)
  | .merge left right => do
      let l ← loadSpan s left
      let r ← loadSpan s right
      if ¬ l.end_ ≤ r.start then none
      if l.end_ ≠ r.start then return (.done (.code 0), s)
      let t ← storeSpan s left { l with end_ := r.end_ }
      let t ← listRemove t right
      return (.mergeFree right, t)
  | .mergeFree right => do
      let t ← freeSpan s right
      return (.done (.code 0), t)
  | .start .reset => some (.resetFor s.first, s)
  | .resetFor none => some (.done .unit, s)
  | .resetFor (some span) => do
      let tmp ← loadPtr s (.next span)
      let t ← listRemove s span
      return (.resetFree span tmp, t)
  | .resetFree span tmp => do
      let t ← freeSpan s span
      return (.resetFor tmp, t)
  | .done _ => none

/-- What `MALLOC` may answer: `NULL`, or an object that is not allocated yet. -/
def MallocAnswer (s : SpanStore) (node : Nat) : Prop := node = 0 ∨ s.live node = false

end Dangless
