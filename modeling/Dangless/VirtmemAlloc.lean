import Dangless.Mem

/-! The virtual page allocator of `virtmem_alloc.c`: a list of `vp_span` objects, walked from its
head. Each function is given the list and returns the list it leaves. Span objects come from
`MALLOC(struct vp_span)` and go back through `FREE`: a span records the address of its object, and a
function that frees objects returns their addresses. -/

namespace Dangless

/-- `struct vp_span`, with the address `node` of the object itself. -/
structure VpSpan where
  node : Nat
  start : Nat
  end_ : Nat
  deriving DecidableEq, Repr

/-- The number of pages between the two ends of a span. -/
def spanPages (start end_ : Nat) : Nat := u64 (end_ + 2 ^ 64 - start) / PGSIZE

/-- `span_num_pages`. -/
def VpSpan.numPages (span : VpSpan) : Nat := spanPages span.start span.end_

/-- `span_empty`. -/
def VpSpan.empty (span : VpSpan) : Bool := span.start == span.end_

/-- What `freelist_alloc` leaves: the returned address (0 for `NULL`), the list, the freed objects. -/
structure VpAlloc where
  va : Nat
  items : List VpSpan
  freed : List Nat
  deriving DecidableEq, Repr

/-- `freelist_alloc`: the first span that is large enough gives its lowest pages. -/
def freelistAlloc (npages : Nat) : List VpSpan → VpAlloc
  | [] => ⟨0, [], []⟩
  | span :: rest =>
      if npages ≤ span.numPages then
        let span' := { span with start := u64 (span.start + npages * PGSIZE) }
        if span'.empty then ⟨span.start, rest, [span.node]⟩
        else ⟨span.start, span' :: rest, []⟩
      else
        let r := freelistAlloc npages rest
        { r with items := span :: r.items }

/-- `try_merge_spans`: the merged span, when the two are adjacent. -/
def tryMergeSpans (left right : VpSpan) : Option VpSpan :=
  if left.end_ ≠ right.start then none else some { left with end_ := right.end_ }

/-- What `freelist_free` leaves: the returned code, the list, the freed objects. -/
structure VpFree where
  result : Int
  items : List VpSpan
  freed : List Nat
  deriving DecidableEq, Repr

/-- The scan of `freelist_free`: the spans before the place of a range ending at `end_`, and the
others. `prev_span` is the last of the former, `next_span` the first of the latter. -/
def freelistScan (end_ : Nat) (items : List VpSpan) : List VpSpan × List VpSpan :=
  (items.takeWhile (·.start < end_), items.dropWhile (·.start < end_))

/-- `prev_span != NULL && prev_span->end == start`. -/
def prevTakes (start : Nat) (before : List VpSpan) : Bool :=
  before.getLast?.any fun prev => prev.end_ = start

/-- `next_span != LIST_END(..) && next_span->start == end`. -/
def nextTakes (end_ : Nat) (after : List VpSpan) : Bool :=
  after.head?.any fun next => next.start = end_

/-- `freelist_free` when `prev_span`, the last of `before`, takes the range. -/
def freelistFreePrev (end_ : Nat) (before after : List VpSpan) : VpFree :=
  match before.getLast?, after with
  | some prev, next :: rest =>
      let prev' := { prev with end_ := end_ }
      match tryMergeSpans prev' next with
      | some merged => ⟨0, before.dropLast ++ merged :: rest, [next.node]⟩
      | none => ⟨0, before.dropLast ++ prev' :: after, []⟩
  | some prev, [] => ⟨0, before.dropLast ++ [{ prev with end_ := end_ }], []⟩
  | none, after => ⟨0, after, []⟩

/-- `freelist_free` when `next_span`, the first of `after`, takes the range. -/
def freelistFreeNext (start : Nat) (before after : List VpSpan) : VpFree :=
  match before.getLast?, after with
  | some prev, next :: rest =>
      let next' := { next with start := start }
      match tryMergeSpans prev next' with
      | some merged => ⟨0, before.dropLast ++ merged :: rest, [next'.node]⟩
      | none => ⟨0, before ++ next' :: rest, []⟩
  | none, next :: rest => ⟨0, { next with start := start } :: rest, []⟩
  | _, [] => ⟨0, before, []⟩

/-- `freelist_free` when no span takes the range: `node` is what `MALLOC(struct vp_span)` returns. -/
def freelistFreeNew (node start end_ : Nat) (before after : List VpSpan) : VpFree :=
  if node = 0 then ⟨-1, before ++ after, []⟩
  else ⟨0, before ++ ⟨node, start, end_⟩ :: after, []⟩

/-- Whether `freelist_free` comes to call `MALLOC`. -/
def freelistFreeNeedsNode (items : List VpSpan) (p npages : Nat) : Bool :=
  let end_ := pgOffset p npages
  !prevTakes p (freelistScan end_ items).1 && !nextTakes end_ (freelistScan end_ items).2

/-- `freelist_free`. `node` is the answer of `MALLOC(struct vp_span)`, 0 for `NULL`; it is read only
when the call is made. -/
def freelistFree (items : List VpSpan) (p npages node : Nat) : VpFree :=
  let start := p
  let end_ := pgOffset start npages
  let (before, after) := freelistScan end_ items
  if prevTakes start before then freelistFreePrev end_ before after
  else if nextTakes end_ after then freelistFreeNext start before after
  else freelistFreeNew node start end_ before after

/-- `freelist_reset`: every object is freed. -/
def freelistReset (items : List VpSpan) : List VpSpan × List Nat := ([], items.map (·.node))

end Dangless
