import Dangless.Virtmem

/-! The allocator of physical pages of Rumprun (`platform/rumprun/physmem_alloc.c`). It carves 2 MB pages of
`bmk_pgalloc_align` up into 4K pages, which it knows by indices of 32 bits. A function has no result where one of its
assertions fails. -/

namespace Dangless.Rumprun

def BMK_PGALLOC_ORDER : Nat := 9
def BMK_PGALLOC_NPAGES : Nat := 1 <<< BMK_PGALLOC_ORDER
def BMK_PGALLOC_ALIGN : Nat := BMK_PGALLOC_NPAGES * PGSIZE

/-- `pp_index_t`. -/
abbrev PpIndex := BitVec 32

/-- `pa2ppindex`. -/
def pa2ppindex (pa : Nat) : PpIndex := BitVec.ofNat 32 (pa / PGSIZE)

/-- `ppindex2pa`. `PGSIZE` is an enumeration constant, thus an `int`: the product has the 32 bits of the index, and
becomes a `paddr_t` afterwards. -/
def ppindex2pa (idx : PpIndex) : Nat := (idx * BitVec.ofNat 32 PGSIZE).toNat

/-- `struct pp_span`. -/
structure PpSpan where
  begin : PpIndex
  end_ : PpIndex
  deriving DecidableEq, Repr

/-- `ps->end - ps->begin`. -/
def PpSpan.numPages (ps : PpSpan) : Nat := (ps.end_ - ps.begin).toNat

/-- What surrounds a call: the page tables, the answer of `bmk_pgalloc_align` and that of `MALLOC(struct pp_span)`
(0 for `NULL`), which are read only where the calls are made. -/
structure PpEnv where
  pt : PtState
  chunk : Nat
  node : Nat

/-- What `physmem_acquire` has done: `NULL`, with what it gave to `bmk_pgfree`, or a span from the chunk at `pa`, for
the head of the list. -/
inductive PhysmemAcquire where
  | null (pgfreed : List Nat)
  | span (pa : Nat) (ps : PpSpan)

/-- `physmem_acquire`. -/
def physmemAcquire (env : PpEnv) : Option PhysmemAcquire :=
  if env.chunk = 0 then some (.null [])
  else
    let (pa, level) := ptResolvePage env.pt env.chunk
    if pa = 0 then none
    else if level ≠ .l2 then none
    else if env.node = 0 then some (.null [env.chunk])
    else some (.span pa ⟨pa2ppindex pa, pa2ppindex pa + BitVec.ofNat 32 BMK_PGALLOC_NPAGES⟩)

/-- `npages` pages are cut off the front of a span, before the spans `rest`; an empty span leaves the list. -/
def ppSplit (npages : Nat) (ps : PpSpan) (rest : List PpSpan) : List PpSpan :=
  let ps' := { ps with begin := ps.begin + BitVec.ofNat 32 npages }
  if ps'.begin = ps'.end_ then rest else ps' :: rest

/-- The first span that is large enough, where there is one: the index of its first page and the list it leaves. -/
def ppTake (npages : Nat) : List PpSpan → Option (PpIndex × List PpSpan)
  | [] => none
  | ps :: rest =>
      if npages ≤ ps.numPages then some (ps.begin, ppSplit npages ps rest)
      else (ppTake npages rest).map fun r => (r.1, ps :: r.2)

/-- What `pp_alloc` leaves: the returned address (0 for a failure) and the list. `begin` is the index of the first page
of the run that it has taken, `acquired` the physical address of the chunk that it has added. -/
structure PpAlloc where
  pa : Nat
  items : List PpSpan
  begin : Option PpIndex
  acquired : Option Nat
  deriving DecidableEq, Repr

/-- `pp_alloc`. -/
def ppAlloc (env : PpEnv) (npages : Nat) (items : List PpSpan) : Option PpAlloc :=
  if ¬ npages < BMK_PGALLOC_NPAGES then none
  else
    match ppTake npages items with
    | some (begin, items) => some ⟨ppindex2pa begin, items, some begin, none⟩
    | none =>
        match physmemAcquire env with
        | none => none
        | some (.null _) => some ⟨0, items, none, none⟩
        | some (.span pa ps) => some ⟨ppindex2pa ps.begin, ppSplit npages ps items, some ps.begin, some pa⟩

/-- `memset(va, 0, n)`. -/
def memsetZero (va n : Nat) (bytes : Nat → UInt8) (addr : Nat) : UInt8 :=
  if va ≤ addr ∧ addr < va + n then 0 else bytes addr

/-- `pp_zalloc`, with the bytes that are left at each address. -/
def ppZalloc (env : PpEnv) (npages : Nat) (items : List PpSpan) (bytes : Nat → UInt8) :
    Option (PpAlloc × (Nat → UInt8)) :=
  (ppAlloc env npages items).map fun r =>
    if r.pa = 0 then (r, bytes) else (r, memsetZero r.pa (npages * PGSIZE) bytes)

/-- `pp_free`. -/
def ppFree (env : PpEnv) (pa npages : Nat) (items : List PpSpan) : Option (List PpSpan) :=
  if pa % PGSIZE ≠ 0 then none
  else if ¬ (0 < npages ∧ npages < BMK_PGALLOC_NPAGES) then none
  else if env.node = 0 then none
  else some (⟨pa2ppindex pa, pa2ppindex pa + BitVec.ofNat 32 npages⟩ :: items)

end Dangless.Rumprun
