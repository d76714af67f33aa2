import Dangless.Mem

/-! The page tables of `virtmem.c` and the page allocator under them (`platform/dune/physmem_alloc.c`).
Page tables lie in physical memory that `pt_paddr2vaddr` makes visible at the same place, so a
`pte_t *` is the physical address of its word. -/

namespace Dangless

def PTE_V : Nat := 0x1
def PTE_W : Nat := 0x2
def PTE_U : Nat := 0x4
def PTE_PS : Nat := 0x80
def PTE_NX : Nat := 0x8000000000000000

def PTE_FRAME : Nat := 0x000ffffffffff000
def PTE_FRAME_4K : Nat := PTE_FRAME
def PTE_FRAME_2M : Nat := 0x000fffffffe00000
def PTE_FRAME_1G : Nat := 0x000fffffc0000000

/-- The marker of an invalidated entry. -/
def PTE_INVALIDATED : Nat := 0xDEAD00

/-- `FLAG_ISSET(BITSET, BIT)`. -/
def flagIsSet (bitset bit : Nat) : Bool := bitset &&& bit != 0

/-- `enum pt_level`, without `PT_INVALID`, which no walk is asked for. -/
inductive PtLevel where
  | l1
  | l2
  | l3
  | l4
  deriving DecidableEq, Repr

def PtLevel.toNat : PtLevel → Nat
  | .l1 => 1
  | .l2 => 2
  | .l3 => 3
  | .l4 => 4

def PT_BITS_PER_LEVEL : Nat := 9
def PT_NUM_ENTRIES : Nat := 512

/-- The end of the virtual address space: `1uL << (PGSHIFT + PT_NUM_LEVELS * PT_BITS_PER_LEVEL)`. -/
def VIRTMEM_END : Nat := 2 ^ 48

/-- `pt_level_shift`. -/
def ptLevelShift (level : PtLevel) : Nat := PGSHIFT + (level.toNat - 1) * PT_BITS_PER_LEVEL

/-- `pt_level_offset`. -/
def ptLevelOffset (va : Nat) (level : PtLevel) : Nat :=
  (va >>> ptLevelShift level) &&& (PT_NUM_ENTRIES - 1)

/-- `get_page_offset`. -/
def getPageOffset (addr : Nat) (level : PtLevel) : Nat := addr &&& (2 ^ ptLevelShift level - 1)

/-- `cr3`, the words of physical memory, the pages that the calls of `dune_page_alloc` to come return
(0 for `NULL`, as after the last of them), and the addresses given to `invlpg`, the last one first. -/
structure PtState where
  cr3 : Nat
  mem : Nat → Nat
  pool : List Nat
  flushed : List Nat

/-- `*ppte = word`. -/
def PtState.write (s : PtState) (ppte word : Nat) : PtState :=
  { s with mem := Function.update s.mem ppte word }

/-- `tlb_flush_one`. -/
def PtState.tlbFlushOne (s : PtState) (va : Nat) : PtState := { s with flushed := va :: s.flushed }

/-- `memset(va, 0, PGSIZE)` on the words of a page. -/
def zeroPage (mem : Nat → Nat) (pa : Nat) (addr : Nat) : Nat :=
  if pa ≤ addr ∧ addr < pa + PGSIZE then 0 else mem addr

/-- `pp_zalloc_one`. -/
def ppZallocOne (s : PtState) : Nat × PtState :=
  match s.pool with
  | [] => (0, s)
  | pa :: pool =>
      if pa = 0 then (0, { s with pool := pool })
      else (pa, { s with pool := pool, mem := zeroPage s.mem pa })

/-- `WALK_LEVEL(LVL)`: the walk stops at the entry of `va`, or `next` goes on with the table that the
entry refers to. -/
def walkLevel (s : PtState) (va : Nat) (requestedLevel level : PtLevel) (paddr : Nat)
    (next : Nat → PtLevel × Nat) : PtLevel × Nat :=
  let ppte := paddr + 8 * ptLevelOffset va level
  if !flagIsSet (s.mem ppte) PTE_V || (level != .l1 && flagIsSet (s.mem ppte) PTE_PS)
      || requestedLevel == level then (level, ppte)
  else next (s.mem ppte &&& PTE_FRAME)

/-- `pt_walk`: the level at which it stops and the entry. -/
def ptWalk (s : PtState) (va : Nat) (requestedLevel : PtLevel) : PtLevel × Nat :=
  walkLevel s va requestedLevel .l4 s.cr3 fun paddr =>
  walkLevel s va requestedLevel .l3 paddr fun paddr =>
  walkLevel s va requestedLevel .l2 paddr fun paddr =>
  walkLevel s va requestedLevel .l1 paddr fun _ => (.l1, paddr + 8 * ptLevelOffset va .l1)

/-- `pt_resolve_page`, with `*page_level`. -/
def ptResolvePage (s : PtState) (va : Nat) : Nat × PtLevel :=
  let (level, ppte) := ptWalk s va .l1
  if !flagIsSet (s.mem ppte) PTE_V then (0, level)
  else
    match level with
    | .l1 => (s.mem ppte &&& PTE_FRAME_4K, level)
    | .l2 => (s.mem ppte &&& PTE_FRAME_2M, level)
    | .l3 => (s.mem ppte &&& PTE_FRAME_1G, level)
    -- `UNREACHABLE`: the processor has no pages of this size
    | .l4 => (0, level)

/-- `pt_resolve`. -/
def ptResolve (s : PtState) (va : Nat) : Nat :=
  let (pa, level) := ptResolvePage s va
  if pa = 0 then 0 else u64 (pa + getPageOffset va level)

/-- `pt_map_page_create_level`: the state with the entry of `va` in the new table. An error, for the
result -1, carries the state that is left. -/
def ptMapPageCreateLevel (s : PtState) (ppte va : Nat) (level : PtLevel) (flags : Nat) :
    Except PtState (PtState × Nat) :=
  let (ptpa, s) := ppZallocOne s
  if ptpa = 0 then .error s
  else .ok (s.write ppte (ptpa ||| flags ||| PTE_V), ptpa + 8 * ptLevelOffset va level)

/-- The `switch` of `pt_map_page`, whose cases fall through. -/
def ptMapPageCreateLevels (s : PtState) (ppte va flags : Nat) :
    PtLevel → Except PtState (PtState × Nat)
  | .l4 => do
      let (s, ppte) ← ptMapPageCreateLevel s ppte va .l3 flags
      let (s, ppte) ← ptMapPageCreateLevel s ppte va .l2 flags
      ptMapPageCreateLevel s ppte va .l1 flags
  | .l3 => do
      let (s, ppte) ← ptMapPageCreateLevel s ppte va .l2 flags
      ptMapPageCreateLevel s ppte va .l1 flags
  | .l2 => ptMapPageCreateLevel s ppte va .l1 flags
  | .l1 => .ok (s, ppte)

/-- `pt_map_page`. On failure the levels that were created stay. -/
def ptMapPage (s : PtState) (pa va flags : Nat) : Int × PtState :=
  let (level, ppte) := ptWalk s va .l1
  match ptMapPageCreateLevels s ppte va flags level with
  | .error s => (-1, s)
  | .ok (s, ppte) =>
      let s := if flagIsSet (s.mem ppte) PTE_V then s.tlbFlushOne va else s
      (0, s.write ppte (pa ||| flags ||| PTE_V))

/-- `pt_unmap_page`. -/
def ptUnmapPage (s : PtState) (va : Nat) (onLevel : PtLevel) : Int × PtState :=
  let (level, ppte) := ptWalk s va onLevel
  if level ≠ onLevel then (-1, s)
  else
    let oldPte := s.mem ppte
    let s := s.write ppte 0
    (0, if flagIsSet oldPte PTE_V then s.tlbFlushOne va else s)

/-- The first `n` turns of the loop of `pt_map_region`. An error carries the number of pages that were
mapped before the turn that failed, and the state it leaves. -/
def ptMapRegionLoop (s : PtState) (pa va flags : Nat) : Nat → Except (Nat × PtState) PtState
  | 0 => .ok s
  | n + 1 => do
      let s ← ptMapRegionLoop s pa va flags n
      let (result, s) := ptMapPage s (pgOffset pa n) (pgOffset va n) flags
      if result < 0 then .error (n, s) else .ok s

/-- The first `n` turns of the loop after `fail_unmap` in `pt_map_region`. -/
def ptUnmapRegionLoop (s : PtState) (va : Nat) : Nat → PtState
  | 0 => s
  | n + 1 => (ptUnmapPage (ptUnmapRegionLoop s va n) (pgOffset va n) .l1).2

/-- `pt_map_region`. -/
def ptMapRegion (s : PtState) (pa va size flags : Nat) : Int × PtState :=
  match ptMapRegionLoop s pa va flags ((size + PGSIZE - 1) / PGSIZE) with
  | .ok s => (0, s)
  | .error (done, s) => (-1, ptUnmapRegionLoop s va done)

/-- The turns of the inner loop of `virtual_invalidate`: the entries from `ppte` on. -/
def virtualInvalidatePtes (s : PtState) (ppage ppte : Nat) : Nat → PtState
  | 0 => s
  | n + 1 =>
      ((virtualInvalidatePtes s ppage ppte n).write (ppte + 8 * n) PTE_INVALIDATED).tlbFlushOne
        (pgOffset ppage n)

/-- The loop of `virtual_invalidate`, for at most `fuel` turns. Every turn invalidates a page, so as
many turns as pages are enough. -/
def virtualInvalidateLoop (s : PtState) (p npages pageOffset : Nat) : Nat → PtState
  | 0 => s
  | fuel + 1 =>
      if pageOffset < npages then
        let ppage := pgOffset p pageOffset
        let ppte := (ptWalk s ppage .l1).2
        let pteBaseOffset := ptLevelOffset ppage .l1
        let nptes := min (PT_NUM_ENTRIES - pteBaseOffset) (npages - pageOffset)
        virtualInvalidateLoop (virtualInvalidatePtes s ppage ppte nptes) p npages
          (pageOffset + nptes) fuel
      else s

/-- `virtual_invalidate` of `dangless_malloc.c`. -/
def virtualInvalidate (s : PtState) (p npages : Nat) : PtState :=
  virtualInvalidateLoop s (roundDown p PGSIZE) npages 0 npages

end Dangless
