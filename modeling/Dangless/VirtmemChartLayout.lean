import Dangless.Virtmem

/-! The chart of the address space that a test application makes of page tables
(`testapps/dune-mem-layout/virtmem_chart_layout.c`). -/

namespace Dangless

/-- `struct virtmem_region`. -/
structure VirtmemRegion where
  vaStart : Nat
  paStart : Nat
  length : Nat
  mappedFlags : Nat
  deriving DecidableEq, Repr

/-- The list of regions, with the last one, `current_region`. -/
structure VirtmemRegions where
  before : List VirtmemRegion
  current : VirtmemRegion

def VirtmemRegions.toList (regions : VirtmemRegions) : List VirtmemRegion := regions.before ++ [regions.current]

/-- `virtmem_region_alloc`. -/
def virtmemRegionAlloc : VirtmemRegion := ⟨0, 0, 0, 0⟩

/-- `virtmem_region_add_next`, and what is assigned to the new region. -/
def virtmemRegionAddNext (regions : VirtmemRegions) (paStart length mappedFlags : Nat) : VirtmemRegions :=
  ⟨regions.before ++ [regions.current],
    ⟨regions.current.vaStart + regions.current.length, paStart, length, mappedFlags⟩⟩

/-- `current_region->length += length`. -/
def virtmemRegionGrow (regions : VirtmemRegions) (length : Nat) : VirtmemRegions :=
  { regions with current := { regions.current with length := regions.current.length + length } }

/-- `flag_mask`. -/
def CHART_FLAGS : Nat := PTE_V ||| PTE_W ||| PTE_U ||| PTE_NX

/-- A turn of the loop of `virtmem_chart_layout_internal`. Levels are counted from 0, for `PT_L1`; `below` charts
a table of the next level. -/
def chartEntry (level : Nat) (below : Nat → VirtmemRegions → VirtmemRegions) (pte : Nat)
    (regions : VirtmemRegions) : VirtmemRegions :=
  let pteMappedLength := 2 ^ (PGSHIFT + level * PT_BITS_PER_LEVEL)
  let ptePa := pte &&& PTE_FRAME
  let pteFlags := pte &&& CHART_FLAGS
  let pteIsMapped := flagIsSet pte PTE_V
  let currentRegionIsMapped := flagIsSet regions.current.mappedFlags PTE_V
  let currentRegionPaEnd := regions.current.paStart + regions.current.length
  if level > 0 then
    if pteIsMapped then
      if flagIsSet pte PTE_PS then
        if pteFlags = regions.current.mappedFlags ∧ ptePa = currentRegionPaEnd then
          virtmemRegionGrow regions pteMappedLength
        else virtmemRegionAddNext regions ptePa pteMappedLength pteFlags
      else below ptePa regions
    else if currentRegionIsMapped then virtmemRegionAddNext regions 0 pteMappedLength pteFlags
    else virtmemRegionGrow regions pteMappedLength
  else if pteFlags = regions.current.mappedFlags ∧ (!pteIsMapped ∨ ptePa = currentRegionPaEnd) then
    virtmemRegionGrow regions pteMappedLength
  else virtmemRegionAddNext regions (if pteIsMapped then ptePa else 0) pteMappedLength pteFlags

/-- The first `n` turns of the loop. -/
def chartEntries (turn : Nat → VirtmemRegions → VirtmemRegions) : Nat → VirtmemRegions → VirtmemRegions
  | 0, regions => regions
  | n + 1, regions => turn n (chartEntries turn n regions)

/-- `virtmem_chart_layout_internal`. -/
def virtmemChartLayoutInternal (s : PtState) : Nat → Nat → VirtmemRegions → VirtmemRegions
  | 0, rootPt, regions =>
      chartEntries (fun i => chartEntry 0 (fun _ regions => regions) (s.mem (rootPt + 8 * i))) PT_NUM_ENTRIES regions
  | level + 1, rootPt, regions =>
      chartEntries (fun i => chartEntry (level + 1) (virtmemChartLayoutInternal s level) (s.mem (rootPt + 8 * i)))
        PT_NUM_ENTRIES regions

/-- `virtmem_chart_layout`: the first region is left out if it is empty. -/
def virtmemChartLayout (s : PtState) (pml4 : Nat) : List VirtmemRegion :=
  let regions := virtmemChartLayoutInternal s 3 pml4 ⟨[], virtmemRegionAlloc⟩
  match regions.toList with
  | [] => []
  | first :: rest => if first.length = 0 then rest else first :: rest

end Dangless
