import Dangless.Sysmalloc

/-! The remapper of `platform/dune/virtual_remap.c` and the address layout of Dune that it relies on
(`platform/dune/mem.c`). -/

namespace Dangless

variable {σ : Type}

def GPA_STACK_SIZE : Nat := 0x40000000
def GPA_MAP_SIZE : Nat := 0xfc0000000

/-- `phys_limit`: 512 GB. -/
def PHYS_LIMIT : Nat := 0x8000000000

/-- The layout of Dune, which is outside the repository: where its regions lie, and `dune_va_to_pa` as
the comments of `mem.c` and `virtual_remap.c` give it. -/
structure DuneLayout where
  mmapBase : Nat
  stackBase : Nat
  duneVaToPa : Nat → Nat
  mmapBase_aligned : mmapBase % PGSIZE = 0
  physLimit_le : PHYS_LIMIT ≤ mmapBase
  mmapEnd_le : mmapBase + GPA_MAP_SIZE ≤ stackBase
  stackEnd_le : stackBase + GPA_STACK_SIZE ≤ 2 ^ 47
  identity : ∀ va, va < mmapBase → duneVaToPa va = va
  mmap : ∀ va, mmapBase ≤ va → va < stackBase →
    duneVaToPa va = va - mmapBase + (PHYS_LIMIT - GPA_STACK_SIZE - GPA_MAP_SIZE)
  stack : ∀ va, stackBase ≤ va → va < 2 ^ 64 →
    duneVaToPa va = u64 (va - stackBase + (PHYS_LIMIT - GPA_STACK_SIZE))

section

variable (A : SysAllocator σ) (L : DuneLayout)

/-- `pt_paddr2vaddr`, the reverse of `dune_va_to_pa` below the stack. -/
def ptPaddr2vaddr (pa : Nat) : Nat :=
  if L.duneVaToPa L.mmapBase ≤ pa then
    u64 (pa + L.mmapBase + 2 ^ 64 - PHYS_LIMIT + GPA_STACK_SIZE + GPA_MAP_SIZE)
  else pa

def VREM_OK : Int := 0
def VREM_NOT_REMAPPED : Int := 1
def EVREM_NO_VM : Int := -1
def EVREM_VIRT_MAP : Int := -2
def EVREM_NO_PHYS_BACK : Int := -3

/-- What a call returns with its out parameter, 0 where that is not written, and the state. -/
structure VremapMap (σ : Type) where
  result : Int
  remappedPtr : Nat
  world : World σ

/-- `vremap_map` once `vp_alloc` has given the region at `va`. -/
def vremapMapAt (ptr npages va : Nat) (w : World σ) : VremapMap σ :=
  let inpageOffset := getPageOffset ptr .l1
  let pa := L.duneVaToPa ptr
  let paPage := roundDown pa PGSIZE
  let r := ptMapRegion w.pt paPage va (npages * PGSIZE) (PTE_W ||| PTE_NX)
  let w := { w with pt := r.2 }
  if r.1 < 0 then ⟨EVREM_VIRT_MAP, 0, (vpFree A va npages w).2⟩
  else ⟨VREM_OK, va + inpageOffset, w⟩

/-- `vremap_map`. -/
def vremapMap (ptr size : Nat) (w : World σ) : VremapMap σ :=
  let npages := numSpannedPages ptr size
  let r := vpAlloc A npages w
  if r.1 = 0 then ⟨EVREM_NO_VM, 0, r.2⟩ else vremapMapAt A L ptr npages r.1 r.2

/-- `vremap_resolve`: the result and `*original_ptr`, `none` where it is not written. -/
def vremapResolve (pt : PtState) (ptr : Nat) : Int × Option Nat :=
  let pa := ptResolve pt ptr
  if pa = 0 then (EVREM_NO_PHYS_BACK, none)
  else if L.duneVaToPa ptr = pa then (VREM_NOT_REMAPPED, some ptr)
  else (VREM_OK, some (ptPaddr2vaddr L pa))

end

end Dangless
