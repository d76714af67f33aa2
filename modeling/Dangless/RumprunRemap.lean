import Dangless.VirtmemPages
import Dangless.VirtualRemapSpec

/-! The remapper of Rumprun (`platform/rumprun/virtual_remap.c`), where physical memory is identity-mapped. It maps one
page, whatever the place of the object in its own page: `ROUND_UP(size, PGSIZE)` is a page for every size that
is supported. The pages of `pp_zalloc_one` to come are those of the page tables, as on Dune. -/

namespace Dangless.Rumprun

variable {σ : Type} {A : SysAllocator σ} {w : World σ} {ptr size va : Nat}

/-- `vremap_map`. -/
def vremapMap (A : SysAllocator σ) (ptr size : Nat) (w : World σ) : VremapMap σ :=
  let va := vpAlloc A 1 w
  if va.1 = 0 then ⟨EVREM_NO_VM, 0, va.2⟩
  else
    let pa := ptr
    let paPage := roundDown pa PGSIZE
    let r := ptMapRegion va.2.pt paPage va.1 (roundUp size PGSIZE) (PTE_W ||| PTE_NX)
    let w := { va.2 with pt := r.2 }
    if r.1 < 0 then ⟨EVREM_VIRT_MAP, 0, (vpFree A va.1 1 w).2⟩
    else ⟨VREM_OK, va.1 + getPageOffset ptr .l1, w⟩

/-- The pages of the freelist that a call has taken. -/
def takenPages (w w' : World σ) : Set Nat := owned w.items \ owned w'.items

/-- The whole object is at the remapped pointer, and only pages that `vp_alloc` gave for it have been mapped. -/
structure Covers (ptr size : Nat) (w : World σ) (r : VremapMap σ) : Prop where
  bytes : ∀ k < size, ptResolve r.world.pt (r.remappedPtr + k) = ptr + k
  pages : ∀ a, r.world.pt.entry a ≠ w.pt.entry a → ∃ v ∈ takenPages w r.world, ptPath a = ptPath v

/-- The object does not cross a page boundary. -/
def InOnePage (ptr size : Nat) : Prop := ptr % PGSIZE + size ≤ PGSIZE

instance : Decidable (InOnePage ptr size) := inferInstanceAs (Decidable (_ ≤ _))

theorem roundUp_size (hsize : 0 < size) (hmax : size ≤ PGSIZE) : roundUp size PGSIZE = 1 * PGSIZE := by
  simp only [roundUp, u64, PGSIZE] at *
  omega

/-- A successful call has mapped the first page that `vp_alloc` could give to the page of the object. -/
theorem vremapMap_ok (hinv : PtInv (fun _ => True) w.pt) (hwf : FreelistWf w.items) (hsize : 0 < size)
    (hmax : size ≤ PGSIZE) (hva : (freelistAlloc 1 w.items).va = va) (hunmapped : w.pt.entry va = none)
    (hok : (vremapMap A ptr size w).result = VREM_OK) :
    RunAt (owned w.items) 1 va ∧ va + PGSIZE < 2 ^ 64 ∧
      ∃ (w' : World σ) (pt : PtState), vremapMap A ptr size w = ⟨VREM_OK, va + ptr % PGSIZE, { w' with pt := pt }⟩ ∧
        owned w'.items = owned w.items \ region va 1 ∧
        MappedTo w.pt pt (roundDown ptr PGSIZE) va vremapFlags 1 := by
  unfold vremapMap at hok ⊢
  dsimp only at hok ⊢
  rw [vpAlloc_va, hva] at hok ⊢
  by_cases hva0 : va = 0
  · rw [if_pos hva0] at hok
    exact absurd hok (show EVREM_NO_VM ≠ VREM_OK by decide)
  rcases freelistAlloc_spec hwf (le_refl 1) with ⟨heq, -⟩ | ⟨hleast, -, howned⟩
  · rw [heq] at hva
    exact absurd hva.symm hva0
  rw [hva] at hleast howned
  have hwidth := region_width hwf (le_refl 1) hleast.1
  rw [Nat.one_mul] at hwidth
  refine ⟨hleast.1, hwidth, ?_⟩
  rw [if_neg hva0, roundUp_size hsize hmax, vpAlloc_pt] at hok ⊢
  obtain ⟨r, hr⟩ : ∃ r, ptMapRegion w.pt (roundDown ptr PGSIZE) va (1 * PGSIZE) (PTE_W ||| PTE_NX) = r := ⟨_, rfl⟩
  have hpage : ∀ k, k < 1 → w.pt.entry (pgOffset va k) = none := by
    intro k hk
    obtain rfl : k = 0 := by omega
    rw [pgOffset_eq (by omega), Nat.zero_mul, Nat.add_zero]
    exact hunmapped
  obtain ⟨-, -, -, hmap⟩ := ptMapRegion_spec hinv vremapFlags_ok (fun _ _ _ => trivial) hr
  obtain ⟨-, hmapped⟩ := hmap (pagesDistinct_of_le hleast.1.1 (by decide)) hpage
  rw [hr] at hok ⊢
  split_ifs at hok ⊢ with hneg
  · exact absurd hok (show EVREM_VIRT_MAP ≠ VREM_OK by decide)
  · rw [getPageOffset_l1]
    exact ⟨(vpAlloc A 1 w).2, r.2, rfl, by rw [vpAlloc_items, howned], hmapped hneg⟩

theorem pgOffset_zero (hwidth : va + PGSIZE < 2 ^ 64) : pgOffset va 0 = va := by
  rw [pgOffset_eq (by omega), Nat.zero_mul, Nat.add_zero]

/-- Nothing else is mapped. -/
theorem mapped_only {s pt : PtState} {page a : Nat} (hmapped : MappedTo s pt page va vremapFlags 1)
    (hwidth : va + PGSIZE < 2 ^ 64) (ha : pt.entry a ≠ s.entry a) : ptPath a = ptPath va := by
  by_contra hne
  refine ha (hmapped.frame a fun k hk heq => hne ?_)
  obtain rfl : k = 0 := by omega
  rwa [pgOffset_zero hwidth] at heq

section OnePage

variable {s pt : PtState} (hmapped : MappedTo s pt (roundDown ptr PGSIZE) va vremapFlags 1)
  (halign : va % PGSIZE = 0) (hwidth : va + PGSIZE < 2 ^ 64)

include hmapped halign

/-- The page behind the new one is as it was. -/
theorem resolve_behind {o : Nat} (ho : o < PGSIZE) :
    ptResolve pt (va + PGSIZE + o) = ptResolve s (va + PGSIZE + o) := by
  refine ptResolve_congr (hmapped.frame _ fun k hk heq => ?_)
  obtain rfl : k = 0 := by omega
  rw [path_pgOffset_iff halign] at heq
  simp only [PGSIZE] at *
  omega

include hwidth

/-- The part of the object in its first page. -/
theorem resolve_first (hmax : size ≤ PGSIZE) (hidentity : ∀ k < size, ptResolve s (ptr + k) = ptr + k) {k : Nat}
    (hk : k < size) (hin : ptr % PGSIZE + k < PGSIZE) : ptResolve pt (va + (ptr % PGSIZE + k)) = ptr + k := by
  have hdown : roundDown ptr PGSIZE + ptr % PGSIZE = ptr := Nat.sub_add_cancel (Nat.mod_le _ _)
  by_cases hptr : ptr = 0
  · -- an object at address 0 is one byte, and nothing is mapped there
    subst hptr
    obtain rfl : k = 0 := by
      by_contra hne
      obtain ⟨hlow, -⟩ := @ptResolve_bounds s (0 + k) (by rw [hidentity k hk]; omega)
      rw [hidentity k hk] at hlow
      omega
    have hentry := hmapped.mapped 0 (by decide) va (by rw [pgOffset_zero hwidth])
    exact ptResolve_of_frame_zero hentry (by decide)
  · have hself : ptResolve s ptr = ptr := hidentity 0 (by omega)
    obtain ⟨hlow, hhigh⟩ := @ptResolve_bounds s ptr (by rw [hself]; exact hptr)
    rw [hself] at hlow hhigh
    calc ptResolve pt (va + (ptr % PGSIZE + k))
        = roundDown ptr PGSIZE + (ptr % PGSIZE + k) := by
          rw [roundDown_eq] at hmapped ⊢
          refine hmapped.resolve vremapFlags_ok halign (Nat.mul_mod_left _ _) ?_ ?_ ?_ <;>
            simp only [PGSIZE] at * <;> omega
      _ = ptr + k := by rw [← Nat.add_assoc, hdown]

end OnePage

/-- **`vremap_map` covers the whole object exactly if it does not cross a page boundary**, or the virtual page behind
the new one happens to be mapped to the rest of it from before. -/
theorem vremapMap_covers_iff (hinv : PtInv (fun _ => True) w.pt) (hwf : FreelistWf w.items) (hsize : 0 < size)
    (hmax : size ≤ PGSIZE) (hidentity : ∀ k < size, ptResolve w.pt (ptr + k) = ptr + k)
    (hva : (freelistAlloc 1 w.items).va = va) (hunmapped : w.pt.entry va = none)
    (hok : (vremapMap A ptr size w).result = VREM_OK) :
    Covers ptr size w (vremapMap A ptr size w) ↔
      InOnePage ptr size ∨ ptResolve w.pt (va + PGSIZE) = roundDown ptr PGSIZE + PGSIZE := by
  obtain ⟨hrun, hwidth, w', pt, hr, howned, hmapped⟩ := vremapMap_ok hinv hwf hsize hmax hva hunmapped hok
  have halign := hrun.1
  have hdown : roundDown ptr PGSIZE + ptr % PGSIZE = ptr := Nat.sub_add_cancel (Nat.mod_le _ _)
  have hoff : ptr % PGSIZE < PGSIZE := Nat.mod_lt _ (by decide)
  have hbehind : ∀ o < PGSIZE, ptResolve pt (va + PGSIZE + o) = ptResolve w.pt (va + PGSIZE + o) := fun o ho =>
    resolve_behind hmapped halign ho
  rw [hr]
  constructor
  · intro h
    by_cases hone : InOnePage ptr size
    · exact Or.inl hone
    · right
      unfold InOnePage at hone
      -- the first byte behind the boundary
      have hbyte := h.bytes (PGSIZE - ptr % PGSIZE) (by omega)
      have haddress : va + ptr % PGSIZE + (PGSIZE - ptr % PGSIZE) = va + PGSIZE + 0 := by omega
      dsimp only at hbyte
      rw [haddress, hbehind 0 (by decide), Nat.add_zero] at hbyte
      rw [hbyte]
      omega
  · intro h
    refine ⟨fun k hk => ?_, fun a ha => ?_⟩
    · dsimp only
      by_cases hin : ptr % PGSIZE + k < PGSIZE
      · rw [Nat.add_assoc]
        exact resolve_first hmapped halign hwidth hmax hidentity hk hin
      · have hcross : ¬ InOnePage ptr size := by
          unfold InOnePage
          omega
        have hnext := h.resolve_left hcross
        have hlt : ptr % PGSIZE + k - PGSIZE < PGSIZE := by omega
        have haddress : va + ptr % PGSIZE + k = va + PGSIZE + (ptr % PGSIZE + k - PGSIZE) := by omega
        have hne : ptResolve w.pt (va + PGSIZE) ≠ 0 := by
          rw [hnext]
          simp only [PGSIZE]
          omega
        have hnextPage : (va + PGSIZE) % PGSIZE = 0 := by
          rw [Nat.add_mod_right]
          exact halign
        calc ptResolve pt (va + ptr % PGSIZE + k)
            = ptResolve w.pt (va + PGSIZE + (ptr % PGSIZE + k - PGSIZE)) := by rw [haddress, hbehind _ hlt]
          _ = ptResolve w.pt (va + PGSIZE) + (ptr % PGSIZE + k - PGSIZE) := ptResolve_add hnextPage hlt hne
          _ = roundDown ptr PGSIZE + PGSIZE + (ptr % PGSIZE + k - PGSIZE) := by rw [hnext]
          _ = ptr + k := by omega
    · have hin : va ∈ region va 1 := by
        rw [mem_region]
        simp only [PGSIZE]
        omega
      refine ⟨va, ⟨hrun.2 hin, ?_⟩, mapped_only hmapped hwidth ha⟩
      dsimp only
      rw [howned]
      exact fun hmem => hmem.2 hin

/-- Two pages that are mapped to themselves. -/
def identityTables : PtState := (ptMapRegion emptyTables 0x5000 0x5000 0x2000 PTE_W).2

theorem identityTables_inv : PtInv (fun _ => True) identityTables :=
  (@ptMapRegion_spec _ _ _ _ _ 2 _ emptyTables_inv ⟨by decide, by decide⟩ (fun _ _ _ => trivial) rfl).1

theorem identityTables_resolve {a : Nat} (hlo : 0x5000 ≤ a) (hhi : a < 0x7000) : ptResolve identityTables a = a := by
  have hok : (ptMapRegion emptyTables 0x5000 0x5000 0x2000 PTE_W).1 = 0 := by decide +kernel
  obtain ⟨hmapped, -⟩ := ptMapRegion_maps emptyTables_inv (by decide) (by decide) (by decide) (by decide) (by decide)
    (by decide) (by decide) ⟨by decide, by decide⟩ (fun _ _ => emptyTables_entry _) hok
  obtain ⟨o, rfl⟩ := Nat.exists_eq_add_of_le hlo
  exact hmapped o (by omega)

/-- The freelist has two pages. -/
def identityWorld : World BumpHeap := bumpWorld [⟨1, 0x10000, 0x12000⟩] identityTables

theorem identityWorld_wf : FreelistWf identityWorld.items :=
  oneSpan_wf (by decide) (by decide) (by decide) (by decide)

/-- 32 bytes in the middle of a page. -/
theorem vremapMap_covers_middle :
    Covers 0x5010 32 identityWorld (vremapMap bumpAllocator 0x5010 32 identityWorld) := by
  have hva : (freelistAlloc 1 identityWorld.items).va = 0x10000 := by decide
  have hidentity : ∀ k < 32, ptResolve identityWorld.pt (0x5010 + k) = 0x5010 + k := fun k hk =>
    identityTables_resolve (by omega) (by omega)
  exact (vremapMap_covers_iff identityTables_inv identityWorld_wf (by decide) (by decide) hidentity hva
    (by decide +kernel) (by decide +kernel)).mpr (Or.inl (by decide))

/-- 32 bytes that cross a page boundary: the last 16 of them are not mapped. -/
theorem vremapMap_covers_not : PtInv (fun _ => True) identityWorld.pt ∧ FreelistWf identityWorld.items ∧
    (∀ k < 32, ptResolve identityWorld.pt (0x5ff0 + k) = 0x5ff0 + k) ∧
    (vremapMap bumpAllocator 0x5ff0 32 identityWorld).result = VREM_OK ∧
    ¬ Covers 0x5ff0 32 identityWorld (vremapMap bumpAllocator 0x5ff0 32 identityWorld) := by
  refine ⟨identityTables_inv, identityWorld_wf, fun k hk => identityTables_resolve (by omega) (by omega),
    by decide +kernel, fun h => ?_⟩
  have hbyte := h.bytes 16 (by decide)
  have hzero : ptResolve (vremapMap bumpAllocator 0x5ff0 32 identityWorld).world.pt
      ((vremapMap bumpAllocator 0x5ff0 32 identityWorld).remappedPtr + 16) = 0 := by decide +kernel
  rw [hzero] at hbyte
  exact absurd hbyte (by decide)

end Dangless.Rumprun
