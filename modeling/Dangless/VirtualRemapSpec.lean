import Dangless.BumpAllocator
import Dangless.DuneTables

/-! What `vremap_map` leaves, and what `vremap_resolve` makes of it. -/

namespace Dangless

variable {σ : Type} {A : SysAllocator σ} {L : DuneLayout}

section Layout

variable {a b u va k : Nat}

/-- The physical addresses of what Dune maps in advance. -/
theorem DuneLayout.Home.pa (h : L.Home va) :
    (PGSIZE ≤ va ∧ va < 2 ^ 32 ∧ L.duneVaToPa va = va) ∨
    (L.mmapBase ≤ va ∧ va < L.mmapBase + GPA_MAP_SIZE ∧
      L.duneVaToPa va = va - L.mmapBase + (PHYS_LIMIT - GPA_STACK_SIZE - GPA_MAP_SIZE)) := by
  have hlimit := L.physLimit_le
  have hmmap := L.mmapEnd_le
  rcases h with ⟨hlo, hhi⟩ | ⟨hlo, hhi⟩
  · refine Or.inl ⟨hlo, hhi, L.identity va ?_⟩
    simp only [PHYS_LIMIT] at hlimit
    omega
  · exact Or.inr ⟨hlo, hhi, L.mmap va hlo (by omega)⟩

theorem DuneLayout.Home.pa_ne_zero (h : L.Home va) : L.duneVaToPa va ≠ 0 := by
  rcases h.pa with ⟨hlo, -, hpa⟩ | ⟨-, -, hpa⟩ <;>
    simp only [hpa, PGSIZE, PHYS_LIMIT, GPA_STACK_SIZE, GPA_MAP_SIZE] at * <;> omega

/-- `pt_paddr2vaddr` is the reverse of `dune_va_to_pa` on what Dune maps in advance. -/
theorem ptPaddr2vaddr_home (h : L.Home va) : ptPaddr2vaddr L (L.duneVaToPa va) = va := by
  have hlimit := L.physLimit_le
  have hmmap := L.mmapEnd_le
  have hstack := L.stackEnd_le
  have hbase := L.mmap L.mmapBase le_rfl (by simp only [GPA_MAP_SIZE] at hmmap; omega)
  unfold ptPaddr2vaddr
  rw [hbase]
  rcases h.pa with ⟨hlo, hhi, hpa⟩ | ⟨hlo, hhi, hpa⟩
  · rw [hpa, if_neg]
    simp only [PHYS_LIMIT, GPA_STACK_SIZE, GPA_MAP_SIZE] at *
    omega
  · rw [hpa, if_pos (by omega)]
    simp only [u64, PHYS_LIMIT, GPA_STACK_SIZE, GPA_MAP_SIZE] at *
    omega

/-- The physical pages of a block: consecutive, within the width of frames, not page 0. -/
theorem DuneLayout.HomeBlock.frames (h : L.HomeBlock b u) :
    L.duneVaToPa b % PGSIZE = b % PGSIZE ∧ PGSIZE ≤ roundDown (L.duneVaToPa b) PGSIZE ∧
      roundDown (L.duneVaToPa b) PGSIZE + numSpannedPages b u * PGSIZE ≤ 2 ^ 52 := by
  have halign := L.mmapBase_aligned
  have hmmap := L.mmapEnd_le
  have hstack := L.stackEnd_le
  rw [roundDown_eq]
  rcases h with ⟨hlo, hhi, hend⟩ | ⟨hlo, hhi, hend⟩
  · rcases (show L.Home b from Or.inl ⟨hlo, hhi⟩).pa with ⟨-, -, hpa⟩ | ⟨hge, -, -⟩
    · rw [hpa, numSpannedPages_eq (by simp only [PGSIZE]; omega)]
      refine ⟨rfl, ?_, ?_⟩ <;> simp only [PGSIZE, GPA_STACK_SIZE] at * <;> omega
    · have hlimit := L.physLimit_le
      simp only [PHYS_LIMIT] at hlimit
      omega
  · rcases (show L.Home b from Or.inr ⟨hlo, hhi⟩).pa with ⟨-, hlt, -⟩ | ⟨-, -, hpa⟩
    · have hlimit := L.physLimit_le
      simp only [PHYS_LIMIT] at hlimit
      omega
    · rw [hpa, numSpannedPages_eq (by simp only [PGSIZE, GPA_MAP_SIZE, GPA_STACK_SIZE] at *; omega)]
      refine ⟨?_, ?_, ?_⟩ <;>
        simp only [PGSIZE, PHYS_LIMIT, GPA_STACK_SIZE, GPA_MAP_SIZE] at * <;> omega

theorem numSpannedPages_pos (h : L.HomeBlock b u) (hu : 0 < u) : 1 ≤ numSpannedPages b u := by
  have hmmap := L.mmapEnd_le
  have hstack := L.stackEnd_le
  have hwidth : b + u + PGSIZE ≤ 2 ^ 64 := by
    rcases h with ⟨-, -, hend⟩ | ⟨-, -, hend⟩ <;>
      simp only [PGSIZE, GPA_STACK_SIZE] at * <;> omega
  rw [numSpannedPages_eq hwidth]
  simp only [PGSIZE]
  omega

/-- Only what Dune maps in advance has the physical addresses of blocks. -/
theorem duneVaToPa_ne {b : Nat} (hb : L.Home b) (ha : ¬ L.Home a) (hlt : a < 2 ^ 64) (hge : 2 ^ 39 ≤ a) :
    L.duneVaToPa a ≠ L.duneVaToPa b := by
  have hlimit := L.physLimit_le
  have hmmap := L.mmapEnd_le
  have hstack := L.stackEnd_le
  have hpaB : L.duneVaToPa b < PHYS_LIMIT - GPA_STACK_SIZE := by
    rcases hb.pa with ⟨hlo, hhi, hpa⟩ | ⟨hlo, hhi, hpa⟩ <;> rw [hpa] <;>
      simp only [PHYS_LIMIT, GPA_STACK_SIZE, GPA_MAP_SIZE] at * <;> omega
  by_cases hlow : a < L.mmapBase
  · rw [L.identity a hlow]
    simp only [PHYS_LIMIT, GPA_STACK_SIZE] at *
    omega
  · by_cases hmid : a < L.stackBase
    · rw [L.mmap a (by omega) hmid]
      -- the sum stays below the stack only inside the region
      have hout : L.mmapBase + GPA_MAP_SIZE ≤ a := by
        by_contra hin
        exact ha (Or.inr ⟨by omega, by omega⟩)
      simp only [PHYS_LIMIT, GPA_STACK_SIZE, GPA_MAP_SIZE] at *
      omega
    · rw [L.stack a (by omega) (by omega)]
      simp only [u64, PHYS_LIMIT, GPA_STACK_SIZE, GPA_MAP_SIZE] at *
      omega

/-- The bytes of a block have consecutive physical addresses. -/
theorem DuneLayout.HomeBlock.byte (h : L.HomeBlock b u) (hk : k < u) :
    L.Home (b + k) ∧ L.duneVaToPa (b + k) = L.duneVaToPa b + k := by
  have hlimit := L.physLimit_le
  have hmmap := L.mmapEnd_le
  simp only [PHYS_LIMIT] at hlimit
  rcases h with ⟨hlo, hhi, hend⟩ | ⟨hlo, hhi, hend⟩
  · refine ⟨Or.inl ⟨by omega, by omega⟩, ?_⟩
    rw [L.identity b (by omega), L.identity (b + k) (by omega)]
  · refine ⟨Or.inr ⟨by omega, by omega⟩, ?_⟩
    rw [L.mmap b hlo (by omega), L.mmap (b + k) (by omega) (by omega)]
    omega

/-- A block has fewer pages than the address space, and its last byte lies in the last of them. -/
theorem DuneLayout.HomeBlock.pages (h : L.HomeBlock b u) :
    numSpannedPages b u ≤ 2 ^ 36 ∧ b % PGSIZE + u ≤ numSpannedPages b u * PGSIZE := by
  have hmmap := L.mmapEnd_le
  have hstack := L.stackEnd_le
  have hend : b + u ≤ 2 ^ 47 := by
    rcases h with ⟨-, -, hend⟩ | ⟨-, -, hend⟩ <;>
      simp only [GPA_STACK_SIZE] at * <;> omega
  rw [numSpannedPages_eq (by simp only [PGSIZE]; omega)]
  simp only [PGSIZE]
  omega

end Layout

/-- The flags with which `vremap_map` maps. -/
def vremapFlags : Nat := PTE_W ||| PTE_NX

theorem vremapFlags_ok : FlagsOk vremapFlags := ⟨by decide, by decide⟩

section Map

variable {S : PtPaths} {w : World σ} {ptr size va n : Nat}

/-- `vremap_map` on a region that is not mapped: it is given back, or it is mapped to the block. -/
theorem vremapMapAt_cases (ptr : Nat) (hinv : PtInv S w.pt) (halign : va % PGSIZE = 0) (hn : n ≤ 2 ^ 36)
    (hS : ∀ k, k < n → Within S (pgOffset va k))
    (hunmapped : ∀ k, k < n → w.pt.entry (pgOffset va k) = none) :
    ∃ pt, PtInv S pt ∧ PtKeeps w.pt pt ∧
      ((vremapMapAt A L ptr n va w =
          ⟨EVREM_VIRT_MAP, 0, (vpFree A va n { w with pt := pt }).2⟩ ∧
          ∀ a, pt.entry a = w.pt.entry a) ∨
        (vremapMapAt A L ptr n va w = ⟨VREM_OK, va + ptr % PGSIZE, { w with pt := pt }⟩ ∧
          MappedTo w.pt pt (roundDown (L.duneVaToPa ptr) PGSIZE) va vremapFlags n)) := by
  obtain ⟨s, hs⟩ : ∃ s, ptMapRegion w.pt (roundDown (L.duneVaToPa ptr) PGSIZE) va (n * PGSIZE)
    vremapFlags = s := ⟨_, rfl⟩
  obtain ⟨hpt, hkeeps, -, hmap⟩ := ptMapRegion_spec hinv vremapFlags_ok hS hs
  obtain ⟨hfail, hok⟩ := hmap (pagesDistinct_of_le halign hn) hunmapped
  refine ⟨s.2, hpt, hkeeps, ?_⟩
  rw [vremapFlags] at hs
  unfold vremapMapAt
  dsimp only
  rw [hs, getPageOffset_l1]
  split_ifs with hneg
  · exact Or.inl ⟨rfl, hfail hneg⟩
  · exact Or.inr ⟨rfl, hok hneg⟩

theorem pgOffset_mem_region {k : Nat} (hk : k < n) (hwidth : va + n * PGSIZE ≤ 2 ^ 64) :
    pgOffset va k ∈ region va n := by
  rw [pgOffset_eq (by simp only [PGSIZE] at *; omega), mem_region]
  simp only [PGSIZE] at *
  omega

/-- The region that `vp_alloc` gives lies in the 64-bit address space. -/
theorem region_width {items : List VpSpan} (hwf : FreelistWf items) (hn : 1 ≤ n)
    (hrun : RunAt (owned items) n va) : va + n * PGSIZE < 2 ^ 64 := by
  obtain ⟨span, hspan, -, hend⟩ := hwf.exists_span_of_run hn hrun
  exact hend.trans_lt (hwf.inWidth span hspan)

/-- `vp_free` of pages that are not owned adds them, if there is memory for a span. -/
theorem vpFree_owned (hwf : FreelistWf w.items) (hf : Freeable (owned w.items) va n)
    (hnode : freelistFreeNeedsNode w.items va n = true → (A.malloc VP_SPAN_SIZE w.sys).1 ≠ 0) :
    owned (vpFree A va n w).2.items = owned w.items ∪ region va n := by
  unfold vpFree
  cases hneeds : freelistFreeNeedsNode w.items va n with
  | false =>
      rcases @freelistFree_spec _ _ _ 0 hwf hf with ⟨-, -, howned⟩ | ⟨-, -, hneeds'⟩
      · simpa using howned
      · rw [hneeds] at hneeds'
        exact absurd hneeds' (by decide)
  | true =>
      rcases freelistFree_spec hwf hf with ⟨-, -, howned⟩ | ⟨-, hzero, -⟩
      · simpa using howned
      · exact absurd hzero (hnode hneeds)

end Map

section Resolve

variable {S : PtPaths} {w : World σ} {ptr size va n : Nat}

/-- Bytes that resolve to a block, at an address that Dune does not map itself, are taken for the
block. -/
theorem vremapResolve_of_resolve {pt : PtState} {p b : Nat} (hb : L.Home b) (hp : ¬ L.Home p)
    (hlt : p < 2 ^ 64) (hge : 2 ^ 39 ≤ p) (h : ptResolve pt p = L.duneVaToPa b) :
    vremapResolve L pt p = (VREM_OK, some b) := by
  unfold vremapResolve
  rw [h]
  dsimp only
  rw [if_neg hb.pa_ne_zero, if_neg (duneVaToPa_ne hb hp hlt hge), ptPaddr2vaddr_home hb]

/-- An address that Dune maps in advance is its own canonical address. -/
theorem vremapResolve_of_home {pt : PtState} {b : Nat} (hb : L.Home b)
    (h : ptResolve pt b = L.duneVaToPa b) : vremapResolve L pt b = (VREM_NOT_REMAPPED, some b) := by
  unfold vremapResolve
  rw [h]
  dsimp only
  rw [if_neg hb.pa_ne_zero, if_pos rfl]

/-- **`vremap_resolve` undoes `vremap_map`**, at every byte of the block, and resolving is idempotent. -/
theorem vremapResolve_vremapMap (hinv : PtInv S w.pt) (hwf : FreelistWf w.items)
    (hhome : ∀ a, L.Home a → ptResolve w.pt a = L.duneVaToPa a) (hblock : L.HomeBlock ptr size)
    (hsize : 0 < size) (hva : (freelistAlloc (numSpannedPages ptr size) w.items).va = va)
    (hlimit : PHYS_LIMIT ≤ va)
    (hunmapped : ∀ a ∈ region va (numSpannedPages ptr size), Within S a ∧ w.pt.entry a = none)
    (hok : (vremapMap A L ptr size w).result = VREM_OK) :
    (vremapMap A L ptr size w).remappedPtr % PGSIZE = ptr % PGSIZE ∧
    ∀ k, k < size →
      vremapResolve L (vremapMap A L ptr size w).world.pt
        ((vremapMap A L ptr size w).remappedPtr + k) = (VREM_OK, some (ptr + k)) ∧
      vremapResolve L (vremapMap A L ptr size w).world.pt (ptr + k) =
        (VREM_NOT_REMAPPED, some (ptr + k)) := by
  have hn := numSpannedPages_pos hblock hsize
  obtain ⟨hn36, hbytes⟩ := hblock.pages
  obtain ⟨hoffset, hframe, hframeEnd⟩ := hblock.frames
  have hva0 : va ≠ 0 := by
    simp only [PHYS_LIMIT] at hlimit
    omega
  unfold vremapMap at hok ⊢
  generalize numSpannedPages ptr size = n at *
  rcases freelistAlloc_spec hwf hn with ⟨heq, -⟩ | ⟨hleast, -, -⟩
  · rw [heq] at hva
    exact absurd hva.symm hva0
  rw [hva] at hleast
  obtain ⟨halign, hrun⟩ := hleast.1
  have hwidth := (region_width hwf hn hleast.1).le
  have hpt := vpAlloc_pt A w n
  have hnone : ∀ k, k < n → w.pt.entry (pgOffset va k) = none := fun k hk =>
    (hunmapped _ (pgOffset_mem_region hk hwidth)).2
  dsimp only at hok ⊢
  rw [vpAlloc_va, hva, if_neg hva0] at hok ⊢
  obtain ⟨pt, -, -, ⟨hr, -⟩ | ⟨hr, hmapped⟩⟩ := vremapMapAt_cases (A := A) (L := L)
    (w := (vpAlloc A n w).2) ptr (hpt ▸ hinv) halign hn36
    (fun k hk => (hunmapped _ (pgOffset_mem_region hk hwidth)).1) (fun k hk => hpt ▸ hnone k hk)
  · rw [hr] at hok
    exact absurd hok (show EVREM_VIRT_MAP ≠ VREM_OK by decide)
  rw [hr]
  rw [hpt] at hmapped
  dsimp only
  refine ⟨by simp only [PGSIZE] at *; omega, fun k hk => ⟨?_, ?_⟩⟩
  · have hin : va + ptr % PGSIZE + k ∈ region va n := by
      rw [mem_region]
      omega
    have hnothome : ¬ L.Home (va + ptr % PGSIZE + k) := by
      intro h
      have hzero := ptResolve_of_entry_none (hunmapped _ hin).2
      rw [hhome _ h] at hzero
      exact h.pa_ne_zero hzero
    obtain ⟨hbyteHome, hbyte⟩ := hblock.byte hk
    have hresolve := hmapped.resolve (o := ptr % PGSIZE + k) vremapFlags_ok halign (roundDown_aligned _)
      (by simp only [PGSIZE] at *; omega) hframeEnd (by omega)
    refine vremapResolve_of_resolve hbyteHome hnothome ?_ ?_ ?_
    · have := hin.2
      omega
    · simp only [PHYS_LIMIT] at hlimit
      omega
    · rw [Nat.add_assoc, hresolve, hbyte, roundDown_eq]
      simp only [PGSIZE] at *
      omega
  · obtain ⟨hbyteHome, -⟩ := hblock.byte hk
    refine vremapResolve_of_home hbyteHome ?_
    rw [← hhome _ hbyteHome]
    refine ptResolve_congr (hmapped.frame _ fun j hj heq => ?_)
    -- Dune maps the block, so it is at no page of the region
    have hzero := ptResolve_of_entry_none ((entry_of_path w.pt heq).trans (hnone j hj))
    rw [hhome _ hbyteHome] at hzero
    exact hbyteHome.pa_ne_zero hzero

end Resolve

/-- The paths under the top-level entries that Dune leaves free. -/
def duneFree : PtPaths := fun path => ∀ i, path.head? = some i → duneHalf i = none

/-- One page after the first 512 GB, and memory for three tables. -/
def duneFreshWorld : World BumpHeap :=
  bumpWorld [⟨1, 2 ^ 39, 2 ^ 39 + 4096⟩] (duneTables [2 ^ 47, 2 ^ 47 + 4096, 2 ^ 47 + 8192])

theorem duneFree_page {pool : List Nat} {a : Nat} (ha : a ∈ region (2 ^ 39) 1) :
    Within duneFree a ∧ (duneTables pool).entry a = none := by
  have hindex : (ptIndex a .l4).val = 1 := by
    rw [mem_region] at ha
    simp only [ptIndex, ptLevelOffset_eq, ptLevelShift, PGSHIFT, PtLevel.toNat, PT_BITS_PER_LEVEL,
      PGSIZE] at *
    omega
  have hhalf : duneHalf (ptIndex a .l4) = none := by
    rw [duneHalf, hindex]
    rfl
  refine ⟨fun level i hi => ?_, duneTables_entry hhalf⟩
  cases level <;> simp only [ptPrefix, List.head?_cons, List.head?_nil, Option.some.injEq,
    reduceCtorEq] at hi
  all_goals exact hi ▸ hhalf

theorem oneSpan_wf {node start end_ : Nat} (hlt : start < end_) (hstart : start % PGSIZE = 0)
    (hend : end_ % PGSIZE = 0) (hwidth : end_ < 2 ^ 64) : FreelistWf [⟨node, start, end_⟩] :=
  FreelistWf.insert freelistWf_nil freelistWf_nil hlt hstart hend hwidth (by simp) (by simp)

/-- A block of 32 bytes in the low 4 GB. -/
theorem vremapResolve_vremapMap_low : vremapResolve duneLayout
    (vremapMap bumpAllocator duneLayout 0x5010 32 duneFreshWorld).world.pt
    ((vremapMap bumpAllocator duneLayout 0x5010 32 duneFreshWorld).remappedPtr + 5) =
      (VREM_OK, some 0x5015) := by
  have hinv : PtInv duneFree duneFreshWorld.pt :=
    duneTables_inv (fun _ i h => h i) (by decide) (by decide)
  have hwf : FreelistWf duneFreshWorld.items :=
    oneSpan_wf (by decide) (by decide) (by decide) (by decide)
  have hfree : ∀ a ∈ region (2 ^ 39) (numSpannedPages 0x5010 32),
      Within duneFree a ∧ duneFreshWorld.pt.entry a = none := by
    intro a ha
    rw [show numSpannedPages 0x5010 32 = 1 by decide] at ha
    exact duneFree_page ha
  have hva : (freelistAlloc (numSpannedPages 0x5010 32) duneFreshWorld.items).va = 2 ^ 39 := by decide
  exact ((vremapResolve_vremapMap hinv hwf (fun _ ha => duneTables_home _ ha)
    (Or.inl ⟨by decide, by decide, by decide⟩) (by decide) hva (by decide) hfree
    (by decide +kernel)).2 5 (by decide)).1

section Fail

variable {S : PtPaths} {w : World σ} {ptr size va n : Nat}

/-- If the call has failed, then the translations and the pages of the freelist are those before it, and
the out parameter is not written. -/
def FailsCleanly (w : World σ) (r : VremapMap σ) : Prop :=
  r.result = EVREM_NO_VM ∨ r.result = EVREM_VIRT_MAP →
    (∀ a, r.world.pt.entry a = w.pt.entry a) ∧ owned r.world.items = owned w.items ∧ r.remappedPtr = 0

/-- A block in the address space has at least one page, and not more than the address space. -/
theorem numSpannedPages_bounds (hsize : 0 < size) (hblock : ptr + size ≤ VIRTMEM_END) :
    1 ≤ numSpannedPages ptr size ∧ numSpannedPages ptr size ≤ 2 ^ 36 := by
  rw [VIRTMEM_END] at hblock
  rw [numSpannedPages_eq (by simp only [PGSIZE]; omega)]
  simp only [PGSIZE]
  omega

/-- **A failed remap changes nothing observable, unless the freelist gives address 0**: a run of pages
that begins there is taken out of the list, and then taken for the answer `NULL`. -/
theorem vremapMap_failsCleanly_iff (hinv : PtInv S w.pt) (hwf : FreelistWf w.items) (hsize : 0 < size)
    (hblock : ptr + size ≤ VIRTMEM_END)
    (hva : (freelistAlloc (numSpannedPages ptr size) w.items).va = va)
    (hunmapped : va ≠ 0 → ∀ a ∈ region va (numSpannedPages ptr size), Within S a ∧ w.pt.entry a = none)
    (hnode : freelistFreeNeedsNode (freelistAlloc (numSpannedPages ptr size) w.items).items va
        (numSpannedPages ptr size) = true →
      (A.malloc VP_SPAN_SIZE (vpAlloc A (numSpannedPages ptr size) w).2.sys).1 ≠ 0) :
    FailsCleanly w (vremapMap A L ptr size w) ↔
      ¬ RunAt (owned w.items) (numSpannedPages ptr size) 0 := by
  obtain ⟨hn, hn36⟩ := numSpannedPages_bounds hsize hblock
  unfold vremapMap
  generalize numSpannedPages ptr size = n at *
  have hpt := vpAlloc_pt A w n
  have hitems := vpAlloc_items A w n
  dsimp only
  rw [vpAlloc_va, hva]
  rcases freelistAlloc_spec hwf hn with ⟨heq, hnone⟩ | ⟨hleast, hwf', howned⟩
  · -- there is no run at all
    rw [heq] at hva hitems
    rw [if_pos hva.symm]
    exact iff_of_true (fun _ => ⟨fun a => by rw [hpt], by rw [hitems], rfl⟩) (hnone 0)
  rw [hva] at hleast howned
  by_cases hva0 : va = 0
  · subst hva0
    rw [if_pos rfl]
    refine iff_of_false (fun hclean => ?_) (not_not.mpr hleast.1)
    have hzero : (0 : Nat) ∈ region 0 n := by
      rw [mem_region]
      simp only [PGSIZE]
      omega
    have hsame := (hclean (Or.inl rfl)).2.1
    dsimp only at hsame
    rw [hitems, howned] at hsame
    have howns : (0 : Nat) ∈ owned w.items := hleast.1.2 hzero
    rw [← hsame] at howns
    exact howns.2 hzero
  · have hrun0 : ¬ RunAt (owned w.items) n 0 := fun hrun => hva0 (Nat.le_zero.mp (hleast.2 hrun))
    rw [if_neg hva0]
    refine iff_of_true ?_ hrun0
    have hwidth := region_width hwf hn hleast.1
    obtain ⟨halign, hrun⟩ := hleast.1
    obtain ⟨pt, -, -, ⟨hr, hsame⟩ | ⟨hr, -⟩⟩ := vremapMapAt_cases (A := A) (L := L)
      (w := (vpAlloc A n w).2) ptr (hpt ▸ hinv) halign hn36
      (fun k hk => (hunmapped hva0 _ (pgOffset_mem_region hk hwidth.le)).1)
      (fun k hk => hpt ▸ (hunmapped hva0 _ (pgOffset_mem_region hk hwidth.le)).2)
    · rw [hr]
      refine fun _ => ⟨fun a => ?_, ?_, rfl⟩
      · dsimp only
        rw [vpFree_pt, ← hpt]
        exact hsame a
      · have hfree : Freeable (owned (freelistAlloc n w.items).items) va n := by
          refine ⟨halign, hn, hwidth, ?_⟩
          rw [howned]
          exact Set.disjoint_sdiff_right
        dsimp only
        rw [vpFree_owned (by rw [hitems]; exact hwf') (by rw [hitems]; exact hfree)
          (by rw [hitems]; exact hnode), hitems, howned]
        exact Set.sdiff_union_of_subset hrun
    · rw [hr]
      intro hfail
      exact absurd hfail (show ¬ (VREM_OK = EVREM_NO_VM ∨ VREM_OK = EVREM_VIRT_MAP) by decide)

end Fail

/-- There is a page, but no memory for its page tables: the page is given back. -/
theorem vremapMap_failsCleanly_virtMap :
    FailsCleanly (bumpWorld [⟨1, 2 ^ 39, 2 ^ 39 + 4096⟩] (duneTables []))
      (vremapMap bumpAllocator duneLayout 0x5010 32
        (bumpWorld [⟨1, 2 ^ 39, 2 ^ 39 + 4096⟩] (duneTables []))) := by
  have hinv : PtInv duneFree (duneTables []) := duneTables_inv (fun _ i h => h i) (by simp) (by simp)
  have hwf : FreelistWf [⟨1, 2 ^ 39, 2 ^ 39 + 4096⟩] :=
    oneSpan_wf (by decide) (by decide) (by decide) (by decide)
  have hrun0 : ¬ RunAt (owned [⟨1, 2 ^ 39, 2 ^ 39 + 4096⟩]) 1 0 := by
    intro hrun
    obtain ⟨b, hb, hlo, -⟩ := hrun.2 (show 0 ∈ region 0 1 from ⟨le_rfl, by decide⟩)
    obtain rfl := List.mem_singleton.mp hb
    exact absurd hlo (by decide)
  have hfree : ∀ a ∈ region (2 ^ 39) (numSpannedPages 0x5010 32),
      Within duneFree a ∧ (duneTables []).entry a = none := by
    intro a ha
    rw [show numSpannedPages 0x5010 32 = 1 by decide] at ha
    exact duneFree_page ha
  have hva : (freelistAlloc (numSpannedPages 0x5010 32) [⟨1, 2 ^ 39, 2 ^ 39 + 4096⟩]).va = 2 ^ 39 := by
    decide
  exact (vremapMap_failsCleanly_iff hinv hwf (by decide) (by decide) hva
    (fun _ => hfree) (fun _ => by decide)).mpr hrun0

/-- The page at address 0 is taken out of the list, although the call fails. -/
theorem vremapMap_loses_page_zero :
    FreelistWf [⟨1, 0, 4096⟩] ∧ PtInv (fun _ => True) emptyTables ∧ (∀ a, emptyTables.entry a = none) ∧
      ¬ FailsCleanly (bumpWorld [⟨1, 0, 4096⟩] emptyTables)
        (vremapMap bumpAllocator duneLayout 0x5010 32 (bumpWorld [⟨1, 0, 4096⟩] emptyTables)) := by
  refine ⟨oneSpan_wf (by decide) (by decide) (by decide) (by decide), emptyTables_inv,
    emptyTables_entry, fun hclean => ?_⟩
  have hsame := (hclean (Or.inl (by decide +kernel))).2.1
  have hitems : (vremapMap bumpAllocator duneLayout 0x5010 32
    (bumpWorld [⟨1, 0, 4096⟩] emptyTables)).world.items = [] := by decide +kernel
  rw [hitems, owned_nil] at hsame
  have hzero : (0 : Nat) ∈ owned [⟨1, 0, 4096⟩] := ⟨(0, 4096), List.mem_singleton.mpr rfl, by decide, by decide⟩
  exact (hsame ▸ hzero : (0 : Nat) ∈ (∅ : Set Nat))

end Dangless
