import Dangless.SysContract
import Dangless.VirtmemSpec

/-! A layout of Dune, and page tables as Dune sets them up for it: they map the low 512 GB to
themselves, the `mmap` region to its physical addresses, and nothing else. -/

namespace Dangless

open TableTree

def DUNE_MMAP_BASE : Nat := 0x7f0000000000
def DUNE_STACK_BASE : Nat := 0x7fff80000000

/-- `dune_va_to_pa` for these bases. -/
def duneVaToPa (va : Nat) : Nat :=
  if DUNE_STACK_BASE ≤ va then u64 (va - DUNE_STACK_BASE + (PHYS_LIMIT - GPA_STACK_SIZE))
  else if DUNE_MMAP_BASE ≤ va then
    va - DUNE_MMAP_BASE + (PHYS_LIMIT - GPA_STACK_SIZE - GPA_MAP_SIZE)
  else va

def duneLayout : DuneLayout where
  mmapBase := DUNE_MMAP_BASE
  stackBase := DUNE_STACK_BASE
  duneVaToPa := duneVaToPa
  mmapBase_aligned := by decide
  physLimit_le := by decide
  mmapEnd_le := by decide
  stackEnd_le := by decide
  identity := by
    intro va hva
    have hlt : va < DUNE_STACK_BASE := hva.trans (by decide)
    rw [duneVaToPa, if_neg (Nat.not_le.mpr hlt), if_neg (Nat.not_le.mpr hva)]
  mmap := by
    intro va hlo hhi
    rw [duneVaToPa, if_neg (Nat.not_le.mpr hhi), if_pos hlo]
  stack := by
    intro va hlo _
    rw [duneVaToPa, if_pos hlo]

def DUNE_PML4 : Nat := 4096
def DUNE_L3 : Nat := 2 ^ 46
def DUNE_L2 : Nat := 2 ^ 46 + 2 ^ 20
def DUNE_L1 : Nat := 2 ^ 46 + 2 ^ 30

/-- The physical page of the page number `q`: the first half are those of the low 512 GB, the others
those of the `mmap` region and what follows it. -/
def dunePage (q : Nat) : Nat :=
  if q < 2 ^ 27 then q * PGSIZE
  else (q - 2 ^ 27) * PGSIZE + (PHYS_LIMIT - GPA_STACK_SIZE - GPA_MAP_SIZE)

/-- The entry for a page. -/
def duneEntry (pa : Nat) : Nat := pa ||| PTE_W ||| PTE_V

/-- The words of the tables: two of level 3, their 1024 of level 2, and all of level 1. -/
def duneWord (addr : Nat) : Nat :=
  if addr = DUNE_PML4 then duneEntry DUNE_L3
  else if addr = DUNE_PML4 + 8 * 254 then duneEntry (DUNE_L3 + PGSIZE)
  else if DUNE_L3 ≤ addr ∧ addr < DUNE_L3 + 2 ^ 13 then
    duneEntry (DUNE_L2 + (addr - DUNE_L3) / 8 * PGSIZE)
  else if DUNE_L2 ≤ addr ∧ addr < DUNE_L2 + 2 ^ 22 then
    duneEntry (DUNE_L1 + (addr - DUNE_L2) / 8 * PGSIZE)
  else if DUNE_L1 ≤ addr ∧ addr < DUNE_L1 + 2 ^ 31 then duneEntry (dunePage ((addr - DUNE_L1) / 8))
  else 0

/-- The state of the page tables with memory for more of them. -/
def duneTables (pool : List Nat) : PtState := ⟨DUNE_PML4, duneWord, pool, []⟩

/-- Which of the two tables of level 3 a top-level entry refers to. -/
def duneHalf (i : Fin PT_NUM_ENTRIES) : Option Nat :=
  if i.val = 0 then some 0 else if i.val = 254 then some 1 else none

section Tables

variable {pool : List Nat} {i j k : Fin PT_NUM_ENTRIES} {h t va : Nat}

theorem pteChild_duneEntry {pa : Nat} (halign : pa % PGSIZE = 0) (hlt : pa < 2 ^ 52) :
    pteChild (duneEntry pa) = some pa := pteChild_entry ⟨by decide, by decide⟩ halign hlt

theorem duneHalf_lt (hi : duneHalf i = some h) : h < 2 := by
  unfold duneHalf at hi
  split_ifs at hi <;> simp only [Option.some.injEq] at hi <;> omega

/-- The root. -/
theorem duneWord_root (i : Fin PT_NUM_ENTRIES) : duneWord (pteSlot DUNE_PML4 i) =
    match duneHalf i with
    | some h => duneEntry (DUNE_L3 + h * PGSIZE)
    | none => 0 := by
  have hi : i.val < 512 := i.isLt
  have hslot : pteSlot DUNE_PML4 i = 4096 + 8 * i.val := rfl
  rw [hslot, duneHalf]
  by_cases h0 : i.val = 0
  · rw [h0]
    rfl
  by_cases h1 : i.val = 254
  · rw [h1]
    rfl
  · rw [if_neg h0, if_neg h1, duneWord, if_neg, if_neg, if_neg, if_neg, if_neg] <;>
      simp only [DUNE_PML4, DUNE_L3, DUNE_L2, DUNE_L1] <;> omega

theorem dune_follow_l4 (pool : List Nat) (i : Fin PT_NUM_ENTRIES) :
    (duneTables pool).follow [i] = (duneHalf i).map fun h => DUNE_L3 + h * PGSIZE := by
  have hstep : (duneTables pool).follow [i] = (pteChild (duneWord (pteSlot DUNE_PML4 i))).bind some := rfl
  rw [hstep, duneWord_root]
  cases hhalf : duneHalf i with
  | none => rfl
  | some h =>
      have hh := duneHalf_lt hhalf
      have hchild : pteChild (duneEntry (DUNE_L3 + h * PGSIZE)) = some (DUNE_L3 + h * PGSIZE) := by
        refine pteChild_duneEntry ?_ ?_ <;> simp only [DUNE_L3, PGSIZE] <;> omega
      dsimp only
      rw [hchild]
      rfl

theorem dune_follow_l3 (hi : duneHalf i = some h) :
    (duneTables pool).follow [i, j] = some (DUNE_L2 + (h * 512 + j) * PGSIZE) := by
  have hh := duneHalf_lt hi
  have hj := j.isLt
  have hfollow : (duneTables pool).follow [i] = some (DUNE_L3 + h * PGSIZE) := by
    rw [dune_follow_l4, hi]
    rfl
  have hword : duneWord (pteSlot (DUNE_L3 + h * PGSIZE) j) =
      duneEntry (DUNE_L2 + (h * 512 + j) * PGSIZE) := by
    have hq : (pteSlot (DUNE_L3 + h * PGSIZE) j - DUNE_L3) / 8 = h * 512 + j := by
      simp only [pteSlot, PGSIZE]
      omega
    rw [duneWord, hq, if_neg, if_neg, if_pos] <;>
      simp only [pteSlot, DUNE_PML4, DUNE_L3, PGSIZE, PT_NUM_ENTRIES] at * <;> omega
  refine (follow_snoc (i := j) hfollow).trans ?_
  change pteChild (duneWord (pteSlot (DUNE_L3 + h * PGSIZE) j)) = _
  rw [hword]
  refine pteChild_duneEntry ?_ ?_ <;> simp only [DUNE_L2, PGSIZE, PT_NUM_ENTRIES] at * <;> omega

theorem dune_follow_l2 (hi : duneHalf i = some h) :
    (duneTables pool).follow [i, j, k] = some (DUNE_L1 + ((h * 512 + j) * 512 + k) * PGSIZE) := by
  have hh := duneHalf_lt hi
  have hj := j.isLt
  have hk := k.isLt
  have hword : duneWord (pteSlot (DUNE_L2 + (h * 512 + j) * PGSIZE) k) =
      duneEntry (DUNE_L1 + ((h * 512 + j) * 512 + k) * PGSIZE) := by
    have hq : (pteSlot (DUNE_L2 + (h * 512 + j) * PGSIZE) k - DUNE_L2) / 8 = (h * 512 + j) * 512 + k := by
      simp only [pteSlot, PGSIZE]
      omega
    rw [duneWord, hq, if_neg, if_neg, if_neg, if_pos] <;>
      simp only [pteSlot, DUNE_PML4, DUNE_L3, DUNE_L2, PGSIZE, PT_NUM_ENTRIES] at * <;> omega
  refine (follow_snoc (p := [i, j]) (i := k) (dune_follow_l3 hi)).trans ?_
  change pteChild (duneWord (pteSlot (DUNE_L2 + (h * 512 + j) * PGSIZE) k)) = _
  rw [hword]
  refine pteChild_duneEntry ?_ ?_ <;> simp only [DUNE_L1, PGSIZE, PT_NUM_ENTRIES] at * <;> omega

/-- The page of every address under one of the two entries. -/
theorem dune_entry (hi : duneHalf (ptIndex va .l4) = some h) : (duneTables pool).entry va =
    some (.l1, duneEntry (dunePage
      (((h * 512 + ptIndex va .l3) * 512 + ptIndex va .l2) * 512 + ptIndex va .l1))) := by
  have hh := duneHalf_lt hi
  have h3 := (ptIndex va .l3).isLt
  have h2 := (ptIndex va .l2).isLt
  have h1 := (ptIndex va .l1).isLt
  generalize hq : ((h * 512 + (ptIndex va .l3).val) * 512 + (ptIndex va .l2).val) * 512 +
    (ptIndex va .l1).val = q
  have hslot : pteSlot (DUNE_L1 + ((h * 512 + ptIndex va .l3) * 512 + ptIndex va .l2) * PGSIZE)
      (ptIndex va .l1) = DUNE_L1 + 8 * q := by
    simp only [pteSlot, PGSIZE]
    omega
  have hword : duneWord (DUNE_L1 + 8 * q) = duneEntry (dunePage q) := by
    have hdiv : (DUNE_L1 + 8 * q - DUNE_L1) / 8 = q := by omega
    rw [duneWord, hdiv, if_neg, if_neg, if_neg, if_neg, if_pos] <;>
      simp only [DUNE_PML4, DUNE_L3, DUNE_L2, DUNE_L1, PT_NUM_ENTRIES] at * <;> omega
  have hlookup : (duneTables pool).lookup va = (0, DUNE_L1 + 8 * q) :=
    (lookup_full (dune_follow_l2 hi) rfl).trans (by rw [hslot])
  have hmem : (duneTables pool).mem (DUNE_L1 + 8 * q) = duneEntry (dunePage q) := hword
  rw [PtState.entry_eq, hlookup]
  dsimp only
  rw [hmem]
  exact if_pos entry_valid

/-- What Dune maps in advance resolves to its physical address. -/
theorem duneTables_home (pool : List Nat) (hva : duneLayout.Home va) :
    ptResolve (duneTables pool) va = duneLayout.duneVaToPa va := by
  have hresolve : ∀ h pa, duneHalf (ptIndex va .l4) = some h →
      dunePage (((h * 512 + ptIndex va .l3) * 512 + ptIndex va .l2) * 512 + ptIndex va .l1) = pa →
      pa % PGSIZE = 0 → pa < 2 ^ 52 → pa ≠ 0 → ptResolve (duneTables pool) va = pa + va % PGSIZE := by
    intro h pa hhalf hpage halign hlt hne
    have hflags : FlagsOk PTE_W := ⟨by decide, by decide⟩
    refine ptResolve_of_entry_l1 hflags halign hlt hne ?_
    rw [dune_entry hhalf, hpage]
    rfl
  rcases hva with ⟨hlo, hhi⟩ | ⟨hlo, hhi⟩
  · have hhalf : duneHalf (ptIndex va .l4) = some 0 := by
      refine if_pos ?_
      simp only [ptIndex, ptLevelOffset_eq, ptLevelShift, PGSHIFT, PtLevel.toNat, PT_BITS_PER_LEVEL]
      omega
    rw [hresolve 0 (va / PGSIZE * PGSIZE) hhalf, duneLayout.identity]
    · simp only [PGSIZE]
      omega
    · exact hhi.trans (show 2 ^ 32 < DUNE_MMAP_BASE by decide)
    · rw [dunePage, if_pos] <;>
        simp only [ptIndex, ptLevelOffset_eq, ptLevelShift, PGSHIFT, PtLevel.toNat, PT_BITS_PER_LEVEL,
          PGSIZE] at * <;> omega
    all_goals
      simp only [PGSIZE] at *
      omega
  · change DUNE_MMAP_BASE ≤ va at hlo
    change va < DUNE_MMAP_BASE + GPA_MAP_SIZE at hhi
    simp only [DUNE_MMAP_BASE, GPA_MAP_SIZE] at hlo hhi
    have hhalf : duneHalf (ptIndex va .l4) = some 1 := by
      have hindex : (ptIndex va .l4).val = 254 := by
        simp only [ptIndex, ptLevelOffset_eq, ptLevelShift, PGSHIFT, PtLevel.toNat, PT_BITS_PER_LEVEL]
        omega
      rw [duneHalf, hindex]
      rfl
    rw [hresolve 1 ((va - DUNE_MMAP_BASE) / PGSIZE * PGSIZE +
      (PHYS_LIMIT - GPA_STACK_SIZE - GPA_MAP_SIZE)) hhalf, duneLayout.mmap]
    · change _ = va - DUNE_MMAP_BASE + _
      simp only [PGSIZE, DUNE_MMAP_BASE]
      omega
    · exact hlo
    · exact hhi.trans (show 0x7f0000000000 + 0xfc0000000 < DUNE_STACK_BASE by decide)
    · rw [dunePage, if_neg] <;>
        simp only [ptIndex, ptLevelOffset_eq, ptLevelShift, PGSHIFT, PtLevel.toNat, PT_BITS_PER_LEVEL,
          PGSIZE, DUNE_MMAP_BASE] at * <;> omega
    all_goals
      simp only [PGSIZE, PHYS_LIMIT, GPA_STACK_SIZE, GPA_MAP_SIZE, DUNE_MMAP_BASE] at *
      omega

/-- The tables lie above the pages that they map. -/
theorem dune_follow_range {path : List (Fin PT_NUM_ENTRIES)} (hne : path ≠ []) (hlength : path.length ≤ 3)
    (ht : (duneTables pool).follow path = some t) :
    (∃ i h, path.head? = some i ∧ duneHalf i = some h) ∧ 2 ^ 46 ≤ t ∧ t < 2 ^ 47 := by
  obtain ⟨i, rest, rfl⟩ := List.exists_cons_of_ne_nil hne
  obtain ⟨u, hu, -⟩ := follow_prefix (p := [i]) ht
  have hhalf : ∃ h, duneHalf i = some h := by
    have hu' := (dune_follow_l4 pool i).symm.trans hu
    cases hi : duneHalf i with
    | none =>
        rw [hi] at hu'
        exact absurd hu' (by simp)
    | some h => exact ⟨h, rfl⟩
  obtain ⟨h, hi⟩ := hhalf
  have hh := duneHalf_lt hi
  refine ⟨⟨i, h, rfl, hi⟩, ?_⟩
  rcases rest with _ | ⟨j, _ | ⟨k, rest⟩⟩
  · rw [dune_follow_l4, hi] at ht
    obtain rfl := Option.some.inj ht
    simp only [DUNE_L3, PGSIZE]
    omega
  · rw [dune_follow_l3 hi] at ht
    obtain rfl := Option.some.inj ht
    have hj := j.isLt
    simp only [DUNE_L2, PGSIZE, PT_NUM_ENTRIES] at *
    omega
  · obtain rfl : rest = [] := List.eq_nil_of_length_eq_zero (by
      simp only [List.length_cons] at hlength
      omega)
    rw [dune_follow_l2 hi] at ht
    obtain rfl := Option.some.inj ht
    have hj := j.isLt
    have hk := k.isLt
    simp only [DUNE_L1, PGSIZE, PT_NUM_ENTRIES] at *
    omega

/-- Under the other top-level entries there is no table. -/
theorem duneTables_inv {S : PtPaths} (hS : ∀ path i, S path → path.head? = some i → duneHalf i = none)
    (hpool : ∀ pa ∈ pool, pa ≠ 0 → pa % PGSIZE = 0 ∧ 2 ^ 47 ≤ pa ∧ pa < 2 ^ 52)
    (hdistinct : pool.Pairwise fun pa pa' => pa ≠ 0 → pa' ≠ pa) : PtInv S (duneTables pool) := by
  refine ⟨show DUNE_PML4 % PGSIZE = 0 by decide, fun p q t hp hlp hlq htp htq => ?_, fun pa hpa hne => ?_,
    fun pa hpa hne path hlength ht => ?_, hdistinct⟩
  · have hnil : p = [] := by
      by_contra hne
      obtain ⟨⟨i, h, hhead, hi⟩, -⟩ := dune_follow_range hne hlp htp
      rw [hS p i hp hhead] at hi
      exact absurd hi (by simp)
    subst hnil
    obtain rfl := Option.some.inj htp
    by_contra hne
    have hrange := (dune_follow_range (Ne.symm hne) hlq htq).2.1
    exact absurd hrange (show ¬ 2 ^ 46 ≤ DUNE_PML4 by decide)
  · exact ⟨(hpool pa hpa hne).1, (hpool pa hpa hne).2.2⟩
  · have hlow := (hpool pa hpa hne).2.1
    by_cases hnil : path = []
    · subst hnil
      obtain rfl := Option.some.inj ht
      exact absurd hlow (show ¬ 2 ^ 47 ≤ DUNE_PML4 by decide)
    · have hhigh := (dune_follow_range hnil hlength ht).2.2
      omega

/-- Nothing is mapped under the other top-level entries. -/
theorem duneTables_entry (hi : duneHalf (ptIndex va .l4) = none) : (duneTables pool).entry va = none := by
  have hword := duneWord_root (ptIndex va .l4)
  rw [hi] at hword
  have hchild : pteChild (duneWord (pteSlot DUNE_PML4 (ptIndex va .l4))) = none := by
    rw [hword]
    rfl
  have hlookup : (duneTables pool).lookup va = (3, pteSlot DUNE_PML4 (ptIndex va .l4)) := by
    show lookup pteSlot pteChild duneWord DUNE_PML4 _ _ = _
    rw [lookup_cons, hchild]
    rfl
  refine entry_of_lookup_invalid ?_
  rw [hlookup]
  change flagIsSet (duneWord (pteSlot DUNE_PML4 (ptIndex va .l4))) PTE_V = false
  rw [hword]
  rfl

end Tables

end Dangless
