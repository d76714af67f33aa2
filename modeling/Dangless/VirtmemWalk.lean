import Dangless.Virtmem
import Dangless.LibTableTree

/-! Page-table walks as lookups: the words of page tables, and the tree of tables in which an address
is looked up along the path of its four indices. -/

namespace Dangless

open TableTree

/-- A mask of `n` bits from bit `b` on. -/
theorem and_mask (word n b : Nat) : word &&& ((2 ^ n - 1) * 2 ^ b) = word / 2 ^ b % 2 ^ n * 2 ^ b := by
  apply Nat.eq_of_testBit_eq
  intro i
  rw [Nat.testBit_and, Nat.testBit_mul_two_pow, Nat.testBit_mul_two_pow,
    Nat.testBit_two_pow_sub_one, Nat.testBit_mod_two_pow, Nat.testBit_div_two_pow]
  by_cases hi : b ≤ i
  · simp [hi, Bool.and_comm]
  · simp [hi]

theorem and_frame (word : Nat) : word &&& PTE_FRAME = word / 2 ^ 12 % 2 ^ 40 * 2 ^ 12 :=
  and_mask word 40 12

theorem frame_aligned (word : Nat) : (word &&& PTE_FRAME) % PGSIZE = 0 := by
  rw [and_frame]
  simp only [PGSIZE]
  omega

theorem frame_of_aligned {pa : Nat} (halign : pa % PGSIZE = 0) (hlt : pa < 2 ^ 52) :
    pa &&& PTE_FRAME = pa := by
  rw [and_frame]
  simp only [PGSIZE] at halign
  omega

/-- The low bits of a page address are clear. -/
theorem aligned_and_low {pa bits : Nat} (halign : pa % PGSIZE = 0) (hbits : bits < PGSIZE) :
    pa &&& bits = 0 := by
  apply Nat.eq_of_testBit_eq
  intro i
  rw [Nat.testBit_and, Nat.zero_testBit]
  by_cases hi : i < 12
  · have hpa : pa = pa / 2 ^ 12 * 2 ^ 12 := by
      simp only [PGSIZE] at halign
      omega
    rw [hpa, Nat.testBit_mul_two_pow]
    simp [Nat.not_le.mpr hi]
  · have hpow : 2 ^ 12 ≤ 2 ^ i := Nat.pow_le_pow_right (by decide) (by omega)
    rw [Nat.testBit_lt_two_pow (lt_of_lt_of_le hbits (by simpa [PGSIZE] using hpow)), Bool.and_false]

/-- Flags that neither touch the frame nor say that the entry is a large page. -/
structure FlagsOk (flags : Nat) : Prop where
  frame : flags &&& PTE_FRAME = 0
  ps : flags &&& PTE_PS = 0

section EntryWord

variable {pa flags : Nat}

theorem entry_valid : flagIsSet (pa ||| flags ||| PTE_V) PTE_V = true := by
  have hne : (pa ||| flags ||| PTE_V) &&& PTE_V ≠ 0 := by
    rw [Nat.and_or_distrib_right]
    simp [PTE_V]
  simpa [flagIsSet] using hne

theorem entry_ne_zero : pa ||| flags ||| PTE_V ≠ 0 := by
  intro hzero
  have hvalid : flagIsSet (pa ||| flags ||| PTE_V) PTE_V = true := entry_valid
  rw [hzero] at hvalid
  revert hvalid
  decide

theorem entry_frame (hflags : FlagsOk flags) (halign : pa % PGSIZE = 0) (hlt : pa < 2 ^ 52) :
    (pa ||| flags ||| PTE_V) &&& PTE_FRAME = pa := by
  rw [Nat.and_or_distrib_right, Nat.and_or_distrib_right, hflags.frame, frame_of_aligned halign hlt]
  simp [PTE_V, PTE_FRAME]

theorem entry_not_large (hflags : FlagsOk flags) (halign : pa % PGSIZE = 0) :
    flagIsSet (pa ||| flags ||| PTE_V) PTE_PS = false := by
  have hpa : pa &&& PTE_PS = 0 := aligned_and_low halign (by decide)
  have hzero : (pa ||| flags ||| PTE_V) &&& PTE_PS = 0 := by
    rw [Nat.and_or_distrib_right, Nat.and_or_distrib_right, hflags.ps, hpa]
    decide
  simp [flagIsSet, hzero]

end EntryWord

/-- The entry of index `i` in the table at `t`. -/
def pteSlot (t : Nat) (i : Fin PT_NUM_ENTRIES) : Nat := t + 8 * i

/-- The table that an entry above level 1 refers to. -/
def pteChild (word : Nat) : Option Nat :=
  if flagIsSet word PTE_V && !flagIsSet word PTE_PS then some (word &&& PTE_FRAME) else none

theorem ptLevelOffset_eq (va : Nat) (level : PtLevel) :
    ptLevelOffset va level = va / 2 ^ ptLevelShift level % 512 := by
  unfold ptLevelOffset PT_NUM_ENTRIES
  rw [Nat.shiftRight_eq_div_pow, show 512 - 1 = 2 ^ 9 - 1 from rfl, Nat.and_two_pow_sub_one_eq_mod]

theorem ptLevelOffset_lt (va : Nat) (level : PtLevel) : ptLevelOffset va level < PT_NUM_ENTRIES := by
  rw [ptLevelOffset_eq, PT_NUM_ENTRIES]
  omega

/-- The index of an address in the tables of a level. -/
def ptIndex (va : Nat) (level : PtLevel) : Fin PT_NUM_ENTRIES :=
  ⟨ptLevelOffset va level, ptLevelOffset_lt va level⟩

/-- The indices of an address, from the root on. -/
def ptPath (va : Nat) : List (Fin PT_NUM_ENTRIES) :=
  [ptIndex va .l4, ptIndex va .l3, ptIndex va .l2, ptIndex va .l1]

abbrev PtState.follow (s : PtState) (path : List (Fin PT_NUM_ENTRIES)) : Option Nat :=
  TableTree.follow pteSlot pteChild s.mem s.cr3 path

abbrev PtState.lookup (s : PtState) (va : Nat) : Nat × Nat :=
  TableTree.lookup pteSlot pteChild s.mem s.cr3 (ptIndex va .l4)
    [ptIndex va .l3, ptIndex va .l2, ptIndex va .l1]

/-- The level that stands `n` levels above level 1. -/
def levelAbove : Nat → PtLevel
  | 0 => .l1
  | 1 => .l2
  | 2 => .l3
  | _ => .l4

theorem pteChild_eq_none {word : Nat} : pteChild word = none ↔
    (!flagIsSet word PTE_V || flagIsSet word PTE_PS) = true := by
  unfold pteChild
  cases flagIsSet word PTE_V <;> cases flagIsSet word PTE_PS <;> simp

theorem pteChild_eq_some {word t : Nat} : pteChild word = some t ↔
    (!flagIsSet word PTE_V || flagIsSet word PTE_PS) = false ∧ word &&& PTE_FRAME = t := by
  unfold pteChild
  cases flagIsSet word PTE_V <;> cases flagIsSet word PTE_PS <;> simp

/-- A level of a full walk above level 1 is a step of the lookup. -/
theorem walkLevel_above (s : PtState) (va paddr : Nat) {level : PtLevel} (hlevel : level ≠ .l1)
    (next : Nat → PtLevel × Nat) : walkLevel s va .l1 level paddr next =
      match pteChild (s.mem (pteSlot paddr (ptIndex va level))) with
      | none => (level, pteSlot paddr (ptIndex va level))
      | some t => next t := by
  have hbne : (level != .l1) = true := by simpa using hlevel
  have hbeq : (PtLevel.l1 == level) = false := by simpa using hlevel.symm
  have hslot : paddr + 8 * ptLevelOffset va level = pteSlot paddr (ptIndex va level) := rfl
  simp only [walkLevel, hslot, hbne, hbeq, Bool.true_and, Bool.or_false]
  cases hchild : pteChild (s.mem (pteSlot paddr (ptIndex va level))) with
  | none => rw [if_pos (pteChild_eq_none.mp hchild)]
  | some t =>
      obtain ⟨hstop, rfl⟩ := pteChild_eq_some.mp hchild
      rw [hstop]
      rfl

/-- A full walk is the lookup of the path. -/
theorem ptWalk_full (s : PtState) (va : Nat) :
    ptWalk s va .l1 = (levelAbove (s.lookup va).1, (s.lookup va).2) := by
  simp only [ptWalk, lookup_cons, lookup_nil,
    walkLevel_above s va _ (show PtLevel.l4 ≠ .l1 by decide),
    walkLevel_above s va _ (show PtLevel.l3 ≠ .l1 by decide),
    walkLevel_above s va _ (show PtLevel.l2 ≠ .l1 by decide)]
  cases pteChild (s.mem (pteSlot s.cr3 (ptIndex va .l4))) with
  | none => rfl
  | some t3 =>
      dsimp only
      cases pteChild (s.mem (pteSlot t3 (ptIndex va .l3))) with
      | none => rfl
      | some t2 =>
          dsimp only
          cases pteChild (s.mem (pteSlot t2 (ptIndex va .l2))) with
          | none => rfl
          | some t1 => simp [walkLevel, levelAbove, pteSlot, ptIndex]

/-- The present leaf entry of an address, with its level. -/
def PtState.entry (s : PtState) (va : Nat) : Option (PtLevel × Nat) :=
  let (level, ppte) := ptWalk s va .l1
  if flagIsSet (s.mem ppte) PTE_V then some (level, s.mem ppte) else none

theorem PtState.entry_eq (s : PtState) (va : Nat) : s.entry va =
    if flagIsSet (s.mem (s.lookup va).2) PTE_V
    then some (levelAbove (s.lookup va).1, s.mem (s.lookup va).2) else none := by
  unfold PtState.entry
  rw [ptWalk_full]

theorem ptResolve_congr {s s' : PtState} {va : Nat} (h : s'.entry va = s.entry va) :
    ptResolve s' va = ptResolve s va := by
  unfold PtState.entry at h
  unfold ptResolve ptResolvePage
  revert h
  dsimp only
  cases flagIsSet (s'.mem (ptWalk s' va .l1).2) PTE_V <;>
    cases flagIsSet (s.mem (ptWalk s va .l1).2) PTE_V <;> simp
  intro hlevel hword
  rw [hlevel, hword]

theorem ptResolve_of_entry_none {s : PtState} {va : Nat} (h : s.entry va = none) :
    ptResolve s va = 0 := by
  unfold PtState.entry at h
  unfold ptResolve ptResolvePage
  revert h
  dsimp only
  cases flagIsSet (s.mem (ptWalk s va .l1).2) PTE_V <;> simp

theorem getPageOffset_l1 (addr : Nat) : getPageOffset addr .l1 = addr % PGSIZE := by
  show addr &&& (2 ^ 12 - 1) = _
  rw [Nat.and_two_pow_sub_one_eq_mod, PGSIZE]

/-- An address with a 4K entry resolves to its place in the frame of the entry. -/
theorem ptResolve_of_entry_l1 {s : PtState} {va pa flags : Nat} (hflags : FlagsOk flags)
    (halign : pa % PGSIZE = 0) (hlt : pa < 2 ^ 52) (hne : pa ≠ 0)
    (h : s.entry va = some (.l1, pa ||| flags ||| PTE_V)) : ptResolve s va = pa + va % PGSIZE := by
  have hframe : (pa ||| flags ||| PTE_V) &&& PTE_FRAME_4K = pa := entry_frame hflags halign hlt
  unfold PtState.entry at h
  unfold ptResolve ptResolvePage
  revert h
  dsimp only
  cases flagIsSet (s.mem (ptWalk s va .l1).2) PTE_V with
  | false => simp
  | true =>
      simp only [if_true, Option.some.injEq, Prod.mk.injEq, Bool.not_true, Bool.false_eq_true,
        if_false]
      rintro ⟨hlevel, hword⟩
      have hoffset : va % PGSIZE < PGSIZE := Nat.mod_lt _ (by decide)
      simp only [hlevel, hword, hframe, hne, if_false, getPageOffset_l1]
      refine u64_of_lt ?_
      simp only [PGSIZE] at *
      omega

/-- An address that resolves has a top-level entry in use. -/
theorem root_ne_zero_of_entry {s : PtState} {va : Nat} (h : s.entry va ≠ none) :
    s.mem (pteSlot s.cr3 (ptIndex va .l4)) ≠ 0 := by
  intro hzero
  have hchild : pteChild (s.mem (pteSlot s.cr3 (ptIndex va .l4))) = none := by
    rw [hzero]
    rfl
  refine h ?_
  rw [PtState.entry_eq, PtState.lookup, lookup_cons, hchild]
  simp only [hzero]
  rfl

/-- The path of an address to the table of a level. -/
def ptPrefix (va : Nat) : PtLevel → List (Fin PT_NUM_ENTRIES)
  | .l4 => []
  | .l3 => [ptIndex va .l4]
  | .l2 => [ptIndex va .l4, ptIndex va .l3]
  | .l1 => [ptIndex va .l4, ptIndex va .l3, ptIndex va .l2]

theorem ptPrefix_isPrefix (va : Nat) (level : PtLevel) : ptPrefix va level <+: ptPath va := by
  cases level with
  | l4 => exact ⟨_, rfl⟩
  | l3 => exact ⟨[ptIndex va .l3, ptIndex va .l2, ptIndex va .l1], rfl⟩
  | l2 => exact ⟨[ptIndex va .l2, ptIndex va .l1], rfl⟩
  | l1 => exact ⟨[ptIndex va .l1], rfl⟩

/-- Two addresses have the same path when they lie in the same page, up to the unused high bits. -/
theorem ptPath_eq_iff {a va : Nat} : ptPath a = ptPath va ↔
    a / PGSIZE % 2 ^ 36 = va / PGSIZE % 2 ^ 36 := by
  simp only [ptPath, ptIndex, List.cons.injEq, Fin.mk.injEq, ptLevelOffset_eq, ptLevelShift, PGSHIFT,
    PtLevel.toNat, PT_BITS_PER_LEVEL, PGSIZE, and_true]
  omega

end Dangless
