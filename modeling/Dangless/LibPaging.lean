import Mathlib.Data.Nat.Bitwise
import Mathlib.Tactic.Common

/-! Address translation of x86-64 with four levels of page tables of 512 entries, in a memory of 64-bit
words: the walk of an address, the leaf it reaches with the access rights that all levels allow, and the
translation of canonical addresses. -/

namespace Paging

/-- What a mapping allows. -/
structure Rights where
  writable : Bool
  user : Bool
  noExecute : Bool
  deriving DecidableEq, Repr

/-- Writable and user only if both say so, no-execute if one of them does. -/
def Rights.meet (r r' : Rights) : Rights :=
  ⟨r.writable && r'.writable, r.user && r'.user, r.noExecute || r'.noExecute⟩

/-- A page: its frame, the number of bits of an offset into it, and the rights to it. -/
structure Leaf where
  frame : Nat
  bits : Nat
  rights : Rights
  deriving DecidableEq, Repr

def present (word : Nat) : Bool := word.testBit 0

/-- The page-size bit. -/
def large (word : Nat) : Bool := word.testBit 7

def entryRights (word : Nat) : Rights := ⟨word.testBit 1, word.testBit 2, word.testBit 63⟩

/-- Bits 51 to `bits` of an entry, as an address. -/
def frame (word bits : Nat) : Nat := word / 2 ^ bits % 2 ^ (52 - bits) * 2 ^ bits

/-- The number of offset bits of a page that an entry of a level maps, counted from 0. -/
def pageBits (level : Nat) : Nat := 12 + 9 * level

/-- The address of the entry of `va` in a table of a level. -/
def slot (table va level : Nat) : Nat := table + 8 * (va / 2 ^ pageBits level % 512)

/-- The walk of an address from a table of a level on. -/
def walk (mem : Nat → Nat) (va : Nat) : Nat → Nat → Option Leaf
  | 0, table =>
      let word := mem (slot table va 0)
      if present word then some ⟨frame word 12, 12, entryRights word⟩ else none
  | level + 1, table =>
      let word := mem (slot table va (level + 1))
      if !present word then none
      else if large word then
        some ⟨frame word (pageBits (level + 1)), pageBits (level + 1), entryRights word⟩
      else
        (walk mem va level (frame word 12)).map fun leaf =>
          { leaf with rights := (entryRights word).meet leaf.rights }

/-- The address in the page. -/
def Leaf.address (leaf : Leaf) (va : Nat) : Nat := leaf.frame + va % 2 ^ leaf.bits

/-- Bits 63 to 47 are all equal. -/
def Canonical (va : Nat) : Prop := va < 2 ^ 47 ∨ (2 ^ 64 - 2 ^ 47 ≤ va ∧ va < 2 ^ 64)

instance (va : Nat) : Decidable (Canonical va) := inferInstanceAs (Decidable (_ ∨ _))

/-- The physical address of a canonical address, where it has one. -/
def translate (mem : Nat → Nat) (root va : Nat) : Option Nat :=
  if Canonical va then (walk mem va 3 root).map fun leaf => leaf.address va else none

/-- The canonical address with the same low 48 bits. -/
def signExtend (va : Nat) : Nat :=
  if va % 2 ^ 48 < 2 ^ 47 then va % 2 ^ 48 else va % 2 ^ 48 + (2 ^ 64 - 2 ^ 48)

variable {mem : Nat → Nat} {va va' table level word : Nat}

theorem signExtend_canonical (va : Nat) : Canonical (signExtend va) := by
  unfold Canonical signExtend
  split_ifs <;> omega

theorem signExtend_mod (va : Nat) : signExtend va % 2 ^ 48 = va % 2 ^ 48 := by
  unfold signExtend
  split_ifs <;> omega

theorem signExtend_of_canonical (h : Canonical va) : signExtend va = va := by
  unfold Canonical at h
  unfold signExtend
  split_ifs <;> omega

theorem walk_zero : walk mem va 0 table =
    if present (mem (slot table va 0))
    then some ⟨frame (mem (slot table va 0)) 12, 12, entryRights (mem (slot table va 0))⟩ else none :=
  rfl

theorem walk_succ : walk mem va (level + 1) table =
    if !present (mem (slot table va (level + 1))) then none
    else if large (mem (slot table va (level + 1))) then
      some ⟨frame (mem (slot table va (level + 1))) (pageBits (level + 1)), pageBits (level + 1),
        entryRights (mem (slot table va (level + 1)))⟩
    else
      (walk mem va level (frame (mem (slot table va (level + 1))) 12)).map fun leaf =>
        { leaf with rights := (entryRights (mem (slot table va (level + 1)))).meet leaf.rights } :=
  rfl

section Entry

variable (hword : mem (slot table va (level + 1)) = word)

include hword

theorem walk_absent (h : present word = false) : walk mem va (level + 1) table = none := by
  rw [walk_succ, hword, h]
  rfl

theorem walk_large (h : present word = true) (hlarge : large word = true) :
    walk mem va (level + 1) table =
      some ⟨frame word (pageBits (level + 1)), pageBits (level + 1), entryRights word⟩ := by
  rw [walk_succ, hword, h, hlarge]
  rfl

theorem walk_table (h : present word = true) (hlarge : large word = false) :
    walk mem va (level + 1) table = (walk mem va level (frame word 12)).map fun leaf =>
      { leaf with rights := (entryRights word).meet leaf.rights } := by
  rw [walk_succ, hword, h, hlarge]
  rfl

end Entry

/-- A walk reads the bits of an address up to the top of its level only. -/
theorem walk_congr (h : ∀ l, l ≤ level → va / 2 ^ pageBits l % 512 = va' / 2 ^ pageBits l % 512) :
    walk mem va level table = walk mem va' level table := by
  induction level generalizing table with
  | zero =>
      have hslot : slot table va 0 = slot table va' 0 := by rw [slot, slot, h 0 le_rfl]
      rw [walk_zero, walk_zero, hslot]
  | succ level ih =>
      have hslot : slot table va (level + 1) = slot table va' (level + 1) := by
        rw [slot, slot, h (level + 1) le_rfl]
      have hrest : ∀ table, walk mem va level table = walk mem va' level table := fun table =>
        ih fun l hl => h l (by omega)
      rw [walk_succ, walk_succ, hslot, hrest]

/-- A walk reaches a page of its level at most. -/
theorem walk_bits {leaf : Leaf} (h : walk mem va level table = some leaf) :
    leaf.bits ≤ pageBits level := by
  induction level generalizing table leaf with
  | zero =>
      rw [walk_zero] at h
      split_ifs at h
      obtain rfl := Option.some.inj h
      exact le_rfl
  | succ level ih =>
      rw [walk_succ] at h
      split_ifs at h
      · obtain rfl := Option.some.inj h
        exact le_rfl
      · obtain ⟨leaf', hleaf, rfl⟩ := Option.map_eq_some_iff.mp h
        have hle := ih hleaf
        simp only [pageBits] at *
        omega

/-- The four levels look at the low 48 bits. -/
theorem walk_signExtend (mem : Nat → Nat) (root va : Nat) :
    walk mem (signExtend va) 3 root = walk mem va 3 root := by
  apply walk_congr
  intro l hl
  have hmod := signExtend_mod va
  obtain rfl | rfl | rfl | rfl : l = 0 ∨ l = 1 ∨ l = 2 ∨ l = 3 := by omega
  all_goals
    simp only [pageBits]
    omega

theorem Leaf.address_signExtend {leaf : Leaf} (hbits : leaf.bits ≤ 48) (va : Nat) :
    leaf.address (signExtend va) = leaf.address va := by
  have hdvd : 2 ^ leaf.bits ∣ 2 ^ 48 := Nat.pow_dvd_pow 2 hbits
  rw [Leaf.address, Leaf.address, ← Nat.mod_mod_of_dvd (signExtend va) hdvd, signExtend_mod,
    Nat.mod_mod_of_dvd va hdvd]

end Paging
