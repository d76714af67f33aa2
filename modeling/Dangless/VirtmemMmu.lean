import Dangless.LibPaging
import Dangless.VirtmemSpec

/-! `pt_resolve` beside the translation of the processor. The processor faults on an address that is not
canonical; the code looks at 48 bits only, and answers 0 also for a page whose frame is 0. -/

namespace Dangless

open TableTree

variable {s : PtState} {va table : Nat}

/-- A single flag is a bit. -/
theorem flagIsSet_two_pow (word i : Nat) : flagIsSet word (2 ^ i) = word.testBit i := by
  rw [flagIsSet, Nat.and_two_pow]
  cases word.testBit i <;> simp

theorem flagIsSet_v (word : Nat) : flagIsSet word PTE_V = Paging.present word := flagIsSet_two_pow word 0

theorem flagIsSet_ps (word : Nat) : flagIsSet word PTE_PS = Paging.large word := flagIsSet_two_pow word 7

theorem frame_4k (word : Nat) : word &&& PTE_FRAME_4K = Paging.frame word 12 := and_mask word 40 12

theorem frame_2m (word : Nat) : word &&& PTE_FRAME_2M = Paging.frame word 21 := and_mask word 31 21

theorem frame_1g (word : Nat) : word &&& PTE_FRAME_1G = Paging.frame word 30 := and_mask word 22 30

theorem frame_lt (word : Nat) {bits : Nat} (hbits : bits ≤ 52) :
    Paging.frame word bits + 2 ^ bits ≤ 2 ^ 52 := by
  have hpow : 2 ^ (52 - bits) * 2 ^ bits = 2 ^ 52 := by
    rw [← Nat.pow_add]
    congr 1
    omega
  have hlt : word / 2 ^ bits % 2 ^ (52 - bits) + 1 ≤ 2 ^ (52 - bits) := Nat.mod_lt _ (Nat.two_pow_pos _)
  calc Paging.frame word bits + 2 ^ bits
      = (word / 2 ^ bits % 2 ^ (52 - bits) + 1) * 2 ^ bits := by rw [Paging.frame, Nat.add_mul, Nat.one_mul]
    _ ≤ 2 ^ (52 - bits) * 2 ^ bits := Nat.mul_le_mul_right _ hlt
    _ = 2 ^ 52 := hpow

/-- The level of the processor's walk, counted from 0. -/
def PtLevel.below (level : PtLevel) : Nat := level.toNat - 1

/-- The page that a present entry of a level maps; an entry of level 4 maps none. -/
def ptEntryPage (word : Nat) : PtLevel → Nat
  | .l1 => word &&& PTE_FRAME_4K
  | .l2 => word &&& PTE_FRAME_2M
  | .l3 => word &&& PTE_FRAME_1G
  | .l4 => 0

/-- `pt_resolve` once the walk has stopped. -/
def ptResolveEntry (s : PtState) (va : Nat) (r : PtLevel × Nat) : Nat :=
  if flagIsSet (s.mem r.2) PTE_V then
    if ptEntryPage (s.mem r.2) r.1 = 0 then 0
    else u64 (ptEntryPage (s.mem r.2) r.1 + getPageOffset va r.1)
  else 0

theorem ptResolve_eq_entry (s : PtState) (va : Nat) :
    ptResolve s va = ptResolveEntry s va (ptWalk s va .l1) := by
  unfold ptResolve ptResolvePage ptResolveEntry
  dsimp only
  cases flagIsSet (s.mem (ptWalk s va .l1).2) PTE_V with
  | false => rfl
  | true => cases (ptWalk s va .l1).1 <;> rfl

/-- The answer that `pt_resolve` has for what the walk of the processor finds. -/
def leafAnswer (va : Nat) : Option Paging.Leaf → Nat
  | none => 0
  | some leaf => if leaf.frame = 0 then 0 else leaf.address va

theorem leafAnswer_map (va : Nat) (leaf : Option Paging.Leaf) (f : Paging.Rights → Paging.Rights) :
    leafAnswer va (leaf.map fun leaf => { leaf with rights := f leaf.rights }) = leafAnswer va leaf := by
  cases leaf <;> rfl

theorem getPageOffset_eq (va : Nat) (level : PtLevel) :
    getPageOffset va level = va % 2 ^ Paging.pageBits level.below := by
  cases level <;> exact Nat.and_two_pow_sub_one_eq_mod _ _

/-- An entry that maps a page of its level. -/
theorem ptResolveEntry_leaf {level : PtLevel} {ppte word : Nat} (hword : s.mem ppte = word)
    (hpresent : Paging.present word = true) (hlevel : level ≠ .l4) (rights : Paging.Rights) :
    ptResolveEntry s va (level, ppte) = leafAnswer va (some
      ⟨Paging.frame word (Paging.pageBits level.below), Paging.pageBits level.below, rights⟩) := by
  have hpage : ptEntryPage word level = Paging.frame word (Paging.pageBits level.below) := by
    cases level with
    | l1 => exact frame_4k word
    | l2 => exact frame_2m word
    | l3 => exact frame_1g word
    | l4 => exact absurd rfl hlevel
  have hbits : Paging.pageBits level.below ≤ 52 := by
    cases level <;> decide
  have hframe := frame_lt word hbits
  have hoffset : va % 2 ^ Paging.pageBits level.below < 2 ^ Paging.pageBits level.below :=
    Nat.mod_lt _ (Nat.two_pow_pos _)
  unfold ptResolveEntry leafAnswer Paging.Leaf.address
  dsimp only
  rw [hword, flagIsSet_v, hpresent, if_pos rfl, hpage, getPageOffset_eq]
  split_ifs
  · rfl
  · apply u64_of_lt
    omega

/-- The slot of an address in a table is the same for the code and the processor. -/
theorem slot_eq (table va : Nat) (level : PtLevel) :
    table + 8 * ptLevelOffset va level = Paging.slot table va level.below := by
  rw [ptLevelOffset_eq, Paging.slot]
  cases level <;> rfl

/-- A level of the walk above level 1 follows the processor, if the walk from the next table on does
and no entry of level 4 says that it maps a page. -/
theorem walkLevel_follows {level : PtLevel} {n : Nat} {next : Nat → PtLevel × Nat}
    (hlevel : level.below = n + 1)
    (hps : level = .l4 → Paging.large (s.mem (Paging.slot table va level.below)) = false)
    (hnext : ∀ t, ptResolveEntry s va (next t) = leafAnswer va (Paging.walk s.mem va n t)) :
    ptResolveEntry s va (walkLevel s va .l1 level table next) =
      leafAnswer va (Paging.walk s.mem va (n + 1) table) := by
  have hne : level ≠ .l1 := by
    rintro rfl
    exact absurd hlevel (Nat.succ_ne_zero n).symm
  have hbne : (level != .l1) = true := by simpa using hne
  have hbeq : (PtLevel.l1 == level) = false := by simpa using hne.symm
  simp only [walkLevel, slot_eq, hbne, hbeq, Bool.true_and, Bool.or_false, flagIsSet_v, flagIsSet_ps]
  generalize hword : s.mem (Paging.slot table va level.below) = word at hps ⊢
  have hword' : s.mem (Paging.slot table va (n + 1)) = word := hlevel ▸ hword
  cases hpresent : Paging.present word with
  | false =>
      rw [Paging.walk_absent hword' hpresent, if_pos (by simp), ptResolveEntry, hword, flagIsSet_v, hpresent]
      rfl
  | true =>
      cases hlarge : Paging.large word with
      | true =>
          have h4 : level ≠ .l4 := by
            intro h4
            rw [hps h4] at hlarge
            exact absurd hlarge (by decide)
          rw [Paging.walk_large hword' hpresent hlarge, if_pos (by simp), ← hlevel]
          exact ptResolveEntry_leaf hword hpresent h4 _
      | false =>
          rw [Paging.walk_table hword' hpresent hlarge, if_neg (by simp), leafAnswer_map]
          exact (hnext _).trans (by rw [show PTE_FRAME = PTE_FRAME_4K from rfl, frame_4k])

/-- `pt_resolve` follows the walk of the processor. -/
theorem ptResolve_eq_walk (hps : ∀ i, flagIsSet (s.mem (pteSlot s.cr3 i)) PTE_PS = false) (va : Nat) :
    ptResolve s va = leafAnswer va (Paging.walk s.mem va 3 s.cr3) := by
  rw [ptResolve_eq_entry, ptWalk]
  apply walkLevel_follows rfl
  · intro _
    rw [← flagIsSet_ps, ← slot_eq]
    exact hps (ptIndex va .l4)
  intro t3
  apply walkLevel_follows rfl (fun h => absurd h (by decide))
  intro t2
  apply walkLevel_follows rfl (fun h => absurd h (by decide))
  intro t1
  -- level 1: the walk stops here in any case
  have hstop : ∀ r, walkLevel s va .l1 .l1 t1 r = (.l1, t1 + 8 * ptLevelOffset va .l1) := by
    intro r
    simp [walkLevel]
  rw [hstop, slot_eq, Paging.walk_zero]
  change ptResolveEntry s va (.l1, Paging.slot t1 va 0) = _
  cases hpresent : Paging.present (s.mem (Paging.slot t1 va 0)) with
  | false =>
      rw [ptResolveEntry, flagIsSet_v, hpresent]
      rfl
  | true => exact ptResolveEntry_leaf rfl hpresent (by decide) _

/-- **`pt_resolve` gives the translation of the canonical address with the same low 48 bits**, which for a
canonical address is the address itself: 0 exactly when that address has no translation or its page has
the frame 0, and its physical address otherwise. -/
theorem ptResolve_eq_translate (hps : ∀ i, flagIsSet (s.mem (pteSlot s.cr3 i)) PTE_PS = false) (p : Nat) :
    (Paging.Canonical p → Paging.signExtend p = p) ∧
    (ptResolve s p = 0 ↔ Paging.translate s.mem s.cr3 (Paging.signExtend p) = none ∨
      ∃ leaf, Paging.walk s.mem (Paging.signExtend p) 3 s.cr3 = some leaf ∧ leaf.frame = 0) ∧
    ∀ leaf, Paging.walk s.mem (Paging.signExtend p) 3 s.cr3 = some leaf → leaf.frame ≠ 0 →
      Paging.translate s.mem s.cr3 (Paging.signExtend p) = some (ptResolve s p) ∧
      ptResolve s p = leaf.frame + p % 2 ^ leaf.bits := by
  have hcanonical := Paging.signExtend_canonical p
  have hresolve := ptResolve_eq_walk hps p
  have hbits : ∀ leaf, Paging.walk s.mem p 3 s.cr3 = some leaf → leaf.bits ≤ 48 := by
    intro leaf hleaf
    have hle := Paging.walk_bits hleaf
    simp only [Paging.pageBits] at hle
    omega
  unfold Paging.translate
  rw [if_pos hcanonical, Paging.walk_signExtend]
  refine ⟨Paging.signExtend_of_canonical, ?_⟩
  cases hwalk : Paging.walk s.mem p 3 s.cr3 with
  | none =>
      rw [hwalk] at hresolve
      simpa [leafAnswer] using hresolve
  | some leaf =>
      rw [hwalk] at hresolve
      have haddress := Paging.Leaf.address_signExtend (hbits leaf hwalk) p
      by_cases hframe : leaf.frame = 0
      · have hzero : ptResolve s p = 0 := hresolve.trans (if_pos hframe)
        refine ⟨iff_of_true hzero (Or.inr ⟨leaf, rfl, hframe⟩), fun leaf' hleaf' hne => ?_⟩
        obtain rfl := Option.some.inj hleaf'
        exact absurd hframe hne
      · have hphysical : ptResolve s p = leaf.address p := hresolve.trans (if_neg hframe)
        refine ⟨iff_of_false ?_ ?_, fun leaf' hleaf' _ => ?_⟩
        · rw [hphysical, Paging.Leaf.address]
          omega
        · rintro (hnone | ⟨leaf', hleaf', hzero⟩)
          · exact absurd hnone (by simp)
          · obtain rfl := Option.some.inj hleaf'
            exact hframe hzero
        · obtain rfl := Option.some.inj hleaf'
          rw [hphysical, Option.map_some, haddress]
          exact ⟨rfl, rfl⟩

/-- Two pages, the second one with the frame 0. -/
def twoPages : PtState :=
  (ptMapPage (ptMapPage emptyTables 0x5000 0x40000000 PTE_W).2 0 0x40001000 PTE_W).2

theorem twoPages_ps : ∀ i, flagIsSet (twoPages.mem (pteSlot twoPages.cr3 i)) PTE_PS = false := by
  decide +kernel

/-- An address of the first page. -/
theorem ptResolve_eq_translate_page : ptResolve twoPages 0x40000007 = 0x5000 + 7 := by
  have hleaf : Paging.walk twoPages.mem (Paging.signExtend 0x40000007) 3 twoPages.cr3 =
      some ⟨0x5000, 12, ⟨true, false, false⟩⟩ := by decide +kernel
  exact ((ptResolve_eq_translate twoPages_ps 0x40000007).2.2 _ hleaf (by decide)).2

/-- Bit 48 of an address in the first page is set: the processor faults. The second page is present, with
the frame 0. -/
theorem ptResolve_ne_translate :
    (∀ i, flagIsSet (twoPages.mem (pteSlot twoPages.cr3 i)) PTE_PS = false) ∧
    (ptResolve twoPages (2 ^ 48 + 0x40000007) = 0x5007 ∧
      Paging.translate twoPages.mem twoPages.cr3 (2 ^ 48 + 0x40000007) = none) ∧
    ptResolve twoPages 0x40001007 = 0 ∧
      Paging.translate twoPages.mem twoPages.cr3 0x40001007 = some 7 := by
  exact ⟨twoPages_ps, by decide +kernel, by decide +kernel⟩

end Dangless
