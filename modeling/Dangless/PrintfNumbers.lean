import Dangless.PrintfNomallocSpec
import Mathlib.Data.Nat.Digits.Lemmas

/-! The numbers that `print_int` and `print_uint` write: the digits of the number and nothing else, since the loop
that looks for the end of the number and the loop that writes it backwards take the same number of turns. -/

namespace Dangless

open TextBuffer

variable {base n : Nat}

/-- The number that a text of digits reads as. -/
def readNumeral (base : Nat) (text : List UInt8) : Option Nat :=
  text.foldlM (fun n c => if DIGITS.idxOf c < base then some (n * base + DIGITS.idxOf c) else none) 0

/-- The digits of a number, without leading zeros, and a single `0` for 0. -/
structure IsNumeral (base n : Nat) (text : List UInt8) : Prop where
  digits : text = if n = 0 then ['0'.toUInt8] else (Nat.digits base n).reverse.map fun k => DIGITS.getD k 0
  lead : text.head? = some '0'.toUInt8 → n = 0
  read : readNumeral base text = some n

theorem numeral_eq_digits (hbase : 1 < base) (hhex : base ≤ 16) (hn : 0 < n) :
    numeral base n = (Nat.digits base n).reverse.map fun k => DIGITS.getD k 0 := by
  induction n using Nat.strong_induction_on with
  | _ n ih =>
      have hlast : (n % base).digitChar.toUpper.toUInt8 = DIGITS.getD (n % base) 0 :=
        (digits_getD (Nat.lt_of_lt_of_le (Nat.mod_lt n (by omega)) hhex)).symm
      rw [Nat.digits_def' hbase hn, List.reverse_cons, List.map_append]
      by_cases hle : base ≤ n
      · rw [numeral_of_le hbase hle, ih (n / base) (Nat.div_lt_self hn hbase) (Nat.div_pos hle (by omega)), hlast]
        rfl
      · have hlt : n < base := Nat.lt_of_not_le hle
        rw [numeral_of_lt hlt, Nat.div_eq_of_lt hlt, Nat.digits_zero]
        rw [Nat.mod_eq_of_lt hlt] at hlast
        rw [hlast, Nat.mod_eq_of_lt hlt]
        rfl

theorem readNumeral_snoc (text : List UInt8) {k : Nat} (hk : k < base) (hhex : base ≤ 16) :
    readNumeral base (text ++ [DIGITS.getD k 0]) = (readNumeral base text).map fun n => n * base + k := by
  have hindex : ∀ k < 16, DIGITS.idxOf (DIGITS.getD k 0) = k := by decide
  unfold readNumeral
  rw [List.foldlM_append]
  simp only [List.foldlM_cons, List.foldlM_nil, hindex k (Nat.lt_of_lt_of_le hk hhex), hk, if_true]
  cases List.foldlM (fun n c => if DIGITS.idxOf c < base then some (n * base + DIGITS.idxOf c) else none) 0 text <;>
    rfl

/-- Reading the digits back gives the number. -/
theorem readNumeral_numeral (hbase : 1 < base) (hhex : base ≤ 16) (n : Nat) :
    readNumeral base (numeral base n) = some n := by
  induction n using Nat.strong_induction_on with
  | _ n ih =>
      have hlast : (n % base).digitChar.toUpper.toUInt8 = DIGITS.getD (n % base) 0 :=
        (digits_getD (Nat.lt_of_lt_of_le (Nat.mod_lt n (by omega)) hhex)).symm
      by_cases hle : base ≤ n
      · rw [numeral_of_le hbase hle, hlast, readNumeral_snoc _ (Nat.mod_lt n (by omega)) hhex,
          ih (n / base) (Nat.div_lt_self (by omega) hbase), Option.map_some, Nat.mul_comm, Nat.div_add_mod]
      · have hlt : n < base := Nat.lt_of_not_le hle
        rw [Nat.mod_eq_of_lt hlt] at hlast
        rw [numeral_of_lt hlt, hlast]
        have hread := readNumeral_snoc [] hlt hhex
        rw [List.nil_append] at hread
        rw [hread, show readNumeral base [] = some 0 from rfl, Option.map_some, Nat.zero_mul, Nat.zero_add]

theorem numeral_lead (hbase : 1 < base) (hhex : base ≤ 16) (hlead : (numeral base n).head? = some '0'.toUInt8) :
    n = 0 := by
  induction n using Nat.strong_induction_on with
  | _ n ih =>
      by_cases hle : base ≤ n
      · -- the first digit is that of the quotient
        have hne : numeral base (n / base) ≠ [] := by
          rw [numeral]
          simp
        rw [numeral_of_le hbase hle, List.head?_append_of_ne_nil _ hne] at hlead
        have hquot : n / base = 0 := ih (n / base) (Nat.div_lt_self (by omega) hbase) hlead
        exact absurd (Nat.div_pos hle (by omega)) (by omega)
      · have hlt : n < base := Nat.lt_of_not_le hle
        have hzero : ∀ k < 16, k.digitChar.toUpper.toUInt8 = '0'.toUInt8 → k = 0 := by decide
        rw [numeral_of_lt hlt, List.head?_cons, Option.some.injEq] at hlead
        exact hzero n (Nat.lt_of_lt_of_le hlt hhex) hlead

theorem numeral_isNumeral (hbase : 1 < base) (hhex : base ≤ 16) (n : Nat) : IsNumeral base n (numeral base n) := by
  refine ⟨?_, numeral_lead hbase hhex, readNumeral_numeral hbase hhex n⟩
  split_ifs with hn
  · rw [hn, numeral_of_lt (by omega)]
    rfl
  · exact numeral_eq_digits hbase hhex (Nat.pos_of_ne_zero hn)

/-- A function that prints at `dest` returns the length of the text. It has then written the text from `dest` on and
nothing else, and it has stayed in a buffer that has room for exactly this text. -/
def Prints (print : Nat → Nat → PrintBuffer → Except PrintError (Nat × PrintBuffer)) (text : List UInt8) : Prop :=
  ∀ size dest b,
    (dest + text.length ≤ size → ∃ b', print size dest b = .ok (text.length, b') ∧
      (List.range text.length).map (fun i => b' (dest + i)) = text ∧
      ∀ i, i < dest ∨ dest + text.length ≤ i → b' i = b i) ∧
    (size < dest + text.length → ∀ r, print size dest b ≠ .ok r)

theorem Prints.of_emits {print : Nat → Nat → PrintBuffer → Except PrintError (Nat × PrintBuffer)}
    {text : List UInt8} (h : ∀ size dest b, Emits size PrintError.Stray b dest text (fun b => (text.length, b))
      (print size dest b)) : Prints print text := by
  intro size dest b
  constructor
  · intro hfits
    refine ⟨_, (h size dest b).ok hfits, read_overlay b dest text, fun i hi => ?_⟩
    unfold overlay
    split_ifs with hle
    · exact List.getD_eq_default _ _ (by omega)
    · rfl
  · intro hlt r hr
    obtain ⟨e, -, he⟩ := (h size dest b).error hlt
    rw [hr] at he
    cases he

/-- **`print_uint` and `print_int` print the digits of the number**, the latter behind a single `-` for a negative
number; the pointer is moved exactly as far as the digits then reach back. -/
theorem printNumbers_exact :
    (∀ (base : Nat) (n : BitVec 64), base = 10 ∨ base = 16 → ∃ digits, IsNumeral base n.toNat digits ∧
      (∀ dest, seekEnd base WORD_BITS n.toNat dest = dest + digits.length) ∧
      Prints (fun size dest => printUint size dest n.toNat base) digits) ∧
    ∀ num : BitVec 64, num.toInt ≠ LLONG_MIN → ∃ digits, IsNumeral 10 num.toInt.natAbs digits ∧
      (∀ dest, seekEnd 10 WORD_BITS num.toInt.natAbs dest = dest + digits.length) ∧
      Prints (fun size dest => printInt size dest num.toInt 10) (signText num.toInt ++ digits) := by
  have hpow : ∀ {base n : Nat}, 1 < base → n < 2 ^ 64 → n < base ^ WORD_BITS := fun hbase hn =>
    Nat.lt_of_lt_of_le hn (Nat.pow_le_pow_left hbase 64)
  constructor
  · intro base n hbase
    have hlow : 1 < base := by omega
    have hhigh : base ≤ 16 := by omega
    refine ⟨numeral base n.toNat, numeral_isNumeral hlow hhigh _, ?_, ?_⟩
    · exact seekEnd_eq hlow (by decide) (hpow hlow n.isLt)
    · exact Prints.of_emits fun size dest b => printUint_emits hlow hhigh n.isLt b
  · intro num hmin
    have hlt : num.toInt.natAbs < 2 ^ 64 := (IntArg.long .l num).natAbs_lt
    refine ⟨numeral 10 num.toInt.natAbs, numeral_isNumeral (by decide) (by decide) _, ?_, ?_⟩
    · exact seekEnd_eq (by decide) (by decide) (hpow (by decide) hlt)
    · exact Prints.of_emits fun size dest b => printInt_emits hmin hlt b

/-- -255, and 255 in hexadecimal digits. -/
theorem printNumbers_exact_255 :
    (∃ digits, IsNumeral 16 255 digits ∧ Prints (fun size dest => printUint size dest 255 16) digits) ∧
    ∃ digits, IsNumeral 10 255 digits ∧
      Prints (fun size dest => printInt size dest (-255) 10) ('-'.toUInt8 :: digits) := by
  obtain ⟨hex, hnumeral, -, hprints⟩ := printNumbers_exact.1 16 255#64 (Or.inr rfl)
  obtain ⟨decimal, hnumeral', -, hprints'⟩ := printNumbers_exact.2 (BitVec.ofInt 64 (-255)) (by decide)
  exact ⟨⟨hex, hnumeral, hprints⟩, decimal, hnumeral', hprints'⟩

end Dangless
