import Dangless.LibTextBuffer
import Dangless.PrintfLanguage
import Mathlib.Algebra.Ring.Nat
import Mathlib.Order.MinMax
import Mathlib.Data.Int.Order.Basic
import Mathlib.Tactic.SplitIfs

/-! What `printf_nomalloc` writes for each directive: where it fits, the text of the argument with the padding in
front of all of it or behind it; where it does not, a store past the end of the buffer. -/

namespace Dangless

open TextBuffer

/-- A run that C leaves undefined; the assertions end the others. -/
def PrintError.Stray : PrintError → Prop
  | .assertion _ => False
  | .unreachable _ => False
  | .outOfBounds _ => True
  | .overflow => True
  | .badArgument => True

variable {size dest base : Nat} {b : PrintBuffer} {args : List VaArg} {mod : FormatModifiers}

theorem store_emits (c : UInt8) (b : PrintBuffer) :
    Emits size PrintError.Stray b dest [c] id (store size dest c b) := by
  unfold store
  split_ifs with hlt
  · rw [← overlay_singleton]
    exact .fits hlt
  · exact .overflows (Nat.lt_succ_of_le (Nat.le_of_not_lt hlt)) trivial

theorem storeAll_emits (text : List UInt8) (b : PrintBuffer) (hdest : dest ≤ size) :
    Emits size PrintError.Stray b dest text (fun b => (dest + text.length, b)) (storeAll size dest text b) := by
  induction text generalizing dest b with
  | nil =>
      have hfits : Emits size PrintError.Stray b dest [] (fun b => (dest, b)) (.ok (dest, overlay b dest [])) :=
        .fits hdest
      rwa [overlay_nil] at hfits
  | cons c text ih =>
      have hlength : dest + (c :: text).length = dest + 1 + text.length := by
        rw [List.length_cons, Nat.add_right_comm, Nat.add_assoc]
      rw [hlength]
      exact (store_emits c b).append fun hfits => ih _ hfits

theorem printStr_emits (text : List UInt8) (b : PrintBuffer) (hdest : dest ≤ size) :
    Emits size PrintError.Stray b dest text (fun b => (text.length, b)) (printStr size dest text b) := by
  apply (storeAll_emits text b hdest).andThen
  intro b
  rw [Nat.add_sub_cancel_left]

theorem numeral_of_lt {n : Nat} (h : n < base) : numeral base n = [n.digitChar.toUpper.toUInt8] := by
  rw [numeral, Nat.toDigits_of_lt_base h]
  rfl

theorem numeral_of_le {n : Nat} (hbase : 1 < base) (h : base ≤ n) :
    numeral base n = numeral base (n / base) ++ [(n % base).digitChar.toUpper.toUInt8] := by
  rw [numeral, Nat.toDigits_of_base_le hbase h, List.map_append]
  rfl

theorem digits_getD {k : Nat} (h : k < 16) : DIGITS.getD k 0 = k.digitChar.toUpper.toUInt8 := by
  revert k
  decide

/-- A number that has more than one digit. -/
theorem quotient_bounds (hbase : 1 < base) {left n : Nat} (hn : n < base ^ (left + 1)) (hle : base ≤ n) :
    0 < n / base ∧ n / base < base ^ left ∧ 0 < left := by
  have hquot : 0 < n / base := Nat.div_pos hle (by omega)
  have hless : n / base < base ^ left := by
    rw [Nat.pow_succ'] at hn
    exact Nat.div_lt_of_lt_mul hn
  refine ⟨hquot, hless, ?_⟩
  rcases Nat.eq_zero_or_pos left with rfl | hpos
  · rw [Nat.pow_zero] at hless
    omega
  · exact hpos

theorem seekEnd_eq (hbase : 1 < base) {left n : Nat} (hleft : 0 < left) (hn : n < base ^ left) (dest : Nat) :
    seekEnd base left n dest = dest + (numeral base n).length := by
  induction left generalizing n dest with
  | zero => exact absurd hleft (Nat.lt_irrefl 0)
  | succ left ih =>
      unfold seekEnd
      by_cases hle : base ≤ n
      · obtain ⟨hquot, hless, hmore⟩ := quotient_bounds hbase hn hle
        rw [if_pos hquot, ih hmore hless, numeral_of_le hbase hle, List.length_append, List.length_singleton]
        omega
      · have hlt : n < base := Nat.lt_of_not_le hle
        rw [Nat.div_eq_of_lt hlt, if_neg (Nat.lt_irrefl 0), numeral_of_lt hlt]
        rfl

theorem writeDigits_emits (hbase : 1 < base) (hhex : base ≤ 16) {left n : Nat} (hleft : 0 < left)
    (hn : n < base ^ left) (nchars : Nat) (b : PrintBuffer) :
    Emits size PrintError.Stray b dest (numeral base n) (fun b => (nchars + (numeral base n).length, b))
      (writeDigits size base left n (dest + (numeral base n).length) nchars b) := by
  induction left generalizing n nchars b with
  | zero => exact absurd hleft (Nat.lt_irrefl 0)
  | succ left ih =>
      have hdigit : DIGITS.getD (n % base) 0 = (n % base).digitChar.toUpper.toUInt8 :=
        digits_getD (Nat.lt_of_lt_of_le (Nat.mod_lt n (by omega)) hhex)
      unfold writeDigits
      rw [hdigit]
      by_cases hle : base ≤ n
      · obtain ⟨hquot, hless, hmore⟩ := quotient_bounds hbase hn hle
        have hlength : (numeral base n).length = (numeral base (n / base)).length + 1 := by
          rw [numeral_of_le hbase hle, List.length_append, List.length_singleton]
        simp only [gt_iff_lt, hquot, if_true]
        have hend : dest + ((numeral base (n / base)).length + 1) - 1 = dest + (numeral base (n / base)).length := by
          omega
        rw [hlength, numeral_of_le hbase hle, hend]
        unfold store
        by_cases hlast : dest + (numeral base (n / base)).length < size
        · -- the last digit is there, and the others come before it
          rw [if_pos hlast]
          have hrest := ih hmore hless (nchars + 1)
            (Function.update b (dest + (numeral base (n / base)).length) (n % base).digitChar.toUpper.toUInt8)
          rw [Nat.add_right_comm nchars 1, Nat.add_assoc nchars] at hrest
          exact hrest.snoc hlast
        · rw [if_neg hlast]
          refine .overflows ?_ trivial
          rw [List.length_append, List.length_singleton]
          omega
      · have hlt : n < base := Nat.lt_of_not_le hle
        simp only [gt_iff_lt, Nat.div_eq_of_lt hlt, Nat.lt_irrefl, if_false]
        rw [numeral_of_lt hlt, Nat.mod_eq_of_lt hlt]
        apply (store_emits _ b).andThen
        intro b
        rfl

/-- A number of 64 bits. -/
theorem printDigits_emits (hbase : 1 < base) (hhex : base ≤ 16) {n : Nat} (hn : n < 2 ^ 64) (nchars : Nat)
    (b : PrintBuffer) :
    Emits size PrintError.Stray b dest (numeral base n) (fun b => (nchars + (numeral base n).length, b))
      (printDigits size dest n base nchars b) := by
  have hpow : n < base ^ WORD_BITS := Nat.lt_of_lt_of_le hn (Nat.pow_le_pow_left hbase 64)
  unfold printDigits
  rw [seekEnd_eq hbase (by decide) hpow]
  exact writeDigits_emits hbase hhex (by decide) hpow nchars b

theorem printUint_emits (hbase : 1 < base) (hhex : base ≤ 16) {n : Nat} (hn : n < 2 ^ 64) (b : PrintBuffer) :
    Emits size PrintError.Stray b dest (numeral base n) (fun b => ((numeral base n).length, b))
      (printUint size dest n base b) := by
  have hdigits : Emits size PrintError.Stray b dest (numeral base n)
      (fun b => (0 + (numeral base n).length, b)) (printDigits size dest n base 0 b) :=
    printDigits_emits hbase hhex hn 0 b
  rwa [Nat.zero_add] at hdigits

theorem printInt_emits {num : Int} (hmin : num ≠ LLONG_MIN) (hnum : num.natAbs < 2 ^ 64) (b : PrintBuffer) :
    Emits size PrintError.Stray b dest (signText num ++ numeral 10 num.natAbs)
      (fun b => ((signText num ++ numeral 10 num.natAbs).length, b)) (printInt size dest num 10 b) := by
  unfold printInt signText
  rw [if_neg hmin]
  by_cases hneg : num < 0
  · rw [if_pos hneg, if_pos rfl, if_pos hneg, List.length_append]
    exact (store_emits _ b).append fun _ => printDigits_emits (by decide) (by decide) hnum 1 _
  · rw [if_neg hneg, if_neg hneg, List.nil_append]
    exact printUint_emits (by decide) (by decide) hnum b

def LengthModifier.longness : LengthModifier → Nat
  | .l => 1
  | .ll => 2
  | .z => 2

def IntArg.longness : IntArg → Nat
  | .int _ => 0
  | .long length _ => length.longness

/-- The `longness` that the length modifier of a conversion is parsed to. -/
def Conversion.longness : Conversion → Nat
  | .d v => v.longness
  | .i v => v.longness
  | .u v => v.longness
  | .x v => v.longness
  | .X v => v.longness
  | .p _ => 0
  | .c _ => 0
  | .s _ => 0

/-- `print_int` does not print the least number of 64 bits. -/
def Conversion.Rejected : Conversion → Prop
  | .d v => v.toInt = LLONG_MIN
  | .i v => v.toInt = LLONG_MIN
  | _ => False

theorem LengthModifier.longness_eq (length : LengthModifier) : length.longness = 2 ∨ length.longness = 1 := by
  cases length with
  | l => exact Or.inr rfl
  | ll => exact Or.inl rfl
  | z => exact Or.inl rfl

theorem fetchIntArg_arg {v : IntArg} (hlong : mod.longness = v.longness) :
    fetchIntArg mod (v.arg :: args) = .ok (v.toInt, args) := by
  unfold fetchIntArg
  rw [hlong]
  cases v with
  | int v => rfl
  | long length v => exact if_pos length.longness_eq

theorem fetchUintArg_arg {v : IntArg} (hlong : mod.longness = v.longness) :
    fetchUintArg mod (v.arg :: args) = .ok (v.toNat, args) := by
  unfold fetchUintArg
  rw [hlong]
  cases v with
  | int v => rfl
  | long length v => exact if_pos length.longness_eq

theorem IntArg.toNat_lt (v : IntArg) : v.toNat < 2 ^ 64 := by
  cases v with
  | int v => exact Nat.lt_trans v.isLt (by decide)
  | long length v => exact v.isLt

theorem IntArg.natAbs_lt (v : IntArg) : v.toInt.natAbs < 2 ^ 64 := by
  cases v with
  | int v =>
      have hlo := BitVec.le_toInt v
      have hhi := BitVec.toInt_lt (x := v)
      simp only [toInt]
      omega
  | long length v =>
      have hlo := BitVec.le_toInt v
      have hhi := BitVec.toInt_lt (x := v)
      simp only [toInt]
      omega

/-- What a conversion writes before it is padded. -/
def Conversion.unpadded (conv : Conversion) : List UInt8 := conv.sign ++ conv.body

theorem printSigned_emits {v : IntArg} (hlong : mod.longness = v.longness) (hmin : v.toInt ≠ LLONG_MIN)
    (b : PrintBuffer) :
    Emits size PrintError.Stray b dest (signText v.toInt ++ numeral 10 v.toInt.natAbs)
      (fun b => (((signText v.toInt ++ numeral 10 v.toInt.natAbs).length, b), args)) (do
        let arg ← fetchIntArg mod (v.arg :: args)
        let r ← printInt size dest arg.1 10 b
        .ok (r, arg.2)) := by
  rw [fetchIntArg_arg hlong]
  apply (printInt_emits hmin v.natAbs_lt b).andThen
  intro b
  rfl

theorem printUnsigned_emits {v : IntArg} (hlong : mod.longness = v.longness) (hbase : 1 < base) (hhex : base ≤ 16)
    (b : PrintBuffer) :
    Emits size PrintError.Stray b dest (numeral base v.toNat)
      (fun b => (((numeral base v.toNat).length, b), args)) (do
        let arg ← fetchUintArg mod (v.arg :: args)
        let r ← printUint size dest arg.1 base b
        .ok (r, arg.2)) := by
  rw [fetchUintArg_arg hlong]
  apply (printUint_emits hbase hhex v.toNat_lt b).andThen
  intro b
  rfl

theorem printPointer_emits (v : BitVec 64) (hdest : dest ≤ size) (b : PrintBuffer) :
    Emits size PrintError.Stray b dest (Conversion.p v).body
      (fun b => (((Conversion.p v).body.length, b), args)) (do
        let arg ← vaPointer (.pointer v :: args)
        if arg.1 ≠ 0 then do
          let zero ← printStr size dest (['0', 'x'].map Char.toUInt8) b
          let r ← printUint size (dest + zero.1) arg.1.toNat 16 zero.2
          .ok ((zero.1 + r.1, r.2), arg.2)
        else do
          let r ← printStr size dest (['(', 'n', 'u', 'l', 'l', ' ', 'p', 't', 'r', ')'].map Char.toUInt8) b
          .ok (r, arg.2)) := by
  unfold Conversion.body
  simp only [vaPointer, bind, Except.bind]
  by_cases hv : v ≠ 0
  · rw [if_pos hv, if_pos hv]
    apply (printStr_emits _ b hdest).append
    intro _
    apply (printUint_emits (by decide) (by decide) v.isLt _).andThen
    intro b
    rw [List.length_append]
  · rw [if_neg hv, if_neg hv]
    apply (printStr_emits _ b hdest).andThen
    intro b
    rfl

/-- The `switch` of `handle_format` writes the text of the argument. -/
theorem printArg_emits {conv : Conversion} (hlong : mod.longness = conv.longness) (hok : ¬ conv.Rejected)
    (hdest : dest ≤ size) (b : PrintBuffer) :
    Emits size PrintError.Stray b dest conv.unpadded (fun b => ((conv.unpadded.length, b), args))
      (printArg size dest conv.specifier.toUInt8 mod (conv.arg :: args) b) := by
  unfold printArg
  cases conv with
  | d v =>
      rw [Conversion.specifier, if_pos (by decide)]
      exact printSigned_emits hlong hok b
  | i v =>
      rw [Conversion.specifier, if_pos (by decide)]
      exact printSigned_emits hlong hok b
  | u v =>
      rw [Conversion.specifier, if_neg (by decide), if_pos (by decide)]
      exact printUnsigned_emits hlong (by decide) (by decide) b
  | x v =>
      rw [Conversion.specifier, if_neg (by decide), if_neg (by decide), if_pos (by decide)]
      exact printUnsigned_emits hlong (by decide) (by decide) b
  | X v =>
      rw [Conversion.specifier, if_neg (by decide), if_neg (by decide), if_pos (by decide)]
      exact printUnsigned_emits hlong (by decide) (by decide) b
  | p v =>
      rw [Conversion.specifier, if_neg (by decide), if_neg (by decide), if_neg (by decide), if_pos (by decide)]
      exact printPointer_emits v hdest b
  | c v =>
      rw [Conversion.specifier, if_neg (by decide), if_neg (by decide), if_neg (by decide), if_neg (by decide),
        if_pos (by decide)]
      apply (store_emits _ b).andThen
      intro b
      rfl
  | s v =>
      rw [Conversion.specifier, if_neg (by decide), if_neg (by decide), if_neg (by decide), if_neg (by decide),
        if_neg (by decide), if_pos (by decide)]
      cases v with
      | none =>
          apply (printStr_emits _ b hdest).andThen
          intro b
          rfl
      | some src =>
          apply (printStr_emits _ b hdest).andThen
          intro b
          rfl

theorem printSigned_rejected {v : IntArg} (hlong : mod.longness = v.longness) (hmin : v.toInt = LLONG_MIN)
    (b : PrintBuffer) : (do
      let arg ← fetchIntArg mod (v.arg :: args)
      let r ← printInt size dest arg.1 10 b
      .ok (r, arg.2)) =
        Except.error (PrintError.assertion "Implementation limitation, cannot print LLONG_MIN") := by
  rw [fetchIntArg_arg hlong]
  unfold printInt
  simp only [bind, Except.bind]
  rw [if_pos hmin]

theorem printArg_rejected {conv : Conversion} (hlong : mod.longness = conv.longness) (hrejected : conv.Rejected)
    (b : PrintBuffer) :
    ∃ e, ¬ e.Stray ∧ printArg size dest conv.specifier.toUInt8 mod (conv.arg :: args) b = .error e := by
  unfold printArg
  cases conv with
  | d v =>
      rw [Conversion.specifier, if_pos (by decide)]
      exact ⟨_, id, printSigned_rejected hlong hrejected b⟩
  | i v =>
      rw [Conversion.specifier, if_pos (by decide)]
      exact ⟨_, id, printSigned_rejected hlong hrejected b⟩
  | u _ => exact hrejected.elim
  | x _ => exact hrejected.elim
  | X _ => exact hrejected.elim
  | p _ => exact hrejected.elim
  | c _ => exact hrejected.elim
  | s _ => exact hrejected.elim

/-- A text in a field: the padding is in front of the sign. -/
def padText (mod : FormatModifiers) (text : List UInt8) : List UInt8 :=
  let fill := mod.minFieldWidth.toNat - text.length
  match mod.justify with
  | .left => text ++ List.replicate fill ' '.toUInt8
  | .right => List.replicate fill mod.paddingChar ++ text

theorem padText_length (mod : FormatModifiers) (text : List UInt8) :
    (padText mod text).length = max mod.minFieldWidth.toNat text.length := by
  unfold padText
  cases mod.justify with
  | left =>
      rw [List.length_append, List.length_replicate]
      omega
  | right =>
      rw [List.length_append, List.length_replicate]
      omega

theorem padField_emits {text : List UInt8} (hfits : dest + text.length ≤ size) (b : PrintBuffer) :
    Emits size PrintError.Stray (overlay b dest text) dest (padText mod text)
      (fun b => ((padText mod text).length, b)) (padField size dest text.length mod (overlay b dest text)) := by
  unfold padField
  split_ifs with hless
  · unfold padText
    cases mod.justify with
    | left =>
        apply Emits.extend
        apply (storeAll_emits _ _ hfits).andThen
        intro b
        rw [List.length_append, Nat.add_assoc, Nat.add_sub_cancel_left]
    | right =>
        -- the text is read back before the padding takes its place
        simp only [read_overlay, bind, Except.bind]
        apply (storeAll_emits _ _ (Nat.le_of_add_right_le hfits)).append
        intro hpadded
        apply (storeAll_emits _ _ hpadded).andThen
        intro b
        rw [List.length_append, Nat.add_assoc, Nat.add_sub_cancel_left]
  · have hfill : mod.minFieldWidth.toNat - text.length = 0 := by omega
    have hsame : padText mod text = text := by
      unfold padText
      rw [hfill]
      cases mod.justify with
      | left => exact List.append_nil text
      | right => rfl
    have hagain : Emits size PrintError.Stray (overlay b dest text) dest text (fun b => (text.length, b))
        (.ok (text.length, overlay (overlay b dest text) dest text)) := .fits hfits
    rw [overlay_overlay b dest le_rfl] at hagain
    rwa [hsame]

/-- The modifiers that the format of a directive is parsed to. -/
def Directive.modifiers (d : Directive) (minFieldWidth : Int) : FormatModifiers where
  longness := d.conversion.longness
  minFieldWidth := minFieldWidth
  justify := if .minus ∈ d.flags then .left else .right
  paddingChar := if .zero ∈ d.flags then '0'.toUInt8 else ' '.toUInt8

/-- The width as the format has it. -/
def FieldWidth.parsed : FieldWidth → Int
  | .none => 0
  | .digits n _ => n
  | .star _ => MIN_FIELD_WIDTH_CUSTOM

/-- An assertion ends the run. -/
def Directive.Rejected (d : Directive) : Prop := d.width.value < 0 ∨ d.conversion.Rejected

/-- The width in the format is no `int`. -/
def Directive.Wide (d : Directive) : Prop := INT_MAX < d.width.value

/-- What is printed for a directive. -/
def Directive.printed (d : Directive) : List UInt8 := padText (d.modifiers d.width.value) d.conversion.unpadded

theorem fetchWidth_directive {d : Directive} (hwidth : 0 ≤ d.width.value) (args : List VaArg) :
    fetchWidth (d.modifiers d.width.parsed) (d.width.args ++ args) = .ok (d.modifiers d.width.value, args) := by
  unfold fetchWidth
  cases hw : d.width with
  | none => rfl
  | digits n hpos =>
      refine if_neg ?_
      change (n : Int) ≠ -1
      omega
  | star v =>
      rw [hw] at hwidth
      refine (if_pos rfl).trans ?_
      exact if_neg (not_lt.mpr hwidth)

theorem fetchWidth_negative {d : Directive} (hwidth : d.width.value < 0) (args : List VaArg) :
    fetchWidth (d.modifiers d.width.parsed) (d.width.args ++ args) =
      .error (.assertion "Invalid custom minimum field width passed as argument!") := by
  unfold fetchWidth
  cases hw : d.width with
  | none =>
      rw [hw] at hwidth
      exact absurd hwidth (Int.lt_irrefl 0)
  | digits n hpos =>
      rw [hw] at hwidth
      exact absurd hwidth (by simp [FieldWidth.value])
  | star v =>
      rw [hw] at hwidth
      refine (if_pos rfl).trans ?_
      exact if_pos hwidth

theorem handleFormat_emits {d : Directive} (hok : ¬ d.Rejected) (hdest : dest ≤ size) (b : PrintBuffer) :
    Emits size PrintError.Stray b dest d.printed (fun b => ((d.printed.length, b), args))
      (handleFormat size dest d.conversion.specifier.toUInt8 (d.modifiers d.width.parsed)
        (d.width.args ++ d.conversion.arg :: args) b) := by
  unfold handleFormat
  rw [fetchWidth_directive (not_lt.mp fun hneg => hok (Or.inl hneg))]
  apply (printArg_emits rfl (fun hrejected => hok (Or.inr hrejected)) hdest b).replaced
  · unfold Directive.printed
    rw [padText_length]
    exact le_max_right _ _
  · intro hfits
    apply (padField_emits hfits b).andThen
    intro b
    rfl

theorem handleFormat_rejected {d : Directive} (hrejected : d.Rejected) (b : PrintBuffer) :
    ∃ e, ¬ e.Stray ∧ handleFormat size dest d.conversion.specifier.toUInt8 (d.modifiers d.width.parsed)
      (d.width.args ++ d.conversion.arg :: args) b = .error e := by
  unfold handleFormat
  by_cases hwidth : d.width.value < 0
  · rw [fetchWidth_negative hwidth]
    exact ⟨_, id, rfl⟩
  · rw [fetchWidth_directive (not_lt.mp hwidth)]
    have hconversion : ∃ e, ¬ e.Stray ∧ printArg size dest d.conversion.specifier.toUInt8
        (d.modifiers d.width.value) (d.conversion.arg :: args) b = .error e :=
      printArg_rejected rfl (hrejected.resolve_left hwidth) b
    obtain ⟨e, he, hprint⟩ := hconversion
    refine ⟨e, he, ?_⟩
    simp only [bind, Except.bind, hprint]

/-! ### Formats -/

theorem formatLoop_modifier {c : UInt8} {mod' : FormatModifiers} (hparse : parseModifier c mod = .ok (some mod'))
    (format : List UInt8) (dest : Nat) (args : List VaArg) (b : PrintBuffer) :
    formatLoop size (c :: format) (some mod) dest args b = formatLoop size format (some mod') dest args b := by
  rw [formatLoop, hparse]
  rfl

theorem formatLoop_overflow {c : UInt8} (hparse : parseModifier c mod = .error .overflow) (format : List UInt8)
    (dest : Nat) (args : List VaArg) (b : PrintBuffer) :
    formatLoop size (c :: format) (some mod) dest args b = .error .overflow := by
  rw [formatLoop, hparse]
  rfl

theorem formatLoop_flags (flags : List Flag) (hwidth : mod.minFieldWidth = 0) (format : List UInt8) (dest : Nat)
    (args : List VaArg) (b : PrintBuffer) :
    formatLoop size ((flags.map Flag.char).map Char.toUInt8 ++ format) (some mod) dest args b =
      formatLoop size format (some { mod with
        justify := if .minus ∈ flags then .left else mod.justify
        paddingChar := if .zero ∈ flags then '0'.toUInt8 else mod.paddingChar }) dest args b := by
  induction flags generalizing mod with
  | nil => rfl
  | cons flag flags ih =>
      rw [List.map_cons, List.map_cons, List.cons_append]
      cases flag with
      | minus =>
          have hparse : parseModifier '-'.toUInt8 mod = .ok (some { mod with justify := .left }) := by
            unfold parseModifier
            rw [if_neg (by decide), if_neg (by decide), if_pos rfl]
          rw [Flag.char, formatLoop_modifier hparse, @ih { mod with justify := .left } hwidth]
          simp
      | zero =>
          have hparse : parseModifier '0'.toUInt8 mod = .ok (some { mod with paddingChar := '0'.toUInt8 }) := by
            unfold parseModifier
            rw [if_neg (by decide), if_neg (by decide), if_neg (by decide), if_pos ⟨rfl, hwidth⟩]
          rw [Flag.char, formatLoop_modifier hparse, @ih { mod with paddingChar := '0'.toUInt8 } hwidth]
          simp

theorem digitChar_toUInt8 {k : Nat} (h : k < 10) : k.digitChar.toUInt8 ≠ 'l'.toUInt8 ∧
    k.digitChar.toUInt8 ≠ 'z'.toUInt8 ∧ k.digitChar.toUInt8 ≠ '-'.toUInt8 ∧
    (k.digitChar.toUInt8 = '0'.toUInt8 → k = 0) ∧
    ('0'.toUInt8 ≤ k.digitChar.toUInt8 ∧ k.digitChar.toUInt8 ≤ '9'.toUInt8) ∧
    k.digitChar.toUInt8.toNat = k + '0'.toUInt8.toNat := by
  revert k
  decide

/-- A digit of the width, which is not a flag. -/
theorem parseModifier_digit (mod : FormatModifiers) {k : Nat} (hk : k < 10)
    (hwidth : mod.minFieldWidth ≠ MIN_FIELD_WIDTH_CUSTOM) (hflag : ¬ (k = 0 ∧ mod.minFieldWidth = 0)) :
    parseModifier k.digitChar.toUInt8 mod = if INT_MAX < mod.minFieldWidth * 10 + k then .error .overflow
      else .ok (some { mod with minFieldWidth := mod.minFieldWidth * 10 + k }) := by
  obtain ⟨hl, hz, hminus, hzero, hrange, hvalue⟩ := digitChar_toUInt8 hk
  have hnumber : ((k.digitChar.toUInt8.toNat : Int) - ('0'.toUInt8.toNat : Int)) = k := by
    rw [hvalue]
    omega
  unfold parseModifier
  rw [if_neg hl, if_neg hz, if_neg hminus, if_neg fun hboth => hflag ⟨hzero hboth.1, hboth.2⟩, if_pos hrange,
    if_neg hwidth]
  simp only [hnumber]

/-- The digits of the width. -/
theorem formatLoop_digits {n : Nat} (hpos : 0 < n) (hwidth : mod.minFieldWidth = 0) (format : List UInt8)
    (dest : Nat) (args : List VaArg) (b : PrintBuffer) :
    formatLoop size ((Nat.toDigits 10 n).map Char.toUInt8 ++ format) (some mod) dest args b =
      if INT_MAX < n then .error .overflow
      else formatLoop size format (some { mod with minFieldWidth := n }) dest args b := by
  induction n using Nat.strong_induction_on generalizing format with
  | _ n ih =>
      by_cases hten : 10 ≤ n
      · rw [Nat.toDigits_of_base_le (by decide) hten, List.map_append, List.append_assoc,
          ih (n / 10) (by omega) (by omega)]
        rw [List.map_cons, List.map_nil, List.cons_append, List.nil_append]
        have hmod : n % 10 < 10 := Nat.mod_lt n (by decide)
        have hparse := parseModifier_digit { mod with minFieldWidth := (n / 10 : Nat) } hmod
          (by simp only [MIN_FIELD_WIDTH_CUSTOM]; omega) (by simp only; omega)
        have hvalue : ((n / 10 : Nat) : Int) * 10 + (n % 10 : Nat) = n := by omega
        rw [hvalue] at hparse
        by_cases hprefix : INT_MAX < (n / 10 : Nat)
        · rw [if_pos hprefix, if_pos (by omega)]
        · rw [if_neg hprefix]
          by_cases hlast : INT_MAX < (n : Int)
          · rw [if_pos hlast] at hparse
            rw [if_pos hlast, formatLoop_overflow hparse]
          · rw [if_neg hlast] at hparse
            rw [if_neg hlast, formatLoop_modifier hparse]
      · have hlt : n < 10 := Nat.lt_of_not_le hten
        have hparse := parseModifier_digit mod hlt (by rw [hwidth]; decide) (by omega)
        have hsmall : ¬ INT_MAX < (n : Int) := by
          unfold INT_MAX
          omega
        rw [hwidth, Int.zero_mul, Int.zero_add, if_neg hsmall] at hparse
        rw [Nat.toDigits_of_lt_base hlt, if_neg hsmall]
        exact formatLoop_modifier hparse format dest args b

theorem formatLoop_length {v : IntArg} (hlong : mod.longness = 0) (format : List UInt8) (dest : Nat)
    (args : List VaArg) (b : PrintBuffer) :
    formatLoop size (v.lengthChars.map Char.toUInt8 ++ format) (some mod) dest args b =
      formatLoop size format (some { mod with longness := v.longness }) dest args b := by
  have hl : ∀ mod, parseModifier 'l'.toUInt8 mod = .ok (some { mod with longness := mod.longness + 1 }) := fun mod =>
    if_pos rfl
  have hz : ∀ mod, parseModifier 'z'.toUInt8 mod = .ok (some { mod with longness := 2 }) := fun mod => by
    unfold parseModifier
    rw [if_neg (by decide), if_pos rfl]
  cases v with
  | int v =>
      rw [IntArg.longness, ← hlong]
      rfl
  | long length v =>
      cases length with
      | l =>
          refine (formatLoop_modifier (hl _) _ _ _ _).trans ?_
          rw [hlong]
          rfl
      | ll =>
          refine (formatLoop_modifier (hl _) _ _ _ _).trans ?_
          refine (formatLoop_modifier (hl _) _ _ _ _).trans ?_
          rw [hlong]
          rfl
      | z => exact formatLoop_modifier (hz _) _ _ _ _

theorem formatLoop_conversionLength (conv : Conversion) (hlong : mod.longness = 0) (format : List UInt8) (dest : Nat)
    (args : List VaArg) (b : PrintBuffer) :
    formatLoop size (conv.lengthChars.map Char.toUInt8 ++ format) (some mod) dest args b =
      formatLoop size format (some { mod with longness := conv.longness }) dest args b := by
  have hnone : formatLoop size format (some mod) dest args b =
      formatLoop size format (some { mod with longness := 0 }) dest args b := by
    rw [← hlong]
  cases conv with
  | d v => exact formatLoop_length hlong format dest args b
  | i v => exact formatLoop_length hlong format dest args b
  | u v => exact formatLoop_length hlong format dest args b
  | x v => exact formatLoop_length hlong format dest args b
  | X v => exact formatLoop_length hlong format dest args b
  | p _ => exact hnone
  | c _ => exact hnone
  | s _ => exact hnone

theorem parseModifier_specifier (conv : Conversion) (mod : FormatModifiers) :
    parseModifier conv.specifier.toUInt8 mod = .ok none := by
  have hspecifier : conv.specifier ∈ ['d', 'i', 'u', 'x', 'X', 'p', 'c', 's'] := by
    cases conv <;> simp [Conversion.specifier]
  have hends : ∀ c ∈ ['d', 'i', 'u', 'x', 'X', 'p', 'c', 's'], c.toUInt8 ≠ 'l'.toUInt8 ∧ c.toUInt8 ≠ 'z'.toUInt8 ∧
      c.toUInt8 ≠ '-'.toUInt8 ∧ c.toUInt8 ≠ '0'.toUInt8 ∧
      ¬ ('0'.toUInt8 ≤ c.toUInt8 ∧ c.toUInt8 ≤ '9'.toUInt8) ∧ c.toUInt8 ≠ '*'.toUInt8 := by
    intro c hc
    simp only [List.mem_cons, List.not_mem_nil, or_false] at hc
    rcases hc with rfl | rfl | rfl | rfl | rfl | rfl | rfl | rfl <;> decide
  obtain ⟨hl, hz, hminus, hzero, hdigit, hstar⟩ := hends _ hspecifier
  unfold parseModifier
  rw [if_neg hl, if_neg hz, if_neg hminus, if_neg fun hboth => hzero hboth.1, if_neg hdigit, if_neg hstar]

theorem formatLoop_specifier (conv : Conversion) (mod : FormatModifiers) (format : List UInt8) (dest : Nat)
    (args : List VaArg) (b : PrintBuffer) :
    formatLoop size (conv.specifier.toUInt8 :: format) (some mod) dest args b = (do
      let r ← handleFormat size dest conv.specifier.toUInt8 mod args b
      formatLoop size format none (dest + r.1.1) r.2 r.1.2) := by
  rw [formatLoop, parseModifier_specifier]
  rfl

theorem formatLoop_width {width : FieldWidth} (hwidth : mod.minFieldWidth = 0)
    (format : List UInt8) (dest : Nat) (args : List VaArg) (b : PrintBuffer) :
    formatLoop size (width.chars.map Char.toUInt8 ++ format) (some mod) dest args b =
      if INT_MAX < width.parsed then .error .overflow
      else formatLoop size format (some { mod with minFieldWidth := width.parsed }) dest args b := by
  cases width with
  | none =>
      rw [if_neg (show ¬ INT_MAX < FieldWidth.none.parsed by decide), FieldWidth.parsed, ← hwidth]
      rfl
  | digits n hpos => exact formatLoop_digits hpos hwidth format dest args b
  | star v =>
      have hparse : parseModifier '*'.toUInt8 mod = .ok (some { mod with minFieldWidth := MIN_FIELD_WIDTH_CUSTOM }) := by
        unfold parseModifier
        rw [if_neg (by decide), if_neg (by decide), if_neg (by decide), if_neg fun hboth => absurd hboth.1 (by decide),
          if_neg (by decide), if_pos rfl, if_neg (not_not.mpr hwidth)]
      rw [if_neg (show ¬ INT_MAX < FieldWidth.parsed (.star v) by change ¬ INT_MAX < -1; decide)]
      exact formatLoop_modifier hparse format dest args b

/-- The format of a directive is parsed to its modifiers. -/
theorem formatLoop_directive (d : Directive) (format : List UInt8) (dest : Nat) (args : List VaArg) (b : PrintBuffer) :
    formatLoop size (d.chars.map Char.toUInt8 ++ format) none dest args b =
      if INT_MAX < d.width.parsed then .error .overflow
      else (do
        let r ← handleFormat size dest d.conversion.specifier.toUInt8 (d.modifiers d.width.parsed) args b
        formatLoop size format none (dest + r.1.1) r.2 r.1.2) := by
  unfold Directive.chars
  rw [List.map_cons, List.map_append, List.map_append, List.map_append, List.cons_append, List.append_assoc,
    List.append_assoc, List.append_assoc, formatLoop, if_neg (not_not.mpr rfl), formatLoop_flags d.flags rfl,
    formatLoop_width rfl]
  by_cases hwide : INT_MAX < d.width.parsed
  · rw [if_pos hwide, if_pos hwide]
  · rw [if_neg hwide, if_neg hwide, formatLoop_conversionLength d.conversion rfl]
    exact formatLoop_specifier d.conversion _ format dest args b

def FormatItem.Rejected : FormatItem → Prop
  | .literal _ _ => False
  | .percent => False
  | .directive d => d.Rejected

def FormatItem.Wide : FormatItem → Prop
  | .literal _ _ => False
  | .percent => False
  | .directive d => d.Wide

def FormatItem.printed : FormatItem → List UInt8
  | .literal c _ => [c]
  | .percent => ['%'.toUInt8]
  | .directive d => d.printed

theorem Directive.wide_iff (d : Directive) : d.Wide ↔ INT_MAX < d.width.parsed := by
  unfold Directive.Wide
  cases d.width with
  | none => rfl
  | digits n hpos => rfl
  | star v =>
      have hhi := BitVec.toInt_lt (x := v)
      simp only [FieldWidth.value, FieldWidth.parsed, INT_MAX, MIN_FIELD_WIDTH_CUSTOM]
      omega

variable {item : FormatItem} {format : List UInt8}

theorem handleFormat_percent (dest : Nat) (args : List VaArg) (b : PrintBuffer) :
    handleFormat size dest '%'.toUInt8 FORMAT_MODIFIERS_INIT args b = (do
      let b ← store size dest '%'.toUInt8 b
      .ok ((1, b), args)) := by
  have hfetch : fetchWidth FORMAT_MODIFIERS_INIT args = .ok (FORMAT_MODIFIERS_INIT, args) := if_neg (by decide)
  have hprint : printArg size dest '%'.toUInt8 FORMAT_MODIFIERS_INIT args b = (do
      let b ← store size dest '%'.toUInt8 b
      .ok ((1, b), args)) := by
    unfold printArg
    rw [if_neg (by decide), if_neg (by decide), if_neg (by decide), if_neg (by decide), if_neg (by decide),
      if_neg (by decide), if_pos rfl]
  unfold handleFormat
  rw [hfetch]
  simp only [bind, Except.bind] at hprint ⊢
  rw [hprint]
  cases store size dest '%'.toUInt8 b with
  | error e => rfl
  | ok b => rfl

theorem parseModifier_percent : parseModifier '%'.toUInt8 FORMAT_MODIFIERS_INIT = .ok none := by
  unfold parseModifier
  rw [if_neg (by decide), if_neg (by decide), if_neg (by decide), if_neg (by decide), if_neg (by decide),
    if_neg (by decide)]

/-- What is done for a part of the format. -/
theorem formatLoop_item (hwide : ¬ item.Wide) (format : List UInt8) (args : List VaArg) (dest : Nat)
    (b : PrintBuffer) :
    ∃ x : Except PrintError ((Nat × PrintBuffer) × List VaArg),
      formatLoop size (item.format ++ format) none dest (item.args ++ args) b =
        (x >>= fun r => formatLoop size format none (dest + r.1.1) r.2 r.1.2) ∧
      (item.Rejected → ∃ e, ¬ e.Stray ∧ x = .error e) ∧
      (¬ item.Rejected → dest ≤ size →
        Emits size PrintError.Stray b dest item.printed (fun b => ((item.printed.length, b), args)) x) := by
  cases item with
  | literal c hc =>
      refine ⟨store size dest c b >>= fun b => .ok ((1, b), args), ?_, False.elim, fun _ _ => ?_⟩
      · refine (if_pos hc.2).trans ?_
        cases store size dest c b with
        | error e => rfl
        | ok b => rfl
      · exact (store_emits c b).andThen fun _ => rfl
  | percent =>
      refine ⟨handleFormat size dest '%'.toUInt8 FORMAT_MODIFIERS_INIT args b, ?_, False.elim, fun _ _ => ?_⟩
      · change formatLoop size ('%'.toUInt8 :: '%'.toUInt8 :: format) none dest args b = _
        rw [formatLoop, if_neg (not_not.mpr rfl), formatLoop, parseModifier_percent]
        rfl
      · rw [handleFormat_percent]
        exact (store_emits _ b).andThen fun _ => rfl
  | directive d =>
      refine ⟨handleFormat size dest d.conversion.specifier.toUInt8 (d.modifiers d.width.parsed)
        (d.width.args ++ d.conversion.arg :: args) b, ?_, fun hrejected => ?_, fun hok hdest => ?_⟩
      · have hargs : d.width.args ++ [d.conversion.arg] ++ args = d.width.args ++ d.conversion.arg :: args := by
          rw [List.append_assoc, List.singleton_append]
        refine (formatLoop_directive d format dest _ b).trans ?_
        rw [if_neg fun hlt => hwide (d.wide_iff.mpr hlt)]
        exact congrArg (fun args => handleFormat size dest d.conversion.specifier.toUInt8
          (d.modifiers d.width.parsed) args b >>= _) hargs
      · exact handleFormat_rejected hrejected b
      · exact handleFormat_emits hok hdest b

/-- A width that is no `int`. -/
theorem formatLoop_wide (hwide : item.Wide) (format : List UInt8) (args : List VaArg) (dest : Nat) (b : PrintBuffer) :
    formatLoop size (item.format ++ format) none dest args b = .error .overflow := by
  cases item with
  | literal c hc => exact hwide.elim
  | percent => exact hwide.elim
  | directive d => exact (formatLoop_directive d format dest args b).trans (if_pos (d.wide_iff.mp hwide))

end Dangless
