import Dangless.PrintfNomallocSpec

/-! What `printf_nomalloc` makes of a whole format. It prints what C prints, but for negative numbers that are
padded with zeros: these stand in front of the sign. It does not look at the size of its buffer. -/

namespace Dangless

open TextBuffer

variable {size dest : Nat} {b : PrintBuffer} {item : FormatItem} {items : List FormatItem} {text : List UInt8}

def printedOf (items : List FormatItem) : List UInt8 := items.flatMap FormatItem.printed

theorem formatOf_cons (item : FormatItem) (items : List FormatItem) :
    formatOf (item :: items) = item.format ++ formatOf items := List.flatMap_cons

theorem argsOf_cons (item : FormatItem) (items : List FormatItem) :
    argsOf (item :: items) = item.args ++ argsOf items := List.flatMap_cons

theorem printedOf_cons (item : FormatItem) (items : List FormatItem) :
    printedOf (item :: items) = item.printed ++ printedOf items := List.flatMap_cons

theorem textOf_cons (item : FormatItem) (items : List FormatItem) :
    textOf (item :: items) = item.text ++ textOf items := List.flatMap_cons

/-- Formats that no assertion rejects, with widths that are of type `int`. -/
theorem formatLoop_items (h : ∀ item ∈ items, ¬ item.Wide ∧ ¬ item.Rejected) (hdest : dest ≤ size) (b : PrintBuffer) :
    Emits size PrintError.Stray b dest (printedOf items) (fun b => (dest + (printedOf items).length, b))
      (formatLoop size (formatOf items) none dest (argsOf items) b) := by
  induction items generalizing dest b with
  | nil =>
      have hfits : Emits size PrintError.Stray b dest [] (fun b => (dest, b)) (.ok (dest, overlay b dest [])) :=
        .fits hdest
      rwa [overlay_nil] at hfits
  | cons item items ih =>
      obtain ⟨hwide, hok⟩ := h item List.mem_cons_self
      obtain ⟨x, hloop, -, hemits⟩ := formatLoop_item hwide (formatOf items) (argsOf items) dest b
      rw [formatOf_cons, argsOf_cons, printedOf_cons, hloop, List.length_append, ← Nat.add_assoc]
      apply (hemits hok hdest).append
      intro hfits
      exact ih (fun later hlater => h later (List.mem_cons_of_mem _ hlater)) hfits _

theorem doVsprintf_items (h : ∀ item ∈ items, ¬ item.Wide ∧ ¬ item.Rejected) (b : PrintBuffer) :
    Emits size PrintError.Stray b 0 (printedOf items ++ [0]) (fun b => ((printedOf items).length, b))
      (doVsprintf size (formatOf items) (argsOf items) b) := by
  have hloop : Emits size PrintError.Stray b 0 (printedOf items) (fun b => ((printedOf items).length, b))
      (formatLoop size (formatOf items) none 0 (argsOf items) b) := by
    have hitems : Emits size PrintError.Stray b 0 (printedOf items) (fun b => (0 + (printedOf items).length, b))
        (formatLoop size (formatOf items) none 0 (argsOf items) b) := formatLoop_items h (Nat.zero_le size) b
    rwa [Nat.zero_add] at hitems
  apply hloop.append
  intro _
  rw [Nat.zero_add]
  apply (store_emits 0 _).andThen
  intro b
  rfl

/-- A negative number, to be padded with zeros. -/
def Conversion.Negative : Conversion → Prop
  | .d v => v.toInt < 0
  | .i v => v.toInt < 0
  | _ => False

/-- Zeros are padded to a negative number that is shorter than its field. -/
def Directive.ZeroPadsSign (d : Directive) : Prop :=
  .zero ∈ d.flags ∧ .minus ∉ d.flags ∧ d.conversion.Negative ∧ (d.conversion.unpadded.length : Int) < d.width.value

def FormatItem.ZeroPadsSign : FormatItem → Prop
  | .literal _ _ => False
  | .percent => False
  | .directive d => d.ZeroPadsSign

theorem Conversion.sign_of_negative {conv : Conversion} (h : conv.Negative) : conv.sign = ['-'.toUInt8] := by
  cases conv with
  | d v => exact if_pos h
  | i v => exact if_pos h
  | u _ => exact h.elim
  | x _ => exact h.elim
  | X _ => exact h.elim
  | p _ => exact h.elim
  | c _ => exact h.elim
  | s _ => exact h.elim

theorem Conversion.sign_of_not_negative {conv : Conversion} (h : ¬ conv.Negative) : conv.sign = [] := by
  cases conv with
  | d v => exact if_neg h
  | i v => exact if_neg h
  | u _ => rfl
  | x _ => rfl
  | X _ => rfl
  | p _ => rfl
  | c _ => rfl
  | s _ => rfl

theorem Directive.printed_length {d : Directive} (hok : ¬ d.Rejected) : d.printed.length = d.text.length := by
  have hwidth : ¬ d.width.value < 0 := fun hneg => hok (Or.inl hneg)
  unfold Directive.printed Directive.text Conversion.unpadded
  rw [padText_length]
  simp only [Directive.modifiers, List.length_append]
  split_ifs <;> simp only [List.length_append, List.length_replicate] <;> omega

theorem zeros_before_sign_iff (fill : Nat) (body : List UInt8) :
    List.replicate fill '0'.toUInt8 ++ (['-'.toUInt8] ++ body) =
      ['-'.toUInt8] ++ List.replicate fill '0'.toUInt8 ++ body ↔ fill = 0 := by
  cases fill with
  | zero => exact iff_of_true rfl rfl
  | succ fill =>
      refine iff_of_false (fun heq => ?_) (Nat.succ_ne_zero fill)
      have hhead := (List.cons.inj heq).1
      exact absurd hhead (by decide)

/-- The two texts of a directive. -/
theorem Directive.printed_eq_text_iff {d : Directive} (hok : ¬ d.Rejected) :
    d.printed = d.text ↔ ¬ d.ZeroPadsSign := by
  have hwidth : ¬ d.width.value < 0 := fun hneg => hok (Or.inl hneg)
  have hnat : d.width.value.natAbs = d.width.value.toNat := by omega
  unfold Directive.printed Directive.text Directive.ZeroPadsSign padText
  simp only [Directive.modifiers, hnat, hwidth, or_false, Conversion.unpadded, List.length_append]
  by_cases hminus : Flag.minus ∈ d.flags
  · simp [hminus]
  by_cases hzero : Flag.zero ∈ d.flags
  · simp only [hminus, hzero, if_true, if_false]
    by_cases hneg : d.conversion.Negative
    · rw [d.conversion.sign_of_negative hneg, zeros_before_sign_iff]
      simp only [hneg, not_false_eq_true, true_and, Nat.sub_eq_zero_iff_le, not_lt]
      omega
    · rw [d.conversion.sign_of_not_negative hneg]
      simp [hneg]
  · simp [hminus, hzero]

theorem FormatItem.printed_length (hok : ¬ item.Rejected) : item.printed.length = item.text.length := by
  cases item with
  | literal c hc => rfl
  | percent => rfl
  | directive d => exact Directive.printed_length hok

theorem FormatItem.printed_eq_text_iff (hok : ¬ item.Rejected) : item.printed = item.text ↔ ¬ item.ZeroPadsSign := by
  cases item with
  | literal c hc => exact iff_of_true rfl id
  | percent => exact iff_of_true rfl id
  | directive d => exact Directive.printed_eq_text_iff hok

theorem printedOf_length (h : ∀ item ∈ items, ¬ item.Rejected) :
    (printedOf items).length = (textOf items).length := by
  induction items with
  | nil => rfl
  | cons item items ih =>
      rw [printedOf_cons, textOf_cons, List.length_append, List.length_append,
        FormatItem.printed_length (h item List.mem_cons_self),
        ih fun later hlater => h later (List.mem_cons_of_mem _ hlater)]

/-- The texts agree where those of all parts do, as these are of the same lengths. -/
theorem printedOf_eq_textOf_iff (h : ∀ item ∈ items, ¬ item.Rejected) :
    printedOf items = textOf items ↔ ∀ item ∈ items, ¬ item.ZeroPadsSign := by
  induction items with
  | nil => exact iff_of_true rfl nofun
  | cons item items ih =>
      have hok := h item List.mem_cons_self
      rw [printedOf_cons, textOf_cons, List.forall_mem_cons, ← FormatItem.printed_eq_text_iff hok,
        ← ih fun later hlater => h later (List.mem_cons_of_mem _ hlater)]
      constructor
      · intro heq
        exact List.append_inj heq (FormatItem.printed_length hok)
      · rintro ⟨hitem, hitems⟩
        rw [hitem, hitems]

/-- The text and its length are what `do_vsprintf` returns. -/
def PrintsText (size : Nat) (items : List FormatItem) (b : PrintBuffer) (text : List UInt8) : Prop :=
  ∃ b', doVsprintf size (formatOf items) (argsOf items) b = .ok (text.length, b') ∧
    (List.range text.length).map b' = text ∧ b' text.length = 0

theorem printsText_iff_eq (h : ∀ item ∈ items, ¬ item.Wide ∧ ¬ item.Rejected)
    (hfits : (printedOf items).length < size)
    (b : PrintBuffer) : PrintsText size items b text ↔ printedOf items = text := by
  have hrun : doVsprintf size (formatOf items) (argsOf items) b =
      .ok ((printedOf items).length, overlay b 0 (printedOf items ++ [0])) := by
    apply (doVsprintf_items h b).ok
    rw [List.length_append, Nat.zero_add]
    exact hfits
  have hread := read_overlay_append b 0 (printedOf items) [0]
  have hlast := overlay_last b 0 (printedOf items) 0
  simp only [Nat.zero_add] at hread hlast
  unfold PrintsText
  rw [hrun]
  constructor
  · rintro ⟨b', heq, htext, -⟩
    obtain ⟨hlength, rfl⟩ := Prod.mk.inj (Except.ok.inj heq)
    rw [← hlength, hread] at htext
    exact htext
  · rintro rfl
    exact ⟨_, rfl, hread, hlast⟩

theorem FieldWidth.le_text (d : Directive) : d.width.value ≤ d.text.length := by
  unfold Directive.text
  split_ifs <;> simp only [List.length_append, List.length_replicate] <;> omega

/-- A text whose length is an `int` has no width that is not. -/
theorem not_wide_of_mem (hlength : ((textOf items).length : Int) ≤ INT_MAX) (hitem : item ∈ items) : ¬ item.Wide := by
  cases item with
  | literal c hc => exact id
  | percent => exact id
  | directive d =>
      obtain ⟨before, after, rfl⟩ := List.append_of_mem hitem
      have hwidth := FieldWidth.le_text d
      unfold textOf at hlength
      rw [List.flatMap_append, List.flatMap_cons, List.length_append, List.length_append] at hlength
      change ¬ INT_MAX < d.width.value
      simp only [FormatItem.text] at hlength
      omega

/-- **`do_vsprintf` prints what C's `printf` prints exactly if no negative number is padded with zeros**, where the
text fits the buffer and neither a negative width nor the least number of 64 bits is printed. -/
theorem printsText_iff (hc : cPrintf items = some text) (hfits : text.length < size)
    (hok : ∀ item ∈ items, ¬ item.Rejected) (b : PrintBuffer) :
    PrintsText size items b text ↔ ∀ item ∈ items, ¬ item.ZeroPadsSign := by
  unfold cPrintf at hc
  split_ifs at hc with hlength
  obtain rfl := Option.some.inj hc
  rw [← printedOf_length hok] at hfits
  rw [← printedOf_eq_textOf_iff hok]
  exact printsText_iff_eq (fun item hitem => ⟨not_wide_of_mem hlength hitem, hok item hitem⟩) hfits b

/-- `n=%05d` and its argument. -/
def paddedNumber (v : BitVec 32) : List FormatItem :=
  [.literal 'n'.toUInt8 (by decide), .literal '='.toUInt8 (by decide),
    .directive ⟨[.zero], .digits 5 (by decide), .d (.int v), fun _ => trivial⟩]

theorem paddedNumber_ok (v : BitVec 32) : ∀ item ∈ paddedNumber v, ¬ item.Rejected := by
  intro item hitem
  simp only [paddedNumber, List.mem_cons, List.not_mem_nil, or_false] at hitem
  rcases hitem with rfl | rfl | rfl
  · exact id
  · exact id
  · rintro (hneg | hmin)
    · exact absurd hneg (show ¬ (5 : Int) < 0 by decide)
    · have hlo := BitVec.le_toInt v
      simp only [Conversion.Rejected, IntArg.toInt, LLONG_MIN] at hmin
      omega

theorem printsText_iff_padded :
    PrintsText 4096 (paddedNumber 42) (fun _ => 0) (['n', '=', '0', '0', '0', '4', '2'].map Char.toUInt8) := by
  refine (printsText_iff (by decide) (by decide) (paddedNumber_ok 42) _).mpr ?_
  intro item hitem
  simp only [paddedNumber, List.mem_cons, List.not_mem_nil, or_false] at hitem
  rcases hitem with rfl | rfl | rfl
  · exact id
  · exact id
  · rintro ⟨-, -, hneg, -⟩
    exact absurd hneg (show ¬ (42 : BitVec 32).toInt < 0 by decide)

/-- C prints `n=-0042`. -/
theorem printsText_not : cPrintf (paddedNumber (-42)) = some (['n', '=', '-', '0', '0', '4', '2'].map Char.toUInt8) ∧
    (∀ item ∈ paddedNumber (-42), ¬ item.Rejected) ∧
    ¬ PrintsText 4096 (paddedNumber (-42)) (fun _ => 0) (['n', '=', '-', '0', '0', '4', '2'].map Char.toUInt8) := by
  have hc : cPrintf (paddedNumber (-42)) = some (['n', '=', '-', '0', '0', '4', '2'].map Char.toUInt8) := by decide
  have hlength : ((textOf (paddedNumber (-42))).length : Int) ≤ INT_MAX := by decide
  have hok : ∀ item ∈ paddedNumber (-42), ¬ item.Wide ∧ ¬ item.Rejected := fun item hitem =>
    ⟨not_wide_of_mem hlength hitem, paddedNumber_ok _ item hitem⟩
  refine ⟨hc, paddedNumber_ok _, ?_⟩
  rw [printsText_iff_eq hok (by decide) _]
  decide

/-- No byte is stored past the end of the buffer; a run that does not return has been ended by an assertion. -/
def StaysInBuffer (size : Nat) (items : List FormatItem) (b : PrintBuffer) : Prop :=
  ∀ e, doVsprintf size (formatOf items) (argsOf items) b = .error e → ¬ e.Stray

/-- The text fits behind `used` bytes, with a NUL, or up to what an assertion rejects; widths are of type `int`. -/
def FitsBuffer (size : Nat) : Nat → List FormatItem → Prop
  | used, [] => used < size
  | used, item :: items => ¬ item.Wide ∧
      (item.Rejected ∨ used + item.text.length ≤ size ∧ FitsBuffer size (used + item.text.length) items)

/-- The rest of a run. -/
theorem staysFrom_iff (hdest : dest ≤ size) (b : PrintBuffer) :
    (∀ e, (formatLoop size (formatOf items) none dest (argsOf items) b >>= fun r => do
        let b ← store size r.1 0 r.2
        .ok (r.1, b)) = .error e → ¬ e.Stray) ↔ FitsBuffer size dest items := by
  induction items generalizing dest b with
  | nil =>
      change (∀ e, (store size dest 0 b >>= fun b => .ok (dest, b)) = .error e → ¬ e.Stray) ↔ dest < size
      unfold store
      split_ifs with hlt
      · exact iff_of_true nofun hlt
      · exact iff_of_false (fun hall => hall _ rfl trivial) hlt
  | cons item items ih =>
      rw [formatOf_cons, argsOf_cons]
      unfold FitsBuffer
      by_cases hwide : item.Wide
      · rw [formatLoop_wide hwide]
        exact iff_of_false (fun hall => hall _ rfl trivial) fun hboth => hboth.1 hwide
      · obtain ⟨x, hloop, hrejects, hemits⟩ := @formatLoop_item size item hwide (formatOf items) (argsOf items) dest b
        rw [hloop]
        by_cases hrejected : item.Rejected
        · obtain ⟨e, he, rfl⟩ := hrejects hrejected
          refine iff_of_true (fun e' he' => ?_) ⟨hwide, Or.inl hrejected⟩
          exact Except.error.inj he' ▸ he
        · replace hemits := hemits hrejected hdest
          rw [← FormatItem.printed_length hrejected]
          by_cases hfits : dest + item.printed.length ≤ size
          · rw [hemits.ok hfits]
            refine (ih hfits _).trans ?_
            simp [hwide, hrejected, hfits]
          · obtain ⟨e, he, rfl⟩ := hemits.error (Nat.lt_of_not_le hfits)
            refine iff_of_false (fun hall => hall e rfl he) ?_
            simp [hrejected, hfits]

/-- **`do_vsprintf` stays in its buffer exactly if the text and its NUL fit**, or the text up to a directive that an
assertion rejects, and no width in the format is past the range of `int`. -/
theorem staysInBuffer_iff (size : Nat) (items : List FormatItem) (b : PrintBuffer) :
    StaysInBuffer size items b ↔ FitsBuffer size 0 items := staysFrom_iff (Nat.zero_le size) b

/-- `%s` of a string of `n` letters. -/
def longString (n : Nat) : Directive where
  flags := []
  width := .none
  conversion := .s (some ⟨List.replicate n 'a'.toUInt8, fun hmem =>
    absurd (List.eq_of_mem_replicate hmem) (by decide)⟩)
  zero_integer hmem := absurd hmem List.not_mem_nil

theorem longString_text (n : Nat) : (longString n).text = List.replicate n 'a'.toUInt8 := by
  simp [Directive.text, longString, FieldWidth.value, Conversion.sign, Conversion.body]

theorem longString_fits (size n : Nat) : FitsBuffer size 0 [.directive (longString n)] ↔ n < size := by
  have hwide : ¬ (longString n).Wide := show ¬ INT_MAX < 0 by decide
  have hrejected : ¬ (longString n).Rejected := by
    rintro (hneg | hmin)
    · exact absurd hneg (Int.lt_irrefl 0)
    · exact hmin
  have hlength : (FormatItem.directive (longString n)).text.length = n := by
    change (longString n).text.length = n
    rw [longString_text, List.length_replicate]
  rw [FitsBuffer, FitsBuffer, hlength, Nat.zero_add]
  constructor
  · rintro ⟨-, hrej | ⟨-, hlt⟩⟩
    · exact absurd hrej hrejected
    · exact hlt
  · intro hlt
    exact ⟨hwide, Or.inr ⟨hlt.le, hlt⟩⟩

/-- The string fills the buffer, so that its NUL is stored behind it. -/
theorem staysInBuffer_not : ¬ StaysInBuffer 4096 [.directive (longString 4096)] (fun _ => 0) := by
  intro hstays
  have hfits := (staysFrom_iff (Nat.zero_le 4096) _).mp hstays
  exact absurd ((longString_fits 4096 4096).mp hfits) (Nat.lt_irrefl 4096)

end Dangless
