import Mathlib.Data.List.GetD
import Mathlib.Logic.Function.Basic

/-! Texts that are written into a buffer of bounded size through a cursor. What a writer leaves in the buffer is
described by the whole text; the rules compose writers one after another, or one over the other, and say that
they stop exactly if the text does not fit. -/

universe u v w

namespace TextBuffer

variable {α : Type u} {ε : Type v} {γ δ : Type w}

/-- A buffer with a text written from an index on. -/
def overlay (b : Nat → α) (dest : Nat) (text : List α) (i : Nat) : α :=
  if dest ≤ i then text.getD (i - dest) (b i) else b i

variable {b : Nat → α} {dest size : Nat} {text more : List α}

theorem overlay_nil (b : Nat → α) (dest : Nat) : overlay b dest [] = b := by
  funext i
  simp [overlay]

/-- The last item may be written first. -/
theorem overlay_snoc (b : Nat → α) (dest : Nat) (text : List α) (c : α) :
    overlay b dest (text ++ [c]) = overlay (Function.update b (dest + text.length) c) dest text := by
  funext i
  unfold overlay
  by_cases hlo : dest ≤ i
  · rw [if_pos hlo, if_pos hlo]
    by_cases hin : i - dest < text.length
    · have hne : i ≠ dest + text.length := by omega
      rw [List.getD_append _ _ _ _ hin, Function.update_of_ne hne]
    · rw [List.getD_append_right _ _ _ _ (by omega), List.getD_eq_default text _ (by omega)]
      by_cases hlast : i = dest + text.length
      · have hzero : i - dest - text.length = 0 := by omega
        rw [hzero, hlast, Function.update_self]
        rfl
      · rw [Function.update_of_ne hlast, List.getD_eq_default [c] _ (by simp only [List.length_singleton]; omega)]
  · have hne : i ≠ dest + text.length := by omega
    rw [if_neg hlo, if_neg hlo, Function.update_of_ne hne]

theorem overlay_append (b : Nat → α) (dest : Nat) (text more : List α) :
    overlay (overlay b dest text) (dest + text.length) more = overlay b dest (text ++ more) := by
  funext i
  unfold overlay
  by_cases hlo : dest ≤ i
  · rw [if_pos hlo, if_pos hlo]
    by_cases hin : i - dest < text.length
    · rw [if_neg (by omega), List.getD_append _ _ _ _ hin]
    · have hsub : i - dest - text.length = i - (dest + text.length) := by omega
      rw [if_pos (by omega), List.getD_append_right _ _ _ _ (by omega), List.getD_eq_default text _ (by omega), hsub]
  · rw [if_neg hlo, if_neg (by omega), if_neg hlo]

/-- A text that is at least as long leaves nothing of the one under it. -/
theorem overlay_overlay (b : Nat → α) (dest : Nat) (hle : text.length ≤ more.length) :
    overlay (overlay b dest text) dest more = overlay b dest more := by
  funext i
  unfold overlay
  by_cases hlo : dest ≤ i
  · rw [if_pos hlo, if_pos hlo, if_pos hlo]
    by_cases hin : i - dest < more.length
    · rw [List.getD_eq_getElem _ _ hin, List.getD_eq_getElem _ _ hin]
    · rw [List.getD_eq_default _ _ (by omega), List.getD_eq_default _ _ (by omega),
        List.getD_eq_default _ _ (by omega)]
  · rw [if_neg hlo, if_neg hlo, if_neg hlo]

theorem overlay_singleton (b : Nat → α) (dest : Nat) (c : α) : overlay b dest [c] = Function.update b dest c := by
  have hsnoc := overlay_snoc b dest [] c
  rwa [overlay_nil, List.nil_append, List.length_nil, Nat.add_zero] at hsnoc

/-- The beginning of the text can be read back. -/
theorem read_overlay_append (b : Nat → α) (dest : Nat) (text more : List α) :
    (List.range text.length).map (fun i => overlay b dest (text ++ more) (dest + i)) = text := by
  apply List.ext_getElem
  · rw [List.length_map, List.length_range]
  · intro i _ hi
    rw [List.getElem_map, List.getElem_range, overlay, if_pos (Nat.le_add_right _ _), Nat.add_sub_cancel_left,
      List.getD_append _ _ _ _ hi, List.getD_eq_getElem _ _ hi]

theorem read_overlay (b : Nat → α) (dest : Nat) (text : List α) :
    (List.range text.length).map (fun i => overlay b dest text (dest + i)) = text := by
  have hread := read_overlay_append b dest text []
  rwa [List.append_nil] at hread

theorem overlay_last (b : Nat → α) (dest : Nat) (text : List α) (c : α) :
    overlay b dest (text ++ [c]) (dest + text.length) = c := by
  rw [← overlay_append, overlay_singleton, Function.update_self]

/-- The outcome of a writer: what it makes of the buffer where the text fits, or a bad error where it does not. -/
inductive Emits (size : Nat) (bad : ε → Prop) (b : Nat → α) (dest : Nat) (text : List α) (k : (Nat → α) → γ) :
    Except ε γ → Prop
  | fits (h : dest + text.length ≤ size) : Emits size bad b dest text k (.ok (k (overlay b dest text)))
  | overflows {e : ε} (h : size < dest + text.length) (he : bad e) : Emits size bad b dest text k (.error e)

namespace Emits

variable {bad : ε → Prop} {k : (Nat → α) → γ} {k' : (Nat → α) → δ} {x : Except ε γ} {f : γ → Except ε δ}

theorem ok (hfits : dest + text.length ≤ size) (h : Emits size bad b dest text k x) :
    x = .ok (k (overlay b dest text)) := by
  cases h with
  | fits _ => rfl
  | overflows hlt _ => exact absurd hfits (Nat.not_le.mpr hlt)

theorem error (hlt : size < dest + text.length) (h : Emits size bad b dest text k x) :
    ∃ e, bad e ∧ x = .error e := by
  cases h with
  | fits hfits => exact absurd hfits (Nat.not_le.mpr hlt)
  | overflows _ he => exact ⟨_, he, rfl⟩

/-- One writer after another. -/
theorem append (h : Emits size bad b dest text k x) (hf : dest + text.length ≤ size →
      Emits size bad (overlay b dest text) (dest + text.length) more k' (f (k (overlay b dest text)))) :
    Emits size bad b dest (text ++ more) k' (x >>= f) := by
  cases h with
  | fits hfits =>
      replace hf := hf hfits
      change Emits size bad b dest (text ++ more) k' (f (k (overlay b dest text)))
      generalize f (k (overlay b dest text)) = y at hf
      cases hf with
      | fits hmore =>
          rw [overlay_append]
          rw [Nat.add_assoc, ← List.length_append] at hmore
          exact .fits hmore
      | overflows hlt he =>
          rw [Nat.add_assoc, ← List.length_append] at hlt
          exact .overflows hlt he
  | overflows hlt he =>
      refine .overflows ?_ he
      rw [List.length_append]
      omega

/-- One writer over another. -/
theorem replaced (h : Emits size bad b dest text k x) (hle : text.length ≤ more.length)
    (hf : dest + text.length ≤ size →
      Emits size bad (overlay b dest text) dest more k' (f (k (overlay b dest text)))) :
    Emits size bad b dest more k' (x >>= f) := by
  cases h with
  | fits hfits =>
      replace hf := hf hfits
      change Emits size bad b dest more k' (f (k (overlay b dest text)))
      generalize f (k (overlay b dest text)) = y at hf
      cases hf with
      | fits hmore =>
          rw [overlay_overlay b dest hle]
          exact .fits hmore
      | overflows hlt he => exact .overflows hlt he
  | overflows hlt he => exact .overflows (by omega) he

/-- A writer whose last item has been written first. -/
theorem snoc {c : α} (hlast : dest + text.length < size)
    (h : Emits size bad (Function.update b (dest + text.length) c) dest text k x) :
    Emits size bad b dest (text ++ [c]) k x := by
  have hlength : (text ++ [c]).length = text.length + 1 := by simp
  cases h with
  | fits _ =>
      rw [← overlay_snoc]
      exact .fits (by omega)
  | overflows hlt he => exact .overflows (by omega) he

/-- A writer that goes on behind what is there. -/
theorem extend (h : Emits size bad (overlay b dest text) (dest + text.length) more k x) :
    Emits size bad (overlay b dest text) dest (text ++ more) k x := by
  have hsame : overlay (overlay b dest text) (dest + text.length) more =
      overlay (overlay b dest text) dest (text ++ more) := by
    rw [overlay_append, overlay_overlay b dest (by simp)]
  cases h with
  | fits hmore =>
      rw [hsame]
      rw [Nat.add_assoc, ← List.length_append] at hmore
      exact .fits hmore
  | overflows hlt he =>
      rw [Nat.add_assoc, ← List.length_append] at hlt
      exact .overflows hlt he

/-- Something else that is done with the result. -/
theorem andThen (h : Emits size bad b dest text k x) (hf : ∀ b, f (k b) = .ok (k' b)) :
    Emits size bad b dest text k' (x >>= f) := by
  cases h with
  | fits hfits =>
      change Emits size bad b dest text k' (f (k (overlay b dest text)))
      rw [hf]
      exact .fits hfits
  | overflows hlt he => exact .overflows hlt he

end Emits

end TextBuffer
