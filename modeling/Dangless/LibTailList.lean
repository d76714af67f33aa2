import Mathlib.Data.List.Nodup
import Mathlib.Tactic.Common

/-! Lists that are linked forward, and that have a pointer to their last element for what is added at the end. -/

universe u v

namespace TailList

variable {A : Type u} {B : Type v} {next next' : A → Option A} {p first last : Option A} {x y l : A}
  {elms : List A}

/-- The elements that a pointer leads through. -/
def Linked (next : A → Option A) : Option A → List A → Prop
  | p, [] => p = none
  | p, x :: elms => p = some x ∧ Linked next (next x) elms

/-- `for (x = p; x; x = x->next)` with a body that prints. The loop has as many turns as there is fuel. -/
def forEach (next : A → Option A) (body : A → Option (List B)) : Nat → Option A → Option (List B)
  | _, none => some []
  | 0, some _ => none
  | n + 1, some x => do
      let out ← body x
      let rest ← forEach next body n (next x)
      some (out ++ rest)

/-- The loop ends, and has had every element. -/
theorem forEach_linked {body : A → Option (List B)} {f : A → List B} {n : Nat} (h : Linked next p elms)
    (hbody : ∀ x ∈ elms, body x = some (f x)) (hn : elms.length ≤ n) :
    forEach next body n p = some (elms.flatMap f) := by
  induction elms generalizing p n with
  | nil =>
      obtain rfl : p = none := h
      unfold forEach
      rfl
  | cons x elms ih =>
      obtain ⟨rfl, hrest⟩ := h
      obtain ⟨n, rfl⟩ : ∃ m, n = m + 1 := Nat.exists_eq_succ_of_ne_zero (Nat.ne_zero_of_lt hn)
      have hloop := ih hrest (fun y hy => hbody y (List.mem_cons_of_mem x hy)) (Nat.le_of_succ_le_succ hn)
      unfold forEach
      rw [hbody x List.mem_cons_self, hloop, List.flatMap_cons]
      rfl

theorem Linked.congr (h : Linked next p elms) (heq : ∀ x ∈ elms, next' x = next x) : Linked next' p elms := by
  induction elms generalizing p with
  | nil => exact h
  | cons x elms ih =>
      refine ⟨h.1, ?_⟩
      rw [heq x List.mem_cons_self]
      exact ih h.2 fun y hy => heq y (List.mem_cons_of_mem x hy)

/-- An element is linked to behind the last one. -/
theorem Linked.append (h : Linked next p (elms ++ [l])) (hl : l ∉ elms) (hnext : next' l = some x) (hend : next' x = none)
    (heq : ∀ y ∈ elms, next' y = next y) : Linked next' p (elms ++ [l] ++ [x]) := by
  induction elms generalizing p with
  | nil => exact ⟨h.1, hnext, hend⟩
  | cons y elms ih =>
      refine ⟨h.1, ?_⟩
      rw [heq y List.mem_cons_self]
      exact ih h.2 (fun hmem => hl (List.mem_cons_of_mem y hmem)) fun z hz => heq z (List.mem_cons_of_mem y hz)

/-- The list with its two pointers. Those of an empty one are null. -/
structure IsList (next : A → Option A) (first last : Option A) (elms : List A) : Prop where
  linked : Linked next first elms
  last : last = elms.getLast?
  nodup : elms.Nodup

theorem isList_nil (next : A → Option A) : IsList next none none [] := ⟨rfl, rfl, List.nodup_nil⟩

theorem IsList.congr (h : IsList next first last elms) (heq : ∀ x ∈ elms, next' x = next x) :
    IsList next' first last elms :=
  ⟨h.linked.congr heq, h.last, h.nodup⟩

theorem IsList.nil_of_first (h : IsList next none last elms) : elms = [] := by
  cases elms with
  | nil => rfl
  | cons x elms => cases h.linked.1

/-- The first element of a list. -/
theorem IsList.single (h : IsList next none last elms) (hend : next' x = none) :
    IsList next' (some x) (some x) (elms ++ [x]) := by
  rw [h.nil_of_first]
  exact ⟨⟨rfl, hend⟩, rfl, List.nodup_singleton x⟩

theorem IsList.last_of_first (h : IsList next (some y) last elms) : ∃ l ∈ elms, last = some l := by
  have hne : elms ≠ [] := by
    rintro rfl
    cases h.linked
  exact ⟨elms.getLast hne, List.getLast_mem hne, h.last.trans (List.getLast?_eq_some_getLast hne)⟩

/-- Another element, behind the last one. -/
theorem IsList.append (h : IsList next first (some l) elms) (hx : x ∉ elms) (hnext : next' l = some x)
    (hend : next' x = none) (heq : ∀ y ∈ elms, y ≠ l → next' y = next y) :
    IsList next' first (some x) (elms ++ [x]) := by
  obtain ⟨front, rfl⟩ := List.getLast?_eq_some_iff.mp h.last.symm
  have hl : l ∉ front := fun hmem => (List.nodup_append.mp h.nodup).2.2 l hmem l List.mem_cons_self rfl
  refine ⟨h.linked.append hl hnext hend fun y hy => ?_, List.getLast?_concat.symm, ?_⟩
  · exact heq y (List.mem_append_left _ hy) fun hyl => hl (hyl ▸ hy)
  · exact List.nodup_append.mpr ⟨h.nodup, List.nodup_singleton x,
      fun y hy z hz hyz => hx (by rwa [← List.mem_singleton.mp hz, ← hyz])⟩

end TailList
