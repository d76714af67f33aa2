import Mathlib.Data.List.Chain
import Mathlib.Data.List.Flatten
import Mathlib.Tactic.Common

/-! Lists by their runs of equal elements. A list has one such description, and it is found from left to right: the next
element is in the last run or begins a new one. -/

universe u

namespace RunLength

variable {α : Type u} {x y : α} {n m : Nat} {runs runs' : List (α × Nat)} {as bs : List α}

/-- A list, written out from its runs. -/
def expand (runs : List (α × Nat)) : List α := runs.flatMap fun r => List.replicate r.2 r.1

/-- Runs that could not be longer. -/
structure Maximal (runs : List (α × Nat)) : Prop where
  pos : ∀ r ∈ runs, 0 < r.2
  apart : runs.IsChain fun r r' => r.1 ≠ r'.1

@[simp] theorem expand_nil : expand ([] : List (α × Nat)) = [] := rfl

@[simp] theorem expand_cons (r : α × Nat) (runs : List (α × Nat)) :
    expand (r :: runs) = List.replicate r.2 r.1 ++ expand runs := by
  rw [expand, List.flatMap_cons, expand]

theorem expand_append (runs runs' : List (α × Nat)) : expand (runs ++ runs') = expand runs ++ expand runs' := by
  rw [expand, List.flatMap_append, expand, expand]

/-- An element that is in the last run. -/
theorem expand_grow (runs : List (α × Nat)) (x : α) (n : Nat) :
    expand (runs ++ [(x, n + 1)]) = expand (runs ++ [(x, n)]) ++ [x] := by
  rw [expand_append, expand_append, expand_cons, expand_cons, expand_nil, List.append_nil, List.append_nil,
    List.replicate_succ', List.append_assoc]

theorem Maximal.init (h : Maximal (runs ++ runs')) : Maximal runs :=
  ⟨fun r hr => h.pos r (List.mem_append_left _ hr), (List.isChain_append.mp h.apart).1⟩

theorem Maximal.tail {r : α × Nat} (h : Maximal (r :: runs)) : Maximal runs :=
  ⟨fun r hr => h.pos r (List.mem_cons_of_mem _ hr), (List.isChain_cons.mp h.apart).2⟩

theorem maximal_single (x : α) (hn : 0 < n) : Maximal [(x, n)] := by
  refine ⟨fun r hr => ?_, List.isChain_singleton _⟩
  rw [List.mem_singleton.mp hr]
  exact hn

/-- The last run may have another length. -/
theorem Maximal.grow (h : Maximal (runs ++ [(x, n)])) (hm : 0 < m) : Maximal (runs ++ [(x, m)]) := by
  constructor
  · intro r hr
    rcases List.mem_append.mp hr with hr | hr
    · exact h.init.pos r hr
    · rw [List.mem_singleton.mp hr]
      exact hm
  · obtain ⟨hruns, -, hlast⟩ := List.isChain_append.mp h.apart
    refine List.isChain_append.mpr ⟨hruns, List.isChain_singleton _, fun r hr r' hr' => ?_⟩
    rw [List.head?_cons, Option.mem_some_iff] at hr'
    rw [← hr']
    exact hlast r hr (x, n) rfl

/-- A new run. -/
theorem Maximal.next (h : Maximal (runs ++ [(x, n)])) (hxy : x ≠ y) (hm : 0 < m) :
    Maximal (runs ++ [(x, n)] ++ [(y, m)]) := by
  constructor
  · intro r hr
    rcases List.mem_append.mp hr with hr | hr
    · exact h.pos r hr
    · rw [List.mem_singleton.mp hr]
      exact hm
  · refine List.isChain_append.mpr ⟨h.apart, List.isChain_singleton _, fun r hr r' hr' => ?_⟩
    rw [List.getLast?_concat, Option.mem_some_iff] at hr
    rw [List.head?_cons, Option.mem_some_iff] at hr'
    rw [← hr, ← hr']
    exact hxy

/-- What follows a run does not begin with its value. -/
theorem Maximal.head_ne (h : Maximal ((x, n) :: runs)) : (expand runs).head? ≠ some x := by
  cases runs with
  | nil => exact nofun
  | cons r runs =>
      obtain ⟨k, hk⟩ := Nat.exists_eq_succ_of_ne_zero (h.pos r (List.mem_cons_of_mem _ List.mem_cons_self)).ne'
      rw [expand_cons, hk, List.replicate_succ, List.cons_append, List.head?_cons, ne_eq, Option.some.injEq]
      exact ((List.isChain_cons.mp h.apart).1 r rfl).symm

theorem replicate_append_inj (has : as.head? ≠ some x) (hbs : bs.head? ≠ some x)
    (h : List.replicate n x ++ as = List.replicate m x ++ bs) : n = m ∧ as = bs := by
  induction n generalizing m with
  | zero =>
      cases m with
      | zero => exact ⟨rfl, h⟩
      | succ m =>
          have has' : as = x :: (List.replicate m x ++ bs) := h
          rw [has'] at has
          exact absurd rfl has
  | succ n ih =>
      cases m with
      | zero =>
          have hbs' : x :: (List.replicate n x ++ as) = bs := h
          rw [← hbs'] at hbs
          exact absurd rfl hbs
      | succ m =>
          obtain ⟨hn, hrest⟩ := ih (List.cons.inj h).2
          exact ⟨congrArg Nat.succ hn, hrest⟩

/-- Maximal runs are determined by what they describe. -/
theorem Maximal.unique (h : Maximal runs) (h' : Maximal runs') (heq : expand runs = expand runs') : runs = runs' := by
  have hcons : ∀ {r : α × Nat} {runs : List (α × Nat)}, Maximal (r :: runs) → ∃ k, r.2 = k + 1 := fun {r _} h =>
    Nat.exists_eq_succ_of_ne_zero (h.pos r List.mem_cons_self).ne'
  induction runs generalizing runs' with
  | nil =>
      cases runs' with
      | nil => rfl
      | cons r' runs' =>
          obtain ⟨k, hk⟩ := hcons h'
          rw [expand_cons, hk] at heq
          cases heq
  | cons r runs ih =>
      cases runs' with
      | nil =>
          obtain ⟨k, hk⟩ := hcons h
          rw [expand_cons, hk] at heq
          cases heq
      | cons r' runs' =>
          obtain ⟨x, n⟩ := r
          obtain ⟨y, m⟩ := r'
          obtain ⟨k, hk⟩ := hcons h
          obtain ⟨k', hk'⟩ := hcons h'
          obtain rfl : n = k + 1 := hk
          obtain rfl : m = k' + 1 := hk'
          rw [expand_cons, expand_cons] at heq
          obtain rfl : x = y := (List.cons.inj heq).1
          obtain ⟨hn, hrest⟩ := replicate_append_inj h.head_ne h'.head_ne heq
          obtain rfl : k = k' := Nat.succ.inj hn
          rw [ih h.tail h'.tail hrest]

end RunLength
