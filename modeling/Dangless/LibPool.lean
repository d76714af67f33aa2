import Mathlib.Data.Set.Disjoint
import Mathlib.Data.Set.Lattice
import Mathlib.Order.CompletePartialOrder

/-! Pools: a list of free parts beside what is held. Nothing is in two places: the parts are non-empty, disjoint, and
disjoint from what is held. Runs are taken out of parts, and new parts come from outside or are given back. -/

universe u

namespace Pool

variable {α : Type u}

structure Apart (free : List (Set α)) (held : Set α) : Prop where
  nonempty : ∀ part ∈ free, part.Nonempty
  disjoint : free.Pairwise Disjoint
  held : ∀ part ∈ free, Disjoint part held

variable {free before after : List (Set α)} {held part rest run : Set α}

theorem Apart.nil (held : Set α) : Apart [] held := ⟨by simp, List.Pairwise.nil, by simp⟩

/-- A run that is taken out of a part was not held. -/
theorem Apart.disjoint_held (h : Apart free held) (hpart : part ∈ free) (hrun : run ⊆ part) : Disjoint run held :=
  (h.held part hpart).mono_left hrun

theorem forall_mem_insert {β : Type*} {P : β → Prop} {first last : List β} {x : β} :
    (∀ y ∈ first ++ x :: last, P y) ↔ P x ∧ ∀ y ∈ first ++ last, P y := by
  simp only [List.forall_mem_append, List.forall_mem_cons]
  exact and_left_comm

/-- A part of its own, in the middle of the list. -/
theorem apart_insert : Apart (before ++ part :: after) held ↔ Apart (before ++ after) held ∧
    part.Nonempty ∧ Disjoint part held ∧ ∀ other ∈ before ++ after, Disjoint part other := by
  constructor
  · intro h
    obtain ⟨hother, hdisjoint⟩ := List.pairwise_cons.mp ((List.pairwise_middle fun h => h.symm).mp h.disjoint)
    obtain ⟨hnonempty, hnonempty'⟩ := forall_mem_insert.mp h.nonempty
    obtain ⟨hheld, hheld'⟩ := forall_mem_insert.mp h.held
    exact ⟨⟨hnonempty', hdisjoint, hheld'⟩, hnonempty, hheld, hother⟩
  · rintro ⟨h, hnonempty, hheld, hother⟩
    have hdisjoint := (List.pairwise_middle fun h => h.symm).mpr (List.pairwise_cons.mpr ⟨hother, h.disjoint⟩)
    exact ⟨forall_mem_insert.mpr ⟨hnonempty, h.nonempty⟩, hdisjoint, forall_mem_insert.mpr ⟨hheld, h.held⟩⟩

/-- A run is taken and becomes held; the rest of the part stays. -/
theorem Apart.take (h : Apart (before ++ part :: after) held) (hpart : part = run ∪ rest)
    (hsplit : Disjoint run rest) (hrest : rest.Nonempty) : Apart (before ++ rest :: after) (held ∪ run) := by
  obtain ⟨hothers, -, hheld, hother⟩ := apart_insert.mp h
  rw [hpart, Set.disjoint_union_left] at hheld
  refine apart_insert.mpr ⟨⟨hothers.nonempty, hothers.disjoint, fun other hin => ?_⟩, hrest, ?_, fun other hin => ?_⟩
  · refine Set.disjoint_union_right.mpr ⟨hothers.held other hin, ?_⟩
    exact ((hother other hin).mono_left (by rw [hpart]; exact Set.subset_union_left)).symm
  · exact Set.disjoint_union_right.mpr ⟨hheld.2, hsplit.symm⟩
  · exact (hother other hin).mono_left (by rw [hpart]; exact Set.subset_union_right)

/-- A part is taken as a whole. -/
theorem Apart.takeAll (h : Apart (before ++ part :: after) held) : Apart (before ++ after) (held ∪ part) := by
  obtain ⟨hothers, -, -, hother⟩ := apart_insert.mp h
  exact ⟨hothers.nonempty, hothers.disjoint, fun other hin =>
    Set.disjoint_union_right.mpr ⟨hothers.held other hin, (hother other hin).symm⟩⟩

/-- A part comes from outside. -/
theorem Apart.add (h : Apart free held) (hpart : part.Nonempty) (hheld : Disjoint part held)
    (hfree : ∀ other ∈ free, Disjoint part other) : Apart (part :: free) held := by
  rw [← List.nil_append (part :: free)]
  exact apart_insert.mpr ⟨h, hpart, hheld, hfree⟩

/-- A part of what is held is given back. -/
theorem Apart.give (h : Apart free held) (hpart : part.Nonempty) (hsub : part ⊆ held) :
    Apart (part :: free) (held \ part) := by
  have hless : Apart free (held \ part) :=
    ⟨h.nonempty, h.disjoint, fun other hin => (h.held other hin).mono_right Set.sdiff_subset⟩
  refine hless.add hpart Set.disjoint_sdiff_right fun other hin => ?_
  exact ((h.held other hin).mono_right hsub).symm

end Pool
