import Mathlib.Data.List.Basic
import Mathlib.Data.Nat.Bitwise
import Mathlib.Data.Set.Lattice
import Mathlib.Order.CompletePartialOrder
import Mathlib.Order.Interval.Set.LinearOrder

/-! Ascending lists of half-open intervals as a representation of sets. A list is separated when its
intervals are non-empty, ascending, and each ends strictly before the next begins; such a list is a
canonical form of the set it covers, and every interval inside that set lies inside one of its
members. -/

namespace SpanList

variable {α : Type*} [LinearOrder α]

/-- The elements of the intervals of a list. -/
def covers (l : List (α × α)) : Set α := {x | ∃ s ∈ l, s.1 ≤ x ∧ x < s.2}

/-- Non-empty intervals, each ending strictly before all later ones begin. -/
def Separated (l : List (α × α)) : Prop :=
  (∀ s ∈ l, s.1 < s.2) ∧ l.Pairwise fun s t => s.2 < t.1

@[simp] theorem covers_nil : covers ([] : List (α × α)) = ∅ := by
  simp [covers]

theorem covers_cons (s : α × α) (l : List (α × α)) : covers (s :: l) = Set.Ico s.1 s.2 ∪ covers l := by
  ext x
  simp [covers, Set.mem_Ico]

theorem covers_append (l r : List (α × α)) : covers (l ++ r) = covers l ∪ covers r := by
  ext x
  simp only [covers, List.mem_append, Set.mem_union, Set.mem_ofPred_eq, or_and_right, exists_or]

theorem mem_covers_of_mem {l : List (α × α)} {s : α × α} {x : α} (hs : s ∈ l) (hlo : s.1 ≤ x)
    (hhi : x < s.2) : x ∈ covers l :=
  ⟨s, hs, hlo, hhi⟩

theorem separated_nil : Separated ([] : List (α × α)) := ⟨by simp, List.Pairwise.nil⟩

theorem separated_cons {s : α × α} {l : List (α × α)} :
    Separated (s :: l) ↔ s.1 < s.2 ∧ (∀ t ∈ l, s.2 < t.1) ∧ Separated l := by
  simp only [Separated, List.mem_cons, forall_eq_or_imp, List.pairwise_cons]
  tauto

theorem separated_append {l r : List (α × α)} :
    Separated (l ++ r) ↔ Separated l ∧ Separated r ∧ ∀ s ∈ l, ∀ t ∈ r, s.2 < t.1 := by
  simp only [Separated, List.pairwise_append, List.mem_append, or_imp, forall_and]
  tauto

/-- A list around one interval: the gaps on both sides are all there is to check. -/
theorem separated_insert {l r : List (α × α)} {m : α × α} :
    Separated (l ++ m :: r) ↔
      Separated l ∧ Separated r ∧ m.1 < m.2 ∧ (∀ s ∈ l, s.2 < m.1) ∧ ∀ t ∈ r, m.2 < t.1 := by
  rw [separated_append, separated_cons]
  constructor
  · rintro ⟨hl, ⟨hm, hmr, hr⟩, hlr⟩
    exact ⟨hl, hr, hm, fun s hs => hlr s hs m List.mem_cons_self, hmr⟩
  · rintro ⟨hl, hr, hm, hlm, hmr⟩
    refine ⟨hl, ⟨hm, hmr, hr⟩, fun s hs t ht => ?_⟩
    rcases List.mem_cons.mp ht with rfl | ht
    · exact hlm s hs
    · exact ((hlm s hs).trans hm).trans (hmr t ht)

theorem covers_insert (l r : List (α × α)) (m : α × α) :
    covers (l ++ m :: r) = covers l ∪ Set.Ico m.1 m.2 ∪ covers r := by
  rw [covers_append, covers_cons, Set.union_assoc]

/-- Taking the lower part `[m.1, c)` of one interval away. -/
theorem Separated.covers_sdiff {l r : List (α × α)} {m : α × α} (h : Separated (l ++ m :: r)) {c : α}
    (hc : c ≤ m.2) (hm : m.1 ≤ c) :
    covers (l ++ m :: r) \ Set.Ico m.1 c = covers l ∪ Set.Ico c m.2 ∪ covers r := by
  obtain ⟨_, _, _, hlm, hmr⟩ := separated_insert.mp h
  rw [covers_insert]
  ext x
  simp only [Set.mem_sdiff, Set.mem_union, Set.mem_Ico]
  constructor
  · rintro ⟨(hl | ⟨hlo, hhi⟩) | hr, hx⟩
    · exact Or.inl (Or.inl hl)
    · exact Or.inl (Or.inr ⟨not_lt.mp fun hxc => hx ⟨hlo, hxc⟩, hhi⟩)
    · exact Or.inr hr
  · rintro ((hl | ⟨hlo, hhi⟩) | hr)
    · obtain ⟨s, hs, _, hhi⟩ := hl
      exact ⟨Or.inl (Or.inl ⟨s, hs, ‹_›, hhi⟩),
        fun hx => absurd ((hhi.trans (hlm s hs)).trans_le hx.1) (lt_irrefl _)⟩
    · exact ⟨Or.inl (Or.inr ⟨hm.trans hlo, hhi⟩), fun hx => absurd hx.2 (not_lt.mpr hlo)⟩
    · obtain ⟨t, ht, hlo, _⟩ := hr
      exact ⟨Or.inr ⟨t, ht, hlo, ‹_›⟩,
        fun hx => absurd ((hx.2.trans_le hc).trans ((hmr t ht).trans_le hlo)) (lt_irrefl _)⟩

/-- An interval disjoint from the covered set lies on one side of every member. -/
theorem le_or_le_of_disjoint {l : List (α × α)} {a b : α} (hdisj : Disjoint (Set.Ico a b) (covers l))
    {s : α × α} (hs : s ∈ l) (hne : s.1 < s.2) (hab : a < b) : s.2 ≤ a ∨ b ≤ s.1 := by
  by_contra h
  obtain ⟨hsa, hbs⟩ := not_or.mp h
  rw [not_le] at hsa hbs
  have hmax : max a s.1 ∈ Set.Ico a b := ⟨le_max_left _ _, max_lt hab hbs⟩
  exact Set.disjoint_left.mp hdisj hmax
    (mem_covers_of_mem hs (le_max_right _ _) (max_lt hsa hne))

/-- Two members of a separated list are equal or one ends before the other begins. -/
theorem Separated.trichotomy {l : List (α × α)} (h : Separated l) {s t : α × α} (hs : s ∈ l)
    (ht : t ∈ l) : s = t ∨ s.2 < t.1 ∨ t.2 < s.1 := by
  induction l with
  | nil => simp at hs
  | cons a l ih =>
      obtain ⟨_, hlater, hl⟩ := separated_cons.mp h
      rcases List.mem_cons.mp hs with hsa | hsl <;> rcases List.mem_cons.mp ht with hta | htl
      · exact Or.inl (hsa.trans hta.symm)
      · exact Or.inr (Or.inl (hsa ▸ hlater t htl))
      · exact Or.inr (Or.inr (hta ▸ hlater s hsl))
      · exact ih hl hsl htl

/-- The end of a member is never covered: this is what full coalescing means. -/
theorem Separated.end_notMem {l : List (α × α)} (h : Separated l) {s : α × α} (hs : s ∈ l) :
    s.2 ∉ covers l := by
  rintro ⟨t, ht, hlo, hhi⟩
  rcases h.trichotomy hs ht with rfl | hst | hts
  · exact lt_irrefl _ hhi
  · exact absurd (hst.trans_le hlo) (lt_irrefl _)
  · exact absurd ((hts.trans (h.1 s hs)).trans hhi) (lt_irrefl _)

/-- An interval inside the covered set lies inside one member. -/
theorem Separated.exists_of_Ico_subset {l : List (α × α)} (h : Separated l) {a b : α} (hab : a < b)
    (hsub : Set.Ico a b ⊆ covers l) : ∃ s ∈ l, s.1 ≤ a ∧ b ≤ s.2 := by
  obtain ⟨s, hs, hlo, hhi⟩ := hsub (Set.left_mem_Ico.mpr hab)
  refine ⟨s, hs, hlo, ?_⟩
  by_contra hb
  exact h.end_notMem hs (hsub ⟨hhi.le, not_le.mp hb⟩)

/-- The members of a separated list are the maximal intervals of the covered set. -/
theorem Separated.mem_iff {l : List (α × α)} (h : Separated l) {a b : α} :
    (a, b) ∈ l ↔ a < b ∧ Set.Ico a b ⊆ covers l ∧ b ∉ covers l ∧ ∀ x < a, ¬ Set.Ico x a ⊆ covers l := by
  constructor
  · intro hmem
    have hab : a < b := h.1 _ hmem
    have hsub : Set.Ico a b ⊆ covers l := fun x hx => mem_covers_of_mem hmem hx.1 hx.2
    refine ⟨hab, hsub, h.end_notMem hmem, fun x hxa hleft => ?_⟩
    have hwhole : Set.Ico x b ⊆ covers l := by
      rw [← Set.Ico_union_Ico_eq_Ico hxa.le hab.le]
      exact Set.union_subset hleft hsub
    obtain ⟨s, hs, hlo, hhi⟩ := h.exists_of_Ico_subset (hxa.trans hab) hwhole
    rcases h.trichotomy hs hmem with rfl | hlt | hgt
    · exact absurd hxa (not_lt.mpr hlo)
    · exact absurd (hhi.trans hlt.le) (not_le.mpr hab)
    · exact absurd ((hgt.trans_le hlo).trans hxa) (not_lt.mpr hab.le)
  · rintro ⟨hab, hsub, hend, hleft⟩
    obtain ⟨s, hs, hlo, hhi⟩ := h.exists_of_Ico_subset hab hsub
    have hstart : s.1 = a := by
      apply le_antisymm hlo
      by_contra hlt
      rw [not_le] at hlt
      exact hleft s.1 hlt fun x hx => mem_covers_of_mem hs hx.1 (hx.2.trans (hab.trans_le hhi))
    have hstop : s.2 = b := by
      apply le_antisymm _ hhi
      by_contra hlt
      rw [not_le] at hlt
      exact hend (mem_covers_of_mem hs (hlo.trans hab.le) hlt)
    obtain ⟨x, y⟩ := s
    cases hstart
    cases hstop
    exact hs

theorem covers_cons_sdiff {s : α × α} {l : List (α × α)} (h : ∀ t ∈ l, s.2 < t.1) :
    covers (s :: l) \ Set.Ico s.1 s.2 = covers l := by
  rw [covers_cons, Set.union_sdiff_left, sdiff_eq_left, Set.disjoint_right]
  rintro x hx ⟨t, ht, hlo, _⟩
  exact absurd (hx.2.trans ((h t ht).trans_le hlo)) (lt_irrefl _)

theorem Separated.head_le {s t : α × α} {l r : List (α × α)} (hl : Separated (s :: l))
    (hr : Separated (t :: r)) (hcovers : covers (s :: l) = covers (t :: r)) : t.1 ≤ s.1 := by
  have hs : s.1 ∈ covers (t :: r) := by
    rw [← hcovers]
    exact mem_covers_of_mem List.mem_cons_self le_rfl (separated_cons.mp hl).1
  obtain ⟨u, hu, hlo, _⟩ := hs
  rcases List.mem_cons.mp hu with rfl | hu
  · exact hlo
  · obtain ⟨ht, hlater, _⟩ := separated_cons.mp hr
    exact (ht.trans (hlater u hu)).le.trans hlo

theorem Separated.head_end_le {s t : α × α} {l r : List (α × α)} (hl : Separated (s :: l))
    (hr : Separated (t :: r)) (hcovers : covers (s :: l) = covers (t :: r)) : t.2 ≤ s.2 := by
  have hend : s.2 ∉ covers (t :: r) := hcovers ▸ hl.end_notMem List.mem_cons_self
  by_contra hlt
  have hts : t.1 ≤ s.2 := (hl.head_le hr hcovers).trans (separated_cons.mp hl).1.le
  exact hend (mem_covers_of_mem List.mem_cons_self hts (not_le.mp hlt))

/-- Lists covering one set have one head: each head begins at the least covered element and ends at
the first element above it that is not covered. -/
theorem Separated.head_eq {s t : α × α} {l r : List (α × α)} (hl : Separated (s :: l))
    (hr : Separated (t :: r)) (hcovers : covers (s :: l) = covers (t :: r)) : s = t :=
  Prod.ext (le_antisymm (hr.head_le hl hcovers.symm) (hl.head_le hr hcovers))
    (le_antisymm (hr.head_end_le hl hcovers.symm) (hl.head_end_le hr hcovers))

/-- A separated list is determined by the set it covers. -/
theorem Separated.ext {l r : List (α × α)} (hl : Separated l) (hr : Separated r)
    (hcovers : covers l = covers r) : l = r := by
  induction l generalizing r with
  | nil =>
      cases r with
      | nil => rfl
      | cons t r =>
          have ht : t.1 ∈ covers (t :: r) :=
            mem_covers_of_mem List.mem_cons_self le_rfl (separated_cons.mp hr).1
          rw [← hcovers] at ht
          simp at ht
  | cons s l ih =>
      cases r with
      | nil =>
          have hs : s.1 ∈ covers (s :: l) :=
            mem_covers_of_mem List.mem_cons_self le_rfl (separated_cons.mp hl).1
          rw [hcovers] at hs
          simp at hs
      | cons t r =>
          have hst := hl.head_eq hr hcovers
          subst hst
          obtain ⟨_, hsl, hl'⟩ := separated_cons.mp hl
          obtain ⟨_, hsr, hr'⟩ := separated_cons.mp hr
          congr 1
          refine ih hl' hr' ?_
          rw [← covers_cons_sdiff hsl, ← covers_cons_sdiff hsr, hcovers]

end SpanList
