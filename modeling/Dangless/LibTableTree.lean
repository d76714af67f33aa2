import Mathlib.Data.List.Basic
import Mathlib.Logic.Function.Basic
import Mathlib.Tactic.Common

/-! Trees of tables in a flat memory. A table at address `t` has an entry at `slot t i` for each index
`i`; the word of an entry names a child table, or none. A lookup descends along a path of indices until
an entry has no child or the path ends. When a table is reached by one path only, a write to one of its
entries is seen by the lookups of the paths through that entry and by no others. -/

namespace TableTree

variable {A ι L W : Type*} (slot : A → ι → L) (child : W → Option A)

/-- The table a path of indices leads to. -/
def follow (mem : L → W) : A → List ι → Option A
  | t, [] => some t
  | t, i :: path => (child (mem (slot t i))).bind fun t' => follow mem t' path

/-- The entry at which the lookup of a path stops, with the number of levels below it. -/
def lookup (mem : L → W) : A → ι → List ι → Nat × L
  | t, i, [] => (0, slot t i)
  | t, i, j :: path =>
      match child (mem (slot t i)) with
      | none => (path.length + 1, slot t i)
      | some t' => lookup mem t' j path

/-- A table reached by a path of `S` is reached by no other path of at most `depth` indices. -/
def TreeOn (S : List ι → Prop) (mem : L → W) (root : A) (depth : Nat) : Prop :=
  ∀ p q t, S p → p.length ≤ depth → q.length ≤ depth →
    follow slot child mem root p = some t → follow slot child mem root q = some t → p = q

/-- The entries of different tables, and of different indices, do not coincide. -/
def SlotsApart (ok : A → Prop) : Prop :=
  ∀ t t' i i', ok t → ok t' → slot t i = slot t' i' → t = t' ∧ i = i'

variable {slot child} {mem mem' : L → W} {root t t' : A} {i j : ι} {p q path : List ι} {depth : Nat}

@[simp] theorem follow_nil : follow slot child mem root [] = some root := rfl

theorem follow_cons : follow slot child mem root (i :: path) =
    (child (mem (slot root i))).bind fun t => follow slot child mem t path := rfl

theorem lookup_nil : lookup slot child mem root i [] = (0, slot root i) := rfl

theorem lookup_cons : lookup slot child mem root i (j :: path) =
    match child (mem (slot root i)) with
    | none => (path.length + 1, slot root i)
    | some t => lookup slot child mem t j path := rfl

theorem follow_append (p q : List ι) : follow slot child mem root (p ++ q) =
    (follow slot child mem root p).bind fun t => follow slot child mem t q := by
  induction p generalizing root with
  | nil => rfl
  | cons i p ih =>
      simp only [List.cons_append, follow_cons, Option.bind_assoc, ih]

theorem follow_snoc (h : follow slot child mem root p = some t) :
    follow slot child mem root (p ++ [i]) = child (mem (slot t i)) := by
  rw [follow_append, h]
  simp [follow_cons]

/-- A table on a path is reached by a prefix of it. -/
theorem follow_prefix (h : follow slot child mem root (p ++ q) = some t) :
    ∃ u, follow slot child mem root p = some u ∧ follow slot child mem u q = some t := by
  rw [follow_append] at h
  exact Option.bind_eq_some_iff.mp h

theorem follow_congr
    (h : ∀ p i t, p ++ [i] <+: path → follow slot child mem root p = some t →
      mem' (slot t i) = mem (slot t i)) :
    follow slot child mem' root path = follow slot child mem root path := by
  induction path generalizing root with
  | nil => rfl
  | cons i path ih =>
      have hhead : mem' (slot root i) = mem (slot root i) :=
        h [] i root ⟨path, rfl⟩ rfl
      rw [follow_cons, follow_cons, hhead]
      cases hchild : child (mem (slot root i)) with
      | none => rfl
      | some t =>
          refine ih fun p j u hp hu => h (i :: p) j u ?_ ?_
          · obtain ⟨rest, hrest⟩ := hp
            exact ⟨rest, by rw [← hrest]; rfl⟩
          · rw [follow_cons, hchild]
            exact hu

theorem lookup_congr
    (h : ∀ p j t, p ++ [j] <+: i :: path → follow slot child mem root p = some t →
      mem' (slot t j) = mem (slot t j)) :
    lookup slot child mem' root i path = lookup slot child mem root i path ∧
      mem' (lookup slot child mem root i path).2 = mem (lookup slot child mem root i path).2 := by
  induction path generalizing root i with
  | nil => exact ⟨rfl, h [] i root ⟨[], rfl⟩ rfl⟩
  | cons j path ih =>
      have hhead : mem' (slot root i) = mem (slot root i) :=
        h [] i root ⟨j :: path, rfl⟩ rfl
      cases hchild : child (mem (slot root i)) with
      | none => simp [lookup, hhead, hchild]
      | some t =>
          have hrec : lookup slot child mem' t j path = lookup slot child mem t j path ∧ _ :=
            ih fun p k u hp hu => h (i :: p) k u ?_ ?_
          · simpa [lookup, hhead, hchild] using hrec
          · obtain ⟨rest, hrest⟩ := hp
            exact ⟨rest, by rw [← hrest]; rfl⟩
          · rw [follow_cons, hchild]
            exact hu

/-- The lookup of a path through tables of a given prefix. -/
theorem lookup_of_follow {rest : List ι} (h : follow slot child mem root p = some t)
    (hpath : i :: path = p ++ j :: rest) :
    lookup slot child mem root i path = lookup slot child mem t j rest := by
  induction p generalizing root i path with
  | nil =>
      obtain ⟨rfl, rfl⟩ := List.cons.inj hpath
      obtain rfl := Option.some.inj h
      rfl
  | cons k p ih =>
      obtain ⟨rfl, rfl⟩ := List.cons.inj hpath
      rw [follow_cons] at h
      obtain ⟨u, hu, hrest⟩ := Option.bind_eq_some_iff.mp h
      have hcons : ∃ k path', p ++ j :: rest = k :: path' := by
        cases p with
        | nil => exact ⟨j, rest, rfl⟩
        | cons k p => exact ⟨k, p ++ j :: rest, rfl⟩
      obtain ⟨k, path', hk⟩ := hcons
      rw [List.append_eq, hk, lookup, hu]
      exact ih hrest hk.symm

/-- A lookup stops at an entry without a child. -/
theorem lookup_through {rest : List ι} (h : follow slot child mem root p = some t)
    (hnone : child (mem (slot t j)) = none) (hpath : i :: path = p ++ j :: rest) :
    lookup slot child mem root i path = (rest.length, slot t j) := by
  rw [lookup_of_follow h hpath]
  cases rest with
  | nil => rfl
  | cons k rest => simp [lookup, hnone]

/-- A lookup whose path ends at a table of the tree stops there. -/
theorem lookup_full (h : follow slot child mem root p = some t) (hpath : i :: path = p ++ [j]) :
    lookup slot child mem root i path = (0, slot t j) := lookup_of_follow h hpath

/-- Every lookup stops at an entry of a table on its path, with no child unless the path ended. -/
theorem lookup_spec (mem : L → W) (root : A) (i : ι) (path : List ι) :
    ∃ p j rest t, i :: path = p ++ j :: rest ∧ follow slot child mem root p = some t ∧
      lookup slot child mem root i path = (rest.length, slot t j) ∧
      (rest = [] ∨ child (mem (slot t j)) = none) := by
  induction path generalizing root i with
  | nil => exact ⟨[], i, [], root, rfl, rfl, rfl, Or.inl rfl⟩
  | cons j path ih =>
      cases hchild : child (mem (slot root i)) with
      | none => exact ⟨[], i, j :: path, root, rfl, rfl, by simp [lookup, hchild], Or.inr hchild⟩
      | some t =>
          obtain ⟨p, k, rest, u, hpath, hu, hlookup, hstop⟩ := ih t j
          refine ⟨i :: p, k, rest, u, by rw [hpath]; rfl, ?_, ?_, hstop⟩
          · rw [follow_cons, hchild]
            exact hu
          · simpa [lookup, hchild] using hlookup

/-- Memory that changes in no entry of a table of the tree leaves its paths and lookups as they are. -/
theorem follow_of_tables
    (h : ∀ p t, p.length ≤ depth → follow slot child mem root p = some t →
      ∀ i, mem' (slot t i) = mem (slot t i)) (hlength : path.length ≤ depth + 1) :
    follow slot child mem' root path = follow slot child mem root path := by
  refine follow_congr fun p i t hp ht => h p t ?_ ht i
  have hle := hp.length_le
  simp only [List.length_append, List.length_cons, List.length_nil] at hle
  omega

theorem lookup_of_tables
    (h : ∀ p t, p.length ≤ depth → follow slot child mem root p = some t →
      ∀ i, mem' (slot t i) = mem (slot t i)) (hlength : path.length ≤ depth) :
    lookup slot child mem' root i path = lookup slot child mem root i path ∧
      mem' (lookup slot child mem root i path).2 = mem (lookup slot child mem root i path).2 := by
  refine lookup_congr fun p j t hp ht => h p t ?_ ht j
  have hle := hp.length_le
  simp only [List.length_append, List.length_cons, List.length_nil] at hle
  omega

section Write

variable {ok : A → Prop} {S : List ι → Prop} [DecidableEq L] {w : W}

/-- Only the paths through an entry of a table of the tree read it. -/
theorem update_slot_other (hslots : SlotsApart slot ok)
    (hok : ∀ p t, follow slot child mem root p = some t → ok t)
    (htree : TreeOn slot child S mem root depth) (hS : S p) (hp : p.length ≤ depth)
    (ht : follow slot child mem root p = some t) (hq : q.length ≤ depth)
    (hu : follow slot child mem root q = some t') (hne : q ++ [j] ≠ p ++ [i]) :
    Function.update mem (slot t i) w (slot t' j) = mem (slot t' j) := by
  refine Function.update_of_ne (fun heq => hne ?_) _ _
  obtain ⟨rfl, rfl⟩ := hslots _ _ _ _ (hok q t' hu) (hok p t ht) heq
  rw [htree p q t' hS hp hq ht hu]

theorem lookup_update (hslots : SlotsApart slot ok)
    (hok : ∀ p t, follow slot child mem root p = some t → ok t)
    (htree : TreeOn slot child S mem root depth) (hS : S p) (hp : p.length ≤ depth)
    (ht : follow slot child mem root p = some t) (hlength : path.length ≤ depth)
    (hnot : ¬ p ++ [i] <+: j :: path) :
    lookup slot child (Function.update mem (slot t i) w) root j path =
        lookup slot child mem root j path ∧
      Function.update mem (slot t i) w (lookup slot child mem root j path).2 =
        mem (lookup slot child mem root j path).2 := by
  refine lookup_congr fun q k u hq hu => ?_
  refine update_slot_other hslots hok htree hS hp ht ?_ hu fun heq => hnot (heq ▸ hq)
  have := hq.length_le
  simp only [List.length_append, List.length_cons, List.length_nil] at this
  omega

theorem follow_update (hslots : SlotsApart slot ok)
    (hok : ∀ p t, follow slot child mem root p = some t → ok t)
    (htree : TreeOn slot child S mem root depth) (hS : S p) (hp : p.length ≤ depth)
    (ht : follow slot child mem root p = some t) (hlength : path.length ≤ depth + 1)
    (hnot : ¬ p ++ [i] <+: path) :
    follow slot child (Function.update mem (slot t i) w) root path =
      follow slot child mem root path := by
  refine follow_congr fun q k u hq hu => ?_
  refine update_slot_other hslots hok htree hS hp ht ?_ hu fun heq => hnot (heq ▸ hq)
  have := hq.length_le
  simp only [List.length_append, List.length_cons, List.length_nil] at this
  omega

end Write

section Attach

variable {ok : A → Prop} {S : List ι → Prop} [DecidableEq L] [DecidableEq ι] {w : W}

/-- Writing a reference to an empty table that is not in the tree into an entry without a child adds
one path and nothing else. -/
theorem follow_attach (hslots : SlotsApart slot ok)
    (hok : ∀ p t, follow slot child mem root p = some t → ok t)
    (htree : TreeOn slot child S mem root depth) (hS : S p) (hp : p.length ≤ depth)
    (ht : follow slot child mem root p = some t) (hnone : child (mem (slot t i)) = none)
    (hw : child w = some t') (hok' : ok t') (hfresh : t' ≠ t)
    (hempty : ∀ j, child (mem (slot t' j)) = none) (hlength : path.length ≤ depth + 1) :
    follow slot child (Function.update mem (slot t i) w) root path =
      if path = p ++ [i] then some t' else follow slot child mem root path := by
  by_cases hpre : p ++ [i] <+: path
  · obtain ⟨rest, rfl⟩ := hpre
    have hparent : follow slot child (Function.update mem (slot t i) w) root p = some t := by
      rw [follow_update hslots hok htree hS hp ht (by omega), ht]
      intro hcontra
      have hlen := hcontra.length_le
      simp only [List.length_append, List.length_cons, List.length_nil] at hlen
      omega
    have hentry : follow slot child (Function.update mem (slot t i) w) root (p ++ [i]) = some t' := by
      rw [follow_snoc hparent, Function.update_self, hw]
    rw [follow_append, hentry]
    cases rest with
    | nil => simp
    | cons j rest =>
        have hne : slot t' j ≠ slot t i := fun heq => hfresh (hslots _ _ _ _ hok' (hok p t ht) heq).1
        have hbefore : follow slot child mem root (p ++ [i] ++ j :: rest) = none := by
          rw [follow_append, follow_snoc ht, hnone]
          rfl
        rw [if_neg (by simp), hbefore]
        simp [follow_cons, Function.update_of_ne hne, hempty j]
  · rw [if_neg (by rintro rfl; exact hpre (List.prefix_refl _)),
      follow_update hslots hok htree hS hp ht hlength hpre]

theorem TreeOn.attach (hslots : SlotsApart slot ok)
    (hok : ∀ p t, follow slot child mem root p = some t → ok t)
    (htree : TreeOn slot child S mem root depth) (hS : S p) (hp : p.length ≤ depth)
    (ht : follow slot child mem root p = some t) (hnone : child (mem (slot t i)) = none)
    (hw : child w = some t') (hok' : ok t')
    (hfresh : ∀ q, q.length ≤ depth → follow slot child mem root q ≠ some t')
    (hempty : ∀ j, child (mem (slot t' j)) = none) :
    TreeOn slot child S (Function.update mem (slot t i) w) root depth := by
  have hne : t' ≠ t := fun heq => hfresh p hp (heq ▸ ht)
  intro q r u hSq hq hr hqu hru
  rw [follow_attach hslots hok htree hS hp ht hnone hw hok' hne hempty (by omega)] at hqu hru
  split_ifs at hqu hru with h1 h2 h2
  · rw [h1, h2]
  · exact absurd (hqu ▸ hru) (hfresh r hr)
  · exact absurd (hru ▸ hqu) (hfresh q hq)
  · exact htree q r u hSq hq hr hqu hru

end Attach

end TableTree
