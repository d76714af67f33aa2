import Dangless.DumpMappingsScan
import Mathlib.Order.Interval.Set.Basic

/-! What `dump_mappings` prints of a range, and the tables for which it is right. It starts no new region behind a page
that is not identity-mapped, steps over a hole in the size of the page before it, and knows no level before the first
page. -/

namespace Dangless

variable {s : PtState} {st st' r : DumpState} {level level' : PtLevel} {vaStart vaEnd a b v fuel word : Nat}

/-- The addresses that a line calls unmapped. -/
def DumpLine.unmappedRegion : DumpLine → Set Nat
  | .unmapped start end_ => Set.Ico start end_
  | .finalUnmapped start end_ => Set.Ico start end_
  | _ => ∅

/-- The addresses that a line calls identity-mapped. -/
def DumpLine.identityRegion : DumpLine → Set Nat
  | .identity start end_ => Set.Ico start end_
  | .finalIdentity start end_ => Set.Ico start end_
  | _ => ∅

structure DumpLine.Right (s : PtState) (line : DumpLine) : Prop where
  unmapped : ∀ a ∈ line.unmappedRegion, s.entry a = none
  identity : ∀ a ∈ line.identityRegion, ptResolve s a = a
  nonIdentity : ∀ level va pa, line = .nonIdentity level va pa →
    (∃ word, s.entry va = some (level, word)) ∧ ptResolve s va = pa ∧ pa ≠ va

/-- The page of an entry has a line of its own. -/
def HasLine (out : List DumpLine) (a : Nat) (level : PtLevel) (word : Nat) : Prop :=
  .nonIdentity level (a / pteMappedSize level * pteMappedSize level) (ptEntryPage word level) ∈ out

/-- The lines are right, and every mapped page of the range has been examined and is in them. -/
structure DumpCorrect (s : PtState) (vaStart vaEnd : Nat) (st : DumpState) : Prop where
  right : ∀ line ∈ st.out, line.Right s
  examined : ∀ a level word, vaStart ≤ a → a < vaEnd → s.entry a = some (level, word) →
    ∃ va ∈ st.resolved, va / pteMappedSize level = a / pteMappedSize level
  reported : ∀ a level word, vaStart ≤ a → a < vaEnd → s.entry a = some (level, word) →
    (∃ line ∈ st.out, a ∈ line.identityRegion) ∨ HasLine st.out a level word

/-- `dump_mappings` terminates, and what it prints is right. -/
def DumpsCorrectly (s : PtState) (vaStart vaEnd : Nat) : Prop :=
  ∃ fuel st, dumpMappings s fuel vaStart vaEnd = .ok st ∧ DumpCorrect s vaStart vaEnd st

/-- The address is mapped, to another one. -/
def NonIdentity (s : PtState) (a : Nat) : Prop := s.entry a ≠ none ∧ ptResolve s a ≠ a

/-- The end of the page of an address. -/
def pageEnd (level : PtLevel) (a : Nat) : Nat := (a / pteMappedSize level + 1) * pteMappedSize level

/-- What the scan needs of the pages from `v` on: from the first page that is not identity-mapped on there are only
such pages, not counting the page of address 0; the first page behind a hole is aligned to the page before the hole;
and no page reaches to the end of the 64-bit addresses. -/
structure Tidy (s : PtState) (v vaEnd : Nat) : Prop where
  other : ∀ a b level word, v ≤ a → a ≤ b → b < vaEnd → s.entry a = some (level, word) → ptResolve s a ≠ a →
    pteMappedSize level ≤ a → NonIdentity s b
  gap : ∀ a b level word, v ≤ a → s.entry a = some (level, word) → pageEnd level a ≤ b → b < vaEnd →
    s.entry b ≠ none → (∀ c, pageEnd level a ≤ c → c < b → s.entry c = none) → pteMappedSize level ∣ b
  top : ∀ a level word, v ≤ a → a < vaEnd → s.entry a = some (level, word) → pageEnd level a < 2 ^ 64

/-- The range begins with a page, no page has the frame 0, and the pages are tidy. -/
structure Dumpable (s : PtState) (vaStart vaEnd : Nat) : Prop where
  first : ∃ level word, s.entry vaStart = some (level, word) ∧ pteMappedSize level ∣ vaStart
  frames : ∀ a level word, vaStart ≤ a → a < vaEnd → s.entry a = some (level, word) → ptEntryPage word level ≠ 0
  tidy : Tidy s vaStart vaEnd

section Branches

variable (level : PtLevel) (pa : Nat)

theorem dumpMapped_begin (hmapped : st.mapped = false) (hidentity : st.identity = false) :
    dumpMapped level pa st = { st with
      mapped := true
      identity := decide (pa = st.va)
      start := st.va
      out := st.out ++ (if st.start = 0 then [] else [.unmapped st.start st.va]) ++
        (if pa = st.va then [] else [.nonIdentity level st.va pa]) } := by
  by_cases hstart : st.start = 0 <;> by_cases hpa : pa = st.va <;>
    simp [dumpMapped, DumpState.endUnmapped, DumpState.begin, DumpState.endIdentity, DumpState.print, hmapped,
      hidentity, hstart, hpa]

theorem dumpMapped_identity (hmapped : st.mapped = true) (hidentity : st.identity = true) (hstart : st.start ≠ 0) :
    dumpMapped level pa st = { st with
      identity := decide (pa = st.va)
      out := st.out ++
        (if pa = st.va then [] else [.identity st.start st.va, .nonIdentity level st.va pa]) } := by
  by_cases hpa : pa = st.va <;>
    simp [dumpMapped, DumpState.endUnmapped, DumpState.begin, DumpState.endIdentity, DumpState.print, hmapped,
      hidentity, hstart, hpa]

theorem dumpMapped_other (hmapped : st.mapped = true) (hidentity : st.identity = false) :
    dumpMapped level pa st = { st with
      identity := decide (pa = st.va)
      start := if st.start = 0 then st.va else st.start
      out := st.out ++ (if pa = st.va then [] else [.nonIdentity level st.va pa]) } := by
  by_cases hstart : st.start = 0 <;> by_cases hpa : pa = st.va <;>
    simp [dumpMapped, DumpState.endUnmapped, DumpState.begin, DumpState.endIdentity, DumpState.print, hmapped,
      hidentity, hstart, hpa]

theorem dumpUnmapped_identity (hmapped : st.mapped = true) (hidentity : st.identity = true) (hstart : st.start ≠ 0) :
    dumpUnmapped st = { st with
      mapped := false
      identity := false
      start := st.va
      out := st.out ++ [.identity st.start st.va] } := by
  simp [dumpUnmapped, DumpState.endMapped, DumpState.begin, DumpState.print, hmapped, hidentity, hstart]

theorem dumpUnmapped_other (hidentity : st.mapped = false ∨ st.identity = false) :
    dumpUnmapped st = { st with
      mapped := false
      identity := false
      start := if st.start = 0 then st.va else st.start } := by
  by_cases hstart : st.start = 0 <;> rcases hidentity with h | h <;>
    simp [dumpUnmapped, DumpState.endMapped, DumpState.begin, h, hstart]

theorem dumpUnmapped_mapped (st : DumpState) : (dumpUnmapped st).mapped = false := by
  simp only [dumpUnmapped, DumpState.begin]
  split_ifs <;> rfl

theorem dumpMapped_prints {line : DumpLine} (h : line ∈ st.out) : line ∈ (dumpMapped level pa st).out := by
  simp only [dumpMapped, DumpState.endUnmapped, DumpState.begin, DumpState.endIdentity, DumpState.print]
  split_ifs <;> simp [h]

theorem dumpUnmapped_prints {line : DumpLine} (h : line ∈ st.out) : line ∈ (dumpUnmapped st).out := by
  simp only [dumpUnmapped, DumpState.endMapped, DumpState.begin, DumpState.print]
  split_ifs <;> simp [h]

/-- A line for a page that is not identity-mapped is from this turn or an earlier one. -/
theorem dumpMapped_nonIdentity {level' : PtLevel} {va pa' : Nat}
    (h : .nonIdentity level' va pa' ∈ (dumpMapped level pa st).out) :
    .nonIdentity level' va pa' ∈ st.out ∨ pa' = pa := by
  simp only [dumpMapped, DumpState.endUnmapped, DumpState.begin, DumpState.endIdentity, DumpState.print] at h
  split_ifs at h <;> simp at h <;> tauto

theorem dumpUnmapped_nonIdentity {level' : PtLevel} {va pa' : Nat}
    (h : .nonIdentity level' va pa' ∈ (dumpUnmapped st).out) : .nonIdentity level' va pa' ∈ st.out := by
  simp only [dumpUnmapped, DumpState.endMapped, DumpState.begin, DumpState.print] at h
  split_ifs at h <;> simpa using h

end Branches

theorem dumpTurn_prints (h : dumpTurn s st = .ok st') : st.out ⊆ st'.out := by
  obtain ⟨level, pa, -, rfl⟩ := dumpTurn_branch h
  intro line hline
  dsimp only [DumpState.after]
  split_ifs
  · exact dumpMapped_prints level pa hline
  · exact dumpUnmapped_prints hline

theorem dumpFinal_prints (vaEnd : Nat) (st : DumpState) : st.out ⊆ (dumpFinal vaEnd st).out := by
  intro line hline
  unfold dumpFinal DumpState.print
  split_ifs <;> simp [hline]

@[simp] theorem dumpFinal_resolved (vaEnd : Nat) (st : DumpState) : (dumpFinal vaEnd st).resolved = st.resolved := by
  unfold dumpFinal DumpState.print
  split_ifs <;> rfl

theorem dumpFinal_nonIdentity {va pa : Nat} (h : .nonIdentity level va pa ∈ (dumpFinal vaEnd st).out) :
    .nonIdentity level va pa ∈ st.out := by
  unfold dumpFinal DumpState.print at h
  split_ifs at h <;> simpa using h

/-- Nothing that is printed is lost. -/
theorem dumpLoop_prints (h : dumpLoop s vaEnd fuel st = .ok r) : st.out ⊆ r.out := by
  obtain ⟨last, hsub, -, rfl⟩ := dumpLoop_invariant (I := fun now => st.out ⊆ now.out)
    (fun _ _ hsub _ hturn => List.Subset.trans hsub (dumpTurn_prints hturn)) h (List.Subset.refl _)
  exact List.Subset.trans hsub (dumpFinal_prints vaEnd last)

/-- The pages that have lines of their own have frames. -/
theorem dumpLoop_frames (h : dumpLoop s vaEnd fuel st = .ok r)
    (hst : ∀ level va pa, .nonIdentity level va pa ∈ st.out → pa ≠ 0) :
    ∀ level va pa, .nonIdentity level va pa ∈ r.out → pa ≠ 0 := by
  have hstep : ∀ now now' : DumpState, (∀ level va pa, .nonIdentity level va pa ∈ now.out → pa ≠ 0) →
      now.va < vaEnd → dumpTurn s now = .ok now' → ∀ level va pa, .nonIdentity level va pa ∈ now'.out → pa ≠ 0 := by
    intro now now' hnow _ hturn level va pa hmem
    obtain ⟨seen, frame, -, rfl⟩ := dumpTurn_branch hturn
    dsimp only [DumpState.after] at hmem
    split_ifs at hmem with hframe
    · rcases dumpMapped_nonIdentity seen frame hmem with hold | rfl
      · exact hnow level va pa hold
      · exact hframe
    · exact hnow level va pa (dumpUnmapped_nonIdentity hmem)
  obtain ⟨last, hlast, -, rfl⟩ := dumpLoop_invariant hstep h hst
  exact fun level va pa hmem => hlast level va pa (dumpFinal_nonIdentity hmem)

theorem Ascends.prints (h : Ascends s vaEnd st r) : st.out ⊆ r.out := by
  induction h with
  | done _ => exact dumpFinal_prints _ _
  | turn _ _ hturn _ _ _ _ _ ih => exact List.Subset.trans (dumpTurn_prints hturn) ih

/-- The scan asks for no address behind it again. -/
theorem Ascends.resolved (h : Ascends s vaEnd st r) : ∀ va ∈ r.resolved, va ∈ st.resolved ∨ st.va ≤ va := by
  induction h with
  | done _ =>
      intro va hva
      rw [dumpFinal_resolved] at hva
      exact Or.inl hva
  | turn _ _ hturn _ _ _ hup _ ih =>
      intro va hva
      obtain ⟨-, -, -, -, hresolved⟩ := dumpTurn_ok hturn
      rcases ih va hva with hin | hle
      · rw [hresolved] at hin
        rcases List.mem_append.mp hin with hin | hin
        · exact Or.inl hin
        · exact Or.inr (List.mem_singleton.mp hin).ge
      · exact Or.inr (by omega)

/-- An identity-mapped region that is open will be printed. -/
theorem Ascends.prints_identity (h : Ascends s vaEnd st r) (hmapped : st.mapped = true)
    (hidentity : st.identity = true) (hstart : st.start ≠ 0) (hlo : st.start ≤ a) (hva : a < st.va)
    (hend : a < vaEnd) : ∃ line ∈ r.out, a ∈ line.identityRegion := by
  induction h with
  | @done st hdone =>
      refine ⟨.finalIdentity st.start vaEnd, ?_, hlo, hend⟩
      simp [dumpFinal, DumpState.print, hmapped, hidentity, hstart]
  | @turn st st' r _ _ _ _ _ hlt hturn _ _ _ hup hrun ih =>
      obtain ⟨seen, pa, -, hst'⟩ := dumpTurn_branch hturn
      by_cases hsame : pa ≠ 0 ∧ pa = st.va
      · rw [if_pos hsame.1, dumpMapped_identity _ _ hmapped hidentity hstart] at hst'
        obtain ⟨-, hpa⟩ := hsame
        refine ih ?_ ?_ ?_ ?_ (by omega) <;> rw [hst'] <;>
          simp [DumpState.after, hmapped, hpa, hstart, hlo]
      · refine ⟨.identity st.start st.va, hrun.prints ?_, hlo, hva⟩
        rw [hst']
        dsimp only [DumpState.after]
        split_ifs with hpa
        · rw [dumpMapped_identity _ _ hmapped hidentity hstart]
          simp [show pa ≠ st.va from fun heq => hsame ⟨hpa, heq⟩]
        · rw [dumpUnmapped_identity hmapped hidentity hstart]
          simp

/-- An unmapped region that is open will be printed. -/
theorem Ascends.prints_unmapped (h : Ascends s vaEnd st r) (hmapped : st.mapped = false)
    (hidentity : st.identity = false) (hstart : st.start ≠ 0) (hlo : st.start ≤ a) (hva : a < st.va)
    (hend : a < vaEnd) : ∃ line ∈ r.out, a ∈ line.unmappedRegion := by
  induction h with
  | @done st hdone =>
      refine ⟨.finalUnmapped st.start vaEnd, ?_, hlo, hend⟩
      simp [dumpFinal, DumpState.print, hmapped, hstart]
  | @turn st st' r _ _ _ _ _ hlt hturn _ _ _ hup hrun ih =>
      obtain ⟨seen, pa, -, hst'⟩ := dumpTurn_branch hturn
      by_cases hpa : pa ≠ 0
      · refine ⟨.unmapped st.start st.va, hrun.prints ?_, hlo, hva⟩
        rw [hst', if_pos hpa, dumpMapped_begin _ _ hmapped hidentity]
        simp [DumpState.after, hstart]
      · rw [if_neg hpa, dumpUnmapped_other (Or.inl hmapped)] at hst'
        refine ih ?_ ?_ ?_ ?_ (by omega) <;> rw [hst'] <;> simp [DumpState.after, hstart, hlo]

end Dangless
