import Dangless.LibRegions
import Dangless.LibRunLength
import Dangless.Virtmem

/-! `dump_pte`, `dump_pt` and `dump_pt_summary` (`dump.c`): what is printed about the entries of a table. A table is given
by its entries; the addresses under it do not pass 2^48, so that no shift overflows. -/

namespace Dangless

open RunLength

variable {pt pt' : Nat → Nat} {level : PtLevel} {n i : Nat}

def PTE_PAT : Nat := 0x80

/-- The flags that `dump_pte` prints. -/
inductive PteFlag where
  | V
  | W
  | U
  | NX
  | PAT
  | PS
  deriving DecidableEq

/-- What `dump_pte` prints: the frame, the flags, and the entry as it is. -/
structure PteLine where
  addr : Nat
  flags : List PteFlag
  raw : Nat
  deriving DecidableEq

/-- `HANDLE_BIT(BIT)`. -/
def handleBit (pte bit : Nat) (flag : PteFlag) : List PteFlag := if flagIsSet pte bit then [flag] else []

/-- `dump_pte`. -/
def dumpPte (pte : Nat) (level : PtLevel) : PteLine where
  addr := pte &&& PTE_FRAME
  flags := handleBit pte PTE_V .V ++ handleBit pte PTE_W .W ++ handleBit pte PTE_U .U ++ handleBit pte PTE_NX .NX ++
    if level = .l1 then handleBit pte PTE_PAT .PAT else handleBit pte PTE_PS .PS
  raw := pte

/-- A line of `dump_pt`. -/
structure TableLine where
  start : Nat
  end_ : Nat
  pte : PteLine
  deriving DecidableEq

/-- The first `n` turns of the loop of `dump_pt`. -/
def dumpPtLoop (pt : Nat → Nat) (level : PtLevel) : Nat → List TableLine
  | 0 => []
  | i + 1 =>
      let levelShift := ptLevelShift level
      if pt i ≠ 0 then
        dumpPtLoop pt level i ++ [⟨i * 2 ^ levelShift, (i + 1) * 2 ^ levelShift, dumpPte (pt i) level⟩]
      else dumpPtLoop pt level i

/-- `dump_pt`. -/
def dumpPt (pt : Nat → Nat) (level : PtLevel) : List TableLine := dumpPtLoop pt level PT_NUM_ENTRIES

/-- A line of `dump_pt_summary`, which says `Mapped` or `Unmapped`. -/
structure SummaryLine where
  mapped : Bool
  start : Nat
  end_ : Nat
  count : Nat
  deriving DecidableEq

/-- The variables of `dump_pt_summary`, and what has been printed. -/
structure SummaryState where
  mapped : Bool
  count : Nat
  out : List SummaryLine

/-- The call of `fprintf` before entry `i`. -/
def SummaryState.print (s : SummaryState) (level : PtLevel) (i : Nat) (mapped : Bool) : SummaryState :=
  let levelShift := ptLevelShift level
  { s with out := s.out ++ [⟨mapped, (i - s.count) * 2 ^ levelShift, i * 2 ^ levelShift, s.count⟩] }

/-- A turn of the loop of `dump_pt_summary`. -/
def summaryTurn (pt : Nat → Nat) (level : PtLevel) (i : Nat) (s : SummaryState) : SummaryState :=
  if pt i ≠ 0 then
    let s := if !s.mapped ∧ 0 < s.count then { s.print level i false with count := 0 } else s
    { s with mapped := true, count := s.count + 1 }
  else
    let s := if s.mapped ∧ 0 < s.count then { s.print level i true with count := 0 } else s
    { s with mapped := false, count := s.count + 1 }

/-- The first `n` turns. -/
def dumpPtSummaryLoop (pt : Nat → Nat) (level : PtLevel) : Nat → SummaryState
  | 0 => ⟨false, 0, []⟩
  | i + 1 => summaryTurn pt level i (dumpPtSummaryLoop pt level i)

/-- `dump_pt_summary`. -/
def dumpPtSummary (pt : Nat → Nat) (level : PtLevel) : List SummaryLine :=
  let s := dumpPtSummaryLoop pt level PT_NUM_ENTRIES
  if 0 < s.count then (s.print level PT_NUM_ENTRIES s.mapped).out else s.out

/-- Which of the first `n` entries are used. -/
def usedEntries (pt : Nat → Nat) (n : Nat) : List Bool := (List.range n).map fun i => decide (pt i ≠ 0)

theorem usedEntries_succ (pt : Nat → Nat) (n : Nat) : usedEntries pt (n + 1) = usedEntries pt n ++ [decide (pt n ≠ 0)] := by
  rw [usedEntries, List.range_succ, List.map_append, ← usedEntries]
  rfl

theorem length_usedEntries (pt : Nat → Nat) (n : Nat) : (usedEntries pt n).length = n := by
  rw [usedEntries, List.length_map, List.length_range]

/-- The lines for runs of entries, from entry `i` on. -/
def summaryLines (level : PtLevel) : Nat → List (Bool × Nat) → List SummaryLine
  | _, [] => []
  | i, r :: runs =>
      ⟨r.1, i * 2 ^ ptLevelShift level, (i + r.2) * 2 ^ ptLevelShift level, r.2⟩ :: summaryLines level (i + r.2) runs

theorem summaryLines_concat (level : PtLevel) (i : Nat) (runs : List (Bool × Nat)) (mapped : Bool) (count : Nat) :
    summaryLines level i (runs ++ [(mapped, count)]) = summaryLines level i runs ++
      [⟨mapped, (i + (expand runs).length) * 2 ^ ptLevelShift level,
        (i + (expand runs).length + count) * 2 ^ ptLevelShift level, count⟩] := by
  induction runs generalizing i with
  | nil => rfl
  | cons r runs ih =>
      rw [List.cons_append, summaryLines, ih, summaryLines, expand_cons, List.length_append, List.length_replicate,
        ← Nat.add_assoc]
      rfl

/-- The state after some turns: the last run is being counted, and the ones before have been printed. -/
structure SummaryInv (pt : Nat → Nat) (level : PtLevel) (n : Nat) (s : SummaryState) (runs : List (Bool × Nat)) : Prop where
  maximal : Maximal (runs ++ [(s.mapped, s.count)])
  expand : expand (runs ++ [(s.mapped, s.count)]) = usedEntries pt n
  out : s.out = summaryLines level 0 runs

/-- The line of the last run. -/
theorem SummaryInv.print {s : SummaryState} {runs : List (Bool × Nat)} (h : SummaryInv pt level n s runs) :
    (s.print level n s.mapped).out = summaryLines level 0 (runs ++ [(s.mapped, s.count)]) := by
  have hlength := congrArg List.length h.expand
  rw [expand_append, expand_cons, expand_nil, List.append_nil, List.length_append, List.length_replicate,
    length_usedEntries] at hlength
  have hlength : (RunLength.expand runs).length + s.count = n := hlength
  rw [summaryLines_concat, Nat.zero_add, hlength, SummaryState.print, h.out, ← hlength, Nat.add_sub_cancel]

theorem SummaryInv.turn {s : SummaryState} {runs : List (Bool × Nat)} (h : SummaryInv pt level n s runs) :
    ∃ runs', SummaryInv pt level (n + 1) (summaryTurn pt level n s) runs' := by
  obtain ⟨mapped, count, out⟩ := s
  have hpos : 0 < count := h.maximal.pos _ (List.mem_append_right _ List.mem_cons_self)
  have hused := usedEntries_succ pt n
  rw [← h.expand] at hused
  have hgrow : decide (pt n ≠ 0) = mapped → SummaryInv pt level (n + 1) ⟨mapped, count + 1, out⟩ runs := by
    intro hsame
    rw [hsame] at hused
    exact ⟨h.maximal.grow (Nat.succ_pos count), (expand_grow runs mapped count).trans hused.symm, h.out⟩
  have hnext : decide (pt n ≠ 0) = !mapped → SummaryInv pt level (n + 1)
      ⟨!mapped, 1, (SummaryState.print ⟨mapped, count, out⟩ level n mapped).out⟩ (runs ++ [(mapped, count)]) := by
    intro hother
    rw [hother] at hused
    exact ⟨h.maximal.next (Bool.not_ne_self mapped).symm Nat.one_pos, (expand_append _ _).trans hused.symm, h.print⟩
  unfold summaryTurn
  dsimp only
  cases mapped with
  | true =>
      by_cases hpt : pt n ≠ 0
      · rw [if_pos hpt, if_neg (by simp)]
        exact ⟨runs, hgrow (decide_eq_true hpt)⟩
      · rw [if_neg hpt, if_pos ⟨rfl, hpos⟩]
        exact ⟨_, hnext (decide_eq_false hpt)⟩
  | false =>
      by_cases hpt : pt n ≠ 0
      · rw [if_pos hpt, if_pos ⟨rfl, hpos⟩]
        exact ⟨_, hnext (decide_eq_true hpt)⟩
      · rw [if_neg hpt, if_neg (by simp)]
        exact ⟨runs, hgrow (decide_eq_false hpt)⟩

/-- The first entry begins the first run. -/
theorem summaryInv_loop (pt : Nat → Nat) (level : PtLevel) (n : Nat) :
    ∃ runs, SummaryInv pt level (n + 1) (dumpPtSummaryLoop pt level (n + 1)) runs := by
  induction n with
  | zero =>
      refine ⟨[], ?_⟩
      by_cases hpt : pt 0 ≠ 0
      · have hturn : dumpPtSummaryLoop pt level 1 = ⟨true, 1, []⟩ := if_pos hpt
        rw [hturn]
        exact ⟨maximal_single true Nat.one_pos, by simp [usedEntries, hpt], rfl⟩
      · have hturn : dumpPtSummaryLoop pt level 1 = ⟨false, 1, []⟩ := if_neg hpt
        rw [hturn]
        exact ⟨maximal_single false Nat.one_pos, by simpa [usedEntries] using hpt, rfl⟩
  | succ n ih =>
      obtain ⟨runs, h⟩ := ih
      exact h.turn

/-- The lines are those of the maximal runs of used and of unused entries. -/
theorem dumpPtSummary_runs (pt : Nat → Nat) (level : PtLevel) : ∃ runs, Maximal runs ∧
    expand runs = usedEntries pt PT_NUM_ENTRIES ∧ dumpPtSummary pt level = summaryLines level 0 runs := by
  obtain ⟨runs, h⟩ := summaryInv_loop pt level 511
  have hpos := h.maximal.pos _ (List.mem_append_right _ List.mem_cons_self)
  refine ⟨_, h.maximal, h.expand, ?_⟩
  unfold dumpPtSummary
  rw [← h.print]
  exact if_pos hpos

theorem summaryLines_consecutive (level : PtLevel) (i : Nat) (runs : List (Bool × Nat)) :
    Regions.Consecutive SummaryLine.start (fun line => line.count * 2 ^ ptLevelShift level) (i * 2 ^ ptLevelShift level)
      (summaryLines level i runs) ((i + (expand runs).length) * 2 ^ ptLevelShift level) := by
  induction runs generalizing i with
  | nil => rfl
  | cons r runs ih =>
      have hrest := ih (i + r.2)
      rw [Nat.add_mul] at hrest
      rw [expand_cons, List.length_append, List.length_replicate, ← Nat.add_assoc]
      refine ⟨rfl, ?_⟩
      rw [Nat.add_mul] at hrest
      rw [Nat.add_mul, Nat.add_mul]
      exact hrest

/-- The runs can be read off the lines. -/
theorem runs_of_summaryLines (level : PtLevel) (i : Nat) (runs : List (Bool × Nat)) :
    (summaryLines level i runs).map (fun line => (line.mapped, line.count)) = runs := by
  induction runs generalizing i with
  | nil => rfl
  | cons r runs ih => rw [summaryLines, List.map_cons, ih]

theorem summaryLines_start {runs : List (Bool × Nat)} {line : SummaryLine} (hline : line ∈ summaryLines level i runs) :
    i * 2 ^ ptLevelShift level ≤ line.start := by
  induction runs generalizing i with
  | nil => cases hline
  | cons r runs ih =>
      rcases List.mem_cons.mp hline with rfl | hline
      · exact Nat.le_refl _
      · exact (Nat.mul_le_mul_right _ (Nat.le_add_right i r.2)).trans (ih hline)

/-- The entries of a line. -/
theorem summaryLines_entries {runs : List (Bool × Nat)} {line : SummaryLine} (hline : line ∈ summaryLines level i runs) :
    line.end_ = line.start + line.count * 2 ^ ptLevelShift level ∧
      ∀ k, line.start ≤ (i + k) * 2 ^ ptLevelShift level → (i + k) * 2 ^ ptLevelShift level < line.end_ →
        (expand runs)[k]? = some line.mapped := by
  have hpos : 0 < 2 ^ ptLevelShift level := Nat.two_pow_pos _
  induction runs generalizing i with
  | nil => cases hline
  | cons r runs ih =>
      rw [expand_cons]
      rcases List.mem_cons.mp hline with rfl | hline
      · refine ⟨Nat.add_mul .., fun k _ hlt => ?_⟩
        have hk : k < r.2 := Nat.lt_of_add_lt_add_left (Nat.lt_of_mul_lt_mul_right hlt)
        rw [List.getElem?_append_left (by rwa [List.length_replicate]), List.getElem?_replicate, if_pos hk]
      · obtain ⟨hend, hentries⟩ := ih hline
        refine ⟨hend, fun k hlo hhi => ?_⟩
        -- the line is behind the first run
        have hk : r.2 ≤ k :=
          Nat.le_of_add_le_add_left (Nat.le_of_mul_le_mul_right ((summaryLines_start hline).trans hlo) hpos)
        obtain ⟨j, rfl⟩ := Nat.exists_eq_add_of_le hk
        rw [List.getElem?_append_right (by rw [List.length_replicate]; exact hk), List.length_replicate,
          Nat.add_sub_cancel_left]
        rw [← Nat.add_assoc] at hlo hhi
        exact hentries j hlo hhi

theorem getElem_usedEntries (pt : Nat → Nat) (hi : i < n) : (usedEntries pt n)[i]? = some (decide (pt i ≠ 0)) := by
  rw [usedEntries, List.getElem?_map, List.getElem?_range hi]
  rfl

/-- The lines of `dump_pt_summary` are those of one table: from end to end without a gap, mapped and unmapped in turn,
each as long as it can be, and each about its own entries. -/
theorem dumpPtSummary_exact (pt : Nat → Nat) (level : PtLevel) :
    Regions.Consecutive SummaryLine.start (fun line => line.count * 2 ^ ptLevelShift level) 0 (dumpPtSummary pt level)
        (PT_NUM_ENTRIES * 2 ^ ptLevelShift level) ∧
      (dumpPtSummary pt level).IsChain (fun line next => line.mapped ≠ next.mapped) ∧
      ∀ line ∈ dumpPtSummary pt level,
        0 < line.count ∧ line.end_ = line.start + line.count * 2 ^ ptLevelShift level ∧
          ∀ i < PT_NUM_ENTRIES, line.start ≤ i * 2 ^ ptLevelShift level → i * 2 ^ ptLevelShift level < line.end_ →
            (line.mapped = true ↔ pt i ≠ 0) := by
  obtain ⟨runs, hmaximal, hexpand, hlines⟩ := dumpPtSummary_runs pt level
  have hread := runs_of_summaryLines level 0 runs
  rw [hlines]
  refine ⟨?_, ?_, fun line hline => ?_⟩
  · have hconsecutive := summaryLines_consecutive level 0 runs
    rwa [hexpand, length_usedEntries, Nat.zero_add, Nat.zero_mul] at hconsecutive
  · have hchain := hmaximal.apart
    rwa [← hread, List.isChain_map] at hchain
  · obtain ⟨hend, hentries⟩ := summaryLines_entries hline
    have hrun : (line.mapped, line.count) ∈ runs := hread ▸ List.mem_map_of_mem hline
    refine ⟨hmaximal.pos _ hrun, hend, fun i hi hlo hhi => ?_⟩
    have hentry := hentries i (by rwa [Nat.zero_add]) (by rwa [Nat.zero_add])
    rw [hexpand, getElem_usedEntries pt hi, Option.some.injEq] at hentry
    rw [← hentry, decide_eq_true_iff]

/-- A line of `dump_pt` is about a used entry. -/
theorem used_of_mem_dumpPtLoop {line : TableLine} (hline : line ∈ dumpPtLoop pt level n) :
    ∃ i < n, pt i ≠ 0 ∧ line = ⟨i * 2 ^ ptLevelShift level, (i + 1) * 2 ^ ptLevelShift level, dumpPte (pt i) level⟩ := by
  induction n with
  | zero => cases hline
  | succ n ih =>
      unfold dumpPtLoop at hline
      by_cases hpt : pt n ≠ 0
      · rw [if_pos hpt] at hline
        rcases List.mem_append.mp hline with hline | hline
        · obtain ⟨i, hi, hrest⟩ := ih hline
          exact ⟨i, Nat.lt_succ_of_lt hi, hrest⟩
        · exact ⟨n, Nat.lt_succ_self n, hpt, List.mem_singleton.mp hline⟩
      · rw [if_neg hpt] at hline
        obtain ⟨i, hi, hrest⟩ := ih hline
        exact ⟨i, Nat.lt_succ_of_lt hi, hrest⟩

theorem mem_dumpPtLoop (level : PtLevel) (hi : i < n) (hpt : pt i ≠ 0) :
    ⟨i * 2 ^ ptLevelShift level, (i + 1) * 2 ^ ptLevelShift level, dumpPte (pt i) level⟩ ∈ dumpPtLoop pt level n := by
  induction n with
  | zero => cases hi
  | succ n ih =>
      unfold dumpPtLoop
      rcases Nat.lt_succ_iff_lt_or_eq.mp hi with hi | rfl
      · by_cases hptn : pt n ≠ 0
        · rw [if_pos hptn]
          exact List.mem_append_left _ (ih hi)
        · rw [if_neg hptn]
          exact ih hi
      · rw [if_pos hpt]
        exact List.mem_append_right _ List.mem_cons_self

/-- The line of an entry has the entry as it is. -/
theorem entry_of_dumpPt (hi : i < n) (h : dumpPtLoop pt level n = dumpPtLoop pt' level n) (hpt : pt i ≠ 0) :
    pt i = pt' i := by
  have hmem := mem_dumpPtLoop level hi hpt
  rw [h] at hmem
  obtain ⟨j, -, -, hline⟩ := used_of_mem_dumpPtLoop hmem
  have hij : i = j := Nat.eq_of_mul_eq_mul_right (Nat.two_pow_pos _) (congrArg TableLine.start hline)
  rw [hij]
  rw [hij] at hline
  exact congrArg (fun line => line.pte.raw) hline

theorem dumpPtLoop_congr (h : ∀ i < n, pt i = pt' i) : dumpPtLoop pt level n = dumpPtLoop pt' level n := by
  induction n with
  | zero => rfl
  | succ n ih =>
      unfold dumpPtLoop
      rw [ih fun i hi => h i (Nat.lt_succ_of_lt hi), h n (Nat.lt_succ_self n)]

/-- Two tables look the same to `dump_pt` if they are the same. -/
theorem dumpPt_eq_iff (pt pt' : Nat → Nat) (level : PtLevel) :
    dumpPt pt level = dumpPt pt' level ↔ ∀ i < PT_NUM_ENTRIES, pt i = pt' i := by
  refine ⟨fun h i hi => ?_, dumpPtLoop_congr⟩
  by_cases hpt : pt i ≠ 0
  · exact entry_of_dumpPt hi h hpt
  · by_cases hpt' : pt' i ≠ 0
    · exact (entry_of_dumpPt hi h.symm hpt').symm
    · rw [not_not.mp hpt, not_not.mp hpt']

/-- Two tables look the same to `dump_pt_summary` if the same entries are used. -/
theorem dumpPtSummary_eq_iff (pt pt' : Nat → Nat) (level : PtLevel) :
    dumpPtSummary pt level = dumpPtSummary pt' level ↔ ∀ i < PT_NUM_ENTRIES, (pt i ≠ 0 ↔ pt' i ≠ 0) := by
  obtain ⟨runs, hmaximal, hexpand, hlines⟩ := dumpPtSummary_runs pt level
  obtain ⟨runs', hmaximal', hexpand', hlines'⟩ := dumpPtSummary_runs pt' level
  have hused : usedEntries pt PT_NUM_ENTRIES = usedEntries pt' PT_NUM_ENTRIES ↔
      ∀ i < PT_NUM_ENTRIES, (pt i ≠ 0 ↔ pt' i ≠ 0) := by
    rw [usedEntries, usedEntries, List.map_inj_left]
    simp only [List.mem_range, decide_eq_decide]
  rw [← hused, hlines, hlines']
  constructor
  · intro h
    have hruns := runs_of_summaryLines level 0 runs
    rw [h, runs_of_summaryLines] at hruns
    rw [← hexpand, ← hexpand', hruns]
  · intro h
    rw [← hexpand, ← hexpand'] at h
    rw [hmaximal.unique hmaximal' h]

/-- The dumps tell tables apart as far as they can: `dump_pt` by every entry, `dump_pt_summary` by the used ones. -/
theorem dumps_faithful (pt pt' : Nat → Nat) (level : PtLevel) :
    (dumpPt pt level = dumpPt pt' level ↔ ∀ i < PT_NUM_ENTRIES, pt i = pt' i) ∧
      (dumpPtSummary pt level = dumpPtSummary pt' level ↔ ∀ i < PT_NUM_ENTRIES, (pt i ≠ 0 ↔ pt' i ≠ 0)) :=
  ⟨dumpPt_eq_iff pt pt' level, dumpPtSummary_eq_iff pt pt' level⟩

end Dangless
