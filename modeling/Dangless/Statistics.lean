import Dangless.LibTailList
import Mathlib.Data.List.Basic
import Mathlib.Data.List.Dedup

/-! The registration of statistics by constructors, and the report (`statistics.c`, `statistics.h`). The objects of type
`struct statistic` and `struct statistic_file` are named by `S` and `F`. -/

namespace Dangless

open TailList

variable {S F : Type} {path : F → String} {mem : Nat → Nat}

/-- `enum statistic_type`. -/
inductive StatisticType where
  | counter
  deriving DecidableEq

/-- `struct statistic`. -/
structure Statistic (S : Type) where
  name : String
  type : StatisticType
  dataPtr : Nat
  next : Option S

/-- `struct statistic_file`. -/
structure StatisticFile (S F : Type) where
  isLinked : Bool
  filepath : Option String
  first : Option S
  last : Option S
  numStatistics : Nat
  next : Option F

/-- All objects, with `g_statistics_file_first` and `g_statistics_file_last`. -/
structure Statistics (S F : Type) where
  stat : S → Statistic S
  file : F → StatisticFile S F
  fileFirst : Option F
  fileLast : Option F

/-- The objects as they are initialised. -/
def Statistics.start (decl : S → Statistic S) : Statistics S F where
  stat := fun st => { decl st with next := none }
  file := fun _ => ⟨false, none, none, none, 0, none⟩
  fileFirst := none
  fileLast := none

/-- What the report prints: headings, a line for a file, a line for a counter. -/
inductive ReportLine where
  | statistics
  | noStatistics
  | file (filepath : Option String)
  | counter (name : String) (value : Nat)
  deriving DecidableEq

section Model

variable [DecidableEq S] [DecidableEq F]

def Statistics.setStat (s : Statistics S F) (st : S) (v : Statistic S) : Statistics S F :=
  { s with stat := Function.update s.stat st v }

def Statistics.setFile (s : Statistics S F) (f : F) (v : StatisticFile S F) : Statistics S F :=
  { s with file := Function.update s.file f v }

/-- `statistic_file_register`, with its answer. There is no result where a null pointer is written through. -/
def statisticFileRegister (s : Statistics S F) (stfile : F) : Option (Statistics S F × Bool) :=
  if (s.file stfile).isLinked then some (s, false)
  else
    let s := s.setFile stfile { s.file stfile with isLinked := true }
    match s.fileFirst, s.fileLast with
    | none, _ => some ({ s with fileFirst := some stfile, fileLast := some stfile }, true)
    | some _, some last =>
        some ({ s.setFile last { s.file last with next := some stfile } with fileLast := some stfile }, true)
    | some _, none => none

/-- `statistic_register`. -/
def statisticRegister (s : Statistics S F) (stfile : F) (stat : S) : Option (Statistics S F) :=
  let file := s.file stfile
  let count := file.numStatistics + 1
  match file.first, file.last with
  | none, _ => some (s.setFile stfile { file with first := some stat, last := some stat, numStatistics := count })
  | some _, some last =>
      let s := s.setStat last { s.stat last with next := some stat }
      some (s.setFile stfile { file with last := some stat, numStatistics := count })
  | some _, none => none

/-- What a constructor is about: the statistic, and the `statistic_this_file` of its source file. -/
structure Registration (S F : Type) where
  stat : S
  stfile : F

/-- The constructor of `STATISTIC_DEFINE_COUNTER` up to the end of its `if`. The path is `__FILE__`. -/
def statRegisterFile (path : F → String) (s : Statistics S F) (stfile : F) : Option (Statistics S F) := do
  let (s, new) ← statisticFileRegister s stfile
  some (if new then s.setFile stfile { s.file stfile with filepath := some (path stfile) } else s)

/-- The constructor of `STATISTIC_DEFINE_COUNTER`. -/
def statRegister (path : F → String) (s : Statistics S F) (c : Registration S F) : Option (Statistics S F) := do
  let s ← statRegisterFile path s c.stfile
  statisticRegister s c.stfile c.stat

/-- The constructors, in the order in which they run. -/
def statRegisterAll (path : F → String) (cs : List (Registration S F)) (s : Statistics S F) :
    Option (Statistics S F) :=
  cs.foldlM (statRegister path) s

end Model

/-- `statistic_print`, over the memory that the counters are in. -/
def statisticPrint (mem : Nat → Nat) (st : Statistic S) : ReportLine :=
  match st.type with
  | .counter => .counter st.name (mem st.dataPtr)

/-- `dangless_report_statistics`. -/
def danglessReportStatistics (mem : Nat → Nat) (s : Statistics S F) (fuel : Nat) : Option (List ReportLine) :=
  match s.fileFirst with
  | none => some [.statistics, .noStatistics]
  | some first => do
      let out ← forEach (fun f => (s.file f).next) (fun f => do
        let out ← forEach (fun st => (s.stat st).next) (fun st => some [statisticPrint mem (s.stat st)]) fuel
          (s.file f).first
        some (.file (s.file f).filepath :: out)) fuel (some first)
      some (.statistics :: out)

variable {s : Statistics S F} {f g : F} {st st' : S}

section Files

variable [DecidableEq F] {cs : List (Registration S F)} {c : Registration S F}

/-- The files of some constructors, in the order of their first ones. -/
def filesOf (cs : List (Registration S F)) : List F := (cs.map Registration.stfile).eraseDups

/-- The statistics of a file, in the order of their constructors. -/
def statsOf (cs : List (Registration S F)) (f : F) : List S :=
  (cs.filter fun c => c.stfile = f).map Registration.stat

/-- The list of files after a file has been registered. -/
def withFile (files : List F) (f : F) : List F := if f ∈ files then files else files ++ [f]

theorem filesOf_concat (cs : List (Registration S F)) (c : Registration S F) :
    filesOf (cs ++ [c]) = withFile (filesOf cs) c.stfile := by
  rw [filesOf, List.map_append, List.eraseDups_append, List.map_cons, List.map_nil, List.cons_removeAll, ← filesOf,
    withFile]
  by_cases hmem : c.stfile ∈ cs.map Registration.stfile
  · rw [if_pos (show c.stfile ∈ filesOf cs from List.mem_eraseDups.mpr hmem)]
    simp only [List.contains_iff_mem.mpr hmem, List.nil_removeAll, reduceCtorEq, if_false, List.eraseDups_nil,
      List.append_nil]
  · rw [if_neg (show c.stfile ∉ filesOf cs from fun h => hmem (List.mem_eraseDups.mp h))]
    have hcontains : (cs.map Registration.stfile).contains c.stfile = false :=
      Bool.eq_false_iff.mpr fun h => hmem (List.contains_iff_mem.mp h)
    rw [if_pos hcontains, List.nil_removeAll, List.eraseDups_cons, List.filter_nil, List.eraseDups_nil]

theorem statsOf_concat_self (cs : List (Registration S F)) (c : Registration S F) :
    statsOf (cs ++ [c]) c.stfile = statsOf cs c.stfile ++ [c.stat] := by
  simp [statsOf]

theorem statsOf_concat_of_ne (hf : c.stfile ≠ f) : statsOf (cs ++ [c]) f = statsOf cs f := by
  simp [statsOf, hf]

theorem mem_statsOf_iff : st ∈ statsOf cs f ↔ ∃ c ∈ cs, c.stfile = f ∧ c.stat = st := by
  simp [statsOf, and_assoc]

/-- A statistic has one constructor, so it is in the list of one file. -/
theorem file_eq_of_mem_statsOf (hcs : (cs.map Registration.stat).Nodup) (hf : st ∈ statsOf cs f) (hg : st ∈ statsOf cs g) :
    f = g := by
  obtain ⟨c, hc, hcf, hcst⟩ := mem_statsOf_iff.mp hf
  obtain ⟨d, hd, hdg, hdst⟩ := mem_statsOf_iff.mp hg
  obtain rfl : c = d := List.inj_on_of_nodup_map hcs hc hd (hcst.trans hdst.symm)
  exact hcf.symm.trans hdg

theorem length_statsOf_le (cs : List (Registration S F)) (f : F) : (statsOf cs f).length ≤ cs.length := by
  rw [statsOf, List.length_map]
  exact List.length_filter_le _ cs

@[simp] theorem setFile_self (s : Statistics S F) (f : F) (v : StatisticFile S F) : (s.setFile f v).file f = v :=
  Function.update_self ..

theorem setFile_of_ne {v : StatisticFile S F} (h : g ≠ f) : (s.setFile f v).file g = s.file g :=
  Function.update_of_ne h ..

/-- A field that is not written stays in all files. -/
theorem setFile_keeps {β : Type} (field : StatisticFile S F → β) {v : StatisticFile S F}
    (h : field v = field (s.file f)) (g : F) : field ((s.setFile f v).file g) = field (s.file g) := by
  by_cases hg : g = f
  · rw [hg, setFile_self, h]
  · rw [setFile_of_ne hg]

end Files

section Stats

variable [DecidableEq S]

@[simp] theorem setStat_self (s : Statistics S F) (st : S) (v : Statistic S) : (s.setStat st v).stat st = v :=
  Function.update_self ..

theorem setStat_of_ne {v : Statistic S} (h : st' ≠ st) : (s.setStat st v).stat st' = s.stat st' :=
  Function.update_of_ne h ..

theorem setStat_keeps {β : Type} (field : Statistic S → β) {v : Statistic S} (h : field v = field (s.stat st)) (st' : S) :
    field ((s.setStat st v).stat st') = field (s.stat st') := by
  by_cases hst : st' = st
  · rw [hst, setStat_self, h]
  · rw [setStat_of_ne hst]

end Stats

end Dangless
