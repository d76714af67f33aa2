import Dangless.Statistics
import Mathlib.Data.List.Induction
import Mathlib.Data.List.Perm.Subperm

/-! In whatever order the constructors run, every statistic is in the report, once, under its file. -/

namespace Dangless

open TailList

variable {S F : Type} {path : F → String} {decl : S → Statistic S} {cs : List (Registration S F)}
  {c : Registration S F} {files : List F} {f : F} {s s' : Statistics S F}

/-- The fields for the list of files. -/
def StatisticFile.links (v : StatisticFile S F) : Bool × Option String × Option F := (v.isLinked, v.filepath, v.next)

/-- The fields for the list of its statistics. -/
def StatisticFile.stats (v : StatisticFile S F) : Option S × Option S × Nat := (v.first, v.last, v.numStatistics)

/-- The list of files, when some have been registered. -/
structure FileInv (path : F → String) (files : List F) (s : Statistics S F) : Prop where
  list : IsList (fun f => (s.file f).next) s.fileFirst s.fileLast files
  known : ∀ f ∈ files, (s.file f).isLinked = true ∧ (s.file f).filepath = some (path f)
  free : ∀ f ∉ files, (s.file f).isLinked = false ∧ (s.file f).next = none

theorem FileInv.frame (h : FileInv path files s) (hfirst : s'.fileFirst = s.fileFirst) (hlast : s'.fileLast = s.fileLast)
    (hlinks : ∀ f, (s'.file f).links = (s.file f).links) : FileInv path files s' := by
  have hlinked : ∀ f, (s'.file f).isLinked = (s.file f).isLinked := fun f => congrArg Prod.fst (hlinks f)
  have hpath : ∀ f, (s'.file f).filepath = (s.file f).filepath := fun f => congrArg (fun l => l.2.1) (hlinks f)
  have hnext : ∀ f, (s'.file f).next = (s.file f).next := fun f => congrArg (fun l => l.2.2) (hlinks f)
  constructor
  · rw [hfirst, hlast]
    exact h.list.congr fun f _ => hnext f
  · intro f hf
    rw [hlinked, hpath]
    exact h.known f hf
  · intro f hf
    rw [hlinked, hnext]
    exact h.free f hf

theorem fileInv_start : FileInv path [] (Statistics.start decl : Statistics S F) :=
  ⟨isList_nil _, nofun, fun _ _ => ⟨rfl, rfl⟩⟩

theorem FileInv.grow (h : FileInv path files s) (hf : f ∉ files)
    (hlist : IsList (fun g => (s'.file g).next) s'.fileFirst s'.fileLast (files ++ [f]))
    (hself : (s'.file f).isLinked = true ∧ (s'.file f).filepath = some (path f))
    (hother : ∀ g ≠ f, (s'.file g).isLinked = (s.file g).isLinked ∧ (s'.file g).filepath = (s.file g).filepath)
    (hfree : ∀ g ∉ files ++ [f], (s'.file g).next = (s.file g).next) : FileInv path (files ++ [f]) s' := by
  refine ⟨hlist, fun g hg => ?_, fun g hg => ?_⟩
  · rcases List.mem_append.mp hg with hg | hg
    · have hgf : g ≠ f := fun heq => hf (heq ▸ hg)
      rw [(hother g hgf).1, (hother g hgf).2]
      exact h.known g hg
    · rw [List.mem_singleton.mp hg]
      exact hself
  · have hgf : g ≠ f := fun heq => hg (heq ▸ List.mem_append_right _ List.mem_cons_self)
    rw [(hother g hgf).1, hfree g hg]
    exact h.free g fun hmem => hg (List.mem_append_left _ hmem)

variable [DecidableEq F]

/-- The lists of statistics after some constructors. -/
structure StatInv (decl : S → Statistic S) (cs : List (Registration S F)) (s : Statistics S F) : Prop where
  list : ∀ f, IsList (fun st => (s.stat st).next) (s.file f).first (s.file f).last (statsOf cs f)
  count : ∀ f, (s.file f).numStatistics = (statsOf cs f).length
  free : ∀ st ∉ cs.map Registration.stat, (s.stat st).next = none
  text : ∀ mem st, statisticPrint mem (s.stat st) = statisticPrint mem (decl st)

theorem StatInv.frame (h : StatInv decl cs s) (hstat : s'.stat = s.stat)
    (hstats : ∀ f, (s'.file f).stats = (s.file f).stats) : StatInv decl cs s' := by
  have hfirst : ∀ f, (s'.file f).first = (s.file f).first := fun f => congrArg Prod.fst (hstats f)
  have hlast : ∀ f, (s'.file f).last = (s.file f).last := fun f => congrArg (fun l => l.2.1) (hstats f)
  have hcount : ∀ f, (s'.file f).numStatistics = (s.file f).numStatistics := fun f => congrArg (fun l => l.2.2) (hstats f)
  constructor
  · intro f
    rw [hfirst, hlast, hstat]
    exact h.list f
  · intro f
    rw [hcount]
    exact h.count f
  · rw [hstat]
    exact h.free
  · rw [hstat]
    exact h.text

theorem statInv_start : StatInv decl [] (Statistics.start decl : Statistics S F) :=
  ⟨fun _ => isList_nil _, fun _ => rfl, fun _ _ => rfl, fun _ _ => rfl⟩

theorem statRegisterFile_linked (h : (s.file f).isLinked = true) : statRegisterFile path s f = some s := by
  have hfile : statisticFileRegister s f = some (s, false) := if_pos h
  rw [statRegisterFile, hfile]
  rfl

/-- The first file. -/
theorem statRegisterFile_first (path : F → String) (h : (s.file f).isLinked = false) (hfirst : s.fileFirst = none) :
    ∃ s', statRegisterFile path s f = some s' ∧ s'.stat = s.stat ∧ s'.fileFirst = some f ∧ s'.fileLast = some f ∧
      s'.file f = { s.file f with isLinked := true, filepath := some (path f) } ∧
      ∀ g ≠ f, s'.file g = s.file g := by
  let s₁ := s.setFile f { s.file f with isLinked := true }
  let s₂ : Statistics S F := { s₁ with fileFirst := some f, fileLast := some f }
  have hfirst₁ : s₁.fileFirst = none := hfirst
  have hfile : statisticFileRegister s f = some (s₂, true) := by
    unfold statisticFileRegister
    rw [if_neg (by rw [h]; exact Bool.false_ne_true)]
    simp only [s₁] at hfirst₁
    simp only [hfirst₁]
    rfl
  refine ⟨s₂.setFile f { s₂.file f with filepath := some (path f) }, ?_, rfl, rfl, rfl, ?_, fun g hg => ?_⟩
  · rw [statRegisterFile, hfile]
    rfl
  · have hself₂ : s₂.file f = { s.file f with isLinked := true } := setFile_self s f _
    rw [setFile_self, hself₂]
  · rw [setFile_of_ne hg]
    exact setFile_of_ne hg

/-- Another file. -/
theorem statRegisterFile_next (path : F → String) {y l : F} (h : (s.file f).isLinked = false) (hfirst : s.fileFirst = some y)
    (hlast : s.fileLast = some l) (hlf : l ≠ f) :
    ∃ s', statRegisterFile path s f = some s' ∧ s'.stat = s.stat ∧ s'.fileFirst = some y ∧ s'.fileLast = some f ∧
      s'.file f = { s.file f with isLinked := true, filepath := some (path f) } ∧
      s'.file l = { s.file l with next := some f } ∧ ∀ g ≠ f, g ≠ l → s'.file g = s.file g := by
  let s₁ := s.setFile f { s.file f with isLinked := true }
  let s₂ : Statistics S F := { s₁.setFile l { s₁.file l with next := some f } with fileLast := some f }
  have hfirst₁ : s₁.fileFirst = some y := hfirst
  have hlast₁ : s₁.fileLast = some l := hlast
  have hfile : statisticFileRegister s f = some (s₂, true) := by
    unfold statisticFileRegister
    rw [if_neg (by rw [h]; exact Bool.false_ne_true)]
    simp only [s₁] at hfirst₁ hlast₁
    simp only [hfirst₁, hlast₁]
    rfl
  refine ⟨s₂.setFile f { s₂.file f with filepath := some (path f) }, ?_, rfl, hfirst, rfl, ?_, ?_, fun g hg hgl => ?_⟩
  · rw [statRegisterFile, hfile]
    rfl
  · have hself₂ : s₂.file f = s₁.file f := setFile_of_ne hlf.symm
    rw [setFile_self, hself₂, setFile_self]
  · have hlast₂ : s₂.file l = { s₁.file l with next := some f } := setFile_self s₁ l _
    rw [setFile_of_ne hlf, hlast₂, setFile_of_ne hlf]
  · rw [setFile_of_ne hg]
    exact (setFile_of_ne hgl).trans (setFile_of_ne hg)

/-- A file is registered by its first constructor. Its statistics are as before. -/
theorem FileInv.register (h : FileInv path files s) (f : F) : ∃ s', statRegisterFile path s f = some s' ∧
    FileInv path (withFile files f) s' ∧ ∀ {decl cs}, StatInv decl cs s → StatInv decl cs s' := by
  have hlist := h.list
  by_cases hf : f ∈ files
  · refine ⟨s, statRegisterFile_linked (h.known f hf).1, ?_, fun hstat => hstat⟩
    rw [withFile, if_pos hf]
    exact h
  rw [withFile, if_neg hf]
  obtain ⟨hnew, hend⟩ := h.free f hf
  have hnot : ∀ {g}, g ∉ files ++ [f] → g ≠ f := fun hg heq => hg (heq ▸ List.mem_append_right _ List.mem_cons_self)
  cases hfirst : s.fileFirst with
  | none =>
      rw [hfirst] at hlist
      obtain ⟨s', hrun, hstat, hfirst', hlast', hself, hother⟩ := statRegisterFile_first path hnew hfirst
      refine ⟨s', hrun, h.grow hf ?_ ?_ (fun g hg => ?_) fun g hg => ?_, fun hinv => hinv.frame hstat fun g => ?_⟩
      · rw [hfirst', hlast']
        refine hlist.single ?_
        rw [hself]
        exact hend
      · rw [hself]
        exact ⟨rfl, rfl⟩
      · rw [hother g hg]
        exact ⟨rfl, rfl⟩
      · rw [hother g (hnot hg)]
      · by_cases hg : g = f
        · rw [hg, hself]
          rfl
        · rw [hother g hg]
  | some y =>
      rw [hfirst] at hlist
      obtain ⟨l, hl, hlast⟩ := hlist.last_of_first
      rw [hlast] at hlist
      have hlf : l ≠ f := fun heq => hf (heq ▸ hl)
      obtain ⟨s', hrun, hstat, hfirst', hlast', hself, hprev, hother⟩ :=
        statRegisterFile_next path hnew hfirst hlast hlf
      have hfields : ∀ g ≠ f, s'.file g = { s.file g with next := (s'.file g).next } := by
        intro g hg
        by_cases hgl : g = l
        · rw [hgl, hprev]
        · rw [hother g hg hgl]
      refine ⟨s', hrun, h.grow hf ?_ ?_ (fun g hg => ?_) fun g hg => ?_, fun hinv => hinv.frame hstat fun g => ?_⟩
      · rw [hfirst', hlast']
        refine hlist.append hf ?_ ?_ fun g hg hgl => ?_
        · rw [hprev]
        · rw [hself]
          exact hend
        · rw [hother g (fun heq => hf (heq ▸ hg)) hgl]
      · rw [hself]
        exact ⟨rfl, rfl⟩
      · rw [hfields g hg]
        exact ⟨rfl, rfl⟩
      · rw [hother g (hnot hg) fun heq => hg (List.mem_append_left _ (heq ▸ hl))]
      · by_cases hg : g = f
        · rw [hg, hself]
          rfl
        · rw [hfields g hg]
          rfl

theorem FileInv.nil_iff (h : FileInv path (filesOf cs) s) : s.fileFirst = none ↔ cs = [] := by
  constructor
  · intro hfirst
    have hlist := h.list
    rw [hfirst] at hlist
    have hnil := hlist.nil_of_first
    cases cs with
    | nil => rfl
    | cons c cs =>
        have hmem : c.stfile ∈ filesOf (c :: cs) := List.mem_eraseDups.mpr List.mem_cons_self
        rw [hnil] at hmem
        cases hmem
  · rintro rfl
    exact h.list.linked

theorem FileInv.length_le (h : FileInv path (filesOf cs) s) : (filesOf cs).length ≤ cs.length := by
  have hsub : filesOf cs ⊆ cs.map Registration.stfile := fun f hf => List.mem_eraseDups.mp hf
  have hlength := (List.subperm_of_subset h.list.nodup hsub).length_le
  rwa [List.length_map] at hlength

variable [DecidableEq S]

/-- The first statistic of a file. -/
theorem statisticRegister_first (st : S) (hfirst : (s.file f).first = none) :
    statisticRegister s f st = some (s.setFile f { s.file f with
      first := some st, last := some st, numStatistics := (s.file f).numStatistics + 1 }) := by
  unfold statisticRegister
  simp only [hfirst]

/-- Another statistic. -/
theorem statisticRegister_next (st : S) {y l : S} (hfirst : (s.file f).first = some y) (hlast : (s.file f).last = some l) :
    statisticRegister s f st = some ((s.setStat l { s.stat l with next := some st }).setFile f { s.file f with
      last := some st, numStatistics := (s.file f).numStatistics + 1 }) := by
  unfold statisticRegister
  simp only [hfirst, hlast]

/-- A statistic is registered by its constructor. The list of files is as before. -/
theorem StatInv.register (h : StatInv decl cs s) (hcs : (cs.map Registration.stat).Nodup)
    (hc : c.stat ∉ cs.map Registration.stat) : ∃ s', statisticRegister s c.stfile c.stat = some s' ∧
      StatInv decl (cs ++ [c]) s' ∧ ∀ {path files}, FileInv path files s → FileInv path files s' := by
  have hlist := h.list c.stfile
  have hend := h.free c.stat hc
  have hmem : ∀ {f st}, st ∈ statsOf cs f → st ∈ cs.map Registration.stat := by
    intro f st hst
    obtain ⟨d, hd, -, hdst⟩ := mem_statsOf_iff.mp hst
    exact hdst ▸ List.mem_map_of_mem hd
  have hnot : ∀ {st}, st ∉ (cs ++ [c]).map Registration.stat → st ∉ cs.map Registration.stat :=
    fun hst hold => hst (List.map_append ▸ List.mem_append_left _ hold)
  cases hfirst : (s.file c.stfile).first with
  | none =>
      rw [hfirst] at hlist
      refine ⟨_, statisticRegister_first c.stat hfirst, ⟨fun f => ?_, fun f => ?_, fun st hst => ?_, h.text⟩,
        fun hfile => hfile.frame rfl rfl fun f => setFile_keeps StatisticFile.links (by rfl) f⟩
      · by_cases hf : f = c.stfile
        · rw [hf, setFile_self, statsOf_concat_self]
          exact hlist.single hend
        · rw [setFile_of_ne hf, statsOf_concat_of_ne (Ne.symm hf)]
          exact h.list f
      · by_cases hf : f = c.stfile
        · rw [hf, setFile_self, statsOf_concat_self, List.length_append, ← h.count]
          rfl
        · rw [setFile_of_ne hf, statsOf_concat_of_ne (Ne.symm hf)]
          exact h.count f
      · exact h.free st (hnot hst)
  | some y =>
      rw [hfirst] at hlist
      obtain ⟨l, hl, hlast⟩ := hlist.last_of_first
      have hcl : c.stat ≠ l := fun heq => hc (heq ▸ hmem hl)
      have hother : ∀ st ≠ l, (s.setStat l { s.stat l with next := some c.stat }).stat st = s.stat st :=
        fun st hst => setStat_of_ne hst
      refine ⟨_, statisticRegister_next c.stat hfirst hlast, ⟨fun f => ?_, fun f => ?_, fun st hst => ?_, fun mem st => ?_⟩,
        fun hfile => hfile.frame rfl rfl fun f => setFile_keeps StatisticFile.links (by rfl) f⟩
      · by_cases hf : f = c.stfile
        · rw [hf, setFile_self, statsOf_concat_self, hfirst]
          rw [hlast] at hlist
          refine hlist.append (fun hst => hc (hmem hst)) ?_ ?_ fun st _ hst => ?_
          · exact congrArg Statistic.next (setStat_self s l _)
          · exact (congrArg Statistic.next (hother c.stat hcl)).trans hend
          · exact congrArg Statistic.next (hother st hst)
        · rw [setFile_of_ne hf, statsOf_concat_of_ne (Ne.symm hf)]
          -- the list of another file does not have `l`
          refine (h.list f).congr fun st hst => ?_
          have hstl : st ≠ l := fun heq => hf (file_eq_of_mem_statsOf hcs hst (heq ▸ hl))
          exact congrArg Statistic.next (hother st hstl)
      · by_cases hf : f = c.stfile
        · rw [hf, setFile_self, statsOf_concat_self, List.length_append, ← h.count]
          rfl
        · rw [setFile_of_ne hf, statsOf_concat_of_ne (Ne.symm hf)]
          exact h.count f
      · have hstl : st ≠ l := fun heq => hnot hst (heq ▸ hmem hl)
        exact (congrArg Statistic.next (hother st hstl)).trans (h.free st (hnot hst))
      · rw [← h.text mem st]
        exact setStat_keeps (statisticPrint mem) (by rfl) st

theorem statRegisterAll_concat (path : F → String) (cs : List (Registration S F)) (c : Registration S F)
    (s : Statistics S F) :
    statRegisterAll path (cs ++ [c]) s = (statRegisterAll path cs s).bind fun s => statRegister path s c := by
  rw [statRegisterAll, List.foldlM_append, ← statRegisterAll]
  simp only [List.foldlM_cons, List.foldlM_nil, Option.bind_eq_bind, Option.pure_def, Option.bind_fun_some]

/-- After some constructors, each for another statistic. -/
theorem statRegisterAll_inv (path : F → String) (decl : S → Statistic S) (cs : List (Registration S F))
    (hcs : (cs.map Registration.stat).Nodup) :
    ∃ s, statRegisterAll path cs (Statistics.start decl) = some s ∧ FileInv path (filesOf cs) s ∧ StatInv decl cs s := by
  induction cs using List.reverseRecOn with
  | nil => exact ⟨_, rfl, fileInv_start, statInv_start⟩
  | append_singleton cs c ih =>
      rw [List.map_append, List.nodup_append] at hcs
      obtain ⟨hcs, -, hapart⟩ := hcs
      have hc : c.stat ∉ cs.map Registration.stat := fun h => hapart _ h _ List.mem_cons_self rfl
      obtain ⟨s, hrun, hfile, hstat⟩ := ih hcs
      obtain ⟨s₁, hrun₁, hfile₁, hstat₁⟩ := hfile.register c.stfile
      obtain ⟨s₂, hrun₂, hstat₂, hfile₂⟩ := (hstat₁ hstat).register hcs hc
      refine ⟨s₂, ?_, ?_, hstat₂⟩
      · have hlast : statRegister path s c = some s₂ := by
          rw [statRegister, hrun₁]
          exact hrun₂
        rw [statRegisterAll_concat, hrun]
        exact hlast
      · rw [filesOf_concat]
        exact hfile₂ hfile₁

/-- What the report has about a file. -/
def fileReport (mem : Nat → Nat) (path : F → String) (decl : S → Statistic S) (cs : List (Registration S F)) (f : F) :
    List ReportLine :=
  .file (some (path f)) :: (statsOf cs f).map fun st => statisticPrint mem (decl st)

/-- Whatever files the constructors come from and in whatever order they run, no null pointer is written through, each
file counts its statistics, and the report ends and has every file and under it every statistic, once and in order. -/
theorem statistics_reported (mem : Nat → Nat) (path : F → String) (decl : S → Statistic S) (cs : List (Registration S F))
    (hcs : (cs.map Registration.stat).Nodup) :
    ∃ s, statRegisterAll path cs (Statistics.start decl) = some s ∧
      (∀ f, (s.file f).numStatistics = (statsOf cs f).length) ∧
      ∀ fuel, cs.length ≤ fuel → danglessReportStatistics mem s fuel = some (.statistics ::
        if cs = [] then [.noStatistics] else (filesOf cs).flatMap (fileReport mem path decl cs)) := by
  obtain ⟨s, hrun, hfile, hstat⟩ := statRegisterAll_inv path decl cs hcs
  refine ⟨s, hrun, hstat.count, fun fuel hfuel => ?_⟩
  have hstats : ∀ f, forEach (fun st => (s.stat st).next) (fun st => some [statisticPrint mem (s.stat st)]) fuel
      (s.file f).first = some ((statsOf cs f).map fun st => statisticPrint mem (decl st)) := by
    intro f
    have hbody : ∀ st ∈ statsOf cs f, some [statisticPrint mem (s.stat st)] = some [statisticPrint mem (decl st)] :=
      fun st _ => by rw [hstat.text mem st]
    rw [forEach_linked (hstat.list f).linked hbody (Nat.le_trans (length_statsOf_le cs f) hfuel), ← List.map_eq_flatMap]
  unfold danglessReportStatistics
  cases hfirst : s.fileFirst with
  | none =>
      rw [if_pos (hfile.nil_iff.mp hfirst)]
  | some y =>
      have hne : cs ≠ [] := fun hnil => Option.some_ne_none y (hfirst.symm.trans (hfile.nil_iff.mpr hnil))
      have hlinked := hfile.list.linked
      rw [hfirst] at hlinked
      dsimp only
      rw [if_neg hne, forEach_linked hlinked (fun f hf => ?_) (Nat.le_trans hfile.length_le hfuel)]
      · rfl
      · rw [hstats, (hfile.known f hf).2]
        rfl

/-- Three counters of two files. -/
def twoFiles : List (Registration Nat Bool) := [⟨0, true⟩, ⟨1, false⟩, ⟨2, true⟩]

def twoFilesPath (fixup : Bool) : String := if fixup then "vmcall_fixup.c" else "sysmalloc.c"

def twoFilesDecl (st : Nat) : Statistic Nat :=
  ⟨["st_vmcall_ptr_fixups", "st_sysmalloc_count", "st_vmcall_ptr_fixup_misses"].getD st "", .counter, 8 * st, none⟩

theorem statistics_reported_two_files : (twoFiles.map Registration.stat).Nodup ∧
    ∃ s, statRegisterAll twoFilesPath twoFiles (Statistics.start twoFilesDecl) = some s ∧
      danglessReportStatistics (fun a => a + 1) s 3 = some [.statistics, .file (some "vmcall_fixup.c"),
        .counter "st_vmcall_ptr_fixups" 1, .counter "st_vmcall_ptr_fixup_misses" 17, .file (some "sysmalloc.c"),
        .counter "st_sysmalloc_count" 9] := by
  have hcs : (twoFiles.map Registration.stat).Nodup := by decide
  obtain ⟨s, hrun, -, hreport⟩ := statistics_reported (fun a => a + 1) twoFilesPath twoFilesDecl twoFiles hcs
  exact ⟨hcs, s, hrun, (hreport 3 (Nat.le_refl 3)).trans rfl⟩

end Dangless
