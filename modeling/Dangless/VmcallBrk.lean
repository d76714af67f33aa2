import Dangless.DuneTables
import Dangless.LibRun
import Dangless.VmcallFixup

/-! The work-around for `brk` above 4 GB: runs of `brk` calls through the hooks, beside the program break of the
host. -/

namespace Dangless

variable {L : DuneLayout} {pt : PtState} {grows : Nat → Bool} {config : TraceConfig}
  {table : List VmcallFixupInfo}

/-- Dune does not map what lies above. -/
def BRK_LIMIT : Nat := 0x100000000

/-- `SYS_brk`. -/
def SYS_BRK : Nat := 12

/-- `brk` of the host, which moves the break where it can: both the break and the result. -/
def hostBrk (granted : Bool) (addr brk : Nat) : Nat := if addr ≠ 0 ∧ granted then addr else brk

/-- The registers with the arguments, and whether the host can move the break. -/
structure BrkCall where
  args : Nat → Nat
  granted : Bool

/-- What a call was about, and what the process was told. -/
structure BrkAnswer where
  addr : Nat
  before : Nat
  after : Nat
  result : Nat

/-- `answers` is the history, the last call first. -/
structure BrkState where
  hook : HookState
  brk : Nat
  answers : List BrkAnswer

/-- One call: the pre-hook, the host, the post-hook. -/
def BrkStep (L : DuneLayout) (pt : PtState) (grows : Nat → Bool) (config : TraceConfig)
    (table : List VmcallFixupInfo) (s : BrkState) (call : BrkCall) (s' : BrkState) : Prop :=
  ∃ hook1 hook2 result,
    danglessVmcallPrehook L pt grows config table SYS_BRK { s.hook with args := call.args } = .ok hook1 ∧
    danglessVmcallPosthook pt (hostBrk call.granted (hook1.args 0) s.brk) hook1 = .ok (result, hook2) ∧
    s' = ⟨hook2, hostBrk call.granted (hook1.args 0) s.brk,
      ⟨call.args 0, s.brk, hostBrk call.granted (hook1.args 0) s.brk, result⟩ :: s.answers⟩

/-- No argument of a system call is a pointer. -/
def TakesNoPointers (table : List VmcallFixupInfo) (syscallno : Nat) : Prop :=
  ∀ info, vmcallGetFixupInfo table syscallno = some info → ∀ param ∈ info.params, param = .none

/-- The process has not been told of a break above 4 GB, and a call that was reported as failed has not moved the
break. -/
def HidesHighBreak (s : BrkState) : Prop :=
  ∀ answer ∈ s.answers, answer.result ≤ BRK_LIMIT ∧
    (answer.addr ≠ 0 → answer.result ≠ answer.addr → answer.after = answer.before)

/-- The host moves the break above 4 GB. -/
def BrkCall.High (call : BrkCall) : Prop := BRK_LIMIT < call.args 0 ∧ call.granted = true

theorem fixupArgsLoop_none {params : List VmcallParam} (hparams : ∀ param ∈ params, param = .none) (i : Nat)
    (result : Int) (s : HookState) :
    fixupArgsLoop L pt grows config params i false result s = .ok (result, s) := by
  induction params generalizing i with
  | nil => rfl
  | cons param params ih =>
      obtain rfl : param = .none := hparams param List.mem_cons_self
      unfold fixupArgsLoop
      rw [if_pos (by simp)]
      exact ih (fun later hlater => hparams later (List.mem_cons_of_mem _ hlater)) (i + 1)

theorem vmcallFixupArgs_none {syscallno : Nat} (htable : TakesNoPointers table syscallno) (s : HookState) :
    vmcallFixupArgs L pt grows config table syscallno s = .ok (0, s) := by
  unfold vmcallFixupArgs
  cases hinfo : vmcallGetFixupInfo table syscallno with
  | none => rfl
  | some info => exact fixupArgsLoop_none (htable info hinfo) 0 0 s

theorem vmcallFixupRestoreOriginals_nil {s : HookState} (h : s.records = []) :
    vmcallFixupRestoreOriginals pt s = .ok s := by
  have hnone : s.records.length = 0 := congrArg List.length h
  exact if_pos hnone

theorem danglessVmcallPrehook_none {syscallno : Nat} (htable : TakesNoPointers table syscallno) (s : HookState) :
    danglessVmcallPrehook L pt grows config table syscallno s =
      .ok { s with currentSyscallno := syscallno, currentArgs := s.args } := by
  unfold danglessVmcallPrehook
  rw [vmcallFixupArgs_none htable]
  rfl

theorem danglessVmcallPosthook_nil {s : HookState} (h : s.records = []) (result : Nat) :
    danglessVmcallPosthook pt result s =
      .ok (if s.currentSyscallno = SYS_BRK ∧ BRK_LIMIT < s.currentArgs 0 then 0 else result, s) := by
  unfold danglessVmcallPosthook
  rw [vmcallFixupRestoreOriginals_nil h]
  rfl

/-- What one call does. -/
theorem BrkStep.spec {s s' : BrkState} {call : BrkCall} (htable : TakesNoPointers table SYS_BRK)
    (hidle : s.hook.records = []) (hstep : BrkStep L pt grows config table s call s') :
    s'.hook.records = [] ∧ s'.brk = hostBrk call.granted (call.args 0) s.brk ∧
      s'.answers = ⟨call.args 0, s.brk, s'.brk, if BRK_LIMIT < call.args 0 then 0 else s'.brk⟩ :: s.answers := by
  obtain ⟨hook1, hook2, result, hpre, hpost, rfl⟩ := hstep
  rw [danglessVmcallPrehook_none htable] at hpre
  have hhook := Except.ok.inj hpre
  have hrecords : hook1.records = [] := by rw [← hhook]; exact hidle
  have hargs : hook1.args = call.args := by rw [← hhook]
  have hsaved : hook1.currentArgs = call.args := by rw [← hhook]
  have hsyscall : hook1.currentSyscallno = SYS_BRK := by rw [← hhook]
  rw [danglessVmcallPosthook_nil hrecords, hsyscall, hsaved, hargs, if_congr (and_iff_right rfl) rfl rfl] at hpost
  obtain ⟨rfl, rfl⟩ := Prod.mk.inj (Except.ok.inj hpost)
  rw [hargs]
  exact ⟨hrecords, rfl, rfl⟩

/-- The break is below 4 GB as long as the process knows it. -/
structure BrkInv (s : BrkState) (calls : List BrkCall) : Prop where
  idle : s.hook.records = []
  low : (∀ call ∈ calls, ¬ call.High) → s.brk ≤ BRK_LIMIT ∧ HidesHighBreak s
  high : (∃ call ∈ calls, call.High) → ¬ HidesHighBreak s

theorem hostBrk_low {call : BrkCall} {brk : Nat} (hcall : ¬ call.High) (hbrk : brk ≤ BRK_LIMIT) :
    hostBrk call.granted (call.args 0) brk ≤ BRK_LIMIT := by
  unfold hostBrk
  split_ifs with hmoved
  · by_contra hhigh
    exact hcall ⟨Nat.not_le.mp hhigh, hmoved.2⟩
  · exact hbrk

/-- A call that the host does not follow above 4 GB. -/
theorem HidesHighBreak.step {s s' : BrkState} {call : BrkCall} (h : HidesHighBreak s) (hbrk : s.brk ≤ BRK_LIMIT)
    (hcall : ¬ call.High) (hnew : s'.brk = hostBrk call.granted (call.args 0) s.brk)
    (hanswers : s'.answers = ⟨call.args 0, s.brk, s'.brk, if BRK_LIMIT < call.args 0 then 0 else s'.brk⟩ :: s.answers) :
    s'.brk ≤ BRK_LIMIT ∧ HidesHighBreak s' := by
  have hlow : s'.brk ≤ BRK_LIMIT := hnew ▸ hostBrk_low hcall hbrk
  refine ⟨hlow, fun answer hanswer => ?_⟩
  rw [hanswers] at hanswer
  rcases List.mem_cons.mp hanswer with rfl | hold
  · refine ⟨?_, fun hne hfailed => ?_⟩
    · dsimp only
      split_ifs
      · exact Nat.zero_le _
      · exact hlow
    · -- the host has not moved the break: a call above 4 GB it refused, and another one would not look failed
      dsimp only at hne hfailed ⊢
      rw [hnew] at hfailed ⊢
      unfold hostBrk at hfailed ⊢
      by_cases hgranted : call.granted = true
      · have hlimit : ¬ BRK_LIMIT < call.args 0 := fun hlt => hcall ⟨hlt, hgranted⟩
        rw [if_neg hlimit, if_pos ⟨hne, hgranted⟩] at hfailed
        exact absurd rfl hfailed
      · exact if_neg fun h => hgranted h.2
  · exact h answer hold

theorem BrkInv.step {s s' : BrkState} {calls : List BrkCall} {call : BrkCall}
    (htable : TakesNoPointers table SYS_BRK) (h : BrkInv s calls)
    (hstep : BrkStep L pt grows config table s call s') : BrkInv s' (calls ++ [call]) := by
  obtain ⟨hidle, hnew, hanswers⟩ := hstep.spec htable h.idle
  have hearlier : HidesHighBreak s' → HidesHighBreak s := by
    intro hhides answer hanswer
    apply hhides answer
    rw [hanswers]
    exact List.mem_cons_of_mem _ hanswer
  refine ⟨hidle, fun hall => ?_, ?_⟩
  · obtain ⟨hbrk, hhides⟩ := h.low fun earlier hmem => hall earlier (List.mem_append_left _ hmem)
    exact hhides.step hbrk (hall call (List.mem_append_right _ List.mem_cons_self)) hnew hanswers
  · rintro ⟨high, hmem, hhigh⟩ hhides
    by_cases hbefore : ∃ earlier ∈ calls, earlier.High
    · exact h.high hbefore (hearlier hhides)
    · -- this is the first one, so the break was low and has moved
      have hlow := (h.low fun earlier hearlier hbad => hbefore ⟨earlier, hearlier, hbad⟩).1
      obtain rfl : high = call := by
        rcases List.mem_append.mp hmem with hold | hnew
        · exact absurd ⟨high, hold, hhigh⟩ hbefore
        · exact List.mem_singleton.mp hnew
      obtain ⟨hlimit, hgranted⟩ := hhigh
      have hne : high.args 0 ≠ 0 := by omega
      have hmoved : s'.brk = high.args 0 := by
        rw [hnew, hostBrk, if_pos ⟨hne, hgranted⟩]
      have hanswer := (hhides ⟨high.args 0, s.brk, s'.brk, 0⟩ (by
        rw [hanswers, if_pos hlimit]
        exact List.mem_cons_self)).2 hne hne.symm
      dsimp only at hanswer
      omega

/-- The break stays hidden exactly if the host never moves it above 4 GB. -/
theorem hidesHighBreak_iff {hook : HookState} {brk : Nat} {calls : List BrkCall} {s : BrkState}
    (htable : TakesNoPointers table SYS_BRK) (hidle : hook.records = []) (hbrk : brk < BRK_LIMIT)
    (hrun : Lts.Run (BrkStep L pt grows config table) ⟨hook, brk, []⟩ calls s) :
    HidesHighBreak s ↔ ∀ call ∈ calls, ¬ call.High := by
  have hinv : BrkInv s calls := by
    induction hrun with
    | nil => exact ⟨hidle, fun _ => ⟨hbrk.le, by simp [HidesHighBreak]⟩, by simp⟩
    | snoc _ hstep ih => exact ih.step htable hstep
  constructor
  · intro hhides call hcall hhigh
    exact hinv.high ⟨call, hcall, hhigh⟩ hhides
  · intro hall
    exact (hinv.low hall).2

/-- The state that a call leaves. -/
def brkNext (s : BrkState) (call : BrkCall) : BrkState :=
  let brk := hostBrk call.granted (call.args 0) s.brk
  ⟨{ s.hook with args := call.args, currentSyscallno := SYS_BRK, currentArgs := call.args }, brk,
    ⟨call.args 0, s.brk, brk, if BRK_LIMIT < call.args 0 then 0 else brk⟩ :: s.answers⟩

/-- Every call returns. -/
theorem brkStep_next {s : BrkState} (htable : TakesNoPointers table SYS_BRK) (hidle : s.hook.records = [])
    (call : BrkCall) : BrkStep L pt grows config table s call (brkNext s call) := by
  have hrecords : (brkNext s call).hook.records = [] := hidle
  refine ⟨(brkNext s call).hook, (brkNext s call).hook, _, danglessVmcallPrehook_none htable _,
    danglessVmcallPosthook_nil hrecords _, ?_⟩
  have hsyscall : ((brkNext s call).hook.currentSyscallno = SYS_BRK ∧
      BRK_LIMIT < (brkNext s call).hook.currentArgs 0) ↔ BRK_LIMIT < call.args 0 := and_iff_right rfl
  rw [if_congr hsyscall rfl rfl]
  rfl

/-- The table has an entry for `brk`, with its one argument. -/
def brkTable : List VmcallFixupInfo := List.replicate SYS_BRK ⟨[], by decide⟩ ++ [⟨[.none], by decide⟩]

theorem brkTable_none : TakesNoPointers brkTable SYS_BRK := by
  intro info hinfo param hparam
  have hbrk : vmcallGetFixupInfo brkTable SYS_BRK = some ⟨[.none], by decide⟩ := rfl
  obtain rfl := Option.some.inj (hbrk.symm.trans hinfo)
  exact List.mem_singleton.mp hparam

/-- A process with a break of 16 MB. -/
def brkStart : BrkState := ⟨⟨fun _ => 0, fun _ => 0, 0, [], 32, 1, 0, fun _ => 0, false, []⟩, 0x1000000, []⟩

/-- A call with this argument. -/
def brkCall (addr : Nat) (granted : Bool) : BrkCall := ⟨fun i => if i = 0 then addr else 0, granted⟩

theorem brkStart_run (first second : BrkCall) :
    Lts.Run (BrkStep duneLayout (duneTables []) (fun _ => true) ⟨false, false⟩ brkTable) brkStart [first, second]
      (brkNext (brkNext brkStart first) second) :=
  (Lts.Run.single (brkStep_next brkTable_none rfl first)).snoc (brkStep_next brkTable_none rfl second)

/-- The host refuses to go to 8 GB. -/
theorem hidesHighBreak_iff_refused :
    HidesHighBreak (brkNext (brkNext brkStart (brkCall 0x200000000 false)) (brkCall 0 true)) := by
  refine (hidesHighBreak_iff brkTable_none rfl (by decide) (brkStart_run _ _)).mpr ?_
  intro call hcall hhigh
  rcases List.mem_cons.mp hcall with rfl | hcall
  · exact absurd hhigh.2 (by decide)
  · obtain rfl := List.mem_singleton.mp hcall
    exact absurd hhigh.1 (by decide)

/-- The host goes to 8 GB, and the next `brk(0)` tells. -/
theorem hidesHighBreak_not : ∃ calls s,
    Lts.Run (BrkStep duneLayout (duneTables []) (fun _ => true) ⟨false, false⟩ brkTable) brkStart calls s ∧
      ¬ HidesHighBreak s := by
  refine ⟨_, _, brkStart_run (brkCall 0x200000000 true) (brkCall 0 true), fun h => ?_⟩
  have htold := (h ⟨0, 0x200000000, 0x200000000, 0x200000000⟩ List.mem_cons_self).1
  exact absurd htold (by decide)

end Dangless
