import Dangless.LibRun
import Dangless.VmcallRestore

/-! System calls of several threads, whose hooks share one buffer of records. The hooks and the host are atomic
steps of the threads, in any order; the memory of each thread is its own. A post-hook replays the records of
all threads, so that it must not run between the pre-hook of another thread and its system call. -/

namespace Dangless

universe u

/-- A system call for which the pre-hook has run: the slots that it has visited, and the words before it. -/
structure VmcallIssued where
  slots : List Slot
  before : Slot → Nat

/-- Where a thread is in a system call. -/
inductive VmcallPhase where
  | user
  | prepared (call : VmcallIssued)
  | executed (call : VmcallIssued)
  | returned (call : VmcallIssued)

/-- The memory and the globals of the hooks, which all threads share, and the phase of each thread. -/
structure VmcallThreads (ι : Type u) where
  shared : HookState
  phase : ι → VmcallPhase

/-- What a thread does. `memory` is what the words are after it. -/
inductive ThreadEvent (ι : Type u) where
  | compute (thread : ι) (memory : Nat → Nat)
  | prehook (thread : ι) (syscallno : Nat) (args : Nat → Nat) (hookRunning : Bool)
  | host (thread : ι) (memory : Nat → Nat)
  | posthook (thread : ι) (result : Nat)

/-- A hook begins: the arguments are on the stack of the thread, the depth and the flag are thread-local. -/
def HookState.enterHook (s : HookState) (args : Nat → Nat) (hookRunning : Bool) : HookState :=
  { s with args := args, hookRunning := hookRunning, depth := 0, visited := [] }

/-- A slot of memory that has been visited. -/
def VmcallIssued.Nests (pt : PtState) (call : VmcallIssued) (pa : Nat) : Prop :=
  ∃ va, Slot.mem va ∈ call.slots ∧ ptResolve pt va = pa

/-- The thread is not in a system call. -/
def VmcallPhase.Between : VmcallPhase → Prop
  | .user => True
  | .prepared _ => False
  | .executed _ => False
  | .returned _ => True

/-- The records of the call may be in the buffer. -/
def VmcallPhase.Pending : VmcallPhase → VmcallIssued → Prop
  | .user, _ => False
  | .prepared call, c => call = c
  | .executed call, c => call = c
  | .returned _, _ => False

/-- The call is the last one of the thread. -/
def VmcallPhase.Last : VmcallPhase → VmcallIssued → Prop
  | .user, _ => False
  | .prepared call, c => call = c
  | .executed call, c => call = c
  | .returned call, c => call = c

section

variable {ι : Type u} [DecidableEq ι] (L : DuneLayout) (pt : PtState) (grows : Nat → Bool) (config : TraceConfig)
  (table : List VmcallFixupInfo) (own : ι → Set Nat)

/-- One step of one thread. The words of `own` are those of a thread: it computes on them, the pointers that its
system calls nest are there, and the host writes there, but not to these pointers. -/
inductive ThreadStep : VmcallThreads ι → ThreadEvent ι → VmcallThreads ι → Prop
  | compute {s : VmcallThreads ι} {t : ι} {memory : Nat → Nat} (hphase : (s.phase t).Between)
      (hown : ∀ pa, pa ∉ own t → memory pa = s.shared.mem pa) :
      ThreadStep s (.compute t memory) ⟨{ s.shared with mem := memory }, Function.update s.phase t .user⟩
  | prehook {s : VmcallThreads ι} {t : ι} {syscallno : Nat} {args : Nat → Nat} {hookRunning : Bool} {s1 : HookState}
      (hphase : (s.phase t).Between)
      (hhook : danglessVmcallPrehook L pt grows config table syscallno (s.shared.enterHook args hookRunning) = .ok s1)
      (hown : ∀ va, Slot.mem va ∈ s1.visited → ptResolve pt va ∈ own t) :
      ThreadStep s (.prehook t syscallno args hookRunning)
        ⟨s1, Function.update s.phase t (.prepared ⟨s1.visited, (s.shared.enterHook args hookRunning).word⟩)⟩
  | host {s : VmcallThreads ι} {t : ι} {call : VmcallIssued} {memory : Nat → Nat} (hphase : s.phase t = .prepared call)
      (hown : ∀ pa, pa ∉ own t ∨ call.Nests pt pa → memory pa = s.shared.mem pa) :
      ThreadStep s (.host t memory) ⟨{ s.shared with mem := memory }, Function.update s.phase t (.executed call)⟩
  | posthook {s : VmcallThreads ι} {t : ι} {call : VmcallIssued} {result result' : Nat} {s2 : HookState}
      (hphase : s.phase t = .executed call) (hhook : danglessVmcallPosthook pt result s.shared = .ok (result', s2)) :
      ThreadStep s (.posthook t result) ⟨s2, Function.update s.phase t (.returned call)⟩

/-- The system calls of the threads do not disturb each other's pointers: where the host is to execute a call, no
nested slot of it holds a remapped pointer, and where its post-hook has run, they hold their first values. -/
structure Undisturbed (s : VmcallThreads ι) : Prop where
  canonical : ∀ t call, s.phase t = .prepared call → ∀ pa, call.Nests pt pa →
    (vremapResolve L pt (s.shared.mem pa)).1 ≠ VREM_OK
  original : ∀ t call, s.phase t = .returned call → ∀ pa, call.Nests pt pa →
    s.shared.mem pa = call.before (.mem pa)

/-- What a step must find: room for the records of a pre-hook; no other thread that is to call the host
with remapped pointers taken out of its slots, when a post-hook runs. -/
def StepApart (s : VmcallThreads ι) : ThreadEvent ι → Prop
  | .compute _ _ => True
  | .prehook _ syscallno args hookRunning => ∀ slots,
      fixupSlots L pt (s.shared.enterHook args hookRunning).word table syscallno = .ok slots →
        RoomFor grows s.shared (s.shared.records.length +
          (overwritten L pt (s.shared.enterHook args hookRunning).word slots).card)
  | .host _ _ => True
  | .posthook t _ => ∀ u call, u ≠ t → s.phase u = .prepared call → overwritten L pt call.before call.slots = ∅

/-- No call has been made yet. -/
structure VmcallThreads.Start (s : VmcallThreads ι) : Prop where
  records : s.shared.records = []
  phase : ∀ t, s.phase t = .user

/-- There is a record of a word. -/
def Recorded (s : HookState) (pa : Nat) : Prop := Slot.mem pa ∈ s.records.map fun r => r.1.place pt

/-- What holds of the call of one thread, whose words are `mine`. -/
structure CallInv (s : HookState) (mine : Set Nat) (phase : VmcallPhase) : Prop where
  own : ∀ call, phase.Last call → ∀ pa, call.Nests pt pa → pa ∈ mine
  prepared : ∀ call, phase = .prepared call → ∀ pa, call.Nests pt pa →
    s.mem pa = canonicalPtr L pt (call.before (.mem pa)) ∧
    (pa ∈ overwritten L pt call.before call.slots → Recorded pt s pa)
  executed : ∀ call, phase = .executed call → ∀ pa, call.Nests pt pa →
    s.mem pa = call.before (.mem pa) ∨ Recorded pt s pa
  returned : ∀ call, phase = .returned call → ∀ pa, call.Nests pt pa → s.mem pa = call.before (.mem pa)

/-- A record of a call. -/
def RecordOf (r : Slot × Nat) (call : VmcallIssued) : Prop :=
  ∃ va, r = (.mem va, call.before (.mem (ptResolve pt va))) ∧ Accessible pt va ∧
    ptResolve pt va ∈ overwritten L pt call.before call.slots

/-- What holds between the steps: each record is of a call that has not returned. -/
structure ThreadsInv (s : VmcallThreads ι) : Prop where
  room : 0 < s.shared.capacity → s.shared.records.length ≤ s.shared.capacity
  nodup : (s.shared.records.map fun r => r.1.place pt).Nodup
  owner : ∀ r ∈ s.shared.records, ∃ t call, (s.phase t).Pending call ∧ RecordOf L pt r call
  call : ∀ t, CallInv L pt s.shared (own t) (s.phase t)

end

variable {ι : Type u} {L : DuneLayout} {pt : PtState} {grows : Nat → Bool} {config : TraceConfig}
  {table : List VmcallFixupInfo} {own : ι → Set Nat} {s s' : VmcallThreads ι} {event : ThreadEvent ι}
  {shared shared' : HookState} {mine : Set Nat} {phase : VmcallPhase} {call : VmcallIssued} {pa : Nat} {t : ι}

theorem VmcallIssued.nests_iff : call.Nests pt pa ↔ Slot.mem pa ∈ call.slots.map (Slot.place pt) := by
  rw [List.mem_map]
  constructor
  · rintro ⟨va, hva, rfl⟩
    exact ⟨_, hva, rfl⟩
  · rintro ⟨slot, hslot, hplace⟩
    cases slot with
    | arg i => cases hplace
    | mem va => exact ⟨va, hslot, Slot.mem.inj hplace⟩

theorem VmcallIssued.mem_overwritten : pa ∈ overwritten L pt call.before call.slots ↔
    call.Nests pt pa ∧ (vremapResolve L pt (call.before (.mem pa))).1 = VREM_OK := by
  rw [Dangless.mem_overwritten, nests_iff]

theorem VmcallPhase.Pending.last (h : phase.Pending call) : phase.Last call := by
  cases phase with
  | user => exact h
  | prepared _ => exact h
  | executed _ => exact h
  | returned _ => exact h.elim

theorem VmcallPhase.Between.not_pending (h : phase.Between) : ¬ phase.Pending call := by
  cases phase with
  | user => exact id
  | prepared _ => exact h.elim
  | executed _ => exact h.elim
  | returned _ => exact id

/-- Whose record it is. -/
theorem ThreadsInv.recorded (h : ThreadsInv L pt own s) (hpa : Recorded pt s.shared pa) :
    ∃ t call, (s.phase t).Pending call ∧ pa ∈ own t ∧ pa ∈ overwritten L pt call.before call.slots ∧
      ∃ r ∈ s.shared.records, r.1.place pt = .mem pa ∧ r.2 = call.before (.mem pa) := by
  obtain ⟨r, hr, hplace⟩ := List.mem_map.mp hpa
  obtain ⟨t, call, hpending, va, rfl, -, hover⟩ := h.owner r hr
  obtain rfl : ptResolve pt va = pa := Slot.mem.inj hplace
  have hnests := (VmcallIssued.mem_overwritten.mp hover).1
  exact ⟨t, call, hpending, (h.call t).own call hpending.last _ hnests, hover, _, hr, rfl, rfl⟩

/-- A word of a thread has only records of its call. -/
theorem ThreadsInv.recorded_own (h : ThreadsInv L pt own s) (hown : Pairwise fun t u => Disjoint (own t) (own u))
    (hpa : Recorded pt s.shared pa) (ht : pa ∈ own t) :
    ∃ call, (s.phase t).Pending call ∧ pa ∈ overwritten L pt call.before call.slots ∧
      ∃ r ∈ s.shared.records, r.1.place pt = .mem pa ∧ r.2 = call.before (.mem pa) := by
  obtain ⟨u, call, hpending, hu, hover, hrecord⟩ := h.recorded hpa
  obtain rfl : u = t := by
    by_contra hne
    exact Set.disjoint_left.mp (hown hne) hu ht
  exact ⟨call, hpending, hover, hrecord⟩

theorem ThreadsInv.posthook_restores {result result' : Nat} {s2 : HookState} (h : ThreadsInv L pt own s)
    (hhook : danglessVmcallPosthook pt result s.shared = .ok (result', s2)) :
    Restored pt s.shared.records s.shared s2 := by
  have husable : ∀ r ∈ s.shared.records, r.1.Usable pt := by
    intro r hr
    obtain ⟨u, c, -, va, rfl, haccess, -⟩ := h.owner r hr
    exact haccess
  obtain ⟨result'', s2', hpost, hrestored⟩ := danglessVmcallPosthook_restores s.shared husable h.nodup result
  obtain ⟨rfl, rfl⟩ := Prod.mk.inj (Except.ok.inj (hhook.symm.trans hpost))
  exact hrestored

/-- A recorded word of a thread holds again what it held before the call of the thread. -/
theorem ThreadsInv.restored_own {s2 : HookState} (h : ThreadsInv L pt own s)
    (hown : Pairwise fun t u => Disjoint (own t) (own u))
    (hrestored : Restored pt s.shared.records s.shared s2) (hpa : Recorded pt s.shared pa) (ht : pa ∈ own t) :
    ∃ call, (s.phase t).Pending call ∧ s2.mem pa = call.before (.mem pa) := by
  obtain ⟨call, hpending, -, r, hr, hplace, hvalue⟩ := h.recorded_own hown hpa ht
  have hword := hrestored.recorded r hr
  rw [hplace, hvalue] at hword
  exact ⟨call, hpending, hword⟩

theorem ThreadsInv.restored_executed {s2 : HookState} (h : ThreadsInv L pt own s)
    (hown : Pairwise fun t u => Disjoint (own t) (own u))
    (hrestored : Restored pt s.shared.records s.shared s2) (hphase : s.phase t = .executed call)
    (hpa : call.Nests pt pa) : s2.mem pa = call.before (.mem pa) := by
  have hcall := h.call t
  rw [hphase] at hcall
  by_cases hrecorded : Recorded pt s.shared pa
  · obtain ⟨c, hpending, hword⟩ := h.restored_own hown hrestored hrecorded (hcall.own call rfl pa hpa)
    rw [hphase] at hpending
    obtain rfl : call = c := hpending
    exact hword
  · have hkept : s2.mem pa = s.shared.mem pa := hrestored.others (.mem pa) hrecorded
    rw [hkept]
    exact (hcall.executed call rfl pa hpa).resolve_right hrecorded

/-- A thread whose pending call has overwritten nothing has no records, and its words stay. -/
theorem ThreadsInv.restored_unrecorded {s2 : HookState} (h : ThreadsInv L pt own s)
    (hown : Pairwise fun t u => Disjoint (own t) (own u))
    (hrestored : Restored pt s.shared.records s.shared s2)
    (hnone : ∀ call, (s.phase t).Pending call → overwritten L pt call.before call.slots = ∅) (ht : pa ∈ own t) :
    s2.mem pa = s.shared.mem pa := by
  apply hrestored.others (.mem pa)
  intro hrecorded
  obtain ⟨call, hpending, hover, -⟩ := h.recorded_own hown hrecorded ht
  rw [hnone call hpending] at hover
  exact absurd hover (Finset.notMem_empty pa)

/-- The words of the thread have not changed, and none of their records has been lost. -/
theorem CallInv.frame (h : CallInv L pt shared mine phase) (hmem : ∀ pa ∈ mine, shared'.mem pa = shared.mem pa)
    (hrecords : ∀ pa ∈ mine, Recorded pt shared pa → Recorded pt shared' pa) :
    CallInv L pt shared' mine phase := by
  refine ⟨h.own, ?_, ?_, ?_⟩
  · rintro call rfl pa hpa
    have hmine := h.own call rfl pa hpa
    obtain ⟨hword, hrecorded⟩ := h.prepared call rfl pa hpa
    exact ⟨(hmem pa hmine).trans hword, fun hover => hrecords pa hmine (hrecorded hover)⟩
  · rintro call rfl pa hpa
    have hmine := h.own call rfl pa hpa
    rw [hmem pa hmine]
    exact (h.executed call rfl pa hpa).imp_right (hrecords pa hmine)
  · rintro call rfl pa hpa
    rw [hmem pa (h.own call rfl pa hpa)]
    exact h.returned call rfl pa hpa

theorem ThreadsInv.start (h : s.Start) : ThreadsInv L pt own s := by
  refine ⟨?_, ?_, ?_, fun t => ?_⟩
  · rw [h.records]
    exact fun hpos => hpos.le
  · rw [h.records]
    exact List.nodup_nil
  · rw [h.records]
    nofun
  · rw [h.phase t]
    exact ⟨fun _ hlast => hlast.elim, nofun, nofun, nofun⟩

section

variable [DecidableEq ι]

/-- A step of one thread changes the phase of no other. -/
theorem call_update {f : ι → VmcallPhase} {next : VmcallPhase} (hself : CallInv L pt shared (own t) next)
    (hother : ∀ u, u ≠ t → CallInv L pt shared (own u) (f u)) (u : ι) :
    CallInv L pt shared (own u) (Function.update f t next u) := by
  by_cases hu : u = t
  · rw [hu, Function.update_self]
    exact hself
  · rw [Function.update_of_ne hu]
    exact hother u hu

/-- Nor are the records of the others touched. -/
theorem owner_update {next : VmcallPhase} {r : Slot × Nat}
    (h : ∃ u call, (s.phase u).Pending call ∧ RecordOf L pt r call)
    (hnext : ∀ call, (s.phase t).Pending call → next.Pending call) :
    ∃ u call, (Function.update s.phase t next u).Pending call ∧ RecordOf L pt r call := by
  obtain ⟨u, call, hpending, hrecord⟩ := h
  refine ⟨u, call, ?_, hrecord⟩
  by_cases hu : u = t
  · rw [hu, Function.update_self]
    exact hnext call (hu ▸ hpending)
  · rwa [Function.update_of_ne hu]

theorem ThreadsInv.compute {memory : Nat → Nat} (h : ThreadsInv L pt own s)
    (hown : Pairwise fun t u => Disjoint (own t) (own u)) (hphase : (s.phase t).Between)
    (hmemory : ∀ pa, pa ∉ own t → memory pa = s.shared.mem pa) :
    ThreadsInv L pt own ⟨{ s.shared with mem := memory }, Function.update s.phase t .user⟩ := by
  refine ⟨h.room, h.nodup, fun r hr => ?_, ?_⟩
  · exact owner_update (h.owner r hr) fun call hpending => absurd hpending hphase.not_pending
  · apply call_update
    · exact ⟨fun _ hlast => hlast.elim, nofun, nofun, nofun⟩
    · intro u hu
      refine CallInv.frame (h.call u) (fun pa hpa => ?_) fun _ _ hrecorded => hrecorded
      exact hmemory pa fun ht => Set.disjoint_left.mp (hown hu) hpa ht

/-- What is prepared for the host is canonical, or recorded and overwritten by nobody. -/
theorem ThreadsInv.host {memory : Nat → Nat} (h : ThreadsInv L pt own s)
    (hown : Pairwise fun t u => Disjoint (own t) (own u)) (hphase : s.phase t = .prepared call)
    (hmemory : ∀ pa, pa ∉ own t ∨ call.Nests pt pa → memory pa = s.shared.mem pa) :
    ThreadsInv L pt own ⟨{ s.shared with mem := memory }, Function.update s.phase t (.executed call)⟩ := by
  refine ⟨h.room, h.nodup, fun r hr => ?_, ?_⟩
  · apply owner_update (h.owner r hr)
    rw [hphase]
    exact fun _ hpending => hpending
  · have hcall := h.call t
    rw [hphase] at hcall
    apply call_update
    · refine ⟨hcall.own, nofun, ?_, nofun⟩
      intro c hc pa hpa
      obtain rfl := VmcallPhase.executed.inj hc
      obtain ⟨hword, hrecorded⟩ := hcall.prepared call rfl pa hpa
      by_cases hover : pa ∈ overwritten L pt call.before call.slots
      · exact Or.inr (hrecorded hover)
      · -- the slot has held a canonical pointer from the start
        have hnot : (vremapResolve L pt (call.before (.mem pa))).1 ≠ VREM_OK := fun hok =>
          hover (VmcallIssued.mem_overwritten.mpr ⟨hpa, hok⟩)
        rw [canonicalPtr_of_not_ok hnot] at hword
        exact Or.inl ((hmemory pa (Or.inr hpa)).trans hword)
    · intro u hu
      refine CallInv.frame (h.call u) (fun pa hpa => ?_) fun _ _ hrecorded => hrecorded
      exact hmemory pa (Or.inl fun ht => Set.disjoint_left.mp (hown hu) hpa ht)

/-- The pre-hook with room for its records. -/
theorem ThreadsInv.prehook {args : Nat → Nat} {hookRunning : Bool} {syscallno : Nat} {s1 : HookState}
    (hspace : DuneSpace L pt) (h : ThreadsInv L pt own s) (hown : Pairwise fun t u => Disjoint (own t) (own u))
    (hphase : (s.phase t).Between)
    (hhook : danglessVmcallPrehook L pt grows config table syscallno (s.shared.enterHook args hookRunning) = .ok s1)
    (hnested : ∀ va, Slot.mem va ∈ s1.visited → ptResolve pt va ∈ own t)
    (hroom : StepApart L pt grows table s (.prehook t syscallno args hookRunning)) :
    ThreadsInv L pt own
      ⟨s1, Function.update s.phase t (.prepared ⟨s1.visited, (s.shared.enterHook args hookRunning).word⟩)⟩ := by
  have hpre := danglessVmcallPrehook_runs (s := s.shared.enterHook args hookRunning) hspace rfl rfl h.room grows
    config table syscallno
  rw [hhook] at hpre
  obtain ⟨slots, hslots, hrun, -⟩ := hpre.of_ok
  obtain ⟨new, hrecords, hrecord, hnodup, hcount⟩ := hrun.log
  obtain ⟨hlength, hle⟩ := hcount.roomFor_iff.mpr (hroom slots hslots)
  have hnew : new.length = (overwritten L pt (s.shared.enterHook args hookRunning).word slots).card := by
    rw [hrecords, List.length_append] at hlength
    exact Nat.add_left_cancel hlength
  obtain rfl := hrun.visited
  set call : VmcallIssued := ⟨s1.visited, (s.shared.enterHook args hookRunning).word⟩
  have hmine : ∀ pa, call.Nests pt pa → pa ∈ own t := by
    rintro pa ⟨va, hva, rfl⟩
    exact hnested va hva
  have hkept : ∀ pa, pa ∉ own t → s1.mem pa = s.shared.mem pa := by
    intro pa hpa
    refine (hrun.word (.mem pa)).trans (if_neg fun hmem => hpa ?_)
    exact hmine pa (VmcallIssued.nests_iff.mpr hmem)
  have hnewOf : ∀ r ∈ new, RecordOf L pt r call := hrecord
  have hplaces : ∀ r ∈ new, ∃ pa ∈ own t, r.1.place pt = .mem pa := by
    intro r hr
    obtain ⟨va, rfl, -, hover⟩ := hnewOf r hr
    exact ⟨_, hmine _ (VmcallIssued.mem_overwritten.mp hover).1, rfl⟩
  refine ⟨fun _ => hle, ?_, ?_, ?_⟩
  · change (s1.records.map fun r => r.1.place pt).Nodup
    rw [hrecords, List.map_append, List.nodup_append]
    refine ⟨h.nodup, hnodup, ?_⟩
    rintro p hp q hq rfl
    obtain ⟨r, hr, rfl⟩ := List.mem_map.mp hq
    obtain ⟨pa, hpa, hplace⟩ := hplaces r hr
    rw [hplace] at hp
    obtain ⟨c, hpending, -⟩ := h.recorded_own hown hp hpa
    exact hphase.not_pending hpending
  · intro r hr
    rw [hrecords] at hr
    rcases List.mem_append.mp hr with hr | hr
    · exact owner_update (h.owner r hr) fun c hpending => absurd hpending hphase.not_pending
    · refine ⟨t, call, ?_, hnewOf r hr⟩
      change (Function.update s.phase t (.prepared call) t).Pending call
      rw [Function.update_self]
      rfl
  · apply call_update
    · refine ⟨?_, ?_, nofun, nofun⟩
      · rintro _ rfl
        exact hmine
      · intro c hc pa hpa
        obtain rfl := VmcallPhase.prepared.inj hc
        refine ⟨(hrun.word (.mem pa)).trans (if_pos (VmcallIssued.nests_iff.mp hpa)), fun hover => ?_⟩
        have hrecorded : Slot.mem pa ∈ new.map fun r => r.1.place pt := by
          refine recorded_of_card ?_ hnodup hnew hover
          intro r hr
          obtain ⟨va, rfl, -, hva⟩ := hrecord r hr
          exact ⟨_, hva, rfl⟩
        unfold Recorded
        rw [hrecords, List.map_append]
        exact List.mem_append_right _ hrecorded
    · intro u hu
      refine CallInv.frame (h.call u) ?_ ?_
      · intro pa hpa
        exact hkept pa fun ht => Set.disjoint_left.mp (hown hu) hpa ht
      · intro pa _ hrecorded
        unfold Recorded
        rw [hrecords, List.map_append]
        exact List.mem_append_left _ hrecorded

/-- The post-hook, which restores the words of all calls that have been executed. -/
theorem ThreadsInv.posthook {result result' : Nat} {s2 : HookState} (h : ThreadsInv L pt own s)
    (hown : Pairwise fun t u => Disjoint (own t) (own u)) (hphase : s.phase t = .executed call)
    (hhook : danglessVmcallPosthook pt result s.shared = .ok (result', s2))
    (hothers : StepApart L pt grows table s (.posthook t result)) :
    ThreadsInv L pt own ⟨s2, Function.update s.phase t (.returned call)⟩ := by
  have hrestored := h.posthook_restores hhook
  refine ⟨?_, ?_, ?_, ?_⟩
  · intro hpos
    change s2.records.length ≤ _
    rw [hrestored.cleared]
    exact hpos.le
  · change (s2.records.map fun r => r.1.place pt).Nodup
    rw [hrestored.cleared]
    exact List.nodup_nil
  · change ∀ r ∈ s2.records, _
    rw [hrestored.cleared]
    nofun
  · apply call_update
    · have hcall := h.call t
      rw [hphase] at hcall
      refine ⟨hcall.own, nofun, nofun, ?_⟩
      intro c hc pa hpa
      obtain rfl := VmcallPhase.returned.inj hc
      exact h.restored_executed hown hrestored hphase hpa
    · intro u hu
      have hcall := h.call u
      refine ⟨hcall.own, ?_, ?_, ?_⟩
      · intro c hc pa hpa
        have hnone := hothers u c hu hc
        have hpending : ∀ c', (s.phase u).Pending c' → overwritten L pt c'.before c'.slots = ∅ := by
          intro c' hpending
          rw [hc] at hpending
          obtain rfl : c = c' := hpending
          exact hnone
        rw [h.restored_unrecorded hown hrestored hpending (hcall.own c (by rw [hc]; rfl) pa hpa)]
        refine ⟨(hcall.prepared c hc pa hpa).1, fun hover => ?_⟩
        rw [hnone] at hover
        exact absurd hover (Finset.notMem_empty pa)
      · intro c hc pa hpa
        exact Or.inl (h.restored_executed hown hrestored hc hpa)
      · intro c hc pa hpa
        have hpending : ∀ c', ¬ (s.phase u).Pending c' := by
          intro c' hpending
          rw [hc] at hpending
          exact hpending
        rw [h.restored_unrecorded hown hrestored (fun c' hc' => absurd hc' (hpending c'))
          (hcall.own c (by rw [hc]; rfl) pa hpa)]
        exact hcall.returned c hc pa hpa

theorem ThreadsInv.step (hspace : DuneSpace L pt) (hown : Pairwise fun t u => Disjoint (own t) (own u))
    (h : ThreadsInv L pt own s) (hapart : StepApart L pt grows table s event)
    (hstep : ThreadStep L pt grows config table own s event s') : ThreadsInv L pt own s' := by
  cases hstep with
  | compute hphase hmemory => exact h.compute hown hphase hmemory
  | prehook hphase hhook hnested => exact h.prehook hspace hown hphase hhook hnested hapart
  | host hphase hmemory => exact h.host hown hphase hmemory
  | posthook hphase hhook => exact h.posthook hown hphase hhook hapart

end

theorem ThreadsInv.undisturbed (hspace : DuneSpace L pt) (h : ThreadsInv L pt own s) : Undisturbed L pt s := by
  constructor
  · intro t call hcall pa hpa
    rw [((h.call t).prepared call hcall pa hpa).1]
    exact hspace.canonicalPtr_eq_self_iff.mp (hspace.canonicalPtr_idem _)
  · intro t call hcall pa hpa
    exact (h.call t).returned call hcall pa hpa

/-- **The system calls of the threads do not disturb each other's pointers**, in every run in which the buffer has room
for the records of each pre-hook and no post-hook runs while another thread is to call the host with pointers
that have been rewritten. -/
theorem undisturbed_of_run [DecidableEq ι] {s0 : VmcallThreads ι} {events : List (ThreadEvent ι)}
    (hspace : DuneSpace L pt) (hown : Pairwise fun t u => Disjoint (own t) (own u)) (hstart : s0.Start)
    (hrun : Lts.Run (fun s event s' => ThreadStep L pt grows config table own s event s' ∧
      StepApart L pt grows table s event) s0 events s) : Undisturbed L pt s := by
  have hinv : ThreadsInv L pt own s := by
    apply hrun.invariant _ (ThreadsInv.start hstart)
    rintro s event s' h ⟨hstep, hapart⟩
    exact h.step hspace hown hapart hstep
  exact hinv.undisturbed hspace

/-! ### Two threads -/

/-- The words of the page of `aliasSpace`, its lower half to one thread and its upper half to the other. -/
def halfPage (upper : Bool) : Set Nat := {pa | upper = decide (ALIAS_PAGE + 2048 ≤ pa)}

theorem halfPage_disjoint : Pairwise fun t u => Disjoint (halfPage t) (halfPage u) := by
  intro t u hne
  apply Set.disjoint_left.mpr
  intro pa ht hu
  exact hne (ht.trans hu.symm)

/-- The arguments of a thread: an array of one element in its half. -/
def halfArgs (upper : Bool) : Nat → Nat := (vectorCall (if upper then ALIAS_PAGE + 2048 else ALIAS_PAGE) 1 32).args

def twoThreads : VmcallThreads Bool := ⟨vectorCall ALIAS_PAGE 1 32, fun _ => .user⟩

theorem twoThreads_start : twoThreads.Start := ⟨rfl, fun _ => rfl⟩

theorem twoThreads_slots : fixupSlots duneLayout aliasSpace (twoThreads.shared.enterHook (halfArgs false) false).word
    vectorTable 0 = .ok [.arg 1, .mem ALIAS_PAGE] := by decide +kernel

theorem aliasPage_resolves : ptResolve aliasSpace ALIAS_PAGE = ALIAS_PAGE ∧
    ptResolve aliasSpace (ALIAS_PAGE + 2048) = ALIAS_PAGE + 2048 := by decide +kernel

/-- A step that finds what it must find, of one of the two threads. -/
def HalfStep (s : VmcallThreads Bool) (event : ThreadEvent Bool) (s' : VmcallThreads Bool) : Prop :=
  ThreadStep duneLayout aliasSpace (fun _ => true) ⟨false, false⟩ vectorTable halfPage s event s' ∧
    StepApart duneLayout aliasSpace (fun _ => true) vectorTable s event

/-- One thread makes its system call while the other computes. -/
theorem twoThreads_run : ∃ events s, ThreadEvent.posthook false 0 ∈ events ∧ Lts.Run HalfStep twoThreads events s := by
  have hpre := danglessVmcallPrehook_runs (s := twoThreads.shared.enterHook (halfArgs false) false) aliasSpace_dune
    rfl rfl (fun _ => Nat.zero_le _) (fun _ => true) ⟨false, false⟩ vectorTable 0
  rw [twoThreads_slots] at hpre
  obtain ⟨s1, hs1, hrun, -⟩ := hpre.of_ok_right
  obtain ⟨result, s2, hs2, -⟩ := FixupState.posthook ⟨hrun, rfl⟩ s1.mem 0
  have hown : ∀ va, Slot.mem va ∈ s1.visited → ptResolve aliasSpace va ∈ halfPage false := by
    intro va hva
    rw [hrun.visited] at hva
    obtain rfl : va = ALIAS_PAGE := by simpa using hva
    rw [aliasPage_resolves.1]
    change false = decide (ALIAS_PAGE + 2048 ≤ ALIAS_PAGE)
    decide
  let call : VmcallIssued := ⟨s1.visited, (twoThreads.shared.enterHook (halfArgs false) false).word⟩
  let prepared := Function.update twoThreads.phase false (.prepared call)
  let computed := Function.update prepared true .user
  let executed := Function.update computed false (.executed call)
  have hprehook : HalfStep twoThreads (.prehook false 0 (halfArgs false) false) ⟨s1, prepared⟩ := by
    refine ⟨.prehook trivial hs1 hown, fun slots hslots j hj => ?_⟩
    exact ⟨by decide, rfl⟩
  have hcompute : HalfStep ⟨s1, prepared⟩ (.compute true s1.mem) ⟨s1, computed⟩ :=
    ⟨.compute trivial fun _ _ => rfl, trivial⟩
  have hhost : HalfStep ⟨s1, computed⟩ (.host false s1.mem) ⟨s1, executed⟩ := by
    have hphase : computed false = .prepared call := rfl
    exact ⟨.host hphase fun _ _ => rfl, trivial⟩
  have hposthook : HalfStep ⟨s1, executed⟩ (.posthook false 0)
      ⟨s2, Function.update executed false (.returned call)⟩ := by
    refine ⟨.posthook rfl hs2, ?_⟩
    intro u c hu hc
    cases u with
    | false => exact absurd rfl hu
    | true => cases hc
  exact ⟨_, _, List.mem_append_right _ List.mem_cons_self,
    (((Lts.Run.single hprehook).snoc hcompute).snoc hhost).snoc hposthook⟩

theorem undisturbed_of_run_alone : ∃ events s, ThreadEvent.posthook false 0 ∈ events ∧
    Lts.Run HalfStep twoThreads events s ∧ Undisturbed duneLayout aliasSpace s := by
  obtain ⟨events, s, hmem, hrun⟩ := twoThreads_run
  exact ⟨events, s, hmem, hrun, undisturbed_of_run aliasSpace_dune halfPage_disjoint twoThreads_start hrun⟩

/-- Both pre-hooks run, and then the system call of one thread. -/
theorem twoThreads_replayed : (match danglessVmcallPrehook duneLayout aliasSpace (fun _ => true) ⟨false, false⟩
      vectorTable 0 (twoThreads.shared.enterHook (halfArgs false) false) with
    | .error _ => false
    | .ok s1 => decide (s1.visited = [.arg 1, .mem ALIAS_PAGE]) &&
      match danglessVmcallPrehook duneLayout aliasSpace (fun _ => true) ⟨false, false⟩ vectorTable 0
        (s1.enterHook (halfArgs true) false) with
      | .error _ => false
      | .ok s2 => decide (s2.visited = [.arg 1, .mem (ALIAS_PAGE + 2048)]) &&
        match danglessVmcallPosthook aliasSpace 0 s2 with
        | .error _ => false
        | .ok r => decide ((vremapResolve duneLayout aliasSpace (r.2.mem ALIAS_PAGE)).1 = VREM_OK)) = true := by
  decide +kernel

theorem twoThreads_hooks : ∃ s1 s2 result s3,
    danglessVmcallPrehook duneLayout aliasSpace (fun _ => true) ⟨false, false⟩ vectorTable 0
      (twoThreads.shared.enterHook (halfArgs false) false) = .ok s1 ∧
    s1.visited = [.arg 1, .mem ALIAS_PAGE] ∧
    danglessVmcallPrehook duneLayout aliasSpace (fun _ => true) ⟨false, false⟩ vectorTable 0
      (s1.enterHook (halfArgs true) false) = .ok s2 ∧
    s2.visited = [.arg 1, .mem (ALIAS_PAGE + 2048)] ∧
    danglessVmcallPosthook aliasSpace 0 s2 = .ok (result, s3) ∧
    (vremapResolve duneLayout aliasSpace (s3.mem ALIAS_PAGE)).1 = VREM_OK := by
  have hreplayed := twoThreads_replayed
  cases hs1 : danglessVmcallPrehook duneLayout aliasSpace (fun _ => true) ⟨false, false⟩ vectorTable 0
      (twoThreads.shared.enterHook (halfArgs false) false) with
  | error e =>
      rw [hs1] at hreplayed
      cases hreplayed
  | ok s1 =>
      rw [hs1] at hreplayed
      obtain ⟨hvisited1, hreplayed⟩ := Bool.and_eq_true_iff.mp hreplayed
      cases hs2 : danglessVmcallPrehook duneLayout aliasSpace (fun _ => true) ⟨false, false⟩ vectorTable 0
          (s1.enterHook (halfArgs true) false) with
      | error e =>
          rw [hs2] at hreplayed
          cases hreplayed
      | ok s2 =>
          rw [hs2] at hreplayed
          obtain ⟨hvisited2, hreplayed⟩ := Bool.and_eq_true_iff.mp hreplayed
          cases hs3 : danglessVmcallPosthook aliasSpace 0 s2 with
          | error e =>
              rw [hs3] at hreplayed
              cases hreplayed
          | ok r =>
              rw [hs3] at hreplayed
              exact ⟨s1, s2, r.1, r.2, rfl, of_decide_eq_true hvisited1, hs2, of_decide_eq_true hvisited2, hs3,
                of_decide_eq_true hreplayed⟩

/-- The post-hook of one thread puts the remapped pointer of the other back before the host has seen it. -/
theorem undisturbed_not_of_run : ¬ ∀ events s,
    Lts.Run (ThreadStep duneLayout aliasSpace (fun _ => true) ⟨false, false⟩ vectorTable halfPage) twoThreads events s →
    Undisturbed duneLayout aliasSpace s := by
  obtain ⟨s1, s2, result, s3, hs1, hvisited1, hs2, hvisited2, hs3, hremapped⟩ := twoThreads_hooks
  let Step := ThreadStep duneLayout aliasSpace (fun _ => true) ⟨false, false⟩ vectorTable halfPage
  let lower : VmcallIssued := ⟨s1.visited, (twoThreads.shared.enterHook (halfArgs false) false).word⟩
  let upper : VmcallIssued := ⟨s2.visited, (s1.enterHook (halfArgs true) false).word⟩
  let first := Function.update twoThreads.phase false (.prepared lower)
  let both := Function.update first true (.prepared upper)
  let executed := Function.update both true (.executed upper)
  have hlower : Step twoThreads (.prehook false 0 (halfArgs false) false) ⟨s1, first⟩ := by
    refine .prehook trivial hs1 fun va hva => ?_
    rw [hvisited1] at hva
    obtain rfl : va = ALIAS_PAGE := by simpa using hva
    rw [aliasPage_resolves.1]
    change false = decide (ALIAS_PAGE + 2048 ≤ ALIAS_PAGE)
    decide
  have hupper : Step ⟨s1, first⟩ (.prehook true 0 (halfArgs true) false) ⟨s2, both⟩ := by
    refine .prehook trivial hs2 fun va hva => ?_
    rw [hvisited2] at hva
    obtain rfl : va = ALIAS_PAGE + 2048 := by simpa using hva
    rw [aliasPage_resolves.2]
    change true = decide (ALIAS_PAGE + 2048 ≤ ALIAS_PAGE + 2048)
    decide
  have hhost : Step ⟨s2, both⟩ (.host true s2.mem) ⟨s2, executed⟩ := by
    have hphase : both true = .prepared upper := rfl
    exact .host hphase fun _ _ => rfl
  have hposthook : Step ⟨s2, executed⟩ (.posthook true 0) ⟨s3, Function.update executed true (.returned upper)⟩ :=
    .posthook rfl hs3
  intro hall
  have hnests : lower.Nests aliasSpace ALIAS_PAGE :=
    ⟨ALIAS_PAGE, by simp [lower, hvisited1], aliasPage_resolves.1⟩
  have hundisturbed := hall _ _ ((((Lts.Run.single hlower).snoc hupper).snoc hhost).snoc hposthook)
  exact hundisturbed.canonical false lower rfl ALIAS_PAGE hnests hremapped

end Dangless
