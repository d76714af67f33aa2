import Dangless.LibRun
import Dangless.VmcallFixup

/-! The buffer of the restoration records (`vmcall_fixup_restore.c`): its block of memory, beside the capacity and
the number of records that the code keeps for it. -/

namespace Dangless

/-- `sizeof(struct restoration_record)`. -/
def RECORD_SIZE : Nat := 16

/-- What a call of `sysrealloc` does: it gives a block of the size, or `NULL`, and then it has released the old
block where the size was 0. -/
inductive SysreallocAnswer where
  | block
  | null
  | nullFreed
  deriving DecidableEq, Repr

/-- The three globals: `block` is the size of the block that `g_records` refers to, `none` where there is none.
`writes` is the history of the records: the index of each one, with the capacity at that moment. -/
structure RecordsBuffer where
  block : Option Nat
  capacity : Nat
  count : Nat
  writes : List (Nat × Nat)
  deriving DecidableEq, Repr

namespace RecordsBuffer

/-- `grow_records_buffer`. -/
def grow (answer : SysreallocAnswer) (newCapacity : Nat) (b : RecordsBuffer) : Bool × RecordsBuffer :=
  match answer with
  | .block => (true, { b with block := some (u64 (newCapacity * RECORD_SIZE)), capacity := newCapacity })
  | .null => (false, b)
  | .nullFreed => (false, { b with block := none })

/-- `vmcall_fixup_restore_init`; `initial` is the size from the configuration. -/
def init (initial : Nat) (answer : SysreallocAnswer) (b : RecordsBuffer) : RecordsBuffer := (grow answer initial b).2

/-- `g_records[g_record_count++] = ..`. -/
def add (b : RecordsBuffer) : RecordsBuffer :=
  { b with count := b.count + 1, writes := (b.count, b.capacity) :: b.writes }

/-- `vmcall_fixup_restore_on_return`. -/
def onReturn (answer : SysreallocAnswer) (b : RecordsBuffer) : RecordsBuffer :=
  if b.count = b.capacity then
    let grown := grow answer (u64 (b.capacity * 2)) b
    if !grown.1 then grown.2 else add grown.2
  else add b

/-- `vmcall_fixup_restore_originals`. -/
def originals (b : RecordsBuffer) : RecordsBuffer := if b.count = 0 then b else { b with count := 0 }

/-- The state in which the program starts. -/
def empty : RecordsBuffer := ⟨none, 0, 0, []⟩

/-- The size of the block, 0 where there is none. -/
def room (b : RecordsBuffer) : Nat := b.block.getD 0

/-- The records lie within the capacity, the block has room for it, and no record has been written beyond it. -/
structure Within (b : RecordsBuffer) : Prop where
  count : b.count ≤ b.capacity
  room : b.capacity * RECORD_SIZE ≤ b.room
  writes : ∀ write ∈ b.writes, write.1 < write.2

variable {b b' : RecordsBuffer} {initial : Nat} {answer : SysreallocAnswer}

/-- No block is larger than what a `size_t` can say. -/
def InWidth (b : RecordsBuffer) : Prop := b.room < 2 ^ 64

theorem Within.capacity_lt (h : b.Within) (hwidth : b.InWidth) : b.capacity < 2 ^ 60 := by
  have hroom := h.room
  unfold InWidth at hwidth
  simp only [RECORD_SIZE] at hroom
  omega

theorem InWidth.grow (h : b.InWidth) (answer : SysreallocAnswer) (newCapacity : Nat) :
    (grow answer newCapacity b).2.InWidth := by
  cases answer with
  | block => exact Nat.mod_lt _ (by decide)
  | null => exact h
  | nullFreed => exact show (0 : Nat) < 2 ^ 64 by decide

theorem Within.add_iff (hroom : b.capacity * RECORD_SIZE ≤ b.room) (hwrites : ∀ write ∈ b.writes, write.1 < write.2) :
    b.add.Within ↔ b.count < b.capacity := by
  constructor
  · intro h
    exact h.writes _ List.mem_cons_self
  · intro hlt
    refine ⟨hlt, hroom, fun write hwrite => ?_⟩
    rcases List.mem_cons.mp hwrite with rfl | hold
    · exact hlt
    · exact hwrites write hold

/-- A call of `sysrealloc` for `newCapacity` records leaves the buffer sound: a block that was obtained has room
for them and holds the records there are, and a block that was released was not in use. -/
def GrowsWithin (b : RecordsBuffer) (newCapacity : Nat) : SysreallocAnswer → Prop
  | .block => b.count ≤ newCapacity ∧ newCapacity * RECORD_SIZE < 2 ^ 64
  | .null => True
  | .nullFreed => b.capacity = 0

theorem Within.grow_iff (h : b.Within) (answer : SysreallocAnswer) (newCapacity : Nat) :
    (RecordsBuffer.grow answer newCapacity b).2.Within ↔ GrowsWithin b newCapacity answer := by
  cases answer with
  | null => exact iff_of_true h trivial
  | nullFreed =>
      constructor
      · intro hfreed
        have hroom : b.capacity * RECORD_SIZE ≤ 0 := hfreed.room
        simp only [RECORD_SIZE] at hroom
        show b.capacity = 0
        omega
      · intro hzero
        have hcapacity : b.capacity = 0 := hzero
        refine ⟨h.count, ?_, h.writes⟩
        show b.capacity * RECORD_SIZE ≤ 0
        rw [hcapacity, Nat.zero_mul]
  | block =>
      constructor
      · intro hblock
        have hroom : newCapacity * RECORD_SIZE ≤ u64 (newCapacity * RECORD_SIZE) := hblock.room
        exact ⟨hblock.count, hroom.trans_lt (Nat.mod_lt _ (by decide))⟩
      · rintro ⟨hcount, hwidth⟩
        refine ⟨hcount, ?_, h.writes⟩
        show newCapacity * RECORD_SIZE ≤ u64 (newCapacity * RECORD_SIZE)
        rw [u64_of_lt hwidth]

/-- The calls, each with the answer of `sysrealloc` if it comes to call it. -/
inductive Call where
  | init (answer : SysreallocAnswer)
  | onReturn (answer : SysreallocAnswer)
  | originals
  deriving DecidableEq, Repr

def Call.run (initial : Nat) (b : RecordsBuffer) : Call → RecordsBuffer
  | .init answer => RecordsBuffer.init initial answer b
  | .onReturn answer => RecordsBuffer.onReturn answer b
  | .originals => RecordsBuffer.originals b

/-- The block is released only by a call for size 0. -/
def Call.Possible (initial : Nat) (b : RecordsBuffer) : Call → Prop
  | .init .nullFreed => u64 (initial * RECORD_SIZE) = 0
  | .onReturn .nullFreed => b.count = b.capacity → u64 (u64 (b.capacity * 2) * RECORD_SIZE) = 0
  | _ => True

def Step (initial : Nat) (b : RecordsBuffer) (call : Call) (b' : RecordsBuffer) : Prop :=
  call.Possible initial b ∧ b' = call.run initial b

/-- A second `init` does not cut the buffer below the records in it, and a full buffer that is to grow is neither
empty nor as large as memory. -/
def Call.Keeps (initial : Nat) (b : RecordsBuffer) : Call → Prop
  | .init answer => GrowsWithin b initial answer
  | .onReturn .block => b.count = b.capacity → 0 < b.capacity ∧ b.capacity < 2 ^ 59
  | .onReturn .nullFreed => b.count = b.capacity → b.capacity = 0
  | .onReturn .null | .originals => True

theorem Within.onReturn_iff (h : b.Within) (hwidth : b.InWidth) (answer : SysreallocAnswer) :
    (b.onReturn answer).Within ↔ (Call.onReturn answer).Keeps initial b := by
  have hcapacity := h.capacity_lt hwidth
  have hdouble : u64 (b.capacity * 2) = b.capacity * 2 := u64_of_lt (by omega)
  unfold RecordsBuffer.onReturn
  rw [hdouble]
  by_cases hfull : b.count = b.capacity
  · rw [if_pos hfull]
    cases answer with
    | null => exact iff_of_true h trivial
    | nullFreed =>
        have hgrow := h.grow_iff .nullFreed (b.capacity * 2)
        exact hgrow.trans ⟨fun hzero _ => hzero, fun hkeeps => hkeeps hfull⟩
    | block =>
        have hgrow := h.grow_iff .block (b.capacity * 2)
        constructor
        · intro hadded _
          have hlt : b.count < b.capacity * 2 := hadded.writes _ List.mem_cons_self
          have hroom : b.capacity * 2 * RECORD_SIZE ≤ u64 (b.capacity * 2 * RECORD_SIZE) := hadded.room
          have hmod : u64 (b.capacity * 2 * RECORD_SIZE) < 2 ^ 64 := Nat.mod_lt _ (by decide)
          simp only [RECORD_SIZE] at hroom hmod
          exact ⟨by omega, by omega⟩
        · intro hkeeps
          obtain ⟨hpos, hlt⟩ := hkeeps hfull
          have hgrown : (grow .block (b.capacity * 2) b).2.Within := by
            apply hgrow.mpr
            refine ⟨by omega, ?_⟩
            simp only [RECORD_SIZE]
            omega
          apply (Within.add_iff hgrown.room hgrown.writes).mpr
          show b.count < b.capacity * 2
          omega
  · rw [if_neg hfull]
    have hlt : b.count < b.capacity := lt_of_le_of_ne h.count hfull
    refine iff_of_true ((Within.add_iff h.room h.writes).mpr hlt) ?_
    cases answer with
    | null => trivial
    | nullFreed => exact fun heq => absurd heq hfull
    | block => exact fun heq => absurd heq hfull

/-- A call keeps the buffer sound exactly where it meets the condition. -/
theorem Within.step_iff {call : Call} (h : b.Within) (hwidth : b.InWidth) (hstep : Step initial b call b') :
    b'.Within ↔ call.Keeps initial b := by
  obtain ⟨-, rfl⟩ := hstep
  cases call with
  | init answer => exact h.grow_iff answer initial
  | onReturn answer => exact h.onReturn_iff hwidth answer
  | originals =>
      refine iff_of_true ?_ trivial
      show (RecordsBuffer.originals b).Within
      unfold RecordsBuffer.originals
      split_ifs
      · exact h
      · exact ⟨Nat.zero_le _, h.room, h.writes⟩

theorem InWidth.step {call : Call} (hwidth : b.InWidth) (hstep : Step initial b call b') : b'.InWidth := by
  obtain ⟨-, rfl⟩ := hstep
  cases call with
  | init answer => exact hwidth.grow answer initial
  | onReturn answer =>
      show (RecordsBuffer.onReturn answer b).InWidth
      unfold RecordsBuffer.onReturn
      dsimp only
      split_ifs
      · exact hwidth.grow answer _
      · exact hwidth.grow answer _
      · exact hwidth
  | originals =>
      show (RecordsBuffer.originals b).InWidth
      unfold RecordsBuffer.originals
      split_ifs <;> exact hwidth

theorem within_of_run {calls : List Call}
    (hrun : Lts.Run (fun b call b' => Step initial b call b' ∧ call.Keeps initial b) empty calls b) : b.Within := by
  have hstart : empty.Within ∧ empty.InWidth := by
    refine ⟨⟨le_rfl, ?_, by simp [empty]⟩, show (0 : Nat) < 2 ^ 64 by decide⟩
    exact le_rfl
  have hinv := hrun.invariant (I := fun b => b.Within ∧ b.InWidth) ?_ hstart
  · exact hinv.1
  · rintro b call b' ⟨h, hwidth⟩ ⟨hstep, hkeeps⟩
    exact ⟨(h.step_iff hwidth hstep).mpr hkeeps, hwidth.step hstep⟩

/-- A buffer for one record that is given two. -/
theorem within_of_run_two : (⟨some 32, 2, 2, [(1, 2), (0, 1)]⟩ : RecordsBuffer).Within := by
  have hinit : Step 1 empty (.init .block) ⟨some 16, 1, 0, []⟩ := ⟨trivial, by decide⟩
  have hfirst : Step 1 ⟨some 16, 1, 0, []⟩ (.onReturn .null) ⟨some 16, 1, 1, [(0, 1)]⟩ := ⟨trivial, by decide⟩
  have hsecond : Step 1 ⟨some 16, 1, 1, [(0, 1)]⟩ (.onReturn .block) ⟨some 32, 2, 2, [(1, 2), (0, 1)]⟩ :=
    ⟨trivial, by decide⟩
  exact within_of_run (((Lts.Run.nil _).snoc ⟨hinit, by decide, by decide⟩).snoc ⟨hfirst, trivial⟩ |>.snoc
    ⟨hsecond, fun _ => ⟨by decide, by decide⟩⟩)

/-- The first allocation fails, and the call for 0 bytes that the first record makes succeeds. -/
theorem within_not_of_run : ∃ calls b, Lts.Run (Step 32) empty calls b ∧ ¬ b.Within := by
  have hinit : Step 32 empty (.init .null) empty := ⟨trivial, rfl⟩
  have hrecord : Step 32 empty (.onReturn .block) ⟨some 0, 0, 1, [(0, 0)]⟩ := ⟨trivial, by decide⟩
  refine ⟨_, _, ((Lts.Run.nil _).snoc hinit).snoc hrecord, fun h => ?_⟩
  exact absurd h.count (by decide)

/-- The buffer holds the records of the state of the hooks. -/
structure Holds (b : RecordsBuffer) (s : HookState) : Prop where
  count : b.count = s.records.length
  capacity : b.capacity = s.capacity

/-- `vmcall_fixup_restore_on_return` does to the records what it does to the buffer. -/
theorem Holds.onReturn {s : HookState} (h : b.Holds s) (hcapacity : b.capacity < 2 ^ 63) (grows : Nat → Bool)
    (location : Slot) (value : Nat) :
    (b.onReturn (if grows s.growths then .block else .null)).Holds
      (vmcallFixupRestoreOnReturn grows location value s) := by
  obtain ⟨hcount, hcap⟩ := h
  have hdouble : u64 (b.capacity * 2) = s.capacity * 2 := by
    rw [← hcap]
    exact u64_of_lt (by omega)
  have hadded : ∀ s' : HookState, (addRecord location value s').records.length = s'.records.length + 1 := by
    intro s'
    rw [addRecord, List.length_append, List.length_singleton]
  unfold RecordsBuffer.onReturn vmcallFixupRestoreOnReturn growRecordsBuffer
  rw [hdouble, hcount, hcap]
  by_cases hfull : s.records.length = s.capacity
  · rw [if_pos hfull, if_pos hfull]
    cases hgrows : grows s.growths with
    | true => exact ⟨(congrArg (· + 1) hcount).trans (hadded _).symm, rfl⟩
    | false => exact ⟨hcount, hcap⟩
  · rw [if_neg hfull, if_neg hfull]
    exact ⟨(congrArg (· + 1) hcount).trans (hadded s).symm, hcap⟩

theorem restoreRecords_capacity {pt : PtState} {records : List (Slot × Nat)} {s s' : HookState}
    (h : restoreRecords pt records s = .ok s') : s'.capacity = s.capacity := by
  induction records generalizing s with
  | nil =>
      cases h
      rfl
  | cons record records ih =>
      obtain ⟨slot, value⟩ := record
      unfold restoreRecords at h
      cases hwrite : writeSlot pt slot value s with
      | error e =>
          rw [hwrite] at h
          cases h
      | ok s1 =>
          rw [hwrite] at h
          have hsame : s1.capacity = s.capacity := by
            cases slot with
            | arg i =>
                cases hwrite
                rfl
            | mem va =>
                dsimp only [writeSlot] at hwrite
                cases hcheck : checkAccess pt va with
                | error e =>
                    rw [hcheck] at hwrite
                    cases hwrite
                | ok _ =>
                    rw [hcheck] at hwrite
                    cases hwrite
                    rfl
          exact (ih h).trans hsame

theorem Holds.originals {pt : PtState} {s s' : HookState} (h : b.Holds s)
    (hrestored : vmcallFixupRestoreOriginals pt s = .ok s') : b.originals.Holds s' := by
  obtain ⟨hcount, hcap⟩ := h
  unfold vmcallFixupRestoreOriginals at hrestored
  unfold RecordsBuffer.originals
  rw [hcount]
  by_cases hnone : s.records.length = 0
  · rw [if_pos hnone] at hrestored ⊢
    cases hrestored
    exact ⟨hcount, hcap⟩
  · rw [if_neg hnone] at hrestored ⊢
    cases hloop : restoreRecords pt s.records s with
    | error e =>
        rw [hloop] at hrestored
        cases hrestored
    | ok s1 =>
        rw [hloop] at hrestored
        cases hrestored
        exact ⟨rfl, hcap.trans (restoreRecords_capacity hloop).symm⟩

end RecordsBuffer

end Dangless
