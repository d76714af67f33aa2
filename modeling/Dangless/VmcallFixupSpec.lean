import Dangless.VmcallSlots

/-! The fixup of arguments visits the slots that `fixup_slots` describes, leaves the canonical pointers in them
and changes no other word, in an address space that Dune has laid out; it stops with an access that is not
aligned or not mapped exactly where the description does. The records are the words of memory that it has
overwritten, until a growth of their buffer fails. -/

namespace Dangless

variable {L : DuneLayout} {pt : PtState} {grows : Nat → Bool} {config : TraceConfig} {s s0 : HookState}
  {seen : List Slot} {slot : Slot} {n : Nat}

def HookState.setWord (s : HookState) (p : Slot) (value : Nat) : HookState :=
  match p with
  | .arg i => { s with args := Function.update s.args i value }
  | .mem pa => { s with mem := Function.update s.mem pa value }

theorem HookState.word_setWord (s : HookState) (p q : Slot) (value : Nat) :
    (s.setWord p value).word q = if q = p then value else s.word q := by
  cases p <;> cases q <;> simp [setWord, word, Function.update_apply]

/-- An access that C does not define or that the processor stops. -/
def BadAccess (e : HookError) : Prop := e ≠ .endless

theorem checkSlot_cases (pt : PtState) (slot : Slot) :
    (slot.Usable pt ∧ checkSlot pt slot = .ok ()) ∨ ∃ e, BadAccess e ∧ checkSlot pt slot = .error e := by
  cases hcheck : checkSlot pt slot with
  | ok => exact Or.inl ⟨checkSlot_eq_ok_iff.mp hcheck, rfl⟩
  | error e =>
      refine Or.inr ⟨e, ?_, rfl⟩
      rintro rfl
      cases slot with
      | arg i => cases hcheck
      | mem va =>
          change checkAccess pt va = _ at hcheck
          unfold checkAccess at hcheck
          split_ifs at hcheck <;> cases hcheck

theorem readSlot_eq (pt : PtState) (slot : Slot) (s : HookState) :
    readSlot pt slot s = checkSlot pt slot >>= fun _ => .ok (s.word (slot.place pt)) := by
  cases slot <;> rfl

theorem readSlot_usable (h : slot.Usable pt) (s : HookState) :
    readSlot pt slot s = .ok (s.word (slot.place pt)) := by
  rw [readSlot_eq, checkSlot_eq_ok_iff.mpr h]
  rfl

theorem writeSlot_usable (h : slot.Usable pt) (value : Nat) (s : HookState) :
    writeSlot pt slot value s = .ok (s.setWord (slot.place pt) value) := by
  have heq : writeSlot pt slot value s = checkSlot pt slot >>= fun _ => .ok (s.setWord (slot.place pt) value) := by
    cases slot <;> rfl
  rw [heq, checkSlot_eq_ok_iff.mpr h]
  rfl

/-- How many records there are for `n` overwritten words: one each, as long as every growth that the buffer
has needed has succeeded; fewer, once one of them has failed. -/
inductive RecordCount (grows : Nat → Bool) (s0 : HookState) (n : Nat) (s : HookState) : Prop
  | all {g : Nat} (length : s.records.length = n) (capacity : s.capacity = s0.capacity * 2 ^ g)
      (growths : s.growths = s0.growths + g) (needed : ∀ j < g, s0.capacity * 2 ^ j < n)
      (room : 0 < s0.capacity → n ≤ s.capacity)
      (grown : 0 < s0.capacity → ∀ j, s0.capacity * 2 ^ j < n → grows (s0.growths + j) = true)
  | lost {j : Nat} (length : s.records.length < n) (needed : s0.capacity * 2 ^ j < n)
      (first : s0.capacity = 0 → j = 0) (failed : grows (s0.growths + j) = false)

theorem RecordCount.congr {s' : HookState} (h : RecordCount grows s0 n s) (hrecords : s'.records = s.records)
    (hcapacity : s'.capacity = s.capacity) (hgrowths : s'.growths = s.growths) :
    RecordCount grows s0 n s' := by
  cases h with
  | all hlength hcap hgr hneeded hroom hgrown =>
      exact .all (hrecords ▸ hlength) (hcapacity ▸ hcap) (hgrowths ▸ hgr) hneeded (hcapacity ▸ hroom) hgrown
  | lost hlength hneeded hfirst hfailed => exact .lost (hrecords ▸ hlength) hneeded hfirst hfailed

theorem RecordCount.start {s1 : HookState} (h : RecordCount grows s0 n s) (hcapacity : s1.capacity = s0.capacity)
    (hgrowths : s1.growths = s0.growths) : RecordCount grows s1 n s := by
  cases h with
  | all hlength hcap hgr hneeded hroom hgrown =>
      rw [← hcapacity] at hcap hneeded hroom hgrown
      rw [← hgrowths] at hgr hgrown
      exact .all hlength hcap hgr hneeded hroom hgrown
  | lost hlength hneeded hfirst hfailed =>
      rw [← hcapacity] at hneeded hfirst
      rw [← hgrowths] at hfailed
      exact .lost hlength hneeded hfirst hfailed

theorem RecordCount.add (h : RecordCount grows s0 n s) (location : Slot) (value : Nat) :
    RecordCount grows s0 (n + 1) (vmcallFixupRestoreOnReturn grows location value s) := by
  unfold vmcallFixupRestoreOnReturn growRecordsBuffer
  cases h with
  | @all g hlength hcapacity hgrowths hneeded hroom hgrown =>
      by_cases hfull : s.records.length = s.capacity
      · -- the buffer is full
        have hn : s0.capacity * 2 ^ g = n := by omega
        rw [if_pos hfull]
        cases hgrows : grows s.growths with
        | true =>
            refine .all (g := g + 1) (by simp [addRecord, hlength]) ?_ ?_ ?_ ?_ ?_
            · simp [addRecord, hcapacity, pow_succ, mul_assoc]
            · simp [addRecord, hgrowths, add_assoc]
            · intro j hj
              rcases Nat.lt_succ_iff_lt_or_eq.mp hj with hj | rfl
              · exact (hneeded j hj).trans (Nat.lt_succ_self n)
              · omega
            · intro hpos
              have hg : 1 ≤ 2 ^ g := Nat.one_le_two_pow
              have hcap : 1 ≤ s0.capacity * 2 ^ g := Nat.mul_pos hpos hg
              simp only [addRecord, if_true, Bool.not_true]
              change n + 1 ≤ s.capacity * 2
              omega
            · intro hpos j hj
              rcases Nat.lt_trichotomy j g with hlt | rfl | hgt
              · exact hgrown hpos j (hneeded j hlt)
              · rwa [← hgrowths]
              · have hpow : s0.capacity * 2 ^ (g + 1) ≤ s0.capacity * 2 ^ j :=
                  Nat.mul_le_mul_left _ (Nat.pow_le_pow_right (by decide) hgt)
                have hg : 1 ≤ s0.capacity * 2 ^ g := Nat.mul_pos hpos Nat.one_le_two_pow
                rw [pow_succ, ← mul_assoc] at hpow
                omega
        | false =>
            refine .lost (j := g) ?_ (by omega) ?_ ?_
            · simp [hlength]
            · intro hzero
              by_contra hg
              have hlt := hneeded 0 (Nat.pos_of_ne_zero hg)
              simp only [hzero, zero_mul] at hn hlt
              omega
            · rw [← hgrowths, hgrows]
      · rw [if_neg hfull]
        refine .all (g := g) (by simp [addRecord, hlength]) (by simp [addRecord, hcapacity])
          (by simp [addRecord, hgrowths]) (fun j hj => (hneeded j hj).trans (Nat.lt_succ_self n)) ?_ ?_
        · intro hpos
          have hle := hroom hpos
          simp only [addRecord]
          omega
        · intro hpos j hj
          apply hgrown hpos
          rcases Nat.lt_or_ge j g with hlt | hge
          · exact hneeded j hlt
          · have hpow : s0.capacity * 2 ^ g ≤ s0.capacity * 2 ^ j :=
              Nat.mul_le_mul_left _ (Nat.pow_le_pow_right (by decide) hge)
            have hle := hroom hpos
            omega
  | @lost j hlength hneeded hfirst hfailed =>
      have hshort : ∀ s' : HookState, s'.records.length ≤ s.records.length + 1 →
          RecordCount grows s0 (n + 1) s' := fun s' hle =>
        .lost (by omega) (hneeded.trans (Nat.lt_succ_self n)) hfirst hfailed
      apply hshort
      dsimp only
      split_ifs <;> simp [addRecord]

/-- The records that have been added to those of the first state: one for each of the overwritten words of memory,
or for some of them, with their first values. -/
structure RecordsAdded (L : DuneLayout) (pt : PtState) (grows : Nat → Bool) (s0 : HookState) (seen : List Slot)
    (new : List (Slot × Nat)) (s : HookState) : Prop where
  records : s.records = s0.records ++ new
  record : ∀ r ∈ new, ∃ va, r = (.mem va, s0.mem (ptResolve pt va)) ∧ Accessible pt va ∧
    ptResolve pt va ∈ overwritten L pt s0.word seen
  nodup : (new.map fun r => r.1.place pt).Nodup
  count : RecordCount grows s0 (s0.records.length + (overwritten L pt s0.word seen).card) s

/-- The state in the middle of the fixup, when the slots `seen` have been visited; the records of other calls may
be there. -/
structure FixupRun (L : DuneLayout) (pt : PtState) (grows : Nat → Bool) (s0 : HookState) (seen : List Slot)
    (s : HookState) : Prop where
  visited : s.visited = seen
  word : ∀ p, s.word p = wordAfter L pt s0.word seen p
  log : ∃ new, RecordsAdded L pt grows s0 seen new s

/-- The state when `fixup_ptr` has returned. -/
def fixedState (L : DuneLayout) (pt : PtState) (grows : Nat → Bool) (slot : Slot) (s : HookState) : HookState :=
  let originalPtr := s.word (slot.place pt)
  let s := { s with visited := s.visited ++ [slot] }
  if (vremapResolve L pt originalPtr).1 = VREM_OK then
    let s := s.setWord (slot.place pt) (canonicalPtr L pt originalPtr)
    if s.depth > 1 then vmcallFixupRestoreOnReturn grows slot originalPtr s else s
  else s

theorem DuneSpace.fixupPtr_usable (h : DuneSpace L pt) (grows : Nat → Bool) (husable : slot.Usable pt) (s : HookState) :
    ∃ result, fixupPtr L pt grows slot s =
      .ok ⟨result, isValidPtr L pt (s.word (slot.place pt)), fixedState L pt grows slot s⟩ := by
  unfold fixupPtr fixedState isValidPtr
  rw [readSlot_usable husable]
  generalize s.word (slot.place pt) = v
  by_cases hok : (vremapResolve L pt v).1 = VREM_OK
  · obtain ⟨hlow, hstack⟩ := h.not_trivial hok
    obtain ⟨c, hc⟩ := h.resolvesTo hok
    have hgetD : (vremapResolve L pt v).2.getD v = canonicalPtr L pt v := by
      rw [h.canonicalPtr_eq hc, hc.resolve]
      rfl
    simp only [if_pos hok, if_neg hstack, if_neg (Nat.not_lt.mpr hlow), hgetD, writeSlot_usable husable, bind,
      Except.bind]
    refine ⟨(vremapResolve L pt v).1, ?_⟩
    split_ifs <;> rfl
  · simp only [if_neg hok, bind, Except.bind]
    by_cases hlow : v < PGSIZE
    · exact ⟨_, by rw [if_pos hlow, if_pos hlow]⟩
    by_cases hstack : isTriviallyNotRemapped L v
    · exact ⟨_, by rw [if_neg hlow, if_pos hstack, if_neg hlow, if_pos hstack]⟩
    · exact ⟨_, by rw [if_neg hlow, if_neg hstack, if_neg hlow, if_neg hstack]⟩

theorem restoreOnReturn_word (location p : Slot) (value : Nat) (s : HookState) :
    (vmcallFixupRestoreOnReturn grows location value s).word p = s.word p := by
  unfold vmcallFixupRestoreOnReturn growRecordsBuffer
  dsimp only
  split_ifs <;> cases p <;> rfl

theorem restoreOnReturn_visited (location : Slot) (value : Nat) (s : HookState) :
    (vmcallFixupRestoreOnReturn grows location value s).visited = s.visited := by
  unfold vmcallFixupRestoreOnReturn growRecordsBuffer
  dsimp only
  split_ifs <;> rfl

theorem restoreOnReturn_depth (location : Slot) (value : Nat) (s : HookState) :
    (vmcallFixupRestoreOnReturn grows location value s).depth = s.depth := by
  unfold vmcallFixupRestoreOnReturn growRecordsBuffer
  dsimp only
  split_ifs <;> rfl

theorem restoreOnReturn_records (grows : Nat → Bool) (location : Slot) (value : Nat) (s : HookState) :
    (vmcallFixupRestoreOnReturn grows location value s).records = s.records ∨
    (vmcallFixupRestoreOnReturn grows location value s).records = s.records ++ [(location, value)] := by
  unfold vmcallFixupRestoreOnReturn growRecordsBuffer
  dsimp only
  split_ifs <;> first | exact Or.inl rfl | exact Or.inr rfl

theorem setWord_depth (p : Slot) (value : Nat) (s : HookState) : (s.setWord p value).depth = s.depth := by
  cases p <;> rfl

theorem fixedState_depth (slot : Slot) (s : HookState) :
    (fixedState L pt grows slot s).depth = s.depth := by
  unfold fixedState
  dsimp only
  split_ifs
  · rw [restoreOnReturn_depth, setWord_depth]
  · rw [setWord_depth]
  · rfl

theorem fixedState_visited (slot : Slot) (s : HookState) :
    (fixedState L pt grows slot s).visited = s.visited ++ [slot] := by
  unfold fixedState
  dsimp only
  split_ifs
  · rw [restoreOnReturn_visited]
    cases slot <;> rfl
  · cases slot <;> rfl
  · rfl

/-- Only the word of the slot changes. -/
theorem fixedState_word (slot p : Slot) (s : HookState) : (fixedState L pt grows slot s).word p =
    if p = slot.place pt then canonicalPtr L pt (s.word p) else s.word p := by
  have hkeep : ∀ visited, HookState.word { s with visited := visited } p = s.word p := by
    intro visited
    cases p <;> rfl
  unfold fixedState
  dsimp only
  split_ifs with hok hdepth hp hp hp
  · rw [restoreOnReturn_word, HookState.word_setWord, if_pos hp, hp]
  · rw [restoreOnReturn_word, HookState.word_setWord, if_neg hp, hkeep]
  · rw [HookState.word_setWord, if_pos hp, hp]
  · rw [HookState.word_setWord, if_neg hp, hkeep]
  · rw [hkeep, hp, canonicalPtr_of_not_ok hok]
  · exact hkeep _

theorem overwritten_append_same (hsame : ¬ (slot.Nested ∧
      (vremapResolve L pt (wordAfter L pt s0.word seen (slot.place pt))).1 = VREM_OK)) :
    overwritten L pt s0.word (seen ++ [slot]) = overwritten L pt s0.word seen := by
  ext pa
  simp only [mem_overwritten, List.map_append, List.mem_append, List.map_cons, List.map_nil,
    List.mem_singleton]
  constructor
  · rintro ⟨hmem | heq, hok⟩
    · exact ⟨hmem, hok⟩
    · refine ⟨?_, hok⟩
      cases slot with
      | arg i => cases heq
      | mem va =>
          by_contra hnew
          apply hsame
          refine ⟨trivial, ?_⟩
          rw [← heq, wordAfter, if_neg hnew]
          exact hok
  · rintro ⟨hmem, hok⟩
    exact ⟨Or.inl hmem, hok⟩

/-- A slot of memory whose pointer is rewritten has not been visited before. -/
theorem DuneSpace.overwritten_append_new {va : Nat} (h : DuneSpace L pt)
    (hok : (vremapResolve L pt (wordAfter L pt s0.word seen (.mem (ptResolve pt va)))).1 = VREM_OK) :
    wordAfter L pt s0.word seen (.mem (ptResolve pt va)) = s0.mem (ptResolve pt va) ∧
    ptResolve pt va ∉ overwritten L pt s0.word seen ∧
    overwritten L pt s0.word (seen ++ [.mem va]) = insert (ptResolve pt va) (overwritten L pt s0.word seen) := by
  have hnew : Slot.mem (ptResolve pt va) ∉ seen.map (Slot.place pt) := by
    intro hmem
    have hsettled := h.canonicalPtr_idem (s0.mem (ptResolve pt va))
    rw [wordAfter, if_pos hmem] at hok
    exact h.canonicalPtr_eq_self_iff.mp hsettled hok
  have hword : wordAfter L pt s0.word seen (.mem (ptResolve pt va)) = s0.mem (ptResolve pt va) := if_neg hnew
  refine ⟨hword, fun hmem => hnew (mem_overwritten.mp hmem).1, ?_⟩
  rw [hword] at hok
  ext pa
  simp only [mem_overwritten, Finset.mem_insert, List.map_append, List.mem_append, List.map_cons,
    List.map_nil, List.mem_singleton, Slot.place, Slot.mem.injEq]
  constructor
  · rintro ⟨hmem | heq, hpa⟩
    · exact Or.inr ⟨hmem, hpa⟩
    · exact Or.inl heq
  · rintro (rfl | ⟨hmem, hpa⟩)
    · exact ⟨Or.inr rfl, hok⟩
    · exact ⟨Or.inl hmem, hpa⟩

/-- A record for a slot of memory that is rewritten. -/
theorem RecordsAdded.add {va : Nat} {s' : HookState} {new : List (Slot × Nat)}
    (hlog : RecordsAdded L pt grows s0 seen new s) (h : DuneSpace L pt) (hva : Accessible pt va)
    (hok : (vremapResolve L pt (wordAfter L pt s0.word seen (.mem (ptResolve pt va)))).1 = VREM_OK)
    (hrecords : s'.records = s.records) (hcapacity : s'.capacity = s.capacity)
    (hgrowths : s'.growths = s.growths) :
    ∃ new', RecordsAdded L pt grows s0 (seen ++ [.mem va]) new' (vmcallFixupRestoreOnReturn grows (.mem va)
      (wordAfter L pt s0.word seen (.mem (ptResolve pt va))) s') := by
  obtain ⟨hword, hfresh, hinsert⟩ := h.overwritten_append_new hok
  have hold : ∀ r ∈ new, ∃ va', r = (.mem va', s0.mem (ptResolve pt va')) ∧ Accessible pt va' ∧
      ptResolve pt va' ∈ overwritten L pt s0.word (seen ++ [.mem va]) := by
    intro r hr
    obtain ⟨va', heq, haccess, hmem⟩ := hlog.record r hr
    exact ⟨va', heq, haccess, hinsert ▸ Finset.mem_insert_of_mem hmem⟩
  have hcount : RecordCount grows s0 (s0.records.length + (overwritten L pt s0.word (seen ++ [.mem va])).card)
      (vmcallFixupRestoreOnReturn grows (.mem va)
        (wordAfter L pt s0.word seen (.mem (ptResolve pt va))) s') := by
    rw [hinsert, Finset.card_insert_of_notMem hfresh, ← Nat.add_assoc]
    exact (hlog.count.congr hrecords hcapacity hgrowths).add _ _
  rcases restoreOnReturn_records grows (.mem va)
    (wordAfter L pt s0.word seen (.mem (ptResolve pt va))) s' with heq | heq
  · exact ⟨new, heq.trans (hrecords.trans hlog.records), hold, hlog.nodup, hcount⟩
  · refine ⟨new ++ [(.mem va, wordAfter L pt s0.word seen (.mem (ptResolve pt va)))], ?_, ?_, ?_, hcount⟩
    · rw [heq, hrecords, hlog.records, List.append_assoc]
    · intro r hr
      rcases List.mem_append.mp hr with hr | hr
      · exact hold r hr
      · obtain rfl := List.mem_singleton.mp hr
        exact ⟨va, by rw [hword], hva, hinsert ▸ Finset.mem_insert_self _ _⟩
    · rw [List.map_append, List.nodup_append]
      refine ⟨hlog.nodup, by simp, ?_⟩
      intro p hp q hq heq'
      obtain ⟨r, hr, rfl⟩ := List.mem_map.mp hp
      obtain ⟨va', rfl, -, hmem⟩ := hlog.record r hr
      simp only [List.map_cons, List.map_nil, List.mem_singleton, Slot.place] at hq heq'
      rw [hq, Slot.mem.injEq] at heq'
      exact hfresh (heq' ▸ hmem)

/-- Where nothing is rewritten or the pointer is not nested, nothing is recorded. -/
theorem RecordsAdded.same {s' : HookState} {new : List (Slot × Nat)} (hlog : RecordsAdded L pt grows s0 seen new s)
    (hsame : ¬ (slot.Nested ∧ (vremapResolve L pt (wordAfter L pt s0.word seen (slot.place pt))).1 = VREM_OK))
    (hrecords : s'.records = s.records) (hcapacity : s'.capacity = s.capacity)
    (hgrowths : s'.growths = s.growths) : ∃ new', RecordsAdded L pt grows s0 (seen ++ [slot]) new' s' := by
  refine ⟨new, hrecords.trans hlog.records, ?_, hlog.nodup, ?_⟩
  · rw [overwritten_append_same hsame]
    exact hlog.record
  · rw [overwritten_append_same hsame]
    exact hlog.count.congr hrecords hcapacity hgrowths

/-- What `fixup_ptr` does to the state; only pointers in memory are fixed up as nested ones. -/
theorem FixupRun.fixed (hst : FixupRun L pt grows s0 seen s) (h : DuneSpace L pt) (husable : slot.Usable pt)
    (hdepth : 1 < s.depth ↔ slot.Nested) :
    FixupRun L pt grows s0 (seen ++ [slot]) (fixedState L pt grows slot s) := by
  refine ⟨by rw [fixedState_visited, hst.visited], ?_, ?_⟩
  · intro p
    rw [fixedState_word, wordAfter_append, hst.word p, h.canonicalPtr_wordAfter]
  · have hword := hst.word (slot.place pt)
    obtain ⟨new, hlog⟩ := hst.log
    unfold fixedState
    dsimp only
    rw [hword]
    cases slot with
    | arg i =>
        split_ifs with hok hnested
        · exact absurd (hdepth.mp hnested) id
        · exact hlog.same (fun hboth => hboth.1) rfl rfl rfl
        · exact hlog.same (fun hboth => hboth.1) rfl rfl rfl
    | mem va =>
        split_ifs with hok hnested
        · exact hlog.add h husable hok rfl rfl rfl
        · exact absurd (hdepth.mpr trivial) hnested
        · exact hlog.same (fun hboth => hok hboth.2) rfl rfl rfl

/-! ### The traversal -/

/-- A call that returns with the slots `seen` visited, at the depth at which it was entered. -/
def RunsTo (L : DuneLayout) (pt : PtState) (grows : Nat → Bool) (s0 : HookState) (depth : Nat)
    (r : Int × HookState) (seen : List Slot) : Prop :=
  FixupRun L pt grows s0 seen r.2 ∧ r.2.depth = depth

/-- What a call of `fixup_ptr` returns. -/
structure FixedPtr (L : DuneLayout) (pt : PtState) (grows : Nat → Bool) (s0 : HookState) (seen : List Slot)
    (slot : Slot) (depth : Nat) (r : FixupPtr) (seen' : List Slot) : Prop where
  slots : seen' = seen ++ [slot]
  state : FixupRun L pt grows s0 seen' r.state
  depth : r.state.depth = depth
  valid : r.isValid = isValidPtr L pt (wordAfter L pt s0.word seen (slot.place pt))
  usable : slot.Usable pt

theorem fixupPtr_simulates (slot : Slot) (h : DuneSpace L pt) (hst : FixupRun L pt grows s0 seen s)
    (hdepth : 1 < s.depth ↔ slot.Nested) :
    Simulates BadAccess (FixedPtr L pt grows s0 seen slot s.depth) (fixupPtr L pt grows slot s)
      (visit pt slot seen) := by
  unfold visit
  rcases checkSlot_cases pt slot with ⟨husable, hcheck⟩ | ⟨e, hbad, hcheck⟩
  · obtain ⟨result, hfixed⟩ := h.fixupPtr_usable grows husable s
    rw [hfixed, hcheck]
    apply Simulates.ok
    exact ⟨rfl, hst.fixed h husable hdepth, fixedState_depth slot s, by rw [hst.word], husable⟩
  · rw [fixupPtr, readSlot_eq, hcheck]
    exact .error hbad

theorem FixupRun.depth (h : FixupRun L pt grows s0 seen s) (depth : Nat) :
    FixupRun L pt grows s0 seen { s with depth := depth } := by
  obtain ⟨new, hlog⟩ := h.log
  refine ⟨h.visited, fun p => ?_, new, hlog.records, hlog.record, hlog.nodup, hlog.count.congr rfl rfl rfl⟩
  rw [← h.word p]
  cases p <;> rfl

/-- `FIXUP_SCOPE` around a call. -/
theorem fixupScope_simulates {body : HookState → Except HookError (Int × HookState)} {y : Except HookError (List Slot)}
    (hst : FixupRun L pt grows s0 seen s)
    (hbody : ∀ s', FixupRun L pt grows s0 seen s' → s'.depth = s.depth + 1 →
      Simulates BadAccess (RunsTo L pt grows s0 (s.depth + 1)) (body s') y) :
    Simulates BadAccess (RunsTo L pt grows s0 s.depth) (fixupScope body s) y := by
  have hinner := hbody _ (hst.depth (s.depth + 1)) rfl
  unfold fixupScope
  apply hinner.bind_ok
  rintro r seen' ⟨hst', hdepth'⟩
  refine ⟨hst'.depth _, ?_⟩
  change r.2.depth - 1 = s.depth
  omega

/-- `fixup_ptr` on a pointer, and then what is done with what it points to where it is valid. -/
theorem visitThrough_simulates {k : Int → HookState → Except HookError (Int × HookState)}
    {target : Nat → List Slot → Except HookError (List Slot)} (h : DuneSpace L pt)
    (hst : FixupRun L pt grows s0 seen s) (hdepth : 1 < s.depth ↔ slot.Nested)
    (hk : ∀ result s', FixupRun L pt grows s0 (seen ++ [slot]) s' → s'.depth = s.depth → slot.Usable pt →
      Simulates BadAccess (RunsTo L pt grows s0 s.depth) (k result s')
        (target (canonicalPtr L pt (s0.word (slot.place pt))) (seen ++ [slot]))) :
    Simulates BadAccess (RunsTo L pt grows s0 s.depth)
      (fixupPtr L pt grows slot s >>= fun r =>
        if !r.isValid then .ok (-1, r.state) else k (if r.result < 0 then -2 else 0) r.state)
      (visitThrough L pt s0.word slot target seen) := by
  apply (fixupPtr_simulates slot h hst hdepth).bind
  rintro r seen' ⟨rfl, hst', hdepth', hvalid, husable⟩
  rw [hvalid]
  cases isValidPtr L pt (wordAfter L pt s0.word seen (slot.place pt)) with
  | false => exact Simulates.ok (a := (-1, r.state)) ⟨hst', hdepth'⟩
  | true => exact hk _ _ hst' hdepth' husable

/-- What a pointer that has been fixed up is afterwards. -/
theorem FixupRun.read_fixed (hst : FixupRun L pt grows s0 seen s) (husable : slot.Usable pt)
    (hmem : slot ∈ seen) : readSlot pt slot s = .ok (canonicalPtr L pt (s0.word (slot.place pt))) := by
  rw [readSlot_usable husable, hst.word, wordAfter_of_mem hmem]

/-- No array of pointers fills the space of addresses: one of the first `MAX_ITEMS` is not canonical. -/
theorem exists_item_unusable (pt : PtState) (ptrs : Nat) :
    ∃ i < MAX_ITEMS, ¬ (itemSlot ptrs i).Usable pt := by
  by_contra hall
  push Not at hall
  -- one of the two lies in the gap between the halves, wherever the array starts
  have hcanonical : ∀ i < MAX_ITEMS, Paging.Canonical (u64 (ptrs + 8 * i)) := fun i hi => (hall i hi).2.1
  have hk := hcanonical ((2 ^ 64 + 2 ^ 63 - ptrs % 2 ^ 64) / 8 % 2 ^ 61) (Nat.mod_lt _ (by decide))
  simp only [Paging.Canonical, u64] at hk
  omega

theorem countItems_simulates (ptrs left i : Nat) (h : DuneSpace L pt) (hst : FixupRun L pt grows s0 seen s)
    (hleft : i + left = MAX_ITEMS) (hbefore : ∀ k < i, (itemSlot ptrs k).Usable pt) :
    Simulates BadAccess (fun _ _ => True) (countItems pt ptrs s left i) (itemsBeforeNull pt s0.word ptrs left i) := by
  induction left generalizing i with
  | zero =>
      obtain ⟨k, hk, hunusable⟩ := exists_item_unusable pt ptrs
      exact absurd (hbefore k (by omega)) hunusable
  | succ left ih =>
      unfold countItems itemsBeforeNull
      rw [readSlot_eq]
      rcases checkSlot_cases pt (itemSlot ptrs i) with ⟨husable, hcheck⟩ | ⟨e, hbad, hcheck⟩
      · simp only [hcheck, bind, Except.bind, hst.word, h.wordAfter_eq_zero_iff]
        split_ifs with hzero
        · exact .ok trivial
        · have hrest := ih (i + 1) (by omega) fun k hk => by
            rcases Nat.lt_succ_iff_lt_or_eq.mp hk with hlt | rfl
            · exact hbefore k hlt
            · exact husable
          generalize countItems pt ptrs s left (i + 1) = counted at hrest ⊢
          generalize itemsBeforeNull pt s0.word ptrs left (i + 1) = items at hrest ⊢
          cases hrest with
          | ok _ => exact .ok trivial
          | error hbad => exact .error hbad
      · rw [hcheck]
        exact .error hbad

theorem fixupItems_simulates {ptrs left i : Nat} {result : Int} (h : DuneSpace L pt)
    (hst : FixupRun L pt grows s0 seen s) (hdepth : 1 < s.depth) (hleft : i + left = MAX_ITEMS)
    (hbefore : ∀ k < i, (itemSlot ptrs k).Usable pt) :
    Simulates BadAccess (RunsTo L pt grows s0 s.depth) (fixupItems L pt grows ptrs left i result s)
      (itemsBeforeNull pt s0.word ptrs left i >>= fun items => .ok (seen ++ items)) := by
  induction left generalizing i result s seen with
  | zero =>
      obtain ⟨k, hk, hunusable⟩ := exists_item_unusable pt ptrs
      exact absurd (hbefore k (by omega)) hunusable
  | succ left ih =>
      unfold fixupItems itemsBeforeNull
      rw [readSlot_eq]
      rcases checkSlot_cases pt (itemSlot ptrs i) with ⟨husable, hcheck⟩ | ⟨e, hbad, hcheck⟩
      · simp only [hcheck, bind, Except.bind, hst.word, h.wordAfter_eq_zero_iff]
        split_ifs with hzero
        · dsimp only
          rw [List.append_nil]
          exact .ok ⟨hst, rfl⟩
        · have hptr := fixupPtr_simulates (itemSlot ptrs i) h hst (iff_of_true hdepth trivial)
          rw [visit, hcheck] at hptr
          obtain ⟨r, hr, hfixed⟩ := hptr.of_ok_right
          have hrest : Simulates BadAccess (RunsTo L pt grows s0 r.state.depth)
              (fixupItems L pt grows ptrs left (i + 1) (countFailure result r.result) r.state)
              (itemsBeforeNull pt s0.word ptrs left (i + 1) >>= fun items =>
                .ok ((seen ++ [itemSlot ptrs i]) ++ items)) := by
            apply ih hfixed.state (by rw [hfixed.depth]; exact hdepth) (by omega)
            intro k hk
            rcases Nat.lt_succ_iff_lt_or_eq.mp hk with hlt | rfl
            · exact hbefore k hlt
            · exact husable
          rw [hfixed.depth] at hrest
          rw [hr]
          dsimp only
          generalize itemsBeforeNull pt s0.word ptrs left (i + 1) = items at hrest ⊢
          cases items with
          | ok items =>
              change Simulates _ _ _ (.ok (seen ++ [itemSlot ptrs i] ++ items)) at hrest
              rw [List.append_assoc] at hrest
              exact hrest
          | error e => exact hrest
      · rw [hcheck]
        exact .error hbad

theorem fixupPtrPtrNullterm_simulates (h : DuneSpace L pt) (hst : FixupRun L pt grows s0 seen s)
    (hdepth : 1 < s.depth ↔ slot.Nested) (hpos : 1 ≤ s.depth) :
    Simulates BadAccess (RunsTo L pt grows s0 s.depth) (fixupPtrPtrNullterm L pt grows config slot s)
      (visitPtrPtr L pt s0.word slot seen) := by
  apply visitThrough_simulates (k := fun result s => do
    let ptrs ← readSlot pt slot s
    if vmcallShouldTraceCurrent config s then countItems pt ptrs s MAX_ITEMS 0
    fixupScope (fixupItems L pt grows ptrs MAX_ITEMS 0 result) s) h hst hdepth
  intro result s' hst' hdepth' husable
  dsimp only
  rw [hst'.read_fixed husable (by simp)]
  generalize canonicalPtr L pt (s0.word (slot.place pt)) = ptrs
  have hitems : Simulates BadAccess (RunsTo L pt grows s0 s.depth)
      (fixupScope (fixupItems L pt grows ptrs MAX_ITEMS 0 result) s')
      (itemsBeforeNull pt s0.word ptrs MAX_ITEMS 0 >>= fun items => .ok ((seen ++ [slot]) ++ items)) := by
    rw [← hdepth']
    apply fixupScope_simulates hst'
    intro s'' hst'' hdepth''
    rw [← hdepth'']
    exact fixupItems_simulates h hst'' (by omega) (by omega) nofun
  simp only [bind, Except.bind]
  split_ifs with htrace
  · -- the items are counted first, for the trace
    have hcount := countItems_simulates ptrs MAX_ITEMS 0 h hst' (by omega) nofun
    generalize countItems pt ptrs s' MAX_ITEMS 0 = counted at hcount ⊢
    generalize itemsBeforeNull pt s0.word ptrs MAX_ITEMS 0 = items at hcount hitems ⊢
    cases hcount with
    | ok _ => exact hitems
    | error hbad => exact .error hbad
  · exact hitems

theorem fixupIovecs_simulates {left i : Nat} {result : Int} (h : DuneSpace L pt)
    (hst : FixupRun L pt grows s0 seen s) (hdepth : 1 < s.depth) (husable : slot.Usable pt)
    (hmem : slot ∈ seen) :
    Simulates BadAccess (RunsTo L pt grows s0 s.depth) (fixupIovecs L pt grows slot left i result s)
      (visitAll pt (iovBaseSlots (canonicalPtr L pt (s0.word (slot.place pt))) left i) seen) := by
  induction left generalizing i result s seen with
  | zero =>
      exact .ok ⟨hst, rfl⟩
  | succ left ih =>
      rw [iovBaseSlots, visitAll, fixupIovecs, hst.read_fixed husable hmem]
      change Simulates _ _ (fixupPtr L pt grows _ s >>= _) _
      have hptr := fixupPtr_simulates (iovBaseSlot (canonicalPtr L pt (s0.word (slot.place pt))) i) h hst
        (iff_of_true hdepth trivial)
      apply hptr.bind
      rintro r seen' ⟨rfl, hst', hdepth', -, -⟩
      rw [← hdepth']
      exact ih hst' (by rw [hdepth']; exact hdepth) (List.mem_append_left _ hmem)

theorem fixupIovecArray_simulates (slot : Slot) (numIovecs : Nat) (h : DuneSpace L pt)
    (hst : FixupRun L pt grows s0 seen s) (hdepth : 1 < s.depth ↔ slot.Nested) (hpos : 1 ≤ s.depth) :
    Simulates BadAccess (RunsTo L pt grows s0 s.depth) (fixupIovecArray L pt grows slot numIovecs s)
      (visitIovecArray L pt s0.word slot numIovecs seen) := by
  apply visitThrough_simulates (k := fun result s =>
    fixupScope (fixupIovecs L pt grows slot numIovecs 0 result) s) h hst hdepth
  intro result s' hst' hdepth' husable
  rw [← hdepth']
  apply fixupScope_simulates hst'
  intro s'' hst'' hdepth''
  rw [← hdepth'']
  exact fixupIovecs_simulates h hst'' (by omega) husable (by simp)

theorem fixupMsghdrMembers_simulates (msghdr : Nat) (result : Int) (h : DuneSpace L pt)
    (hst : FixupRun L pt grows s0 seen s) (hdepth : 1 < s.depth) :
    Simulates BadAccess (RunsTo L pt grows s0 s.depth) (fixupMsghdrMembers L pt grows msghdr result s)
      (visitMsghdrMembers L pt s0.word msghdr seen) := by
  unfold fixupMsghdrMembers visitMsghdrMembers
  have hname := fixupPtr_simulates (msgNameSlot msghdr) h hst (iff_of_true hdepth trivial)
  apply hname.bind
  rintro name seen1 ⟨-, hst1, hdepth1, -, -⟩
  rw [readSlot_eq]
  rcases checkSlot_cases pt (msgIovlenSlot msghdr) with ⟨-, hcheck⟩ | ⟨e, hbad, hcheck⟩
  · rw [hcheck, hst1.word]
    change Simulates _ _ (fixupIovecArray L pt grows _ _ _ >>= _) (visitIovecArray L pt s0.word _ _ _ >>= _)
    have hiov := fixupIovecArray_simulates (msgIovSlot msghdr)
      (wordAfter L pt s0.word seen1 ((msgIovlenSlot msghdr).place pt)) h hst1
      (iff_of_true (by omega) trivial) (by omega)
    apply hiov.bind
    rintro iov seen2 ⟨hst2, hdepth2⟩
    have hcontrol := fixupPtr_simulates (msgControlSlot msghdr) h hst2
      (iff_of_true (by omega) trivial)
    apply hcontrol.bind_ok
    rintro control seen3 ⟨-, hst3, hdepth3, -, -⟩
    exact ⟨hst3, hdepth3.trans (hdepth2.trans hdepth1)⟩
  · rw [hcheck]
    exact .error hbad

theorem fixupMsghdr_simulates (h : DuneSpace L pt) (hst : FixupRun L pt grows s0 seen s)
    (hdepth : 1 < s.depth ↔ slot.Nested) (hpos : 1 ≤ s.depth) :
    Simulates BadAccess (RunsTo L pt grows s0 s.depth) (fixupMsghdr L pt grows slot s)
      (visitMsghdr L pt s0.word slot seen) := by
  apply visitThrough_simulates (k := fun result s => do
    let msghdr ← readSlot pt slot s
    fixupScope (fixupMsghdrMembers L pt grows msghdr result) s) h hst hdepth
  intro result s' hst' hdepth' husable
  rw [hst'.read_fixed husable (by simp), ← hdepth']
  apply fixupScope_simulates hst'
  intro s'' hst'' hdepth''
  rw [← hdepth'']
  exact fixupMsghdrMembers_simulates _ _ h hst'' (by omega)

/-- An argument that has not been visited. -/
theorem FixupRun.arg {i : Nat} (hst : FixupRun L pt grows s0 seen s) (hfresh : Slot.arg i ∉ seen) :
    s.args i = s0.word (.arg i) := by
  refine (hst.word (.arg i)).trans (if_neg ?_)
  intro hmem
  obtain ⟨slot, hslot, heq⟩ := List.mem_map.mp hmem
  cases slot with
  | arg j =>
      obtain rfl := Slot.arg.inj heq
      exact hfresh hslot
  | mem va => cases heq

theorem fixupArg_simulates {param : VmcallParam} {i : Nat} (hparam : param ≠ .none) (h : DuneSpace L pt)
    (hst : FixupRun L pt grows s0 seen s) (hdepth : s.depth = 1)
    (hfresh : Slot.arg (i + 1) ∉ seen) :
    Simulates BadAccess (RunsTo L pt grows s0 s.depth) (fixupArg L pt grows config param i s)
      (visitArg L pt s0.word param i seen) := by
  have hnested : 1 < s.depth ↔ (Slot.arg i).Nested := iff_of_false (by omega) id
  cases param with
  | none => exact absurd rfl hparam
  | flatPtr =>
      apply (fixupPtr_simulates (.arg i) h hst hnested).bind_ok
      rintro r seen' ⟨-, hst', hdepth', -, -⟩
      exact ⟨hst', hdepth'⟩
  | iovec =>
      rw [fixupArg, visitArg, hst.arg hfresh]
      exact fixupIovecArray_simulates _ _ h hst hnested hdepth.ge
  | ptrPtr => exact fixupPtrPtrNullterm_simulates h hst hnested hdepth.ge
  | msghdr => exact fixupMsghdr_simulates h hst hnested hdepth.ge

theorem fixupArgsLoop_simulates {params : List VmcallParam} {i : Nat} {skip : Bool} {result : Int}
    (h : DuneSpace L pt) (hst : FixupRun L pt grows s0 seen s) (hdepth : s.depth = 0)
    (hfresh : ∀ j ≥ i, Slot.arg j ∉ seen) :
    Simulates BadAccess (RunsTo L pt grows s0 0) (fixupArgsLoop L pt grows config params i skip result s)
      (visitArgs L pt s0.word params i skip seen) := by
  induction params generalizing i skip result s seen with
  | nil => exact .ok ⟨hst, hdepth⟩
  | cons param params ih =>
      unfold fixupArgsLoop visitArgs
      rw [hst.arg (hfresh i le_rfl)]
      split_ifs with hskip
      · exact ih hst hdepth fun j hj => hfresh j (by omega)
      · have hparam : param ≠ .none := fun hnone => hskip (Or.inr (Or.inl hnone))
        have hscope : Simulates BadAccess (RunsTo L pt grows s0 s.depth)
            (fixupScope (fixupArg L pt grows config param i) s) (visitArg L pt s0.word param i seen) := by
          apply fixupScope_simulates hst
          intro s' hst' hdepth'
          rw [← hdepth']
          exact fixupArg_simulates hparam h hst' (by omega) (hfresh (i + 1) (by omega))
        apply hscope.bind_of
        rintro r seen' harg ⟨hst', hdepth'⟩
        apply ih hst' (hdepth'.trans hdepth)
        intro j hj hmem
        rcases (visitArg_visits hparam harg).mem_arg.mp hmem with hmem | rfl
        · exact hfresh j (by omega) hmem
        · omega

/-- The records fit their buffer when a fixup begins. -/
theorem FixupRun.start (hvisited : s.visited = []) (hroom : 0 < s.capacity → s.records.length ≤ s.capacity)
    (L : DuneLayout) (pt : PtState) (grows : Nat → Bool) : FixupRun L pt grows s [] s := by
  have hfits : 0 < s.capacity → ∀ j, ¬ s.capacity * 2 ^ j < s.records.length := by
    intro hpos j hlt
    have hcapacity : s.capacity * 1 ≤ s.capacity * 2 ^ j := Nat.mul_le_mul_left _ Nat.one_le_two_pow
    have hle := hroom hpos
    omega
  refine ⟨hvisited, fun p => rfl, [], (List.append_nil _).symm, nofun, List.nodup_nil, ?_⟩
  exact .all (g := 0) rfl (by simp) rfl nofun hroom fun hpos j hlt => absurd hlt (hfits hpos j)

/-- **`vmcall_fixup_args` returns exactly where all slots that it reaches are aligned and mapped**; it then has
visited these. The records of other calls may be in the buffer. -/
theorem vmcallFixupArgs_runs (h : DuneSpace L pt) (hdepth : s.depth = 0) (hvisited : s.visited = [])
    (hroom : 0 < s.capacity → s.records.length ≤ s.capacity) (grows : Nat → Bool) (config : TraceConfig)
    (table : List VmcallFixupInfo) (syscallno : Nat) :
    Simulates BadAccess (RunsTo L pt grows s 0) (vmcallFixupArgs L pt grows config table syscallno s)
      (fixupSlots L pt s.word table syscallno) := by
  have hstart := FixupRun.start hvisited hroom L pt grows
  unfold vmcallFixupArgs fixupSlots
  cases vmcallGetFixupInfo table syscallno with
  | none => exact .ok ⟨hstart, hdepth⟩
  | some info => exact fixupArgsLoop_simulates h hstart hdepth nofun

/-- What a run says about the state in which the call and its arguments had not been noted yet. -/
theorem FixupRun.unnoted {syscallno : Nat} {args : Nat → Nat}
    (hst : FixupRun L pt grows { s0 with currentSyscallno := syscallno, currentArgs := args } seen s) :
    FixupRun L pt grows s0 seen s := by
  have hword : HookState.word { s0 with currentSyscallno := syscallno, currentArgs := args } = s0.word := by
    funext p
    cases p <;> rfl
  obtain ⟨new, hrecords, hrecord, hnodup, hcount⟩ := hst.log
  rw [hword] at hrecord hcount
  refine ⟨hst.visited, ?_, new, hrecords, hrecord, hnodup, hcount.start rfl rfl⟩
  rw [← hword]
  exact hst.word

/-- `dangless_vmcall_prehook`, which notes the call and its arguments first. -/
theorem danglessVmcallPrehook_runs (h : DuneSpace L pt) (hdepth : s.depth = 0) (hvisited : s.visited = [])
    (hroom : 0 < s.capacity → s.records.length ≤ s.capacity) (grows : Nat → Bool) (config : TraceConfig)
    (table : List VmcallFixupInfo) (syscallno : Nat) :
    Simulates BadAccess (fun s1 slots => FixupRun L pt grows s slots s1 ∧ s1.depth = 0)
      (danglessVmcallPrehook L pt grows config table syscallno s) (fixupSlots L pt s.word table syscallno) := by
  have hword : HookState.word { s with currentSyscallno := syscallno, currentArgs := s.args } = s.word := by
    funext p
    cases p <;> rfl
  have hfixup := vmcallFixupArgs_runs (s := { s with currentSyscallno := syscallno, currentArgs := s.args }) h
    hdepth hvisited hroom grows config table syscallno
  rw [hword] at hfixup
  apply hfixup.bind_ok
  rintro r slots ⟨hst, hreturned⟩
  exact ⟨hst.unnoted, hreturned⟩

/-- No fixup is running and nothing is to be restored; the history of the next call is empty. -/
structure Idle (s : HookState) : Prop where
  depth : s.depth = 0
  records : s.records = []
  visited : s.visited = []

theorem Idle.room (h : Idle s) : 0 < s.capacity → s.records.length ≤ s.capacity := by
  intro hpos
  rw [h.records]
  exact hpos.le

/-- The state in the middle of a fixup that has found no records. -/
structure FixupState (L : DuneLayout) (pt : PtState) (grows : Nat → Bool) (s0 : HookState) (seen : List Slot)
    (s : HookState) : Prop extends FixupRun L pt grows s0 seen s where
  fresh : s0.records = []

/-- All records are those of the call. -/
theorem FixupState.recordsAdded (hst : FixupState L pt grows s0 seen s) :
    RecordsAdded L pt grows s0 seen s.records s := by
  obtain ⟨new, hlog⟩ := hst.log
  have hrecords : s.records = new := by rw [hlog.records, hst.fresh, List.nil_append]
  rwa [hrecords]

theorem FixupState.count (hst : FixupState L pt grows s0 seen s) :
    RecordCount grows s0 (overwritten L pt s0.word seen).card s := by
  have hcount := hst.recordsAdded.count
  rwa [hst.fresh, List.length_nil, Nat.zero_add] at hcount

/-- A call that returns with the slots `seen` visited, at the depth at which it was entered. -/
def Returns (L : DuneLayout) (pt : PtState) (grows : Nat → Bool) (s0 : HookState) (depth : Nat)
    (r : Int × HookState) (seen : List Slot) : Prop :=
  FixupState L pt grows s0 seen r.2 ∧ r.2.depth = depth

theorem vmcallFixupArgs_simulates (h : DuneSpace L pt) (hidle : Idle s) (grows : Nat → Bool)
    (config : TraceConfig) (table : List VmcallFixupInfo) (syscallno : Nat) :
    Simulates BadAccess (Returns L pt grows s 0) (vmcallFixupArgs L pt grows config table syscallno s)
      (fixupSlots L pt s.word table syscallno) := by
  apply (vmcallFixupArgs_runs h hidle.depth hidle.visited hidle.room grows config table syscallno).mono
  rintro r slots ⟨hst, hdepth⟩
  exact ⟨⟨hst, hidle.records⟩, hdepth⟩

theorem danglessVmcallPrehook_simulates (h : DuneSpace L pt) (hidle : Idle s) (grows : Nat → Bool)
    (config : TraceConfig) (table : List VmcallFixupInfo) (syscallno : Nat) :
    Simulates BadAccess (fun s1 slots => FixupState L pt grows s slots s1 ∧ s1.depth = 0)
      (danglessVmcallPrehook L pt grows config table syscallno s) (fixupSlots L pt s.word table syscallno) := by
  apply (danglessVmcallPrehook_runs h hidle.depth hidle.visited hidle.room grows config table syscallno).mono
  rintro s1 slots ⟨hst, hdepth⟩
  exact ⟨⟨hst, hidle.records⟩, hdepth⟩

end Dangless
