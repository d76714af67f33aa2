import Dangless.VmcallFixupSpec

/-! The two hooks around a system call. The post-hook takes back what the pre-hook has written in memory exactly
if every growth of the buffer of records that it has needed has succeeded. What it has written to the argument
registers stays. -/

namespace Dangless

variable {L : DuneLayout} {pt : PtState} {grows : Nat → Bool} {config : TraceConfig} {s s0 s1 : HookState}
  {slots : List Slot} {table : List VmcallFixupInfo} {syscallno : Nat}

/-- The words of records without duplicates hold the recorded values, all others are as they were. -/
theorem restoreRecords_spec {records : List (Slot × Nat)} (husable : ∀ r ∈ records, r.1.Usable pt)
    (hnodup : (records.map fun r => r.1.place pt).Nodup) (s : HookState) :
    ∃ s', restoreRecords pt records s = .ok s' ∧ s'.depth = s.depth ∧
      (∀ r ∈ records, s'.word (r.1.place pt) = r.2) ∧
      ∀ p, p ∉ records.map (fun r => r.1.place pt) → s'.word p = s.word p := by
  induction records generalizing s with
  | nil => exact ⟨s, rfl, rfl, nofun, fun _ _ => rfl⟩
  | cons record records ih =>
      rw [List.map_cons, List.nodup_cons] at hnodup
      obtain ⟨s', hrestore, hdepth, hwords, hothers⟩ :=
        ih (fun r hr => husable r (List.mem_cons_of_mem _ hr)) hnodup.2
          (s.setWord (record.1.place pt) record.2)
      refine ⟨s', ?_, ?_, ?_, ?_⟩
      · rw [restoreRecords, writeSlot_usable (husable record List.mem_cons_self)]
        exact hrestore
      · rw [hdepth, setWord_depth]
      · intro r hr
        rcases List.mem_cons.mp hr with rfl | hr
        · rw [hothers _ hnodup.1, HookState.word_setWord, if_pos rfl]
        · exact hwords r hr
      · intro p hp
        rw [List.map_cons, List.mem_cons, not_or] at hp
        rw [hothers p hp.2, HookState.word_setWord, if_neg hp.1]

/-- What a post-hook leaves of words. -/
structure Restored (pt : PtState) (records : List (Slot × Nat)) (s s' : HookState) : Prop where
  cleared : s'.records = []
  depth : s'.depth = s.depth
  recorded : ∀ r ∈ records, s'.word (r.1.place pt) = r.2
  others : ∀ p, p ∉ records.map (fun r => r.1.place pt) → s'.word p = s.word p

theorem danglessVmcallPosthook_restores (s : HookState) (husable : ∀ r ∈ s.records, r.1.Usable pt)
    (hnodup : (s.records.map fun r => r.1.place pt).Nodup) (result : Nat) :
    ∃ result' s', danglessVmcallPosthook pt result s = .ok (result', s') ∧ Restored pt s.records s s' := by
  unfold danglessVmcallPosthook vmcallFixupRestoreOriginals
  by_cases hnone : s.records.length = 0
  · have hnil := List.length_eq_zero_iff.mp hnone
    rw [if_pos hnone]
    refine ⟨_, s, rfl, hnil, rfl, ?_, fun _ _ => rfl⟩
    rw [hnil]
    nofun
  · obtain ⟨s', hrestore, hdepth, hwords, hothers⟩ := restoreRecords_spec husable hnodup s
    have hcleared : ∀ p, HookState.word { s' with records := [] } p = s'.word p := by
      intro p
      cases p <;> rfl
    rw [if_neg hnone, hrestore]
    refine ⟨_, { s' with records := [] }, rfl, rfl, hdepth, ?_, ?_⟩
    · intro r hr
      rw [hcleared]
      exact hwords r hr
    · intro p hp
      rw [hcleared]
      exact hothers p hp

/-- The state when the host returns: it may have written to memory. -/
def hostReturns (hostMem : Nat → Nat) (s1 : HookState) : HookState := { s1 with mem := hostMem }

/-- The host has not written to the visited slots. -/
def HostKeeps (pt : PtState) (hostMem : Nat → Nat) (s1 : HookState) : Prop :=
  ∀ va, Slot.mem va ∈ s1.visited → hostMem (ptResolve pt va) = s1.mem (ptResolve pt va)

/-- The post-hook after a fixup: the recorded words hold their first values again, and no other word changes. -/
theorem FixupState.posthook (hst : FixupState L pt grows s slots s1) (hostMem : Nat → Nat) (result : Nat) :
    ∃ result' s2, danglessVmcallPosthook pt result (hostReturns hostMem s1) = .ok (result', s2) ∧
      s2.records = [] ∧ s2.depth = s1.depth ∧ s2.args = s1.args ∧
      (∀ r ∈ s1.records, s2.word (r.1.place pt) = s.word (r.1.place pt)) ∧
      ∀ pa, Slot.mem pa ∉ s1.records.map (fun r => r.1.place pt) → s2.mem pa = hostMem pa := by
  have husable : ∀ r ∈ s1.records, r.1.Usable pt := by
    intro r hr
    obtain ⟨va, rfl, haccess, -⟩ := hst.recordsAdded.record r hr
    exact haccess
  have hargs : ∀ i, Slot.arg i ∉ s1.records.map (fun r => r.1.place pt) := by
    intro i hmem
    obtain ⟨r, hr, heq⟩ := List.mem_map.mp hmem
    obtain ⟨va, rfl, -⟩ := hst.recordsAdded.record r hr
    cases heq
  obtain ⟨result', s2, hpost, hrestored⟩ :=
    danglessVmcallPosthook_restores (hostReturns hostMem s1) husable hst.recordsAdded.nodup result
  refine ⟨result', s2, hpost, hrestored.cleared, hrestored.depth, ?_, ?_, ?_⟩
  · funext i
    exact hrestored.others (.arg i) (hargs i)
  · intro r hr
    rw [hrestored.recorded r hr]
    obtain ⟨va, rfl, -, -⟩ := hst.recordsAdded.record r hr
    rfl
  · intro pa hpa
    exact hrestored.others (.mem pa) hpa

theorem RecordsAdded.places_subset {new : List (Slot × Nat)} (h : RecordsAdded L pt grows s0 slots new s) :
    ∀ r ∈ new, ∃ pa ∈ overwritten L pt s0.word slots, r.1.place pt = .mem pa := by
  intro r hr
  obtain ⟨va, rfl, -, hmem⟩ := h.record r hr
  exact ⟨_, hmem, rfl⟩

/-- With as many records as words, each of these has one. -/
theorem recorded_of_card {records : List (Slot × Nat)} {places : Finset Nat} {pa : Nat}
    (hplaces : ∀ r ∈ records, ∃ pa ∈ places, r.1.place pt = .mem pa)
    (hnodup : (records.map fun r => r.1.place pt).Nodup) (hlength : records.length = places.card)
    (hpa : pa ∈ places) : Slot.mem pa ∈ records.map (fun r => r.1.place pt) := by
  have hsubset : (records.map fun r => r.1.place pt).toFinset ⊆ places.image Slot.mem := by
    intro p hp
    obtain ⟨r, hr, rfl⟩ := List.mem_map.mp (List.mem_toFinset.mp hp)
    obtain ⟨pa, hmem, heq⟩ := hplaces r hr
    exact Finset.mem_image.mpr ⟨pa, hmem, heq.symm⟩
  have hcard : (places.image Slot.mem).card ≤ (records.map fun r => r.1.place pt).toFinset.card := by
    rw [List.toFinset_card_of_nodup hnodup, List.length_map, hlength]
    exact Finset.card_image_le
  have heq := Finset.eq_of_subset_of_card_le hsubset hcard
  have hmem : Slot.mem pa ∈ places.image Slot.mem := Finset.mem_image_of_mem _ hpa
  rw [← heq] at hmem
  exact List.mem_toFinset.mp hmem

/-- With fewer records, some overwritten word has none. -/
theorem exists_unrecorded (hlength : s.records.length < (overwritten L pt s0.word slots).card) :
    ∃ pa ∈ overwritten L pt s0.word slots, Slot.mem pa ∉ s.records.map (fun r => r.1.place pt) := by
  by_contra hall
  push Not at hall
  have hsubset : (overwritten L pt s0.word slots).image Slot.mem ⊆
      (s.records.map fun r => r.1.place pt).toFinset := by
    intro p hp
    obtain ⟨pa, hpa, rfl⟩ := Finset.mem_image.mp hp
    exact List.mem_toFinset.mpr (hall pa hpa)
  have hcard := Finset.card_le_card hsubset
  rw [Finset.card_image_of_injective _ fun _ _ => Slot.mem.inj] at hcard
  have hle := List.toFinset_card_le (s.records.map fun r => r.1.place pt)
  rw [List.length_map] at hle
  omega

/-- A word that is not overwritten is what it was. -/
theorem FixupState.mem_eq (hst : FixupState L pt grows s slots s1) {pa : Nat}
    (hpa : pa ∉ overwritten L pt s.word slots) : s1.mem pa = s.mem pa := by
  refine (hst.word (.mem pa)).trans ?_
  unfold wordAfter
  split_ifs with hmem
  · apply canonicalPtr_of_not_ok
    intro hok
    exact hpa (mem_overwritten.mpr ⟨hmem, hok⟩)
  · rfl

/-- A word that is overwritten is not what it was. -/
theorem FixupState.mem_ne (h : DuneSpace L pt) (hst : FixupState L pt grows s slots s1) {pa : Nat}
    (hpa : pa ∈ overwritten L pt s.word slots) : s1.mem pa ≠ s.mem pa := by
  obtain ⟨hmem, hok⟩ := mem_overwritten.mp hpa
  have hword : s1.mem pa = canonicalPtr L pt (s.mem pa) := (hst.word (.mem pa)).trans (if_pos hmem)
  rw [hword]
  intro hself
  exact h.canonicalPtr_eq_self_iff.mp hself hok

/-- With a record of each overwritten word, the post-hook takes back what the host has left. -/
theorem FixupState.posthook_complete (hst : FixupState L pt grows s slots s1)
    (hlength : s1.records.length = (overwritten L pt s.word slots).card) (hostMem : Nat → Nat) (result : Nat) :
    ∃ result' s2, danglessVmcallPosthook pt result (hostReturns hostMem s1) = .ok (result', s2) ∧
      s2.records = [] ∧ ∀ pa, hostMem pa = s1.mem pa → s2.mem pa = s.mem pa := by
  obtain ⟨result', s2, hpost, hcleared, -, -, hrecorded, hothers⟩ := hst.posthook hostMem result
  refine ⟨result', s2, hpost, hcleared, fun pa hpa => ?_⟩
  by_cases hover : pa ∈ overwritten L pt s.word slots
  · obtain ⟨r, hr, hplace⟩ := List.mem_map.mp (recorded_of_card hst.recordsAdded.places_subset
      hst.recordsAdded.nodup hlength hover)
    have hword := hrecorded r hr
    rwa [hplace] at hword
  · have hnot : Slot.mem pa ∉ s1.records.map (fun r => r.1.place pt) := by
      intro hmem
      obtain ⟨r, hr, hplace⟩ := List.mem_map.mp hmem
      obtain ⟨pa', hpa', heq⟩ := hst.recordsAdded.places_subset r hr
      rw [hplace] at heq
      exact hover (Slot.mem.inj heq ▸ hpa')
    rw [hothers pa hnot, hpa, hst.mem_eq hover]

/-! ### Nested pointers -/

/-- A table with one system call: like `writev`, it takes an array and its count. -/
def vectorTable : List VmcallFixupInfo := [⟨[.none, .iovec, .none], by decide⟩]

/-- A call with an array of `n` elements at `array`, all words of memory being pointers into the remapped page. -/
def vectorCall (array n capacity : Nat) : HookState where
  args i := if i = 0 then 1 else if i = 1 then array else n
  mem _ := PHYS_LIMIT + 8
  depth := 0
  records := []
  capacity := capacity
  growths := 0
  currentSyscallno := 0
  currentArgs _ := 0
  hookRunning := false
  visited := []

theorem vectorCall_idle (array n capacity : Nat) : Idle (vectorCall array n capacity) := ⟨rfl, rfl, rfl⟩

theorem vectorCall_slots : fixupSlots duneLayout aliasSpace (vectorCall ALIAS_PAGE 2 32).word vectorTable 0 =
    .ok [.arg 1, .mem ALIAS_PAGE, .mem (ALIAS_PAGE + 16)] := by decide +kernel

/-- Every slot of memory that has been visited holds its first value again when the post-hook returns, and no
record was written past the buffer. -/
def NestedRestored (pt : PtState) (hostMem : Nat → Nat) (result : Nat) (s s1 : HookState) : Prop :=
  s1.records.length ≤ s1.capacity ∧
  ∃ result' s2, danglessVmcallPosthook pt result (hostReturns hostMem s1) = .ok (result', s2) ∧
    ∀ va, Slot.mem va ∈ s1.visited → s2.mem (ptResolve pt va) = s.mem (ptResolve pt va)

/-- The pre-hook makes no access that C leaves undefined. Where it stops with a page fault, nothing runs after it. -/
def PrehookDefined (L : DuneLayout) (pt : PtState) (grows : Nat → Bool) (config : TraceConfig)
    (table : List VmcallFixupInfo) (syscallno : Nat) (s : HookState) : Prop :=
  ∀ va, danglessVmcallPrehook L pt grows config table syscallno s ≠ .error (.misaligned va)

/-- No slot that the fixup reaches is misaligned. -/
def SlotsAligned (L : DuneLayout) (pt : PtState) (table : List VmcallFixupInfo) (syscallno : Nat)
    (s : HookState) : Prop :=
  ∀ va, fixupSlots L pt s.word table syscallno ≠ .error (.misaligned va)

theorem prehookDefined_iff (h : DuneSpace L pt) (hidle : Idle s) :
    PrehookDefined L pt grows config table syscallno s ↔ SlotsAligned L pt table syscallno s := by
  have hpre := danglessVmcallPrehook_simulates h hidle grows config table syscallno
  exact forall_congr' fun va => not_congr (hpre.error_iff (.misaligned va))

/-- No pointer that the pre-hook has written in memory is left there. -/
def RestoresNested (L : DuneLayout) (pt : PtState) (grows : Nat → Bool) (config : TraceConfig)
    (table : List VmcallFixupInfo) (syscallno : Nat) (s : HookState) : Prop :=
  PrehookDefined L pt grows config table syscallno s ∧
  ∀ s1 hostMem result, danglessVmcallPrehook L pt grows config table syscallno s = .ok s1 →
    HostKeeps pt hostMem s1 → NestedRestored pt hostMem result s s1

/-- All growths succeed that `n` records need. -/
def RoomFor (grows : Nat → Bool) (s : HookState) (n : Nat) : Prop :=
  ∀ j, s.capacity * 2 ^ j < n → 0 < s.capacity ∧ grows (s.growths + j) = true

theorem RecordCount.roomFor_iff {n : Nat} (h : RecordCount grows s0 n s) :
    (s.records.length = n ∧ s.records.length ≤ s.capacity) ↔ RoomFor grows s0 n := by
  cases h with
  | all hlength hcapacity _ _ hroom hgrown =>
      constructor
      · rintro ⟨-, hle⟩ j hj
        have hpos : 0 < s0.capacity := by
          rcases Nat.eq_zero_or_pos s0.capacity with hzero | hpos
          · rw [hcapacity, hzero, zero_mul] at hle
            omega
          · exact hpos
        exact ⟨hpos, hgrown hpos j hj⟩
      · intro hfor
        refine ⟨hlength, ?_⟩
        rcases Nat.eq_zero_or_pos s0.capacity with hzero | hpos
        · by_contra hover
          have hn : s0.capacity * 2 ^ 0 < n := by
            rw [hzero, zero_mul]
            omega
          exact absurd (hfor 0 hn).1 (by omega)
        · exact hlength.trans_le (hroom hpos)
  | lost hlength hneeded hfirst hfailed =>
      refine iff_of_false (fun hboth => by omega) fun hfor => ?_
      rw [(hfor _ hneeded).2] at hfailed
      cases hfailed

/-- **No canonical pointer is left in memory exactly if no slot that is reached is misaligned and there is room for
a record of each pointer that is rewritten there.** -/
theorem restoresNested_iff (h : DuneSpace L pt) (hidle : Idle s) :
    RestoresNested L pt grows config table syscallno s ↔
      SlotsAligned L pt table syscallno s ∧ ∀ slots, fixupSlots L pt s.word table syscallno = .ok slots →
        RoomFor grows s (overwritten L pt s.word slots).card := by
  have hpre := danglessVmcallPrehook_simulates h hidle grows config table syscallno
  refine and_congr (prehookDefined_iff h hidle) ⟨?_, ?_⟩
  · intro hnested slots hslots
    rw [hslots] at hpre
    obtain ⟨s1, hs1, hst, -⟩ := hpre.of_ok_right
    obtain ⟨hle, result', s2, hpost, hrestored⟩ := hnested s1 s1.mem 0 hs1 fun _ _ => rfl
    obtain ⟨result'', s2', hpost', -, -, -, -, hothers⟩ := hst.posthook s1.mem 0
    obtain ⟨rfl, rfl⟩ := Prod.mk.inj (Except.ok.inj (hpost.symm.trans hpost'))
    rw [← hst.count.roomFor_iff]
    refine ⟨?_, hle⟩
    by_contra hne
    have hless : s1.records.length < (overwritten L pt s.word slots).card := by
      cases hst.count with
      | all hlength => exact absurd hlength hne
      | lost hlength => exact hlength
    -- a word without a record keeps its canonical pointer
    obtain ⟨pa, hpa, hunrecorded⟩ := exists_unrecorded hless
    obtain ⟨slot, hslot, hplace⟩ := List.mem_map.mp (mem_overwritten.mp hpa).1
    cases slot with
    | arg i => cases hplace
    | mem va =>
        obtain rfl := Slot.mem.inj hplace
        have hsame := hrestored va (by rw [hst.visited]; exact hslot)
        rw [hothers _ hunrecorded] at hsame
        exact hst.mem_ne h hpa hsame
  · intro hroom s1 hostMem result hs1 hhost
    rw [hs1] at hpre
    obtain ⟨slots, hslots, hst, -⟩ := hpre.of_ok
    obtain ⟨hlength, hle⟩ := hst.count.roomFor_iff.mpr (hroom slots hslots)
    obtain ⟨result', s2, hpost, -, hmem⟩ := hst.posthook_complete hlength hostMem result
    refine ⟨hle, result', s2, hpost, fun va hva => hmem _ (hhost va hva)⟩

/-- Room for two records. -/
theorem restoresNested_iff_two : RestoresNested duneLayout aliasSpace (fun _ => false) ⟨false, false⟩
    vectorTable 0 (vectorCall ALIAS_PAGE 2 32) := by
  refine (restoresNested_iff aliasSpace_dune (vectorCall_idle _ _ _)).mpr ⟨?_, ?_⟩
  · intro va hmisaligned
    rw [vectorCall_slots] at hmisaligned
    cases hmisaligned
  intro slots hslots j hj
  obtain rfl := Except.ok.inj (vectorCall_slots.symm.trans hslots)
  have hcard : (overwritten duneLayout aliasSpace (vectorCall ALIAS_PAGE 2 32).word
      [.arg 1, .mem ALIAS_PAGE, .mem (ALIAS_PAGE + 16)]).card = 2 := by decide +kernel
  have hpow : 1 ≤ 2 ^ j := Nat.one_le_two_pow
  change 32 * 2 ^ j < _ at hj
  omega

/-- The hooks around a call with 33 elements, in a buffer of 32 records that cannot grow. -/
theorem vectorCall_short : (match danglessVmcallPrehook duneLayout aliasSpace (fun _ => false) ⟨false, false⟩
      vectorTable 0 (vectorCall ALIAS_PAGE 33 32) with
    | .error _ => false
    | .ok s1 => decide (Slot.mem (ALIAS_PAGE + 512) ∈ s1.visited) &&
        match danglessVmcallPosthook aliasSpace 0 (hostReturns s1.mem s1) with
        | .error _ => false
        | .ok r => decide (r.2.mem (ALIAS_PAGE + 512) ≠ PHYS_LIMIT + 8)) = true := by decide +kernel

/-- The pointer in the last one is not restored. -/
theorem restoresNested_short : ¬ RestoresNested duneLayout aliasSpace (fun _ => false) ⟨false, false⟩
    vectorTable 0 (vectorCall ALIAS_PAGE 33 32) := by
  intro hnested
  have hshort := vectorCall_short
  cases hrun : danglessVmcallPrehook duneLayout aliasSpace (fun _ => false) ⟨false, false⟩ vectorTable 0
      (vectorCall ALIAS_PAGE 33 32) with
  | error e =>
      rw [hrun] at hshort
      cases hshort
  | ok s1 =>
      obtain ⟨-, result', s2, hpost, hrestored⟩ := hnested.2 s1 s1.mem 0 hrun fun _ _ => rfl
      rw [hrun] at hshort
      dsimp only at hshort
      rw [hpost, Bool.and_eq_true, decide_eq_true_iff, decide_eq_true_iff] at hshort
      have hresolve : ptResolve aliasSpace (ALIAS_PAGE + 512) = ALIAS_PAGE + 512 := by decide +kernel
      have hsame := hrestored _ hshort.1
      rw [hresolve] at hsame
      exact hshort.2 hsame

/-! ### Argument registers -/

/-- The argument registers are the same before the pre-hook and after the post-hook; the host keeps them, and the
assembly around the hooks stores them in the array of arguments before a hook and loads them after it. -/
def KeepsArgs (L : DuneLayout) (pt : PtState) (grows : Nat → Bool) (config : TraceConfig)
    (table : List VmcallFixupInfo) (syscallno : Nat) (s : HookState) : Prop :=
  PrehookDefined L pt grows config table syscallno s ∧
  ∀ s1 hostMem result result' s2, danglessVmcallPrehook L pt grows config table syscallno s = .ok s1 →
    danglessVmcallPosthook pt result (hostReturns hostMem s1) = .ok (result', s2) →
    ∀ i < SYSCALL_MAX_ARGS, s2.args i = s.args i

/-- An argument after the fixup. -/
theorem FixupState.arg_eq (h : DuneSpace L pt) (hst : FixupState L pt grows s slots s1) (i : Nat) :
    s1.args i = s.args i ↔ (Slot.arg i ∈ slots → (vremapResolve L pt (s.args i)).1 ≠ VREM_OK) := by
  have hplace : Slot.arg i ∈ slots.map (Slot.place pt) ↔ Slot.arg i ∈ slots := by
    rw [List.mem_map]
    constructor
    · rintro ⟨slot, hslot, heq⟩
      cases slot with
      | arg j =>
          obtain rfl := Slot.arg.inj heq
          exact hslot
      | mem va => cases heq
    · intro hmem
      exact ⟨_, hmem, rfl⟩
  have hword : s1.args i = if Slot.arg i ∈ slots then canonicalPtr L pt (s.args i) else s.args i := by
    refine (hst.word (.arg i)).trans ?_
    unfold wordAfter
    simp only [hplace]
    rfl
  rw [hword]
  split_ifs with hmem
  · exact h.canonicalPtr_eq_self_iff.trans ⟨fun hok _ => hok, fun hok => hok hmem⟩
  · exact iff_of_true rfl fun hmem' => absurd hmem' hmem

/-- **The registers are kept exactly if no slot that is reached is misaligned and no argument that the fixup takes
for a pointer is a remapped one.** -/
theorem keepsArgs_iff (h : DuneSpace L pt) (hidle : Idle s) :
    KeepsArgs L pt grows config table syscallno s ↔
      SlotsAligned L pt table syscallno s ∧ ∀ slots, fixupSlots L pt s.word table syscallno = .ok slots →
        ∀ i ∈ syscallPointerArgs s.word table syscallno, (vremapResolve L pt (s.args i)).1 ≠ VREM_OK := by
  have hpre := danglessVmcallPrehook_simulates h hidle grows config table syscallno
  refine and_congr (prehookDefined_iff h hidle) ⟨?_, ?_⟩
  · intro hkeeps slots hslots i hi
    rw [hslots] at hpre
    obtain ⟨s1, hs1, hst, -⟩ := hpre.of_ok_right
    obtain ⟨result', s2, hpost, -, -, hargs, -⟩ := hst.posthook s1.mem 0
    have hsame := hkeeps s1 s1.mem 0 result' s2 hs1 hpost i (syscallPointerArgs_lt hi)
    rw [hargs] at hsame
    exact (hst.arg_eq h i).mp hsame (((fixupSlots_spec hslots).2 i).mpr hi)
  · intro hnone s1 hostMem result result' s2 hs1 hpost i hi
    rw [hs1] at hpre
    obtain ⟨slots, hslots, hst, -⟩ := hpre.of_ok
    obtain ⟨result'', s2', hpost', -, -, hargs, -⟩ := hst.posthook hostMem result
    obtain ⟨rfl, rfl⟩ := Prod.mk.inj (Except.ok.inj (hpost.symm.trans hpost'))
    rw [hargs]
    apply (hst.arg_eq h i).mpr
    intro hmem
    exact hnone slots hslots i (((fixupSlots_spec hslots).2 i).mp hmem)

/-- An array that is not remapped. -/
theorem keepsArgs_iff_home : KeepsArgs duneLayout aliasSpace (fun _ => true) ⟨false, false⟩ vectorTable 0
    (vectorCall ALIAS_PAGE 2 32) := by
  refine (keepsArgs_iff aliasSpace_dune (vectorCall_idle _ _ _)).mpr ⟨?_, ?_⟩
  · intro va hmisaligned
    rw [vectorCall_slots] at hmisaligned
    cases hmisaligned
  · intro slots _
    decide +kernel

theorem vectorCall_remapped : (match danglessVmcallPrehook duneLayout aliasSpace (fun _ => true) ⟨false, false⟩
      vectorTable 0 (vectorCall PHYS_LIMIT 2 32) with
    | .error _ => false
    | .ok s1 => match danglessVmcallPosthook aliasSpace 0 (hostReturns s1.mem s1) with
        | .error _ => false
        | .ok r => decide (r.2.args 1 = ALIAS_PAGE)) = true := by decide +kernel

/-- The register that held a remapped array holds the canonical one. -/
theorem keepsArgs_remapped : ¬ KeepsArgs duneLayout aliasSpace (fun _ => true) ⟨false, false⟩ vectorTable 0
    (vectorCall PHYS_LIMIT 2 32) := by
  intro hkeeps
  have hchanged := vectorCall_remapped
  cases hrun : danglessVmcallPrehook duneLayout aliasSpace (fun _ => true) ⟨false, false⟩ vectorTable 0
      (vectorCall PHYS_LIMIT 2 32) with
  | error e =>
      rw [hrun] at hchanged
      cases hchanged
  | ok s1 =>
      rw [hrun] at hchanged
      dsimp only at hchanged
      cases hpost : danglessVmcallPosthook aliasSpace 0 (hostReturns s1.mem s1) with
      | error e =>
          rw [hpost] at hchanged
          cases hchanged
      | ok r =>
          have hsame := hkeeps.2 s1 s1.mem 0 r.1 r.2 hrun hpost 1 (by decide)
          rw [hpost, decide_eq_true_iff, hsame] at hchanged
          exact absurd hchanged (show PHYS_LIMIT ≠ ALIAS_PAGE by decide)

end Dangless
