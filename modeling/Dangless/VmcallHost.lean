import Dangless.VmcallRestore

/-! What the host gets to see: the visited slots hold canonical pointers of the same bytes, and nothing else has
changed, unless a slot holds a value that is no address. What a call does with pointers that are not valid. -/

namespace Dangless

variable {L : DuneLayout} {pt : PtState} {grows : Nat → Bool} {config : TraceConfig} {s : HookState}
  {slots : List Slot} {table : List VmcallFixupInfo} {syscallno : Nat}

/-- Remapped pointers in the slots have been replaced by canonical ones, and all other words are the same. -/
structure CanonicalForHost (L : DuneLayout) (pt : PtState) (slots : List Slot) (s s' : HookState) : Prop where
  remapped : ∀ slot ∈ slots, IsRemapped L pt (s.word (slot.place pt)) →
    (vremapResolve L pt (s'.word (slot.place pt))).1 = VREM_NOT_REMAPPED ∧
      ptResolve pt (s'.word (slot.place pt)) = ptResolve pt (s.word (slot.place pt))
  kept : ∀ slot ∈ slots, ¬ IsRemapped L pt (s.word (slot.place pt)) →
    s'.word (slot.place pt) = s.word (slot.place pt)
  frame : ∀ p, p ∉ slots.map (Slot.place pt) → s'.word p = s.word p

theorem FixupState.word_slot {s1 : HookState} {slot : Slot} (hst : FixupState L pt grows s slots s1)
    (hslot : slot ∈ slots) : s1.word (slot.place pt) = canonicalPtr L pt (s.word (slot.place pt)) :=
  (hst.word _).trans (wordAfter_of_mem hslot)

/-- The words after a fixup. -/
theorem FixupState.canonicalForHost_iff {s1 : HookState} (h : DuneSpace L pt)
    (hst : FixupState L pt grows s slots s1) :
    CanonicalForHost L pt slots s s1 ↔ ∀ slot ∈ slots, ¬ IsGhost L pt (s.word (slot.place pt)) := by
  constructor
  · rintro hcanonical slot hslot ⟨hnot, hok⟩
    have hkept := hcanonical.kept slot hslot fun hremapped => hnot hremapped.1
    rw [hst.word_slot hslot] at hkept
    exact h.canonicalPtr_eq_self_iff.mp hkept hok
  · intro hghost
    constructor
    · intro slot hslot hremapped
      rw [hst.word_slot hslot]
      exact h.canonicalPtr_remapped hremapped
    · intro slot hslot hremapped
      rw [hst.word_slot hslot]
      by_contra hne
      exact hghost slot hslot (isGhost_of_rewritten hremapped hne)
    · intro p hp
      exact (hst.word p).trans (if_neg hp)

def HostSeesCanonical (L : DuneLayout) (pt : PtState) (grows : Nat → Bool) (config : TraceConfig)
    (table : List VmcallFixupInfo) (syscallno : Nat) (s : HookState) (slots : List Slot) : Prop :=
  ∃ r, vmcallFixupArgs L pt grows config table syscallno s = .ok r ∧ CanonicalForHost L pt slots s r.2

/-- **After `vmcall_fixup_args` the host sees canonical pointers and nothing else has changed, exactly if no slot
held a value that is no address but is taken for a remapped one**, where the slots that are reached are aligned
and mapped. -/
theorem hostSeesCanonical_iff (h : DuneSpace L pt) (hidle : Idle s)
    (hslots : fixupSlots L pt s.word table syscallno = .ok slots) :
    HostSeesCanonical L pt grows config table syscallno s slots ↔
      ∀ slot ∈ slots, ¬ IsGhost L pt (s.word (slot.place pt)) := by
  have hfixup := vmcallFixupArgs_simulates h hidle grows config table syscallno
  rw [hslots] at hfixup
  obtain ⟨r, hr, hst, -⟩ := hfixup.of_ok_right
  rw [← hst.canonicalForHost_iff h]
  constructor
  · rintro ⟨r', hr', hcanonical⟩
    obtain rfl := Except.ok.inj (hr.symm.trans hr')
    exact hcanonical
  · intro hcanonical
    exact ⟨r, hr, hcanonical⟩

theorem hostSeesCanonical_iff_two : HostSeesCanonical duneLayout aliasSpace (fun _ => true) ⟨false, false⟩
    vectorTable 0 (vectorCall ALIAS_PAGE 2 32) [.arg 1, .mem ALIAS_PAGE, .mem (ALIAS_PAGE + 16)] := by
  refine (hostSeesCanonical_iff aliasSpace_dune (vectorCall_idle _ _ _) vectorCall_slots).mpr ?_
  decide +kernel

theorem vectorCall_ghost : (match vmcallFixupArgs duneLayout aliasSpace (fun _ => true) ⟨false, false⟩
      vectorTable 0 (vectorCall (2 ^ 48 + ALIAS_PAGE) 1 32) with
    | .error _ => false
    | .ok r => decide (r.2.args 1 = ALIAS_PAGE)) = true := by decide +kernel

/-- Bit 48 of the array is set, so that it is no address; it is replaced by one. -/
theorem hostSeesCanonical_ghost :
    fixupSlots duneLayout aliasSpace (vectorCall (2 ^ 48 + ALIAS_PAGE) 1 32).word vectorTable 0 =
      .ok [.arg 1, .mem ALIAS_PAGE] ∧
    ¬ HostSeesCanonical duneLayout aliasSpace (fun _ => true) ⟨false, false⟩ vectorTable 0
      (vectorCall (2 ^ 48 + ALIAS_PAGE) 1 32) [.arg 1, .mem ALIAS_PAGE] := by
  refine ⟨by decide +kernel, ?_⟩
  rintro ⟨r, hr, hcanonical⟩
  have hghost := vectorCall_ghost
  rw [hr, decide_eq_true_iff] at hghost
  have hkept := hcanonical.kept (.arg 1) List.mem_cons_self fun hremapped =>
    absurd hremapped.1 (show ¬ Paging.Canonical (2 ^ 48 + ALIAS_PAGE) by decide)
  have hsame : r.2.args 1 = 2 ^ 48 + ALIAS_PAGE := hkept
  rw [hghost] at hsame
  exact absurd hsame (by decide)

/-- The fixup returns, so that it has made no access that is not mapped, and leaves pointers that are not valid. -/
def ToleratesInvalid (L : DuneLayout) (pt : PtState) (grows : Nat → Bool) (config : TraceConfig)
    (table : List VmcallFixupInfo) (syscallno : Nat) (s : HookState) : Prop :=
  ∃ r, vmcallFixupArgs L pt grows config table syscallno s = .ok r ∧
    ∀ p, IsInvalid pt (s.word p) → r.2.word p = s.word p

/-- **Invalid pointers are tolerated exactly if every slot that is reached is aligned and mapped and none of them
holds a value that is no address but is taken for a remapped one.** The fixup ends in any case. -/
theorem toleratesInvalid_iff (h : DuneSpace L pt) (hidle : Idle s) :
    (ToleratesInvalid L pt grows config table syscallno s ↔
      ∃ slots, fixupSlots L pt s.word table syscallno = .ok slots ∧
        ∀ slot ∈ slots, ¬ IsGhost L pt (s.word (slot.place pt))) ∧
    vmcallFixupArgs L pt grows config table syscallno s ≠ .error .endless := by
  have hfixup := vmcallFixupArgs_simulates h hidle grows config table syscallno
  refine ⟨⟨?_, ?_⟩, ?_⟩
  · rintro ⟨r, hr, hkept⟩
    rw [hr] at hfixup
    obtain ⟨slots, hslots, hst, -⟩ := hfixup.of_ok
    refine ⟨slots, hslots, fun slot hslot hghost => ?_⟩
    have hsame := hkept (slot.place pt) (Or.inl hghost.1)
    rw [hst.word_slot hslot] at hsame
    exact h.canonicalPtr_eq_self_iff.mp hsame hghost.2
  · rintro ⟨slots, hslots, hghost⟩
    rw [hslots] at hfixup
    obtain ⟨r, hr, hst, -⟩ := hfixup.of_ok_right
    refine ⟨r, hr, fun p hinvalid => ?_⟩
    rw [hst.word p]
    unfold wordAfter
    split_ifs with hmem
    · obtain ⟨slot, hslot, rfl⟩ := List.mem_map.mp hmem
      by_contra hne
      refine hghost slot hslot (isGhost_of_rewritten ?_ hne)
      rintro ⟨hcanonical, hmapped, -⟩
      exact hinvalid.elim (fun hnot => hnot hcanonical) hmapped
    · rfl
  · intro hendless
    rw [hendless] at hfixup
    exact hfixup.of_error rfl

theorem toleratesInvalid_iff_two : ToleratesInvalid duneLayout aliasSpace (fun _ => true) ⟨false, false⟩
    vectorTable 0 (vectorCall ALIAS_PAGE 2 32) := by
  refine (toleratesInvalid_iff aliasSpace_dune (vectorCall_idle _ _ _)).1.mpr ⟨_, vectorCall_slots, ?_⟩
  decide +kernel

theorem vectorCall_fault : (match vmcallFixupArgs duneLayout aliasSpace (fun _ => true) ⟨false, false⟩
      vectorTable 0 (vectorCall (ALIAS_PAGE + PGSIZE - 16) 2 32) with
    | .error e => decide (e = .fault (ALIAS_PAGE + PGSIZE))
    | .ok _ => false) = true := by decide +kernel

/-- The array begins 16 bytes before the end of what is mapped and has two elements of 16 bytes. -/
theorem toleratesInvalid_fault : ¬ ToleratesInvalid duneLayout aliasSpace (fun _ => true) ⟨false, false⟩
    vectorTable 0 (vectorCall (ALIAS_PAGE + PGSIZE - 16) 2 32) := by
  rintro ⟨r, hr, -⟩
  have hfault := vectorCall_fault
  rw [hr] at hfault
  cases hfault

end Dangless
