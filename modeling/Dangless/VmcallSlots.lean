import Dangless.LibSimulation
import Dangless.VmcallSpace
import Mathlib.Data.Finset.Card

/-! The pointer slots that the fixup of the arguments of a system call visits, described by the words before it,
those of the arguments and those of the memory: nothing is written here. A description is an error where a slot
that is reached is not aligned or not mapped, that of the first such slot. -/

namespace Dangless

/-- The word of a slot: an argument, or a word of memory under its physical address. -/
def Slot.place (pt : PtState) : Slot → Slot
  | .arg i => .arg i
  | .mem va => .mem (ptResolve pt va)

def HookState.word (s : HookState) : Slot → Nat
  | .arg i => s.args i
  | .mem pa => s.mem pa

/-- A slot in memory. -/
def Slot.Nested : Slot → Prop
  | .arg _ => False
  | .mem _ => True

/-- A slot can be read and written. -/
def Slot.Usable (pt : PtState) : Slot → Prop
  | .arg _ => True
  | .mem va => Accessible pt va

instance (pt : PtState) (va : Nat) : Decidable (Accessible pt va) := inferInstanceAs (Decidable (_ ∧ _ ∧ _))

instance (pt : PtState) : (slot : Slot) → Decidable (slot.Usable pt)
  | .arg _ => inferInstanceAs (Decidable True)
  | .mem va => inferInstanceAs (Decidable (Accessible pt va))

/-- The check of an access to a slot. -/
def checkSlot (pt : PtState) : Slot → Except HookError Unit
  | .arg _ => .ok ()
  | .mem va => checkAccess pt va

theorem checkSlot_eq_ok_iff {pt : PtState} {slot : Slot} : checkSlot pt slot = .ok () ↔ slot.Usable pt := by
  cases slot with
  | arg i => exact iff_of_true rfl trivial
  | mem va =>
      change checkAccess pt va = .ok () ↔ Accessible pt va
      unfold checkAccess Accessible
      split_ifs with halign hmapped
      · exact iff_of_false nofun fun h => halign h.1
      · exact iff_of_true rfl ⟨not_not.mp halign, hmapped⟩
      · exact iff_of_false nofun fun h => hmapped h.2

section

variable (L : DuneLayout) (pt : PtState) (word : Slot → Nat)

/-- What a word is once the slots `seen` have been visited. -/
def wordAfter (seen : List Slot) (p : Slot) : Nat :=
  if p ∈ seen.map (Slot.place pt) then canonicalPtr L pt (word p) else word p

def visit (slot : Slot) (seen : List Slot) : Except HookError (List Slot) := do
  checkSlot pt slot
  .ok (seen ++ [slot])

/-- A slot and, where the pointer in it is valid, what that points to. -/
def visitThrough (slot : Slot) (target : Nat → List Slot → Except HookError (List Slot)) (seen : List Slot) :
    Except HookError (List Slot) := do
  let seen' ← visit pt slot seen
  if isValidPtr L pt (wordAfter L pt word seen (slot.place pt)) then
    target (canonicalPtr L pt (word (slot.place pt))) seen'
  else .ok seen'

/-- The elements of an array of pointers before the `NULL`, from item `i` on. -/
def itemsBeforeNull (ptrs : Nat) : Nat → Nat → Except HookError (List Slot)
  | 0, _ => .error .endless
  | left + 1, i => do
      checkSlot pt (itemSlot ptrs i)
      if word ((itemSlot ptrs i).place pt) = 0 then .ok []
      else do
        let items ← itemsBeforeNull ptrs left (i + 1)
        .ok (itemSlot ptrs i :: items)

def visitPtrPtr (slot : Slot) (seen : List Slot) : Except HookError (List Slot) :=
  visitThrough L pt word slot
    (fun ptrs seen => do
      let items ← itemsBeforeNull pt word ptrs MAX_ITEMS 0
      .ok (seen ++ items)) seen

/-- The `iov_base` of elements of an array, from item `i` on. -/
def iovBaseSlots (iovecs : Nat) : Nat → Nat → List Slot
  | 0, _ => []
  | left + 1, i => iovBaseSlot iovecs i :: iovBaseSlots iovecs left (i + 1)

def visitAll : List Slot → List Slot → Except HookError (List Slot)
  | [], seen => .ok seen
  | slot :: slots, seen => do
      let seen ← visit pt slot seen
      visitAll slots seen

def visitIovecArray (slot : Slot) (numIovecs : Nat) (seen : List Slot) : Except HookError (List Slot) :=
  visitThrough L pt word slot (fun iovecs seen => visitAll pt (iovBaseSlots iovecs numIovecs 0) seen) seen

def visitMsghdrMembers (msghdr : Nat) (seen : List Slot) : Except HookError (List Slot) := do
  let seen ← visit pt (msgNameSlot msghdr) seen
  checkSlot pt (msgIovlenSlot msghdr)
  let numIovecs := wordAfter L pt word seen ((msgIovlenSlot msghdr).place pt)
  let seen ← visitIovecArray L pt word (msgIovSlot msghdr) numIovecs seen
  visit pt (msgControlSlot msghdr) seen

def visitMsghdr (slot : Slot) (seen : List Slot) : Except HookError (List Slot) :=
  visitThrough L pt word slot (visitMsghdrMembers L pt word) seen

def visitArg (param : VmcallParam) (i : Nat) (seen : List Slot) : Except HookError (List Slot) :=
  match param with
  | .none => .ok seen
  | .flatPtr => visit pt (.arg i) seen
  | .iovec => visitIovecArray L pt word (.arg i) (word (.arg (i + 1))) seen
  | .ptrPtr => visitPtrPtr L pt word (.arg i) seen
  | .msghdr => visitMsghdr L pt word (.arg i) seen

/-- The arguments from `i` on, which is the count of an array if `skip` holds. -/
def visitArgs : List VmcallParam → Nat → Bool → List Slot → Except HookError (List Slot)
  | [], _, _, seen => .ok seen
  | param :: params, i, skip, seen =>
      if skip ∨ param = .none ∨ word (.arg i) < PGSIZE then visitArgs params (i + 1) false seen
      else do
        let seen ← visitArg L pt word param i seen
        visitArgs params (i + 1) (param = .iovec) seen

/-- The slots that fixing up the arguments of a system call visits. -/
def fixupSlots (table : List VmcallFixupInfo) (syscallno : Nat) : Except HookError (List Slot) :=
  match vmcallGetFixupInfo table syscallno with
  | none => .ok []
  | some info => visitArgs L pt word info.params 0 false []

/-- The arguments that are pointers, from `i` on. -/
def pointerArgs : List VmcallParam → Nat → Bool → List Nat
  | [], _, _ => []
  | param :: params, i, skip =>
      if skip ∨ param = .none ∨ word (.arg i) < PGSIZE then pointerArgs params (i + 1) false
      else i :: pointerArgs params (i + 1) (param = .iovec)

/-- The arguments of a system call that are pointers. -/
def syscallPointerArgs (table : List VmcallFixupInfo) (syscallno : Nat) : List Nat :=
  match vmcallGetFixupInfo table syscallno with
  | none => []
  | some info => pointerArgs word info.params 0 false

/-- The words of memory behind visited slots that hold pointers taken for remapped ones. -/
def overwritten (slots : List Slot) : Finset Nat :=
  ((slots.filterMap fun slot => match slot with
    | .arg _ => none
    | .mem va => some (ptResolve pt va)).toFinset).filter
      fun pa => (vremapResolve L pt (word (.mem pa))).1 = VREM_OK

end

section

variable {L : DuneLayout} {pt : PtState} {word : Slot → Nat} {seen seen' seen'' slots : List Slot} {slot : Slot}
  {i : Nat}

/-- Only slots of memory are added. -/
def Extends (pt : PtState) (seen seen' : List Slot) : Prop :=
  ∃ nested, seen' = seen ++ nested ∧ ∀ x ∈ nested, x.Usable pt ∧ x.Nested

/-- A slot is visited and then slots of memory. -/
def Visits (pt : PtState) (slot : Slot) (seen seen' : List Slot) : Prop :=
  slot.Usable pt ∧ Extends pt (seen ++ [slot]) seen'

theorem Extends.refl (pt : PtState) (seen : List Slot) : Extends pt seen seen :=
  ⟨[], (List.append_nil seen).symm, nofun⟩

theorem Extends.trans (h : Extends pt seen seen') (h' : Extends pt seen' seen'') : Extends pt seen seen'' := by
  obtain ⟨nested, rfl, hnested⟩ := h
  obtain ⟨nested', rfl, hnested'⟩ := h'
  refine ⟨nested ++ nested', by rw [List.append_assoc], fun x hx => ?_⟩
  rcases List.mem_append.mp hx with hx | hx
  · exact hnested x hx
  · exact hnested' x hx

theorem Visits.extends (h : Visits pt slot seen seen') (hslot : slot.Nested) : Extends pt seen seen' := by
  refine Extends.trans ⟨[slot], rfl, ?_⟩ h.2
  intro x hx
  obtain rfl := List.mem_singleton.mp hx
  exact ⟨h.1, hslot⟩

theorem visit_visits (h : visit pt slot seen = .ok seen') : Visits pt slot seen seen' := by
  obtain ⟨⟨⟩, hcheck, hseen⟩ := exists_of_bind_eq_ok h
  obtain rfl := Except.ok.inj hseen
  exact ⟨checkSlot_eq_ok_iff.mp hcheck, Extends.refl pt _⟩

theorem visitThrough_visits {target : Nat → List Slot → Except HookError (List Slot)}
    (htarget : ∀ p seen seen', target p seen = .ok seen' → Extends pt seen seen')
    (h : visitThrough L pt word slot target seen = .ok seen') : Visits pt slot seen seen' := by
  obtain ⟨seen1, hvisit, hrest⟩ := exists_of_bind_eq_ok h
  obtain ⟨husable, hextends⟩ := visit_visits hvisit
  refine ⟨husable, hextends.trans ?_⟩
  split_ifs at hrest with hvalid
  · exact htarget _ _ _ hrest
  · obtain rfl := Except.ok.inj hrest
    exact Extends.refl pt _

theorem itemsBeforeNull_usable {ptrs left : Nat} (h : itemsBeforeNull pt word ptrs left i = .ok slots) :
    ∀ x ∈ slots, x.Usable pt ∧ x.Nested := by
  induction left generalizing i slots with
  | zero => cases h
  | succ left ih =>
      obtain ⟨⟨⟩, hcheck, hrest⟩ := exists_of_bind_eq_ok h
      split_ifs at hrest with hzero
      · obtain rfl := Except.ok.inj hrest
        nofun
      · obtain ⟨rest, hitems, heq⟩ := exists_of_bind_eq_ok hrest
        obtain rfl := Except.ok.inj heq
        intro x hx
        rcases List.mem_cons.mp hx with rfl | hx
        · exact ⟨checkSlot_eq_ok_iff.mp hcheck, trivial⟩
        · exact ih hitems x hx

theorem iovBaseSlots_nested (iovecs left i : Nat) : ∀ x ∈ iovBaseSlots iovecs left i, x.Nested := by
  induction left generalizing i with
  | zero => nofun
  | succ left ih =>
      intro x hx
      rcases List.mem_cons.mp hx with rfl | hx
      · trivial
      · exact ih (i + 1) x hx

theorem visitPtrPtr_visits (h : visitPtrPtr L pt word slot seen = .ok seen') : Visits pt slot seen seen' := by
  refine visitThrough_visits ?_ h
  intro ptrs seen seen' hptrs
  obtain ⟨items, hitems, heq⟩ := exists_of_bind_eq_ok hptrs
  obtain rfl := Except.ok.inj heq
  exact ⟨items, rfl, itemsBeforeNull_usable hitems⟩

theorem visitAll_extends (hnested : ∀ x ∈ slots, x.Nested) (h : visitAll pt slots seen = .ok seen') :
    Extends pt seen seen' := by
  induction slots generalizing seen with
  | nil =>
      obtain rfl := Except.ok.inj h
      exact Extends.refl pt _
  | cons slot slots ih =>
      obtain ⟨seen1, hvisit, hrest⟩ := exists_of_bind_eq_ok h
      have hslot := (visit_visits hvisit).extends (hnested slot List.mem_cons_self)
      exact hslot.trans (ih (fun x hx => hnested x (List.mem_cons_of_mem _ hx)) hrest)

theorem visitIovecArray_visits {numIovecs : Nat} (h : visitIovecArray L pt word slot numIovecs seen = .ok seen') :
    Visits pt slot seen seen' := by
  refine visitThrough_visits ?_ h
  intro iovecs seen seen' hall
  exact visitAll_extends (iovBaseSlots_nested _ _ _) hall

theorem visitMsghdr_visits (h : visitMsghdr L pt word slot seen = .ok seen') : Visits pt slot seen seen' := by
  refine visitThrough_visits ?_ h
  intro msghdr seen seen' hmembers
  obtain ⟨seen1, hname, hrest⟩ := exists_of_bind_eq_ok hmembers
  obtain ⟨⟨⟩, -, hrest⟩ := exists_of_bind_eq_ok hrest
  obtain ⟨seen2, hiov, hcontrol⟩ := exists_of_bind_eq_ok hrest
  have h1 := (visit_visits hname).extends trivial
  have h2 := (visitIovecArray_visits hiov).extends trivial
  have h3 := (visit_visits hcontrol).extends trivial
  exact h1.trans (h2.trans h3)

theorem visitArg_visits {param : VmcallParam} (hparam : param ≠ .none)
    (h : visitArg L pt word param i seen = .ok seen') : Visits pt (.arg i) seen seen' := by
  cases param with
  | none => exact absurd rfl hparam
  | flatPtr => exact visit_visits h
  | iovec => exact visitIovecArray_visits h
  | ptrPtr => exact visitPtrPtr_visits h
  | msghdr => exact visitMsghdr_visits h

/-- The arguments that are visited. -/
theorem Visits.mem_arg {j : Nat} (h : Visits pt (.arg i) seen seen') :
    Slot.arg j ∈ seen' ↔ Slot.arg j ∈ seen ∨ j = i := by
  obtain ⟨-, nested, rfl, hnested⟩ := h
  have hnot : Slot.arg j ∉ nested := fun hmem => (hnested _ hmem).2
  simp [hnot]

/-- All slots that are visited can be used, and the arguments among them are pointers. -/
theorem visitArgs_spec {params : List VmcallParam} {skip : Bool} (h : visitArgs L pt word params i skip seen = .ok slots)
    (hseen : ∀ x ∈ seen, x.Usable pt) :
    (∀ x ∈ slots, x.Usable pt) ∧
      ∀ j, Slot.arg j ∈ slots ↔ Slot.arg j ∈ seen ∨ j ∈ pointerArgs word params i skip := by
  induction params generalizing i skip seen with
  | nil =>
      obtain rfl := Except.ok.inj h
      exact ⟨hseen, fun j => by simp [pointerArgs]⟩
  | cons param params ih =>
      unfold visitArgs at h
      unfold pointerArgs
      split_ifs at h ⊢ with hskip
      · exact ih h hseen
      · obtain ⟨seen1, harg, hrest⟩ := exists_of_bind_eq_ok h
        have hvisits := visitArg_visits (fun hnone => hskip (Or.inr (Or.inl hnone))) harg
        have hseen1 : ∀ x ∈ seen1, x.Usable pt := by
          obtain ⟨husable, nested, rfl, hnested⟩ := hvisits
          intro x hx
          simp only [List.mem_append, List.mem_singleton] at hx
          rcases hx with (hx | rfl) | hx
          · exact hseen x hx
          · exact husable
          · exact (hnested x hx).1
        obtain ⟨husable, hargs⟩ := ih hrest hseen1
        refine ⟨husable, fun j => ?_⟩
        rw [hargs j, hvisits.mem_arg, List.mem_cons, or_assoc]

theorem pointerArgs_lt {params : List VmcallParam} {skip : Bool} {j : Nat} (h : j ∈ pointerArgs word params i skip) :
    j < i + params.length := by
  induction params generalizing i skip with
  | nil => cases h
  | cons param params ih =>
      unfold pointerArgs at h
      rw [List.length_cons]
      split_ifs at h
      · have hlt := ih h
        omega
      · rcases List.mem_cons.mp h with rfl | h
        · omega
        · have hlt := ih h
          omega

theorem fixupSlots_spec {table : List VmcallFixupInfo} {syscallno : Nat}
    (h : fixupSlots L pt word table syscallno = .ok slots) :
    (∀ x ∈ slots, x.Usable pt) ∧ ∀ j, Slot.arg j ∈ slots ↔ j ∈ syscallPointerArgs word table syscallno := by
  unfold fixupSlots at h
  unfold syscallPointerArgs
  cases hinfo : vmcallGetFixupInfo table syscallno with
  | none =>
      rw [hinfo] at h
      obtain rfl := Except.ok.inj h
      exact ⟨nofun, fun j => iff_of_false nofun nofun⟩
  | some info =>
      rw [hinfo] at h
      obtain ⟨husable, hargs⟩ := visitArgs_spec h nofun
      refine ⟨husable, fun j => (hargs j).trans ?_⟩
      simp

theorem syscallPointerArgs_lt {table : List VmcallFixupInfo} {syscallno j : Nat}
    (h : j ∈ syscallPointerArgs word table syscallno) : j < SYSCALL_MAX_ARGS := by
  unfold syscallPointerArgs at h
  cases hinfo : vmcallGetFixupInfo table syscallno with
  | none =>
      rw [hinfo] at h
      cases h
  | some info =>
      rw [hinfo] at h
      have hlt := pointerArgs_lt h
      have hle := info.length_le
      omega

end

section

variable {L : DuneLayout} {pt : PtState} {word : Slot → Nat} {seen slots : List Slot} {slot p : Slot} {pa : Nat}

theorem wordAfter_append (L : DuneLayout) (pt : PtState) (word : Slot → Nat) (seen : List Slot) (slot p : Slot) :
    wordAfter L pt word (seen ++ [slot]) p =
      if p = slot.place pt then canonicalPtr L pt (word p) else wordAfter L pt word seen p := by
  unfold wordAfter
  simp only [List.map_append, List.mem_append, List.map_cons, List.map_nil, List.mem_singleton]
  by_cases hp : p = slot.place pt
  · rw [if_pos (Or.inr hp), if_pos hp]
  · simp only [hp, or_false, if_false]

theorem wordAfter_of_mem (h : slot ∈ seen) :
    wordAfter L pt word seen (slot.place pt) = canonicalPtr L pt (word (slot.place pt)) :=
  if_pos (List.mem_map_of_mem h)

/-- Visiting a slot a second time changes nothing. -/
theorem DuneSpace.canonicalPtr_wordAfter (h : DuneSpace L pt) (word : Slot → Nat) (seen : List Slot) (p : Slot) :
    canonicalPtr L pt (wordAfter L pt word seen p) = canonicalPtr L pt (word p) := by
  unfold wordAfter
  split_ifs
  · exact h.canonicalPtr_idem _
  · rfl

theorem DuneSpace.wordAfter_eq_zero_iff (h : DuneSpace L pt) (word : Slot → Nat) (seen : List Slot) (p : Slot) :
    wordAfter L pt word seen p = 0 ↔ word p = 0 := by
  unfold wordAfter
  split_ifs
  · exact h.canonicalPtr_eq_zero_iff
  · exact Iff.rfl

theorem mem_overwritten : pa ∈ overwritten L pt word slots ↔
    Slot.mem pa ∈ slots.map (Slot.place pt) ∧ (vremapResolve L pt (word (.mem pa))).1 = VREM_OK := by
  simp only [overwritten, Finset.mem_filter, List.mem_toFinset, List.mem_filterMap, List.mem_map]
  refine and_congr_left fun _ => ⟨?_, ?_⟩
  · rintro ⟨slot, hslot, hpa⟩
    cases slot with
    | arg i => cases hpa
    | mem va =>
        obtain rfl := Option.some.inj hpa
        exact ⟨_, hslot, rfl⟩
  · rintro ⟨slot, hslot, hpa⟩
    cases slot with
    | arg i => cases hpa
    | mem va =>
        obtain rfl := Slot.mem.inj hpa
        exact ⟨_, hslot, rfl⟩

end

end Dangless
