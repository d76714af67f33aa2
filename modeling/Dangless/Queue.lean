import Dangless.LibLinkedList

/-! The `LIST` macros of `queue.h`: a head and a field `le_next` in each element, with `le_prev` the address of the
pointer to the element. A macro has no result where it would touch an element that is not allocated. -/

namespace Dangless

open LinkedList

universe u

section Macros

variable {A V : Type u} [DecidableEq A]

/-- `*p = x`. -/
def storePtr (s : Store A V) (p : Place A) (x : Option A) : Option (Store A V) :=
  if s.accessible p then some (s.set p x) else none

/-- `*p`. -/
def loadPtr (s : Store A V) (p : Place A) : Option (Option A) := if s.accessible p then some (s.get p) else none

/-- `elm->field.le_prev`. -/
def loadPrev (s : Store A V) (elm : A) : Option (Place A) := if s.live elm then some (s.prev elm) else none

/-- `elm->field.le_prev = p`. -/
def storePrev (s : Store A V) (elm : A) (p : Place A) : Option (Store A V) :=
  if s.live elm then some (s.setPrev elm p) else none

/-- `if (n != NULL) n->field.le_prev = p`. -/
def storePrevOf (s : Store A V) (n : Option A) (p : Place A) : Option (Store A V) :=
  match n with
  | none => some s
  | some elm => storePrev s elm p

/-- An element is put after the pointer at `p`: what `LIST_INSERT_HEAD` and `LIST_INSERT_AFTER` do. -/
def insertAt (s : Store A V) (p : Place A) (elm : A) : Option (Store A V) := do
  let n ← loadPtr s p
  let s ← storePtr s (.next elm) n
  let s ← storePrevOf s n (.next elm)
  let s ← storePtr s p (some elm)
  storePrev s elm p

/-- `LIST_INSERT_HEAD`. -/
def listInsertHead (s : Store A V) (elm : A) : Option (Store A V) := insertAt s .head elm

/-- `LIST_INSERT_AFTER`. -/
def listInsertAfter (s : Store A V) (listelm elm : A) : Option (Store A V) := insertAt s (.next listelm) elm

/-- `LIST_INSERT_BEFORE`. -/
def listInsertBefore (s : Store A V) (listelm elm : A) : Option (Store A V) := do
  let p ← loadPrev s listelm
  let s ← storePrev s elm p
  let s ← storePtr s (.next elm) (some listelm)
  let p ← loadPrev s listelm
  let s ← storePtr s p (some elm)
  storePrev s listelm (.next elm)

/-- `LIST_REMOVE`. -/
def listRemove (s : Store A V) (elm : A) : Option (Store A V) := do
  let n ← loadPtr s (.next elm)
  let p ← loadPrev s elm
  let s ← storePrevOf s n p
  storePtr s p n

end Macros

/-! ### What the macros do to a list -/

section Spec

variable {A V : Type u} {s : Store A V} {xs ys : List A} {a b : A}

theorem loadPtr_eq {p : Place A} (h : s.accessible p = true) : loadPtr s p = some (s.get p) := if_pos h

theorem loadPrev_eq (h : s.live a = true) : loadPrev s a = some (s.prev a) := if_pos h

theorem accessible_back (hlive : ∀ a ∈ xs, s.live a = true) : s.accessible (back .head xs) = true := by
  rcases back_eq .head xs with heq | ⟨a, ha, heq⟩
  · rw [heq]
    rfl
  · rw [heq]
    exact hlive a ha

variable [DecidableEq A]

theorem storePtr_eq {p : Place A} (h : s.accessible p = true) (x : Option A) : storePtr s p x = some (s.set p x) :=
  if_pos h

theorem storePrev_eq (h : s.live a = true) (p : Place A) : storePrev s a p = some (s.setPrev a p) := if_pos h

/-- The element after a place is hung at another one, where there is such an element: once the pointer to it is kept
there as well, its segment is. -/
theorem storePrevOf_front {p : Place A} (q : Place A) (h : Segment s p ys none) (hnodup : ys.Nodup)
    (hlive : ∀ a ∈ ys, s.live a = true) :
    ∃ t, storePrevOf s (front ys none) q = some t ∧ SameData s t ∧ (∀ r, t.get r = s.get r) ∧
      (∀ b, b ∉ ys → t.prev b = s.prev b) ∧
      ∀ u : Store A V, u.get q = front ys none → (∀ b ∈ ys, u.get (.next b) = s.get (.next b)) →
        (∀ b ∈ ys, u.prev b = t.prev b) → Segment u q ys none := by
  cases ys with
  | nil => exact ⟨s, rfl, SameData.refl s, fun _ => rfl, fun _ _ => rfl, fun u hu _ _ => hu⟩
  | cons a ys =>
      have hnot : a ∉ ys := (List.nodup_cons.mp hnodup).1
      refine ⟨s.setPrev a q, storePrev_eq (hlive a List.mem_cons_self) q, ⟨rfl, rfl⟩, fun r => s.get_setPrev q r a,
        fun b hb => ?_, fun u hq hnext hprev => ?_⟩
      · have hne : b ≠ a := fun heq => hb (heq ▸ List.mem_cons_self)
        rw [Store.prev_setPrev, Function.update_of_ne hne]
      · have hself := hprev a List.mem_cons_self
        rw [Store.prev_setPrev, Function.update_self] at hself
        refine ⟨hq, hself, h.2.2.congr (hnext a List.mem_cons_self) (fun b hb => ?_) fun b hb => ?_⟩
        · exact hnext b (List.mem_cons_of_mem a hb)
        · have hne : b ≠ a := fun heq => hnot (heq ▸ hb)
          rw [hprev b (List.mem_cons_of_mem a hb), Store.prev_setPrev, Function.update_of_ne hne]

theorem insertAt_spec (h : Linked s (xs ++ ys)) (hlive : s.live a = true) (hnot : a ∉ xs ++ ys) :
    ∃ t, insertAt s (back .head xs) a = some t ∧ Linked t (xs ++ a :: ys) ∧ SameData s t := by
  obtain ⟨hxs, hys⟩ := segment_append.mp h.segment
  obtain ⟨hxsNodup, hysNodup, hdisjoint⟩ := List.nodup_append.mp h.nodup
  rw [List.mem_append, not_or] at hnot
  have hplace : back .head xs ≠ .next a := back_head_ne hnot.1
  have haccessible : s.accessible (back .head xs) = true :=
    accessible_back fun b hb => h.live b (List.mem_append_left ys hb)
  have hother : ∀ b ∈ ys, Place.next b ≠ back .head xs := fun b hb heq =>
    back_head_ne (fun hin => hdisjoint b hin b hb rfl) heq.symm
  -- `elm->le_next = *p`
  let s₁ := s.set (.next a) (front ys none)
  have hget₁ : ∀ q, q ≠ .next a → s₁.get q = s.get q := fun q hq => s.get_set_of_ne _ hq
  have hys₁ : Segment s₁ (back .head xs) ys none := by
    refine hys.congr (hget₁ _ hplace) (fun b hb => hget₁ _ fun heq => ?_) fun b _ => by rw [Store.prev_set]
    cases heq
    exact hnot.2 hb
  have hlive₁ : ∀ b ∈ ys, s₁.live b = true := fun b hb => by
    rw [Store.live_set]
    exact h.live b (List.mem_append_right xs hb)
  -- the element behind `p` is hung at `elm`
  obtain ⟨t, ht, hdata, hget₂, hprev₂, hys₂⟩ := storePrevOf_front (.next a) hys₁ hysNodup hlive₁
  have hlive₂ : t.live = s.live := hdata.live.trans (Store.live_set s _ _)
  have hxs₂ : Segment t .head xs (front ys none) := by
    refine hxs.congr ?_ (fun b hb => ?_) fun b hb => ?_
    · exact (hget₂ _).trans (hget₁ _ fun heq => by cases heq)
    · refine (hget₂ _).trans (hget₁ _ fun heq => ?_)
      cases heq
      exact hnot.1 hb
    · rw [hprev₂ b fun hin => hdisjoint b hb b hin rfl, Store.prev_set]
  -- `*p = elm`, `elm->le_prev = p`
  refine ⟨(t.set (back .head xs) (some a)).setPrev a (back .head xs), ?_, ?_, ⟨?_, ?_⟩⟩
  · have hstep₁ := storePtr_eq (s := s) (p := .next a) hlive (front ys none)
    have hstep₃ := storePtr_eq ((Store.accessible_of_live (back .head xs) hlive₂).trans haccessible) (some a)
    have hstep₄ := storePrev_eq (s := t.set (back .head xs) (some a)) (a := a)
      (by rw [Store.live_set, hlive₂]; exact hlive) (back .head xs)
    simp only [insertAt, Option.bind_eq_bind, loadPtr_eq haccessible, hys.get, Option.bind_some, hstep₁]
    rw [ht, Option.bind_some, hstep₃, Option.bind_some, hstep₄]
  · refine Linked.join ?_ ?_ ?_ ?_ h.nodup (fun b hb => ?_) ?_
    · refine (hxs₂.redirect hxsNodup (fun b _ heq => by cases heq) (some a)).congr ?_ (fun b _ => ?_) fun b hb => ?_
      · exact Store.get_setPrev _ _ _ _
      · exact Store.get_setPrev _ _ _ _
      · have hne : b ≠ a := fun heq => hnot.1 (heq ▸ hb)
        rw [Store.prev_setPrev, Function.update_of_ne hne]
    · rw [Store.prev_setPrev, Function.update_self]
    · refine hys₂ _ ?_ (fun b hb => ?_) fun b hb => ?_
      · rw [Store.get_setPrev, Store.get_set_of_ne _ _ hplace.symm, hget₂, Store.get_set_self]
      · rw [Store.get_setPrev, Store.get_set_of_ne _ _ (hother b hb), hget₂]
      · have hne : b ≠ a := fun heq => hnot.2 (heq ▸ hb)
        rw [Store.prev_setPrev, Function.update_of_ne hne, Store.prev_set]
    · rw [List.mem_append, not_or]
      exact hnot
    · rw [Store.live_setPrev, Store.live_set, hlive₂]
      exact h.live b hb
    · rw [Store.live_setPrev, Store.live_set, hlive₂]
      exact hlive
  · rw [Store.live_setPrev, Store.live_set, hlive₂]
  · rw [Store.val_setPrev, Store.val_set, hdata.val, Store.val_set]

/-- `LIST_INSERT_HEAD` puts an allocated element in front of a list. -/
theorem listInsertHead_spec (h : Linked s xs) (hlive : s.live a = true) (hnot : a ∉ xs) :
    ∃ t, listInsertHead s a = some t ∧ Linked t (a :: xs) ∧ SameData s t :=
  @insertAt_spec A V s [] xs a _ h hlive hnot

/-- `LIST_INSERT_AFTER` puts it behind an element of the list. -/
theorem listInsertAfter_spec (h : Linked s (xs ++ b :: ys)) (hlive : s.live a = true) (hnot : a ∉ xs ++ b :: ys) :
    ∃ t, listInsertAfter s b a = some t ∧ Linked t (xs ++ b :: a :: ys) ∧ SameData s t := by
  rw [List.append_cons] at h hnot
  have hspec := @insertAt_spec A V s (xs ++ [b]) ys a _ h hlive hnot
  rwa [back_concat, ← List.append_cons] at hspec

/-- `LIST_INSERT_BEFORE` puts it in front of an element of the list. -/
theorem listInsertBefore_spec (h : Linked s (xs ++ b :: ys)) (hlive : s.live a = true) (hnot : a ∉ xs ++ b :: ys) :
    ∃ t, listInsertBefore s b a = some t ∧ Linked t (xs ++ a :: b :: ys) ∧ SameData s t := by
  obtain ⟨hxs, hys⟩ := segment_append.mp h.segment
  obtain ⟨hxsNodup, hysNodup, hdisjoint⟩ := List.nodup_append.mp h.nodup
  rw [List.mem_append, not_or] at hnot
  have hab : a ≠ b := fun heq => hnot.2 (heq ▸ List.mem_cons_self)
  have hliveb : s.live b = true := h.live b (List.mem_append_right xs List.mem_cons_self)
  have hplace : back .head xs ≠ .next a := back_head_ne hnot.1
  have haccessible : s.accessible (back .head xs) = true :=
    accessible_back fun c hc => h.live c (List.mem_append_left _ hc)
  have hother : ∀ c ∈ b :: ys, Place.next c ≠ back .head xs := fun c hc heq =>
    back_head_ne (fun hin => hdisjoint c hin c hc rfl) heq.symm
  obtain ⟨-, hprev, -⟩ := hys
  -- `elm->le_prev = listelm->le_prev`, `elm->le_next = listelm`
  let t := (s.setPrev a (back .head xs)).set (.next a) (some b)
  have hlive₁ : t.live = s.live := Store.live_set _ _ _
  have hget₁ : ∀ q, q ≠ .next a → t.get q = s.get q := fun q hq =>
    (Store.get_set_of_ne _ _ hq).trans (s.get_setPrev _ q a)
  have hprev₁ : ∀ c, c ≠ a → t.prev c = s.prev c := fun c hc => by
    rw [Store.prev_set, Store.prev_setPrev, Function.update_of_ne hc]
  have hxs₁ : Segment t .head xs (some b) := by
    refine hxs.congr (hget₁ _ fun heq => by cases heq) (fun c hc => hget₁ _ fun heq => ?_) fun c hc => ?_
    · cases heq
      exact hnot.1 hc
    · exact hprev₁ c fun heq => hnot.1 (heq ▸ hc)
  have hys₁ : Segment t (back .head xs) (b :: ys) none := by
    obtain ⟨hxs, hys⟩ := segment_append.mp h.segment
    refine hys.congr (hget₁ _ hplace) (fun c hc => hget₁ _ fun heq => ?_) fun c hc => ?_
    · cases heq
      exact hnot.2 hc
    · exact hprev₁ c fun heq => hnot.2 (heq ▸ hc)
  -- `*listelm->le_prev = elm`
  let r := t.set (back .head xs) (some a)
  have hys₂ : Segment (r.setPrev b (.next a)) (.next a) (b :: ys) none := by
    have hmoved : Segment (t.setPrev b (.next a)) (.next a) (b :: ys) none :=
      hys₁.rehang (List.nodup_cons.mp hysNodup).1 (Store.get_set_self _ _ _)
    refine hmoved.congr ?_ (fun c hc => ?_) fun c _ => ?_
    · rw [Store.get_setPrev, Store.get_setPrev, Store.get_set_of_ne _ _ hplace.symm]
    · rw [Store.get_setPrev, Store.get_setPrev, Store.get_set_of_ne _ _ (hother c hc)]
    · rw [Store.prev_setPrev, Store.prev_setPrev, Store.prev_set]
  refine ⟨r.setPrev b (.next a), ?_, ?_, ⟨?_, ?_⟩⟩
  · have hstep₁ : loadPrev s b = some (back .head xs) := (loadPrev_eq hliveb).trans (congrArg some hprev)
    have hstep₂ := storePrev_eq hlive (back .head xs)
    have hstep₃ := storePtr_eq (s := s.setPrev a (back .head xs)) (p := .next a) hlive (some b)
    have hstep₄ : loadPrev t b = some (back .head xs) := by
      rw [loadPrev_eq (by rw [hlive₁]; exact hliveb), hprev₁ b hab.symm, hprev]
    have hstep₅ := storePtr_eq ((Store.accessible_of_live (back .head xs) hlive₁).trans haccessible) (some a)
    have hstep₆ := storePrev_eq (s := r) (a := b) (by rw [Store.live_set, hlive₁]; exact hliveb) (.next a)
    simp only [listInsertBefore, Option.bind_eq_bind, hstep₁, hstep₂, hstep₃, Option.bind_some]
    rw [hstep₄, Option.bind_some, hstep₅, Option.bind_some, hstep₆]
  · refine Linked.join ?_ ?_ hys₂ ?_ h.nodup (fun c hc => ?_) ?_
    · refine (hxs₁.redirect hxsNodup (fun c _ heq => by cases heq) (some a)).congr ?_ (fun c _ => ?_) fun c hc => ?_
      · exact Store.get_setPrev _ _ _ _
      · exact Store.get_setPrev _ _ _ _
      · have hne : c ≠ b := fun heq => hdisjoint c hc b List.mem_cons_self heq
        rw [Store.prev_setPrev, Function.update_of_ne hne]
    · rw [Store.prev_setPrev, Function.update_of_ne hab, Store.prev_set, Store.prev_set, Store.prev_setPrev,
        Function.update_self]
    · rw [List.mem_append, not_or]
      exact hnot
    · rw [Store.live_setPrev, Store.live_set, hlive₁]
      exact h.live c hc
    · rw [Store.live_setPrev, Store.live_set, hlive₁]
      exact hlive
  · rw [Store.live_setPrev, Store.live_set, hlive₁]
  · rw [Store.val_setPrev, Store.val_set, Store.val_set, Store.val_setPrev]

/-- `LIST_REMOVE` takes an element out of a list. -/
theorem listRemove_spec (h : Linked s (xs ++ a :: ys)) :
    ∃ t, listRemove s a = some t ∧ Linked t (xs ++ ys) ∧ SameData s t := by
  obtain ⟨hxs, hprev, hnext, hys, hnotxs, hnotys, hnodup⟩ := h.split
  obtain ⟨hxsNodup, hysNodup, hdisjoint⟩ := List.nodup_append.mp hnodup
  have hlive : s.live a = true := h.live a (by simp)
  have hliveOthers : ∀ b ∈ xs ++ ys, s.live b = true := fun b hb =>
    h.live b (List.perm_middle.mem_iff.mpr (List.mem_cons_of_mem a hb))
  have haccessible : s.accessible (back .head xs) = true :=
    accessible_back fun b hb => hliveOthers b (List.mem_append_left ys hb)
  have hother : ∀ b ∈ ys, Place.next b ≠ back .head xs := fun b hb heq =>
    back_head_ne (fun hin => hdisjoint b hin b hb rfl) heq.symm
  -- `elm->le_next->le_prev = elm->le_prev`
  obtain ⟨t, ht, hdata, hget, hprev', hys'⟩ := storePrevOf_front (back .head xs) hys hysNodup
    fun b hb => hliveOthers b (List.mem_append_right xs hb)
  have hxs' : Segment t .head xs (some a) :=
    hxs.congr (hget _) (fun b _ => hget _) fun b hb => hprev' b fun hin => hdisjoint b hb b hin rfl
  -- `*elm->le_prev = elm->le_next`
  refine ⟨t.set (back .head xs) (front ys none), ?_, ⟨?_, hnodup, fun b hb => ?_⟩, ⟨?_, ?_⟩⟩
  · have hstep₁ : loadPtr s (.next a) = some (front ys none) := (loadPtr_eq (p := .next a) hlive).trans (congrArg some hnext)
    have hstep₂ : loadPrev s a = some (back .head xs) := (loadPrev_eq hlive).trans (congrArg some hprev)
    have hstep₃ := storePtr_eq ((Store.accessible_of_live (back .head xs) hdata.live).trans haccessible) (front ys none)
    simp only [listRemove, Option.bind_eq_bind, hstep₁, hstep₂, Option.bind_some]
    rw [ht, Option.bind_some, hstep₃]
  · refine segment_append.mpr ⟨hxs'.redirect hxsNodup (fun b _ heq => by cases heq) _, ?_⟩
    refine hys' _ (Store.get_set_self _ _ _) (fun b hb => ?_) fun b _ => by rw [Store.prev_set]
    rw [Store.get_set_of_ne _ _ (hother b hb), hget]
  · rw [Store.live_set, hdata.live]
    exact hliveOthers b hb
  · rw [Store.live_set, hdata.live]
  · rw [Store.val_set, hdata.val]

end Spec

end Dangless
