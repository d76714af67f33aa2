import Mathlib.Data.List.Nodup
import Mathlib.Logic.Function.Basic
import Mathlib.Tactic.Common

/-! Linked lists in a store: an element has a pointer to the next element, and knows the place where the pointer to
itself is kept (the head of the list, or the next pointer of the element before it). -/

universe u v

namespace LinkedList

/-- Where a pointer to an element is kept. -/
inductive Place (A : Type u) where
  | head
  | next (elm : A)
  deriving DecidableEq

/-- The head of one list, and the fields of the elements at all addresses. Those that are not `live` are not allocated:
nothing may be read or written there. -/
structure Store (A : Type u) (V : Type v) where
  live : A → Bool
  first : Option A
  next : A → Option A
  prev : A → Place A
  val : A → V

namespace Store

section Fields

variable {A : Type u} {V : Type v}

/-- The pointer that is kept at a place. -/
def get (s : Store A V) : Place A → Option A
  | .head => s.first
  | .next a => s.next a

/-- Whether a place can be read and written. -/
def accessible (s : Store A V) : Place A → Bool
  | .head => true
  | .next a => s.live a

@[simp] theorem get_head (s : Store A V) : s.get .head = s.first := rfl

@[simp] theorem get_next (s : Store A V) (a : A) : s.get (.next a) = s.next a := rfl

theorem accessible_of_live {s t : Store A V} (p : Place A) (h : t.live = s.live) :
    t.accessible p = s.accessible p := by
  cases p with
  | head => rfl
  | next a => exact congrFun h a

end Fields

section Update

variable {A : Type u} {V : Type v} [DecidableEq A]

def set (s : Store A V) (p : Place A) (x : Option A) : Store A V :=
  match p with
  | .head => { s with first := x }
  | .next a => { s with next := Function.update s.next a x }

def setPrev (s : Store A V) (a : A) (p : Place A) : Store A V := { s with prev := Function.update s.prev a p }

def setVal (s : Store A V) (a : A) (v : V) : Store A V := { s with val := Function.update s.val a v }

def setLive (s : Store A V) (a : A) (l : Bool) : Store A V := { s with live := Function.update s.live a l }

variable (s : Store A V) (p q : Place A) (x : Option A) (a b : A) (v : V) (l : Bool)

@[simp] theorem get_set_self : (s.set p x).get p = x := by
  cases p with
  | head => rfl
  | next a => exact Function.update_self a x s.next

theorem get_set_of_ne {p q : Place A} (h : p ≠ q) : (s.set q x).get p = s.get p := by
  cases p <;> cases q
  · exact absurd rfl h
  · rfl
  · rfl
  · exact Function.update_of_ne (fun heq => h (congrArg Place.next heq)) _ _

@[simp] theorem live_set : (s.set p x).live = s.live := by cases p <;> rfl

@[simp] theorem prev_set : (s.set p x).prev = s.prev := by cases p <;> rfl

@[simp] theorem val_set : (s.set p x).val = s.val := by cases p <;> rfl

@[simp] theorem get_setPrev : (s.setPrev a p).get q = s.get q := by cases q <;> rfl

@[simp] theorem live_setPrev : (s.setPrev a p).live = s.live := rfl

@[simp] theorem val_setPrev : (s.setPrev a p).val = s.val := rfl

@[simp] theorem prev_setPrev : (s.setPrev a p).prev = Function.update s.prev a p := rfl

@[simp] theorem get_setVal : (s.setVal a v).get q = s.get q := by cases q <;> rfl

@[simp] theorem live_setVal : (s.setVal a v).live = s.live := rfl

@[simp] theorem prev_setVal : (s.setVal a v).prev = s.prev := rfl

@[simp] theorem val_setVal : (s.setVal a v).val = Function.update s.val a v := rfl

@[simp] theorem get_setLive : (s.setLive a l).get q = s.get q := by cases q <;> rfl

@[simp] theorem live_setLive : (s.setLive a l).live = Function.update s.live a l := rfl

@[simp] theorem prev_setLive : (s.setLive a l).prev = s.prev := rfl

@[simp] theorem val_setLive : (s.setLive a l).val = s.val := rfl

end Update

end Store

section Segment

variable {A : Type u} {V : Type v} {s t : Store A V} {p q : Place A} {xs ys : List A} {x y : Option A} {a b : A}

/-- The pointer to the first of `xs`, or `last` where there is none. -/
def front (xs : List A) (last : Option A) : Option A := xs.head?.or last

@[simp] theorem front_nil (last : Option A) : front [] last = last := rfl

@[simp] theorem front_cons (a : A) (xs : List A) (last : Option A) : front (a :: xs) last = some a := rfl

/-- The place of the pointer that follows `xs`, where the pointer to `xs` is at `p`. -/
def back (p : Place A) : List A → Place A
  | [] => p
  | a :: xs => back (.next a) xs

@[simp] theorem back_nil : back p ([] : List A) = p := rfl

@[simp] theorem back_cons : back p (a :: xs) = back (.next a) xs := rfl

theorem back_append : back p (xs ++ ys) = back (back p xs) ys := by
  induction xs generalizing p with
  | nil => rfl
  | cons a xs ih => exact ih

theorem back_concat : back p (xs ++ [a]) = .next a := by rw [back_append, back_cons, back_nil]

theorem back_eq (p : Place A) (xs : List A) : back p xs = p ∨ ∃ a ∈ xs, back p xs = .next a := by
  induction xs generalizing p with
  | nil => exact Or.inl rfl
  | cons a xs ih =>
      rcases ih (.next a) with h | ⟨b, hb, h⟩
      · exact Or.inr ⟨a, List.mem_cons_self, h⟩
      · exact Or.inr ⟨b, List.mem_cons_of_mem _ hb, h⟩

theorem back_head_ne (h : a ∉ xs) : back .head xs ≠ .next a := by
  rcases back_eq .head xs with heq | ⟨b, hb, heq⟩
  · rw [heq]
    exact fun hab => by cases hab
  · rw [heq]
    intro hab
    cases hab
    exact h hb

/-- From the pointer at `p`, the next pointers lead through `xs` to `last`, and each element knows the place before
it. -/
def Segment (s : Store A V) (p : Place A) : List A → Option A → Prop
  | [], last => s.get p = last
  | a :: xs, last => s.get p = some a ∧ s.prev a = p ∧ Segment s (.next a) xs last

@[simp] theorem segment_nil : Segment s p [] x ↔ s.get p = x := Iff.rfl

@[simp] theorem segment_cons :
    Segment s p (a :: xs) x ↔ s.get p = some a ∧ s.prev a = p ∧ Segment s (.next a) xs x := Iff.rfl

theorem Segment.get (h : Segment s p xs x) : s.get p = front xs x := by
  cases xs with
  | nil => exact h
  | cons a xs => exact h.1

theorem segment_append :
    Segment s p (xs ++ ys) x ↔ Segment s p xs (front ys x) ∧ Segment s (back p xs) ys x := by
  induction xs generalizing p with
  | nil => exact ⟨fun h => ⟨h.get, h⟩, And.right⟩
  | cons a xs ih =>
      rw [List.cons_append, segment_cons, ih, segment_cons, back_cons]
      exact ⟨fun ⟨hp, hprev, hxs, hys⟩ => ⟨⟨hp, hprev, hxs⟩, hys⟩,
        fun ⟨⟨hp, hprev, hxs⟩, hys⟩ => ⟨hp, hprev, hxs, hys⟩⟩

theorem Segment.get_back (h : Segment s p xs x) : s.get (back p xs) = x := by
  induction xs generalizing p with
  | nil => exact h
  | cons a xs ih => exact ih h.2.2

/-- A segment is in the pointers at its places and in the `prev` fields of its elements. -/
theorem Segment.congr (h : Segment s p xs x) (hp : t.get p = s.get p)
    (hnext : ∀ a ∈ xs, t.get (.next a) = s.get (.next a)) (hprev : ∀ a ∈ xs, t.prev a = s.prev a) :
    Segment t p xs x := by
  induction xs generalizing p with
  | nil => exact hp.trans h
  | cons a xs ih =>
      obtain ⟨hget, hback, hrest⟩ := h
      refine ⟨hp.trans hget, (hprev a List.mem_cons_self).trans hback, ih hrest (hnext a List.mem_cons_self) ?_ ?_⟩
      · exact fun b hb => hnext b (List.mem_cons_of_mem a hb)
      · exact fun b hb => hprev b (List.mem_cons_of_mem a hb)

/-- The last pointer of a segment is redirected. -/
theorem Segment.redirect [DecidableEq A] (h : Segment s p xs x) (hnodup : xs.Nodup) (hp : ∀ a ∈ xs, p ≠ .next a)
    (y : Option A) : Segment (s.set (back p xs) y) p xs y := by
  induction xs generalizing p with
  | nil => exact s.get_set_self p y
  | cons a xs ih =>
      obtain ⟨hget, hback, hrest⟩ := h
      obtain ⟨hnot, hnodup⟩ := List.nodup_cons.mp hnodup
      have hne : p ≠ back (.next a) xs := by
        rcases back_eq (.next a) xs with heq | ⟨b, hb, heq⟩
        · rw [heq]
          exact hp a List.mem_cons_self
        · rw [heq]
          exact hp b (List.mem_cons_of_mem a hb)
      refine ⟨?_, ?_, ih hrest hnodup fun b hb heq => ?_⟩
      · rw [back_cons, s.get_set_of_ne _ hne]
        exact hget
      · rw [back_cons, Store.prev_set]
        exact hback
      · cases heq
        exact hnot hb

/-- The first element of a segment is hung at another place. -/
theorem Segment.rehang [DecidableEq A] (h : Segment s p (a :: xs) x) (hnot : a ∉ xs) (hq : s.get q = some a) :
    Segment (s.setPrev a q) q (a :: xs) x := by
  have hprev : (s.setPrev a q).prev a = q := by rw [Store.prev_setPrev, Function.update_self]
  refine ⟨(s.get_setPrev q q a).trans hq, hprev, ?_⟩
  refine h.2.2.congr (s.get_setPrev q _ a) (fun b _ => s.get_setPrev q _ a) fun b hb => ?_
  have hne : b ≠ a := fun heq => hnot (heq ▸ hb)
  exact Function.update_of_ne hne q s.prev

end Segment

section Linked

variable {A : Type u} {V : Type v} {s t : Store A V} {xs ys : List A} {a b : A}

/-- The elements of the list in `s` are `xs`, all of them allocated. -/
structure Linked (s : Store A V) (xs : List A) : Prop where
  segment : Segment s .head xs none
  nodup : xs.Nodup
  live : ∀ a ∈ xs, s.live a = true

/-- The links between the elements do not matter to what `t` has of other data. -/
structure SameData (s t : Store A V) : Prop where
  live : t.live = s.live
  val : t.val = s.val

theorem SameData.refl (s : Store A V) : SameData s s := ⟨rfl, rfl⟩

theorem linked_nil (h : s.first = none) : Linked s ([] : List A) :=
  ⟨h, List.nodup_nil, fun _ ha => absurd ha List.not_mem_nil⟩

namespace Linked

theorem first (h : Linked s xs) : s.first = front xs none := h.segment.get

/-- An element in the middle of a list, and the two parts of the list beside it. -/
theorem split (h : Linked s (xs ++ a :: ys)) : Segment s .head xs (some a) ∧ s.prev a = back .head xs ∧
    s.next a = front ys none ∧ Segment s (.next a) ys none ∧ a ∉ xs ∧ a ∉ ys ∧ (xs ++ ys).Nodup := by
  obtain ⟨hxs, -, hprev, hys⟩ := segment_append.mp h.segment
  obtain ⟨hnot, hnodup⟩ := List.nodup_cons.mp (List.nodup_middle.mp h.nodup)
  rw [List.mem_append, not_or] at hnot
  exact ⟨hxs, hprev, hys.get, hys, hnot.1, hnot.2, hnodup⟩

/-- The two parts of a list beside an element, put together with it. -/
theorem join (hxs : Segment s .head xs (some a)) (hprev : s.prev a = back .head xs)
    (hys : Segment s (.next a) ys none) (hnot : a ∉ xs ++ ys) (hnodup : (xs ++ ys).Nodup)
    (hlive : ∀ b ∈ xs ++ ys, s.live b = true) (ha : s.live a = true) : Linked s (xs ++ a :: ys) := by
  refine ⟨segment_append.mpr ⟨hxs, hxs.get_back, hprev, hys⟩, ?_, fun b hb => ?_⟩
  · exact List.nodup_middle.mpr (List.nodup_cons.mpr ⟨hnot, hnodup⟩)
  · rcases List.mem_cons.mp (List.perm_middle.mem_iff.mp hb) with rfl | hb
    · exact ha
    · exact hlive b hb

/-- The list does not depend on the elements that are not in it, nor on any payload. -/
theorem congr (h : Linked s xs) (hfirst : t.first = s.first) (hnext : t.next = s.next) (hprev : t.prev = s.prev)
    (hlive : ∀ a ∈ xs, t.live a = s.live a) : Linked t xs := by
  refine ⟨h.segment.congr hfirst (fun a _ => congrFun hnext a) (fun a _ => congrFun hprev a), h.nodup, fun a ha => ?_⟩
  rw [hlive a ha]
  exact h.live a ha

end Linked

end Linked

end LinkedList
