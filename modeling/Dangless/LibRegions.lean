import Mathlib.Data.List.Basic
import Mathlib.Tactic.Common

/-! Lists of regions of an address space, one right behind the other, and the two ways in which such a list is
extended: the last region grows, or a new one follows it. -/

universe u

namespace Regions

variable {ρ : Type u} (start length : ρ → Nat)

/-- The regions follow each other from `lo` to `hi`. -/
def Consecutive : Nat → List ρ → Nat → Prop
  | lo, [], hi => lo = hi
  | lo, r :: regions, hi => start r = lo ∧ Consecutive (lo + length r) regions hi

/-- An address in a region. -/
def Holds (r : ρ) (a : Nat) : Prop := start r ≤ a ∧ a < start r + length r

variable {start length} {lo mid hi a : Nat} {regions more : List ρ} {r r' : ρ}

theorem Consecutive.append (h : Consecutive start length lo regions mid)
    (hmore : Consecutive start length mid more hi) : Consecutive start length lo (regions ++ more) hi := by
  induction regions generalizing lo with
  | nil =>
      obtain rfl : lo = mid := h
      exact hmore
  | cons r regions ih => exact ⟨h.1, ih h.2⟩

theorem consecutive_append_iff : Consecutive start length lo (regions ++ more) hi ↔
    ∃ mid, Consecutive start length lo regions mid ∧ Consecutive start length mid more hi := by
  constructor
  · intro h
    induction regions generalizing lo with
    | nil => exact ⟨lo, rfl, h⟩
    | cons r regions ih =>
        obtain ⟨mid, hregions, hmore⟩ := ih h.2
        exact ⟨mid, ⟨h.1, hregions⟩, hmore⟩
  · rintro ⟨mid, hregions, hmore⟩
    exact hregions.append hmore

/-- The last region ends where all of them do. -/
theorem Consecutive.last (h : Consecutive start length lo (regions ++ [r]) hi) :
    Consecutive start length lo regions (start r) ∧ hi = start r + length r := by
  obtain ⟨mid, hregions, hstart, hend⟩ := consecutive_append_iff.mp h
  rw [hstart]
  exact ⟨hregions, hend.symm⟩

/-- A new region. -/
theorem Consecutive.next (h : Consecutive start length lo regions mid) (hstart : start r = mid) :
    Consecutive start length lo (regions ++ [r]) (mid + length r) := by
  apply h.append
  exact ⟨hstart, rfl⟩

/-- The last region grows. -/
theorem Consecutive.grow (h : Consecutive start length lo (regions ++ [r]) hi) (hstart : start r' = start r) :
    Consecutive start length lo (regions ++ [r']) (start r + length r') := by
  have hlast := h.last.1
  apply hlast.next
  exact hstart

/-- Every address in between is in one of the regions. -/
theorem Consecutive.exists_holds (h : Consecutive start length lo regions hi) (hlo : lo ≤ a) (hhi : a < hi) :
    ∃ r ∈ regions, Holds start length r a := by
  induction regions generalizing lo with
  | nil =>
      obtain rfl : lo = hi := h
      exact absurd hhi (Nat.not_lt.mpr hlo)
  | cons r regions ih =>
      by_cases hin : a < lo + length r
      · refine ⟨r, List.mem_cons_self, ?_⟩
        unfold Holds
        rw [h.1]
        exact ⟨hlo, hin⟩
      · obtain ⟨r', hr', hholds⟩ := ih h.2 (Nat.le_of_not_lt hin)
        exact ⟨r', List.mem_cons_of_mem _ hr', hholds⟩

/-- The regions are below their end. -/
theorem Consecutive.le_finish (h : Consecutive start length lo regions hi) : lo ≤ hi := by
  induction regions generalizing lo with
  | nil => exact Nat.le_of_eq h
  | cons r regions ih => exact Nat.le_of_add_right_le (ih h.2)

theorem Consecutive.lt_of_holds (h : Consecutive start length lo regions hi) (hr : r ∈ regions)
    (hholds : Holds start length r a) : a < hi := by
  induction regions generalizing lo with
  | nil => cases hr
  | cons first regions ih =>
      rcases List.mem_cons.mp hr with rfl | hr
      · calc a < start r + length r := hholds.2
          _ = lo + length r := by rw [h.1]
          _ ≤ hi := h.2.le_finish
      · exact ih h.2 hr

end Regions
