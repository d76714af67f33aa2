import Mathlib.Data.Set.Basic
import Mathlib.Data.List.Basic
import Mathlib.Tactic.Common

/-! A processor that translates addresses through tables in memory and keeps translations in a cache, next to a program
that changes the tables. Between two operations of the program the processor may look up any address and keep the
answer, and may forget any. A kept translation is stale once the tables say something else; flushing forgets it. -/

namespace Tlb

variable {σ Op V E : Type*}

/-- What the operations of a program do to the tables, what the tables say about an address, and which addresses an
operation flushes. -/
structure Machine (σ Op V E : Type*) where
  apply : σ → Op → σ
  translate : σ → V → Option E
  flushes : Op → V → Prop

/-- The translations that are kept. -/
abbrev Cache (V E : Type*) := V → Option E

namespace Machine

variable (M : Machine σ Op V E)

def applyAll (s : σ) (ops : List Op) : σ := ops.foldl M.apply s

/-- What the processor does on its own, to any number of addresses. -/
def Idle (s : σ) (T T' : Cache V E) : Prop := ∀ v, T' v = T v ∨ T' v = none ∨ T' v = M.translate s v

/-- What an operation does to the cache. -/
def Issue (op : Op) (T T' : Cache V E) : Prop :=
  ∀ v, (M.flushes op v → T' v = none) ∧ (¬ M.flushes op v → T' v = T v)

/-- The operations one after the other, with the processor at work before, between and after them. -/
inductive Exec : σ → Cache V E → List Op → Cache V E → Prop
  | nil {s : σ} {T T' : Cache V E} (hidle : M.Idle s T T') : Exec s T [] T'
  | cons {s : σ} {T T₁ T₂ T' : Cache V E} {op : Op} {ops : List Op} (hidle : M.Idle s T T₁) (hissue : M.Issue op T₁ T₂)
      (hrest : Exec (M.apply s op) T₂ ops T') : Exec s T (op :: ops) T'

/-- Outside `D`, no translation that is kept is stale. -/
def Fresh (D : Set V) (s : σ) (T : Cache V E) : Prop := ∀ v, v ∉ D → T v = none ∨ T v = M.translate s v

/-- However the processor interleaves, operations that start with no stale translation outside `D` end with none outside
`D'`. -/
def Keeps (D : Set V) (s : σ) (ops : List Op) (D' : Set V) : Prop :=
  ∀ T T', M.Fresh D s T → M.Exec s T ops T' → M.Fresh D' (M.applyAll s ops) T'

/-- Each of the operations leaves what the tables say as it is. -/
def Quiet : σ → List Op → Prop
  | _, [] => True
  | s, op :: ops => (∀ v, M.translate (M.apply s op) v = M.translate s v) ∧ Quiet (M.apply s op) ops

variable {M} {s : σ} {T T' : Cache V E} {D D' D'' : Set V} {op : Op} {ops more : List Op}

@[simp] theorem applyAll_nil : M.applyAll s [] = s := rfl

@[simp] theorem applyAll_cons : M.applyAll s (op :: ops) = M.applyAll (M.apply s op) ops := rfl

@[simp] theorem applyAll_append : M.applyAll s (ops ++ more) = M.applyAll (M.applyAll s ops) more :=
  List.foldl_append ..

theorem Fresh.mono (h : M.Fresh D s T) (hD : D ⊆ D') : M.Fresh D' s T := fun v hv => h v fun hmem => hv (hD hmem)

/-- A lookup keeps what the tables say. -/
theorem Fresh.idle (h : M.Fresh D s T) (hidle : M.Idle s T T') : M.Fresh D s T' := by
  intro v hv
  rcases hidle v with hsame | hnone | hlookup
  · rw [hsame]
    exact h v hv
  · exact Or.inl hnone
  · exact Or.inr hlookup

/-- An address that had a translation and gets another one is stale unless it is flushed; one that had none was not
kept. -/
theorem Fresh.issue (h : M.Fresh D s T) (hissue : M.Issue op T T')
    (hD : ∀ v, v ∉ D' → M.flushes op v ∨
      (v ∉ D ∧ (M.translate (M.apply s op) v = M.translate s v ∨ M.translate s v = none))) :
    M.Fresh D' (M.apply s op) T' := by
  intro v hv
  by_cases hflush : M.flushes op v
  · exact Or.inl ((hissue v).1 hflush)
  · obtain ⟨hv', htranslate⟩ := (hD v hv).resolve_left hflush
    rw [(hissue v).2 hflush]
    rcases h v hv' with hnone | hkept
    · exact Or.inl hnone
    · rcases htranslate with hsame | habsent
      · exact Or.inr (hkept.trans hsame.symm)
      · exact Or.inl (hkept.trans habsent)

theorem Exec.append (h : M.Exec s T (ops ++ more) T') :
    ∃ T₁, M.Exec s T ops T₁ ∧ M.Exec (M.applyAll s ops) T₁ more T' := by
  induction ops generalizing s T with
  | nil => exact ⟨T, .nil fun _ => Or.inl rfl, h⟩
  | cons op ops ih =>
      cases h with
      | cons hidle hissue hrest =>
          obtain ⟨T₁, hops, hmore⟩ := ih hrest
          exact ⟨T₁, .cons hidle hissue hops, hmore⟩

theorem Keeps.nil : M.Keeps D s [] D := by
  intro T T' h hexec
  cases hexec with
  | nil hidle => exact h.idle hidle

theorem Keeps.append (h : M.Keeps D s ops D') (h' : M.Keeps D' (M.applyAll s ops) more D'') :
    M.Keeps D s (ops ++ more) D'' := by
  intro T T' hfresh hexec
  obtain ⟨T₁, hops, hmore⟩ := hexec.append
  rw [applyAll_append]
  exact h' T₁ T' (h T T₁ hfresh hops) hmore

theorem Keeps.mono (h : M.Keeps D s ops D') (hD : D' ⊆ D'') : M.Keeps D s ops D'' :=
  fun T T' hfresh hexec => (h T T' hfresh hexec).mono hD

/-- The rule for one operation. -/
theorem Keeps.single (hD : ∀ v, v ∉ D' → M.flushes op v ∨
    (v ∉ D ∧ (M.translate (M.apply s op) v = M.translate s v ∨ M.translate s v = none))) :
    M.Keeps D s [op] D' := by
  intro T T' hfresh hexec
  cases hexec with
  | cons hidle hissue hrest => exact Keeps.nil _ _ ((hfresh.idle hidle).issue hissue hD) hrest

theorem Quiet.translate (h : M.Quiet s ops) (v : V) : M.translate (M.applyAll s ops) v = M.translate s v := by
  induction ops generalizing s with
  | nil => rfl
  | cons op ops ih => exact (ih h.2).trans (h.1 v)

/-- Operations that leave the tables as they are make nothing stale. -/
theorem Quiet.keeps (h : M.Quiet s ops) : M.Keeps D s ops D := by
  induction ops generalizing s with
  | nil => exact Keeps.nil
  | cons op ops ih =>
      have hop : M.Keeps D s [op] D := Keeps.single fun v hv => Or.inr ⟨hv, Or.inl (h.1 v)⟩
      exact hop.append (ih h.2)

end Machine

end Tlb
