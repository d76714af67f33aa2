import Mathlib.Data.Set.Lattice
import Mathlib.Order.CompletePartialOrder
import Dangless.LibLock

/-! Programs of threads that share data, statement by statement. Each operation works on keys of its own; a thread relies
on what the others leave alone, and guarantees as much to them. Whatever the order of their statements, the threads then
cannot be told apart from threads that do each operation in one step. -/

namespace Rely

open Locked

variable {σ R R' T Op K V : Type}

/-- A program. A statement waits for its guard, then looks at the data and changes it; `fail` is a failed assertion. -/
inductive Prog (σ R : Type) where
  | ret (r : R)
  | step (guard : σ → Bool) (update : σ → σ) (next : σ → Prog σ R)
  | fail

namespace Prog

def bind : Prog σ R → (R → Prog σ R') → Prog σ R'
  | ret r, k => k r
  | step guard update next, k => step guard update fun s => (next s).bind k
  | fail, _ => fail

instance : Monad (Prog σ) where
  pure := ret
  bind := bind

/-- A statement that waits for its guard. -/
def await (guard : σ → Bool) (update : σ → σ) : Prog σ Unit := step guard update fun _ => ret ()

/-- A statement that changes the data and has a result that depends on what they were. -/
def fetch (f : σ → R) (update : σ → σ) : Prog σ R := step (fun _ => true) update fun s => ret (f s)

def read (f : σ → R) : Prog σ R := fetch f id

def modify (update : σ → σ) : Prog σ Unit := fetch (fun _ => ()) update

def check (condition : Bool) : Prog σ Unit := if condition then ret () else fail

/-- The program with no other thread around: its result and the data it leaves, unless it waits or fails. -/
def run : Prog σ R → σ → Option (R × σ)
  | ret r, s => some (r, s)
  | step guard update next, s => if guard s then (next s).run (update s) else none
  | fail, _ => none

@[simp] theorem run_pure (r : R) (s : σ) : (pure r : Prog σ R).run s = some (r, s) := rfl

@[simp] theorem run_fetch (f : σ → R) (update : σ → σ) (s : σ) : (fetch f update).run s = some (f s, update s) := rfl

@[simp] theorem run_read (f : σ → R) (s : σ) : (read f).run s = some (f s, s) := rfl

@[simp] theorem run_modify (f : σ → σ) (s : σ) : (modify f).run s = some ((), f s) := rfl

theorem run_await {guard : σ → Bool} {f : σ → σ} {s : σ} (h : guard s = true) : (await guard f).run s = some ((), f s) :=
  if_pos h

theorem run_check {condition : Bool} (h : condition = true) (s : σ) :
    (check condition : Prog σ Unit).run s = some ((), s) := by
  subst h
  rfl

theorem run_bind (p : Prog σ R) (k : R → Prog σ R') (s : σ) :
    (p >>= k).run s = (p.run s).bind fun result => (k result.1).run result.2 := by
  induction p generalizing s with
  | ret r => rfl
  | step guard update next ih =>
      show (if guard s then _ else _) = Option.bind (if guard s then _ else _) _
      cases guard s with
      | true => exact ih s (update s)
      | false => rfl
  | fail => rfl

/-- Running on after a part that has a result. -/
theorem run_bind_of {p : Prog σ R} {k : R → Prog σ R'} {s s' : σ} {r : R} (h : p.run s = some (r, s')) :
    (p >>= k).run s = (k r).run s' := by
  rw [run_bind, h]
  rfl

end Prog

/-- The surroundings of an operation: what the other threads may do meanwhile, what its own statements may do, and when
another thread has what it waits for. -/
structure Env (σ : Type) where
  rely : σ → σ → Prop
  guar : σ → σ → Prop
  waits : σ → Prop

/-- Everybody keeps the invariant `I` of the data. -/
structure Env.Lawful (E : Env σ) (I : σ → Prop) : Prop where
  refl : ∀ {s}, I s → E.rely s s
  trans : ∀ {s s' s''}, I s → E.rely s s' → E.rely s' s'' → E.rely s s''
  quiet : ∀ {s}, I s → E.guar s s

/-- From here on no assertion fails, every statement keeps the invariant and does what it may, and the result is as it
should be, whatever the other threads do in between. -/
def Ok (I : σ → Prop) (E : Env σ) (post : R → σ → Prop) : Prog σ R → σ → Prop
  | .ret r, s => ∀ s', E.rely s s' → I s' → post r s'
  | .step guard update next, s => ∀ s', E.rely s s' → I s' →
      (guard s' = true → I (update s') ∧ E.guar s' (update s') ∧ Ok I E post (next s') (update s')) ∧
      (guard s' = false → E.waits s')
  | .fail, _ => False

section Rules

variable {I : σ → Prop} {E : Env σ} {post post' : R → σ → Prop} {mid : R' → σ → Prop} {p : Prog σ R} {s s' : σ}

theorem Ok.rely (hE : E.Lawful I) (h : Ok I E post p s) (hs : I s) (hrely : E.rely s s') : Ok I E post p s' := by
  cases p with
  | ret r => exact fun s'' hs'' => h s'' (hE.trans hs hrely hs'')
  | step guard update next => exact fun s'' hs'' => h s'' (hE.trans hs hrely hs'')
  | fail => exact h

theorem Ok.mono (h : Ok I E post p s) (hpost : ∀ r s, post r s → post' r s) : Ok I E post' p s := by
  induction p generalizing s with
  | ret r => exact fun s' hs' hI => hpost r s' (h s' hs' hI)
  | step guard update next ih =>
      intro s' hs' hI
      obtain ⟨hrun, hwait⟩ := h s' hs' hI
      refine ⟨fun hguard => ?_, hwait⟩
      obtain ⟨hI', hguar, hnext⟩ := hrun hguard
      exact ⟨hI', hguar, ih s' hnext⟩
  | fail => exact h

theorem Ok.bind (hE : E.Lawful I) {q : Prog σ R'} {k : R' → Prog σ R} (hs : I s) (h : Ok I E mid q s)
    (hk : ∀ r s, I s → mid r s → Ok I E post (k r) s) : Ok I E post (q >>= k) s := by
  induction q generalizing s with
  | ret r => exact hk r s hs (h s (hE.refl hs) hs)
  | step guard update next ih =>
      intro s' hs' hI
      obtain ⟨hrun, hwait⟩ := h s' hs' hI
      refine ⟨fun hguard => ?_, hwait⟩
      obtain ⟨hI', hguar, hnext⟩ := hrun hguard
      exact ⟨hI', hguar, ih s' hI' hnext⟩
  | fail => exact h

theorem ok_pure {r : R} (h : ∀ s', E.rely s s' → I s' → post r s') : Ok I E post (pure r) s := h

theorem ok_fetch {f : σ → R'} {update : σ → σ} {k : R' → Prog σ R}
    (h : ∀ s', E.rely s s' → I s' → I (update s') ∧ E.guar s' (update s') ∧ Ok I E post (k (f s')) (update s')) :
    Ok I E post (Prog.fetch f update >>= k) s :=
  fun s' hs' hI => ⟨fun _ => h s' hs' hI, fun hguard => by cases hguard⟩

theorem ok_read (hE : E.Lawful I) {f : σ → R'} {k : R' → Prog σ R}
    (h : ∀ s', E.rely s s' → I s' → Ok I E post (k (f s')) s') : Ok I E post (Prog.read f >>= k) s :=
  ok_fetch fun s' hs' hI => ⟨hI, hE.quiet hI, h s' hs' hI⟩

theorem ok_modify {update : σ → σ} {k : Unit → Prog σ R}
    (h : ∀ s', E.rely s s' → I s' → I (update s') ∧ E.guar s' (update s') ∧ Ok I E post (k ()) (update s')) :
    Ok I E post (Prog.modify update >>= k) s := ok_fetch h

theorem ok_await {guard : σ → Bool} {f : σ → σ} {k : Unit → Prog σ R}
    (h : ∀ s', E.rely s s' → I s' → guard s' = true → I (f s') ∧ E.guar s' (f s') ∧ Ok I E post (k ()) (f s'))
    (hwait : ∀ s', E.rely s s' → I s' → guard s' = false → E.waits s') :
    Ok I E post (Prog.await guard f >>= k) s :=
  fun s' hs' hI => ⟨h s' hs' hI, hwait s' hs' hI⟩

theorem ok_check {condition : Bool} {k : Unit → Prog σ R} (hcondition : condition = true)
    (h : Ok I E post (k ()) s) : Ok I E post (Prog.check condition >>= k) s := by
  subst hcondition
  exact h

/-- Run with no other thread around, the program does what it should, and a part of the data that its statements leave
alone is what it was. -/
theorem Ok.run (hE : E.Lawful I) {r : R} {f : σ → V} (hf : ∀ {s s'}, E.guar s s' → f s' = f s) (h : Ok I E post p s)
    (hs : I s) (hrun : p.run s = some (r, s')) : I s' ∧ post r s' ∧ f s' = f s := by
  induction p generalizing s with
  | ret r' =>
      obtain ⟨rfl, rfl⟩ := Prod.mk.inj (Option.some.inj hrun)
      exact ⟨hs, h s (hE.refl hs) hs, rfl⟩
  | step guard update next ih =>
      rw [Prog.run] at hrun
      split_ifs at hrun with hguard
      obtain ⟨hs', hguar, hnext⟩ := (h s (hE.refl hs) hs).1 hguard
      obtain ⟨hI, hpost, hsame⟩ := ih s hnext hs' hrun
      exact ⟨hI, hpost, hsame.trans (hf hguar)⟩
  | fail => cases hrun

end Rules

/-- The operations of threads on shared data: their code, the keys that each works on, the value of a key, the
surroundings of an operation, what a thread between operations can be sure of, who holds the lock, and what the
operations are for. -/
structure Protocol (T σ Op R K V : Type) where
  inv : σ → Prop
  code : T → Op → Prog σ R
  keys : Op → Set K
  view : σ → K → V
  env : T → Set K → Env σ
  idle : T → σ → Prop
  holder : σ → Option T
  legal : Op → (K → V) → Prop
  spec : Op → (K → V) → R → (K → V) → Prop

/-- Where a thread is: between operations, or before the rest of the code of one. -/
inductive Phase (σ Op R : Type) where
  | idle
  | running (op : Op) (p : Prog σ R)

def Phase.call : Phase σ Op R → Option Op
  | .idle => none
  | .running op _ => some op

inductive Label (T Op R : Type) where
  | event (e : Event T Op R)
  | statement (t : T)

def Label.event? : Label T Op R → Option (Event T Op R)
  | .event e => some e
  | .statement _ => none

structure Conf (T σ Op R : Type) where
  shared : σ
  phase : T → Phase σ Op R

namespace Protocol

/-- Threads that take their statements in any order. An operation is called when the values of its keys allow it and no
other thread is at work on one of its keys. -/
inductive Step [DecidableEq T] (P : Protocol T σ Op R K V) : Conf T σ Op R → Label T Op R → Conf T σ Op R → Prop
  | call {c : Conf T σ Op R} {t : T} {op : Op} (hphase : c.phase t = .idle) (hlegal : P.legal op (P.view c.shared))
      (hapart : ∀ u op', (c.phase u).call = some op' → Disjoint (P.keys op) (P.keys op')) :
      Step P c (.event (.call t op)) { c with phase := Function.update c.phase t (.running op (P.code t op)) }
  | statement {c : Conf T σ Op R} {t : T} {op : Op} {guard : σ → Bool} {update : σ → σ} {next : σ → Prog σ R}
      (hphase : c.phase t = .running op (.step guard update next)) (hguard : guard c.shared = true) :
      Step P c (.statement t)
        ⟨update c.shared, Function.update c.phase t (.running op (next c.shared))⟩
  | finish {c : Conf T σ Op R} {t : T} {op : Op} {r : R} (hphase : c.phase t = .running op (.ret r)) :
      Step P c (.event (.finish t op r)) { c with phase := Function.update c.phase t .idle }

/-- An operation in one step. -/
def Seq (P : Protocol T σ Op R K V) (f : K → V) (op : Op) (r : R) (f' : K → V) : Prop :=
  P.legal op f ∧ P.spec op f r f' ∧ ∀ k, k ∉ P.keys op → f' k = f k

/-- Nothing is asked of those who call operations in one step. -/
def anyClient (T Op R : Type) : Client T Op R Unit := ⟨fun _ _ _ => True, fun _ _ _ => (), fun _ _ _ _ => ()⟩

/-- What a thread is left with at the end of an operation that began at the values `f`. -/
def Post (P : Protocol T σ Op R K V) (t : T) (op : Op) (f : K → V) (r : R) (s : σ) : Prop :=
  P.idle t s ∧ P.spec op f r (P.view s)

/-- What makes a protocol work: threads on different keys leave each other alone, and the code of an operation does what
the operation is for. -/
structure Sound (P : Protocol T σ Op R K V) : Prop where
  lawful : ∀ t X, (P.env t X).Lawful P.inv
  apart : ∀ {t u X Y s s'}, t ≠ u → Disjoint X Y → (P.env t X).guar s s' → (P.env u Y).rely s s'
  view : ∀ {t X s s' k}, (P.env t X).guar s s' → k ∉ X → P.view s' k = P.view s k
  idle : ∀ {t s s'}, P.idle t s → (P.env t ∅).rely s s' → P.idle t s'
  holder : ∀ {t s}, P.idle t s → P.holder s ≠ some t
  waits : ∀ {t X s}, (P.env t X).waits s → ∃ u, u ≠ t ∧ P.holder s = some u
  legal : ∀ {op f g}, (∀ k ∈ P.keys op, f k = g k) → P.legal op f → P.legal op g
  spec : ∀ {op f g r f' g'}, (∀ k ∈ P.keys op, f k = g k) → (∀ k ∈ P.keys op, f' k = g' k) →
    P.spec op f r f' → P.spec op g r g'
  code : ∀ {t op s}, P.inv s → P.legal op (P.view s) → P.idle t s →
    Ok P.inv (P.env t (P.keys op)) (P.Post t op (P.view s)) (P.code t op) s

/-- A state of the threads, and the one in which each operation is done in one step when it ends. The keys that no
operation is at work on have the same values. -/
structure Sim (P : Protocol T σ Op R K V) (c : Conf T σ Op R) (a : Atomic T (K → V) Op Unit) : Prop where
  inv : P.inv c.shared
  pending : ∀ t, a.pending t = (c.phase t).call
  apart : ∀ t u op op', t ≠ u → (c.phase t).call = some op → (c.phase u).call = some op' →
    Disjoint (P.keys op) (P.keys op')
  view : ∀ k, (∀ t op, (c.phase t).call = some op → k ∉ P.keys op) → P.view c.shared k = a.state k
  idle : ∀ t, c.phase t = .idle → P.idle t c.shared
  running : ∀ t op p, c.phase t = .running op p →
    P.legal op a.state ∧ Ok P.inv (P.env t (P.keys op)) (P.Post t op a.state) p c.shared

variable [DecidableEq T] {P : Protocol T σ Op R K V} {c c' : Conf T σ Op R} {a : Atomic T (K → V) Op Unit}
  {label : Label T Op R} {labels : List (Label T Op R)}

omit [DecidableEq T] in
/-- Threads that are at the beginning of operations on keys of their own. -/
theorem sim_calls (hP : P.Sound) {s : σ} {calls : T → Option Op} (hs : P.inv s) (hidle : ∀ t, P.idle t s)
    (hlegal : ∀ t op, calls t = some op → P.legal op (P.view s))
    (hapart : ∀ t u op op', t ≠ u → calls t = some op → calls u = some op' → Disjoint (P.keys op) (P.keys op')) :
    Sim P ⟨s, fun t => (calls t).elim .idle fun op => .running op (P.code t op)⟩ ⟨P.view s, (), calls⟩ := by
  have hcall : ∀ t, ((calls t).elim .idle fun op => .running op (P.code t op) : Phase σ Op R).call = calls t := by
    intro t
    cases calls t with
    | none => rfl
    | some op => rfl
  refine ⟨hs, fun t => (hcall t).symm, fun t u op op' htu ht hu => ?_, fun _ _ => rfl, fun t _ => hidle t,
    fun t op p hp => ?_⟩
  · exact hapart t u op op' htu ((hcall t).symm.trans ht) ((hcall u).symm.trans hu)
  · dsimp only at hp
    cases hop : calls t with
    | none =>
        rw [hop] at hp
        cases hp
    | some op' =>
        rw [hop] at hp
        cases hp
        exact ⟨hlegal t op hop, hP.code hs (hlegal t op hop) (hidle t)⟩

omit [DecidableEq T] in
theorem sim_start {s : σ} (hP : P.Sound) (hs : P.inv s) (hidle : ∀ t, P.idle t s) :
    Sim P ⟨s, fun _ => .idle⟩ ⟨P.view s, (), fun _ => none⟩ :=
  @sim_calls _ _ _ _ _ _ P hP s (fun _ => none) hs hidle (fun _ _ h => by cases h) fun _ _ _ _ _ h => by cases h

omit [DecidableEq T] in
/-- An operation that is in order, run with no other thread around, does in all what it does in one step. -/
theorem Sound.run {P : Protocol T σ Op R K V} (hP : P.Sound) {t : T} {op : Op} {r : R} {s s' : σ} (hs : P.inv s)
    (hlegal : P.legal op (P.view s)) (hidle : P.idle t s) (hrun : (P.code t op).run s = some (r, s')) :
    P.inv s' ∧ P.Seq (P.view s) op r (P.view s') := by
  have hcode := hP.code hs hlegal hidle
  have hframe : ∀ k, k ∉ P.keys op → P.view s' k = P.view s k := fun k hk =>
    (hcode.run (hP.lawful t _) (f := fun s => P.view s k) (fun hguar => hP.view hguar hk) hs hrun).2.2
  obtain ⟨hs', hpost, -⟩ := hcode.run (hP.lawful t _) (f := fun _ => ()) (fun _ => rfl) hs hrun
  exact ⟨hs', hlegal, hpost.2, hframe⟩

theorem phase_call_update (f : T → Phase σ Op R) (t : T) (p : Phase σ Op R) :
    (fun u => (Function.update f t p u).call) = Function.update (fun u => (f u).call) t p.call := by
  funext u
  by_cases hu : u = t
  · subst hu
    rw [Function.update_self, Function.update_self]
  · rw [Function.update_of_ne hu, Function.update_of_ne hu]

/-- A call, seen from the other threads and from the thread itself. -/
theorem Sim.call (hP : P.Sound) (h : Sim P c a) {t : T} {op : Op} (hphase : c.phase t = .idle)
    (hlegal : P.legal op (P.view c.shared))
    (hapart : ∀ u op', (c.phase u).call = some op' → Disjoint (P.keys op) (P.keys op')) :
    Sim P { c with phase := Function.update c.phase t (.running op (P.code t op)) }
      { a with pending := Function.update a.pending t (some op) } := by
  -- no operation is at work on the keys of the new one
  have hview : ∀ k ∈ P.keys op, P.view c.shared k = a.state k := fun k hk =>
    h.view k fun u op' hu hk' => Set.disjoint_left.mp (hapart u op' hu) hk hk'
  refine ⟨h.inv, fun u => ?_, fun u v op₁ op₂ huv hu hv => ?_, fun k hk => ?_, fun u hu => ?_, fun u op' p hu => ?_⟩
  · rw [show a.pending = fun u => (c.phase u).call from funext h.pending]
    exact (congrFun (phase_call_update c.phase t (.running op (P.code t op))) u).symm
  · dsimp only at hu hv
    by_cases hut : u = t
    · subst hut
      rw [Function.update_self] at hu
      rw [Function.update_of_ne huv.symm] at hv
      cases hu
      exact hapart v op₂ hv
    · rw [Function.update_of_ne hut] at hu
      by_cases hvt : v = t
      · subst hvt
        rw [Function.update_self] at hv
        cases hv
        exact (hapart u op₁ hu).symm
      · rw [Function.update_of_ne hvt] at hv
        exact h.apart u v op₁ op₂ huv hu hv
  · refine h.view k fun u op' hu => hk u op' ?_
    have hut : u ≠ t := by
      rintro rfl
      rw [hphase] at hu
      cases hu
    dsimp only
    rwa [Function.update_of_ne hut]
  · dsimp only at hu
    by_cases hut : u = t
    · subst hut
      rw [Function.update_self] at hu
      cases hu
    · rw [Function.update_of_ne hut] at hu
      exact h.idle u hu
  · dsimp only at hu
    by_cases hut : u = t
    · subst hut
      rw [Function.update_self] at hu
      cases hu
      refine ⟨hP.legal hview hlegal, (hP.code h.inv hlegal (h.idle u hphase)).mono fun r s hpost => ?_⟩
      exact ⟨hpost.1, hP.spec hview (fun _ _ => rfl) hpost.2⟩
    · rw [Function.update_of_ne hut] at hu
      exact h.running u op' p hu

/-- A statement of one thread is interference to the others. -/
theorem Sim.statement (hP : P.Sound) (h : Sim P c a) {t : T} {op : Op} {guard : σ → Bool} {update : σ → σ}
    {next : σ → Prog σ R} (hphase : c.phase t = .running op (.step guard update next))
    (hguard : guard c.shared = true) :
    Sim P ⟨update c.shared, Function.update c.phase t (.running op (next c.shared))⟩ a := by
  obtain ⟨hlegal, hok⟩ := h.running t op _ hphase
  obtain ⟨hinv, hguar, hrest⟩ := (hok c.shared ((hP.lawful t _).refl h.inv) h.inv).1 hguard
  have hcall : (c.phase t).call = some op := by rw [hphase]; rfl
  have hsame : (fun u => (Function.update c.phase t (.running op (next c.shared)) u).call) =
      fun u => (c.phase u).call := by
    rw [phase_call_update]
    funext u
    by_cases hut : u = t
    · subst hut
      rw [Function.update_self, hcall]
      rfl
    · rw [Function.update_of_ne hut]
  have hcalls := fun u => congrFun hsame u
  refine ⟨hinv, fun u => (h.pending u).trans (hcalls u).symm, fun u v op₁ op₂ huv hu hv => ?_, fun k hk => ?_,
    fun u hu => ?_, fun u op' p hu => ?_⟩
  · exact h.apart u v op₁ op₂ huv ((hcalls u).symm.trans hu) ((hcalls v).symm.trans hv)
  · have hk' : ∀ u op', (c.phase u).call = some op' → k ∉ P.keys op' := fun u op' hu =>
      hk u op' ((hcalls u).trans hu)
    calc P.view (update c.shared) k = P.view c.shared k := hP.view hguar (hk' t op hcall)
      _ = a.state k := h.view k hk'
  · dsimp only at hu
    by_cases hut : u = t
    · subst hut
      rw [Function.update_self] at hu
      cases hu
    · rw [Function.update_of_ne hut] at hu
      exact hP.idle (h.idle u hu) (hP.apart (Ne.symm hut) (Set.disjoint_empty _) hguar)
  · dsimp only at hu
    by_cases hut : u = t
    · subst hut
      rw [Function.update_self] at hu
      cases hu
      exact ⟨hlegal, hrest⟩
    · rw [Function.update_of_ne hut] at hu
      obtain ⟨hlegal', hok'⟩ := h.running u op' p hu
      have hcall' : (c.phase u).call = some op' := by rw [hu]; rfl
      have hapart := h.apart t u op op' (Ne.symm hut) hcall hcall'
      exact ⟨hlegal', hok'.rely (hP.lawful u _) h.inv (hP.apart (Ne.symm hut) hapart hguar)⟩

/-- At its end an operation is done in one step. -/
theorem Sim.finish (hP : P.Sound) (h : Sim P c a) {t : T} {op : Op} {r : R}
    (hphase : c.phase t = .running op (.ret r)) :
    ∃ state', P.Seq a.state op r state' ∧
      Sim P { c with phase := Function.update c.phase t .idle } ⟨state', (), Function.update a.pending t none⟩ := by
  classical
  obtain ⟨hlegal, hok⟩ := h.running t op _ hphase
  obtain ⟨hidle, hspec⟩ := hok c.shared ((hP.lawful t _).refl h.inv) h.inv
  have hcall : (c.phase t).call = some op := by rw [hphase]; rfl
  let state' : K → V := fun k => if k ∈ P.keys op then P.view c.shared k else a.state k
  have hon : ∀ k ∈ P.keys op, P.view c.shared k = state' k := fun k hk => (if_pos hk).symm
  have hoff : ∀ k, k ∉ P.keys op → state' k = a.state k := fun k hk => if_neg hk
  have hcalls : ∀ u, u ≠ t → (Function.update c.phase t .idle u).call = (c.phase u).call := fun u hut => by
    rw [Function.update_of_ne hut]
  have hnone : ∀ op', (Function.update c.phase t .idle t).call ≠ some op' := fun op' hop => by
    rw [Function.update_self] at hop
    cases hop
  refine ⟨state', ⟨hlegal, hP.spec (fun _ _ => rfl) hon hspec, hoff⟩, h.inv, fun u => ?_, fun u v op₁ op₂ huv hu hv => ?_,
    fun k hk => ?_, fun u hu => ?_, fun u op' p hu => ?_⟩
  · rw [show a.pending = fun u => (c.phase u).call from funext h.pending]
    exact (congrFun (phase_call_update c.phase t .idle) u).symm
  · dsimp only at hu hv
    have hut : u ≠ t := fun heq => hnone op₁ (heq ▸ hu)
    have hvt : v ≠ t := fun heq => hnone op₂ (heq ▸ hv)
    exact h.apart u v op₁ op₂ huv ((hcalls u hut).symm.trans hu) ((hcalls v hvt).symm.trans hv)
  · by_cases hkey : k ∈ P.keys op
    · exact hon k hkey
    · refine (h.view k fun u op' hu => ?_).trans (hoff k hkey).symm
      by_cases hut : u = t
      · subst hut
        rw [hcall] at hu
        cases hu
        exact hkey
      · exact hk u op' ((hcalls u hut).trans hu)
  · dsimp only at hu
    by_cases hut : u = t
    · subst hut
      exact hidle
    · rw [Function.update_of_ne hut] at hu
      exact h.idle u hu
  · dsimp only at hu
    have hut : u ≠ t := by
      rintro rfl
      rw [Function.update_self] at hu
      cases hu
    rw [Function.update_of_ne hut] at hu
    obtain ⟨hlegal', hok'⟩ := h.running u op' p hu
    have hcall' : (c.phase u).call = some op' := by rw [hu]; rfl
    have hapart := h.apart t u op op' (Ne.symm hut) hcall hcall'
    -- the values of its keys are what they were
    have hkept : ∀ k ∈ P.keys op', a.state k = state' k := fun k hk =>
      (hoff k fun hk' => Set.disjoint_left.mp hapart hk' hk).symm
    refine ⟨hP.legal hkept hlegal', hok'.mono fun r s hpost => ?_⟩
    exact ⟨hpost.1, hP.spec hkept (fun _ _ => rfl) hpost.2⟩

theorem Sim.step (hP : P.Sound) (h : Sim P c a) (hstep : Step P c label c') :
    ∃ a', Lts.Run (AtomicStep P.Seq (anyClient T Op R)) a label.event?.toList a' ∧ Sim P c' a' := by
  cases hstep with
  | call hphase hlegal hapart =>
      refine ⟨_, Lts.Run.single (.call ?_ trivial), h.call hP hphase hlegal hapart⟩
      rw [h.pending, hphase]
      rfl
  | statement hphase hguard => exact ⟨a, Lts.Run.nil a, h.statement hP hphase hguard⟩
  | finish hphase =>
      obtain ⟨state', hseq, hsim⟩ := h.finish hP hphase
      refine ⟨_, Lts.Run.single (.finish ?_ hseq), hsim⟩
      rw [h.pending, hphase]
      rfl

/-- Whatever the order of their statements, the threads refine those that do each operation in one step. -/
theorem Sim.run (hP : P.Sound) (h : Sim P c a) (hrun : Lts.Run (Step P) c labels c') :
    ∃ a', Lts.Run (AtomicStep P.Seq (anyClient T Op R)) a (labels.filterMap Label.event?) a' ∧ Sim P c' a' := by
  induction hrun with
  | nil => exact ⟨a, Lts.Run.nil a, h⟩
  | @snoc c₁ c₂ labels label _ hstep ih =>
      obtain ⟨a₁, hrun₁, h₁⟩ := ih
      obtain ⟨a₂, hrun₂, h₂⟩ := h₁.step hP hstep
      refine ⟨a₂, ?_, h₂⟩
      rw [List.filterMap_append]
      have hlabel : List.filterMap Label.event? [label] = label.event?.toList := by
        cases label <;> rfl
      rw [hlabel]
      exact hrun₁.append hrun₂

omit [DecidableEq T] in
/-- No assertion has failed. -/
theorem Sim.safe (h : Sim P c a) {t : T} {op : Op} : c.phase t ≠ .running op .fail :=
  fun hphase => (h.running t op _ hphase).2

omit [DecidableEq T] in
/-- A thread whose next statement has to wait waits for a thread that is in the middle of an operation. -/
theorem Sim.blocked (hP : P.Sound) (h : Sim P c a) {t : T} {op : Op} {guard : σ → Bool} {update : σ → σ}
    {next : σ → Prog σ R} (hphase : c.phase t = .running op (.step guard update next))
    (hguard : guard c.shared = false) :
    ∃ u op' p, u ≠ t ∧ P.holder c.shared = some u ∧ c.phase u = .running op' p := by
  obtain ⟨u, hut, hholder⟩ := hP.waits
    (((h.running t op _ hphase).2 c.shared ((hP.lawful t _).refl h.inv) h.inv).2 hguard)
  cases hu : c.phase u with
  | idle => exact absurd hholder (hP.holder (h.idle u hu))
  | running op' p => exact ⟨u, op', p, hut, hholder, hu⟩

/-- A thread that need not wait can go on. -/
theorem Sim.goesOn (h : Sim P c a) {t : T} {op : Op} {p : Prog σ R} (hphase : c.phase t = .running op p) :
    (∃ r, p = .ret r ∧ Step P c (.event (.finish t op r)) { c with phase := Function.update c.phase t .idle }) ∨
    (∃ c', Step P c (.statement t) c') ∨
    ∃ guard update next, p = .step guard update next ∧ guard c.shared = false := by
  cases p with
  | ret r => exact Or.inl ⟨r, rfl, .finish hphase⟩
  | step guard update next =>
      cases hguard : guard c.shared with
      | true => exact Or.inr (Or.inl ⟨_, .statement hphase hguard⟩)
      | false => exact Or.inr (Or.inr ⟨guard, update, next, rfl, hguard⟩)
  | fail => exact absurd hphase h.safe

/-- No deadlock: while an operation is not over, some thread can take a statement or end its operation. -/
theorem Sim.progress (hP : P.Sound) (h : Sim P c a) {t : T} {op : Op} {p : Prog σ R}
    (hphase : c.phase t = .running op p) :
    ∃ u c', Step P c (.statement u) c' ∨ ∃ op r, Step P c (.event (.finish u op r)) c' := by
  rcases h.goesOn hphase with ⟨r, rfl, hfinish⟩ | ⟨c', hstatement⟩ | ⟨guard, update, next, rfl, hguard⟩
  · exact ⟨t, _, Or.inr ⟨op, r, hfinish⟩⟩
  · exact ⟨t, c', Or.inl hstatement⟩
  · -- the thread that holds the lock does not wait for itself
    obtain ⟨u, op', q, -, hholder, hu⟩ := h.blocked hP hphase hguard
    rcases h.goesOn hu with ⟨r, rfl, hfinish⟩ | ⟨c', hstatement⟩ | ⟨guard', update', next', rfl, hguard'⟩
    · exact ⟨u, _, Or.inr ⟨op', r, hfinish⟩⟩
    · exact ⟨u, c', Or.inl hstatement⟩
    · obtain ⟨v, -, -, hvu, hholder', -⟩ := h.blocked hP hu hguard'
      rw [hholder] at hholder'
      exact absurd (Option.some.inj hholder').symm hvu

end Protocol

end Rely
