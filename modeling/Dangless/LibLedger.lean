import Mathlib.Algebra.BigOperators.Group.Finset.Piecewise
import Mathlib.Data.Set.Lattice
import Mathlib.Order.CompletePartialOrder
import Dangless.LibRely

/-! Threads that have things of their own. An invariant of the shared data says what all threads and their clients have
together. A statement is judged by what it does to the things of its own thread, whatever the others have; and nobody has
to ask what the others do. -/

namespace Ledger

open Rely

variable {σ Λ M R R' T Op G γ : Type}

/-- How the things of type `M` are accounted for: what the shared data says about all of them, what the variables of a
thread say about those of the thread, and when a thread may be made to wait. -/
structure Account (σ Λ M : Type) where
  inv : M → σ → Prop
  own : M → Λ → Prop
  waits : M → σ → Prop

section Rules

variable [AddCommMonoid M]

/-- From here on no assertion fails, every statement keeps the account, and in the end the thread has what it should,
whatever the other threads have and do. -/
def Holds (A : Account σ Λ M) (post : R → M → Λ → Prop) : Prog (σ × Λ) R → M → Λ → Prop
  | .ret r, m, l => post r m l
  | .step guard update next, m, l => ∀ F s, A.inv (m + F) s →
      (guard (s, l) = true → ∃ m', A.inv (m' + F) (update (s, l)).1 ∧ A.own m' (update (s, l)).2 ∧
        Holds A post (next (s, l)) m' (update (s, l)).2) ∧
      (guard (s, l) = false → A.waits m s)
  | .fail, _, _ => False

variable {A : Account σ Λ M} {post post' : R → M → Λ → Prop} {mid : R' → M → Λ → Prop} {p : Prog (σ × Λ) R} {m : M}
  {l : Λ}

theorem Holds.mono (h : Holds A post p m l) (hpost : ∀ r m l, post r m l → post' r m l) : Holds A post' p m l := by
  induction p generalizing m l with
  | ret r => exact hpost r m l h
  | step guard update next ih =>
      intro F s hinv
      obtain ⟨hrun, hwait⟩ := h F s hinv
      refine ⟨fun hguard => ?_, hwait⟩
      obtain ⟨m', hinv', hown, hnext⟩ := hrun hguard
      exact ⟨m', hinv', hown, ih _ hnext⟩
  | fail => exact h

theorem Holds.bind {q : Prog (σ × Λ) R'} {k : R' → Prog (σ × Λ) R} (h : Holds A mid q m l)
    (hk : ∀ r m l, mid r m l → Holds A post (k r) m l) : Holds A post (q >>= k) m l := by
  induction q generalizing m l with
  | ret r => exact hk r m l h
  | step guard update next ih =>
      intro F s hinv
      obtain ⟨hrun, hwait⟩ := h F s hinv
      refine ⟨fun hguard => ?_, hwait⟩
      obtain ⟨m', hinv', hown, hnext⟩ := hrun hguard
      exact ⟨m', hinv', hown, ih _ hnext⟩
  | fail => exact h

theorem holds_pure {r : R} (h : post r m l) : Holds A post (pure r) m l := h

/-- A statement that does not wait. -/
theorem holds_fetch {f : σ × Λ → R'} {update : σ × Λ → σ × Λ} {k : R' → Prog (σ × Λ) R}
    (h : ∀ F s, A.inv (m + F) s → ∃ m', A.inv (m' + F) (update (s, l)).1 ∧ A.own m' (update (s, l)).2 ∧
      Holds A post (k (f (s, l))) m' (update (s, l)).2) : Holds A post (Prog.fetch f update >>= k) m l :=
  fun F s hinv => ⟨fun _ => h F s hinv, fun hguard => by cases hguard⟩

theorem holds_check {condition : Bool} {k : Unit → Prog (σ × Λ) R} (hcondition : condition = true)
    (h : Holds A post (k ()) m l) : Holds A post (Prog.check condition >>= k) m l := by
  subst hcondition
  exact h

/-- A thread that is left alone, and that nothing makes wait, comes to the end of its code. -/
theorem Holds.run {F : M} {s : σ} (h : Holds A post p m l) (hinv : A.inv (m + F) s)
    (hgo : ∀ m s, A.inv (m + F) s → ¬ A.waits m s) :
    ∃ r s' m' l', p.run (s, l) = some (r, (s', l')) ∧ A.inv (m' + F) s' ∧ post r m' l' := by
  induction p generalizing m l s with
  | ret r => exact ⟨r, s, m, l, rfl, hinv, h⟩
  | step guard update next ih =>
      obtain ⟨hrun, hwait⟩ := h F s hinv
      cases hguard : guard (s, l) with
      | true =>
          obtain ⟨m', hinv', -, hnext⟩ := hrun hguard
          obtain ⟨r, s', m'', l', hend, hresult⟩ := ih (s, l) hnext hinv'
          exact ⟨r, s', m'', l', (if_pos hguard).trans hend, hresult⟩
      | false => exact absurd (hwait hguard) (hgo m s hinv)
  | fail => exact absurd h id

end Rules

section Total

variable [AddCommMonoid M] [DecidableEq T]

/-- Only finitely many threads have anything, and together they have `m`. -/
def Total (ρ : T → M) (m : M) : Prop := ∃ S : Finset T, (∀ t, t ∉ S → ρ t = 0) ∧ ∑ t ∈ S, ρ t = m

omit [DecidableEq T] in
theorem total_zero : Total (fun _ : T => (0 : M)) 0 := ⟨∅, fun _ _ => rfl, Finset.sum_empty⟩

/-- What the other threads have stays, whatever becomes of the things of one. -/
theorem Total.split {ρ : T → M} {m : M} (h : Total ρ m) (t : T) :
    ∃ F, m = ρ t + F ∧ ∀ m', Total (Function.update ρ t m') (m' + F) := by
  obtain ⟨S, hout, hsum⟩ := h
  have hinsert : ∑ u ∈ insert t S, ρ u = m := by
    by_cases ht : t ∈ S
    · rw [Finset.insert_eq_of_mem ht, hsum]
    · rw [Finset.sum_insert ht, hout t ht, zero_add, hsum]
  refine ⟨∑ u ∈ insert t S \ {t}, ρ u, ?_, fun m' => ⟨insert t S, fun u hu => ?_, ?_⟩⟩
  · rw [← hinsert, Finset.sdiff_singleton_eq_erase, Finset.add_sum_erase _ _ (Finset.mem_insert_self t S)]
  · rw [Finset.mem_insert, not_or] at hu
    rw [Function.update_of_ne hu.1]
    exact hout u hu.2
  · exact Finset.sum_update_of_mem (Finset.mem_insert_self t S) ρ m'

omit [DecidableEq T] in
/-- What is there is with some thread. -/
theorem Total.mem {α : Type} {ρ : T → Multiset α} {m : Multiset α} (h : Total ρ m) {x : α} (hx : x ∈ m) :
    ∃ t, x ∈ ρ t := by
  obtain ⟨S, -, rfl⟩ := h
  obtain ⟨t, -, ht⟩ := Multiset.mem_sum.mp hx
  exact ⟨t, ht⟩

/-- What two different threads have. -/
theorem Total.pair {ρ : T → M} {m : M} (h : Total ρ m) {t u : T} (htu : t ≠ u) : ∃ F, m = ρ t + (ρ u + F) := by
  obtain ⟨F, hm, hupdate⟩ := h.split t
  obtain ⟨F', hF, -⟩ := (hupdate 0).split u
  rw [zero_add, Function.update_of_ne htu.symm] at hF
  exact ⟨F', by rw [hm, hF]⟩

end Total

/-- The operations of threads on shared data, and their client: the code of an operation; what is noted of the data when
it is called; what the client may call, and what it knows after a call and an answer; what it has. -/
structure Service (σ Λ M Op R G γ : Type) where
  account : Account σ Λ M
  code : Op → Prog (σ × Λ) R
  note : Op → σ → G
  idle : Λ → Prop
  may : γ → Op → Prop
  called : γ → Op → γ
  returned : γ → Op → G → R → σ → γ
  client : γ → M → Prop

/-- Where a thread is: between operations, or before the rest of the code of one. -/
inductive Phase (σ Λ Op R G : Type) where
  | idle
  | running (op : Op) (g : G) (p : Prog (σ × Λ) R)

/-- The data, the variables of each thread, the client, and where each thread is. -/
structure Conf (T σ Λ Op R G γ : Type) where
  shared : σ
  vars : T → Λ
  client : γ
  phase : T → Phase σ Λ Op R G

inductive Label (T Op R : Type) where
  | call (t : T) (op : Op)
  | statement (t : T)
  | finish (t : T) (op : Op) (r : R)

/-- Calls and answers are seen from outside. -/
def Label.seen : Label T Op R → Bool
  | .statement _ => false
  | _ => true

theorem filter_seen_statements (n : Nat) (t : T) :
    (List.replicate n (.statement t : Label T Op R)).filter Label.seen = [] :=
  List.filter_eq_nil_iff.mpr fun _ hmem => by rw [List.eq_of_mem_replicate hmem]; exact Bool.false_ne_true

namespace Service

/-- Threads that take their statements in any order. -/
inductive Step [DecidableEq T] (P : Service σ Λ M Op R G γ) :
    Conf T σ Λ Op R G γ → Label T Op R → Conf T σ Λ Op R G γ → Prop
  | call {c : Conf T σ Λ Op R G γ} {t : T} {op : Op} (hphase : c.phase t = .idle) (hmay : P.may c.client op) :
      Step P c (.call t op) { c with
        client := P.called c.client op
        phase := Function.update c.phase t (.running op (P.note op c.shared) (P.code op)) }
  | statement {c : Conf T σ Λ Op R G γ} {t : T} {op : Op} {g : G} {guard : σ × Λ → Bool} {update : σ × Λ → σ × Λ}
      {next : σ × Λ → Prog (σ × Λ) R} (hphase : c.phase t = .running op g (.step guard update next))
      (hguard : guard (c.shared, c.vars t) = true) : Step P c (.statement t) { c with
        shared := (update (c.shared, c.vars t)).1
        vars := Function.update c.vars t (update (c.shared, c.vars t)).2
        phase := Function.update c.phase t (.running op g (next (c.shared, c.vars t))) }
  | finish {c : Conf T σ Λ Op R G γ} {t : T} {op : Op} {g : G} {r : R} (hphase : c.phase t = .running op g (.ret r)) :
      Step P c (.finish t op r) { c with
        client := P.returned c.client op g r c.shared
        phase := Function.update c.phase t .idle }

variable [AddCommMonoid M]

/-- What an operation leaves: the client can be given the answer, and what the thread has. -/
def Post (P : Service σ Λ M Op R G γ) (op : Op) (g : G) (r : R) (m : M) (l : Λ) : Prop :=
  P.idle l ∧ ∀ c mc F s, P.client c mc → P.account.inv (m + mc + F) s →
    ∃ mc', P.account.inv (mc' + F) s ∧ P.client (P.returned c op g r s) mc'

/-- What makes a service work: a client that may call an operation has what its code needs. -/
def Sound (P : Service σ Λ M Op R G γ) : Prop :=
  ∀ {c mc F s l op}, P.client c mc → P.may c op → P.account.inv (mc + F) s → P.idle l →
    ∃ m mc', mc = m + mc' ∧ P.client (P.called c op) mc' ∧ P.account.own m l ∧
      Holds P.account (P.Post op (P.note op s)) (P.code op) m l

/-- Where a thread is, seen from what it has. -/
def InPhase (P : Service σ Λ M Op R G γ) (m : M) (l : Λ) : Phase σ Λ Op R G → Prop
  | .idle => m = 0 ∧ P.idle l
  | .running op g p => P.account.own m l ∧ Holds P.account (P.Post op g) p m l

/-- The account of a state: what each thread has, and what the client has. -/
structure Sim (P : Service σ Λ M Op R G γ) (c : Conf T σ Λ Op R G γ) (ρ : T → M) (m mc : M) : Prop where
  total : Total ρ m
  client : P.client c.client mc
  inv : P.account.inv (mc + m) c.shared
  phase : ∀ t, P.InPhase (ρ t) (c.vars t) (c.phase t)

variable [DecidableEq T] {P : Service σ Λ M Op R G γ} {c c' : Conf T σ Λ Op R G γ} {label : Label T Op R}
  {labels : List (Label T Op R)} {ρ : T → M} {m mc : M}

omit [DecidableEq T] in
theorem sim_start {s : σ} {l : Λ} {client : γ} (hclient : P.client client mc) (hinv : P.account.inv mc s)
    (hidle : P.idle l) : Sim P ⟨s, fun _ : T => l, client, fun _ => .idle⟩ (fun _ => 0) 0 mc := by
  refine ⟨total_zero, hclient, ?_, fun t => ⟨rfl, hidle⟩⟩
  rw [add_zero]
  exact hinv

/-- The other threads stay where they are. -/
theorem inPhase_update {vars vars' : T → Λ} {phase : T → Phase σ Λ Op R G} (h : ∀ t, P.InPhase (ρ t) (vars t) (phase t))
    {t : T} {m' : M} {p : Phase σ Λ Op R G} (hvars : ∀ u, u ≠ t → vars' u = vars u) (ht : P.InPhase m' (vars' t) p)
    (u : T) : P.InPhase (Function.update ρ t m' u) (vars' u) (Function.update phase t p u) := by
  by_cases hu : u = t
  · subst hu
    rw [Function.update_self, Function.update_self]
    exact ht
  · rw [Function.update_of_ne hu, Function.update_of_ne hu, hvars u hu]
    exact h u

theorem Sim.step (hP : P.Sound) (h : Sim P c ρ m mc) (hstep : Step P c label c') :
    ∃ ρ' m' mc', Sim P c' ρ' m' mc' := by
  cases hstep with
  | @call t op hphase hmay =>
      have ht := h.phase t
      rw [hphase] at ht
      obtain ⟨hzero, hidle⟩ := ht
      obtain ⟨F, hm, hupdate⟩ := h.total.split t
      rw [hzero, zero_add] at hm
      obtain ⟨m', mc', hmc, hclient, hown, hholds⟩ := hP h.client hmay h.inv hidle
      refine ⟨_, _, mc', hupdate m', hclient, ?_, inPhase_update h.phase (fun _ _ => rfl) ⟨hown, hholds⟩⟩
      have hinv := h.inv
      rwa [hmc, hm, add_comm m', add_assoc] at hinv
  | @statement t op g guard update next hphase hguard =>
      have ht := h.phase t
      rw [hphase] at ht
      obtain ⟨-, hholds⟩ := ht
      obtain ⟨F, hm, hupdate⟩ := h.total.split t
      have hinv := h.inv
      rw [hm, add_left_comm] at hinv
      obtain ⟨m', hinv', hown, hnext⟩ := (hholds (mc + F) c.shared hinv).1 hguard
      refine ⟨_, _, mc, hupdate m', h.client, ?_, inPhase_update h.phase ?_ ?_⟩
      · rw [add_left_comm]
        exact hinv'
      · exact fun u hu => Function.update_of_ne hu _ _
      · dsimp only
        rw [Function.update_self]
        exact ⟨hown, hnext⟩
  | @finish t op g r hphase =>
      have ht := h.phase t
      rw [hphase] at ht
      obtain ⟨-, hidle, hpost⟩ := ht
      obtain ⟨F, hm, hupdate⟩ := h.total.split t
      have hinv := h.inv
      rw [hm, ← add_assoc, add_comm mc] at hinv
      obtain ⟨mc', hinv', hclient⟩ := hpost c.client mc F c.shared h.client hinv
      refine ⟨_, _, mc', hupdate 0, hclient, ?_, inPhase_update h.phase (fun _ _ => rfl) ⟨rfl, hidle⟩⟩
      rw [zero_add]
      exact hinv'

/-- The account balances in every state that is reached. -/
theorem Sim.run (hP : P.Sound) (h : Sim P c ρ m mc) (hrun : Lts.Run (Step P) c labels c') :
    ∃ ρ' m' mc', Sim P c' ρ' m' mc' := by
  induction hrun with
  | nil => exact ⟨ρ, m, mc, h⟩
  | snoc _ hstep ih =>
      obtain ⟨ρ', m', mc', h'⟩ := ih
      exact h'.step hP hstep

omit [DecidableEq T] in
/-- No assertion has failed. -/
theorem Sim.safe (h : Sim P c ρ m mc) {t : T} {op : Op} {g : G} : c.phase t ≠ .running op g .fail := by
  intro hphase
  have ht := h.phase t
  rw [hphase] at ht
  exact ht.2

/-- A thread in the middle of an operation goes on, unless it has to wait. -/
theorem Sim.goesOn (h : Sim P c ρ m mc) {t : T} {op : Op} {g : G} {p : Prog (σ × Λ) R}
    (hphase : c.phase t = .running op g p) :
    (∃ c', Step P c (.statement t) c') ∨ (∃ op r c', Step P c (.finish t op r) c') ∨
      P.account.waits (ρ t) c.shared := by
  cases p with
  | ret r => exact Or.inr (Or.inl ⟨op, r, _, .finish hphase⟩)
  | step guard update next =>
      cases hguard : guard (c.shared, c.vars t) with
      | true => exact Or.inl ⟨_, .statement hphase hguard⟩
      | false =>
          have ht := h.phase t
          rw [hphase] at ht
          obtain ⟨F, hm, -⟩ := h.total.split t
          have hinv := h.inv
          rw [hm, add_left_comm] at hinv
          exact Or.inr (Or.inr ((ht.2 (mc + F) c.shared hinv).2 hguard))
  | fail => exact absurd hphase h.safe

omit [DecidableEq T] in
/-- What a thread has speaks for its variables. -/
theorem Sim.own (h : Sim P c ρ m mc) (hidle : ∀ l, P.idle l → P.account.own 0 l) (t : T) :
    P.account.own (ρ t) (c.vars t) := by
  have ht := h.phase t
  cases hphase : c.phase t with
  | idle =>
      rw [hphase] at ht
      rw [ht.1]
      exact hidle _ ht.2
  | running op g p =>
      rw [hphase] at ht
      exact ht.1

/-- If some thread that has something need not wait whenever one waits, then some thread can always go on. -/
theorem Sim.progress (h : Sim P c ρ m mc)
    (hwaits : ∀ t, P.account.waits (ρ t) c.shared → ∃ u, ρ u ≠ 0 ∧ ¬ P.account.waits (ρ u) c.shared) {t : T} {op : Op}
    {g : G} {p : Prog (σ × Λ) R} (hphase : c.phase t = .running op g p) :
    ∃ u c', Step P c (.statement u) c' ∨ ∃ op r, Step P c (.finish u op r) c' := by
  have hgo : ∀ {u op g p}, c.phase u = .running op g p → ¬ P.account.waits (ρ u) c.shared →
      ∃ u c', Step P c (.statement u) c' ∨ ∃ op r, Step P c (.finish u op r) c' := by
    intro u op g p hu hnot
    rcases h.goesOn hu with ⟨c', hc'⟩ | ⟨op, r, c', hc'⟩ | hwait
    · exact ⟨u, c', Or.inl hc'⟩
    · exact ⟨u, c', Or.inr ⟨op, r, hc'⟩⟩
    · exact absurd hwait hnot
  by_cases hwait : P.account.waits (ρ t) c.shared
  · obtain ⟨u, hne, hnot⟩ := hwaits t hwait
    cases hu : c.phase u with
    | idle =>
        have hidle := h.phase u
        rw [hu] at hidle
        exact absurd hidle.1 hne
    | running op g p => exact hgo hu hnot
  · exact hgo hphase hwait

/-- The code after some statements, with no other thread around. -/
def after : Nat → Prog (σ × Λ) R → σ × Λ → Option (Prog (σ × Λ) R × (σ × Λ))
  | 0, p, s => some (p, s)
  | n + 1, .step guard update next, s => if guard s then after n (next s) (update s) else none
  | _ + 1, _, _ => none

omit [AddCommMonoid M] [DecidableEq T] in
theorem after_of_run {p : Prog (σ × Λ) R} {s s' : σ × Λ} {r : R} (h : p.run s = some (r, s')) :
    ∃ n, after n p s = some (.ret r, s') := by
  induction p generalizing s with
  | ret r' =>
      obtain ⟨rfl, rfl⟩ := Prod.mk.inj (Option.some.inj h)
      exact ⟨0, rfl⟩
  | step guard update next ih =>
      rw [Prog.run] at h
      split_ifs at h with hguard
      obtain ⟨n, hn⟩ := ih s h
      exact ⟨n + 1, (if_pos hguard).trans hn⟩
  | fail => cases h

omit [AddCommMonoid M] in
/-- A thread takes statements while the others take none. -/
theorem run_after {n : Nat} {t : T} {op : Op} {g : G} {p p' : Prog (σ × Λ) R} {s' : σ} {l' : Λ}
    (hphase : c.phase t = .running op g p) (h : after n p (c.shared, c.vars t) = some (p', (s', l'))) :
    Lts.Run (Step P) c (List.replicate n (.statement t)) { c with
      shared := s'
      vars := Function.update c.vars t l'
      phase := Function.update c.phase t (.running op g p') } := by
  induction n generalizing c p with
  | zero =>
      obtain ⟨rfl, hs⟩ := Prod.mk.inj (Option.some.inj h)
      obtain ⟨rfl, rfl⟩ := Prod.mk.inj hs
      rw [Function.update_eq_self, ← hphase, Function.update_eq_self]
      exact .nil c
  | succ n ih =>
      cases p with
      | ret r => cases h
      | fail => cases h
      | step guard update next =>
          rw [after] at h
          split_ifs at h with hguard
          have hstep : Step P c (.statement t) _ := .statement hphase hguard
          have hrest := ih (c := { c with
            shared := (update (c.shared, c.vars t)).1
            vars := Function.update c.vars t (update (c.shared, c.vars t)).2
            phase := Function.update c.phase t (.running op g (next (c.shared, c.vars t))) })
            (Function.update_self _ _ _) (by dsimp only; rw [Function.update_self]; exact h)
          rw [Function.update_idem, Function.update_idem] at hrest
          exact (Lts.Run.single hstep).append hrest

omit [AddCommMonoid M] in
/-- A thread calls an operation and takes some of its statements. -/
theorem run_call {n : Nat} {t : T} {op : Op} {p : Prog (σ × Λ) R} {s' : σ} {l' : Λ} (hphase : c.phase t = .idle)
    (hmay : P.may c.client op) (h : after n (P.code op) (c.shared, c.vars t) = some (p, (s', l'))) :
    Lts.Run (Step P) c (.call t op :: List.replicate n (.statement t)) ⟨s', Function.update c.vars t l',
      P.called c.client op, Function.update c.phase t (.running op (P.note op c.shared) p)⟩ := by
  have hcall : Step P c (.call t op) { c with
    client := P.called c.client op
    phase := Function.update c.phase t (.running op (P.note op c.shared) (P.code op)) } := .call hphase hmay
  have hrest := (Lts.Run.single hcall).append (run_after (Function.update_self _ _ _) h)
  rwa [Function.update_idem] at hrest

end Service

end Ledger
