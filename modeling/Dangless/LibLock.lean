import Mathlib.Data.List.Basic
import Mathlib.Logic.Function.Basic
import Mathlib.Tactic.Common
import Dangless.LibRun

/-! Threads that work on shared data in critical sections under one lock, against threads that do each operation in one
step. Whatever the order in which the threads take their steps, they cannot be told apart by calls and answers. -/

universe u

namespace Locked

variable {T σ L Op R γ α : Type*}

/-- Where a thread is: outside, in a call that waits for the lock, or in the critical section of its call. -/
inductive Phase (Op : Type*) (L : Type*) where
  | idle
  | waiting (op : Op)
  | inside (op : Op) (pc : L)

/-- The call that a thread is in. -/
def Phase.call : Phase Op L → Option Op
  | .idle => none
  | .waiting op => some op
  | .inside op _ => some op

/-- The code of the critical sections: the first statement, what one statement may do, the answer once there is no
statement left, and the statements that must not be reached. -/
structure Body (σ : Type*) (L : Type*) (Op : Type*) (R : Type*) where
  start : Op → L
  micro : L → σ → L → σ → Prop
  answer : L → Option R
  fault : L → σ → Prop

/-- What the threads do between calls: which calls they may make, and what they know after a call and an answer. -/
structure Client (T : Type*) (Op : Type*) (R : Type*) (γ : Type*) where
  mayCall : γ → T → Op → Prop
  called : γ → T → Op → γ
  returned : γ → T → Op → R → γ

/-- What is seen of a run from outside. -/
inductive Event (T : Type*) (Op : Type*) (R : Type*) where
  | call (t : T) (op : Op)
  | finish (t : T) (op : Op) (r : R)

/-- A step of a run: an event, the lock being taken, or a statement in a critical section. -/
inductive Label (T : Type*) (Op : Type*) (R : Type*) where
  | event (e : Event T Op R)
  | lock (t : T)
  | body (t : T)

def Label.event? : Label T Op R → Option (Event T Op R)
  | .event e => some e
  | .lock _ => none
  | .body _ => none

structure Conf (T : Type*) (σ : Type*) (L : Type*) (Op : Type*) (γ : Type*) where
  shared : σ
  owner : Option T
  client : γ
  phase : T → Phase Op L

/-- Threads with the lock. An answer is given together with the release of the lock. -/
inductive Step [DecidableEq T] (B : Body σ L Op R) (C : Client T Op R γ) :
    Conf T σ L Op γ → Label T Op R → Conf T σ L Op γ → Prop
  | call {c : Conf T σ L Op γ} {t : T} {op : Op} (hphase : c.phase t = .idle) (hmay : C.mayCall c.client t op) :
      Step B C c (.event (.call t op))
        { c with client := C.called c.client t op, phase := Function.update c.phase t (.waiting op) }
  | lock {c : Conf T σ L Op γ} {t : T} {op : Op} (hphase : c.phase t = .waiting op) (hfree : c.owner = none) :
      Step B C c (.lock t)
        { c with owner := some t, phase := Function.update c.phase t (.inside op (B.start op)) }
  | body {c : Conf T σ L Op γ} {t : T} {op : Op} {pc pc' : L} {shared' : σ} (hphase : c.phase t = .inside op pc)
      (hmicro : B.micro pc c.shared pc' shared') : Step B C c (.body t)
        { c with shared := shared', phase := Function.update c.phase t (.inside op pc') }
  | unlock {c : Conf T σ L Op γ} {t : T} {op : Op} {pc : L} {r : R} (hphase : c.phase t = .inside op pc)
      (hanswer : B.answer pc = some r) : Step B C c (.event (.finish t op r))
        { c with owner := none, client := C.returned c.client t op r, phase := Function.update c.phase t .idle }

/-- Threads that do their operations in one step each, at some time between the call and the answer. -/
structure Atomic (T : Type*) (α : Type*) (Op : Type*) (γ : Type*) where
  state : α
  client : γ
  pending : T → Option Op

inductive AtomicStep [DecidableEq T] (Seq : α → Op → R → α → Prop) (C : Client T Op R γ) :
    Atomic T α Op γ → Event T Op R → Atomic T α Op γ → Prop
  | call {a : Atomic T α Op γ} {t : T} {op : Op} (hpending : a.pending t = none) (hmay : C.mayCall a.client t op) :
      AtomicStep Seq C a (.call t op)
        { a with client := C.called a.client t op, pending := Function.update a.pending t (some op) }
  | finish {a : Atomic T α Op γ} {t : T} {op : Op} {r : R} {state' : α} (hpending : a.pending t = some op)
      (hseq : Seq a.state op r state') : AtomicStep Seq C a (.finish t op r)
        ⟨state', C.returned a.client t op r, Function.update a.pending t none⟩

/-- A critical section that has the data to itself does the operation: `Inside` is the invariant of its statements, with
a bound on how many are left. -/
structure Implements (B : Body σ L Op R) (Seq : α → Op → R → α → Prop) (Abs : σ → α → Prop)
    (Legal : α → Op → Prop) (Inside : α → Op → Nat → L → σ → Prop) : Prop where
  start : ∀ {s a op}, Abs s a → Legal a op → ∃ n, Inside a op n (B.start op) s
  step : ∀ {a op n pc s pc' s'}, Inside a op n pc s → B.micro pc s pc' s' → ∃ m < n, Inside a op m pc' s'
  finish : ∀ {a op n pc s r}, Inside a op n pc s → B.answer pc = some r → ∃ a', Abs s a' ∧ Seq a op r a'
  safe : ∀ {a op n pc s}, Inside a op n pc s → ¬ B.fault pc s
  progress : ∀ {a op n pc s}, Inside a op n pc s → B.answer pc = none → ∃ pc' s', B.micro pc s pc' s'

/-- The statements of a critical section, which has the data to itself. -/
def Body.Alone (B : Body σ L Op R) (x : L × σ) (_ : Unit) (y : L × σ) : Prop := B.micro x.1 x.2 y.1 y.2

/-- A critical section by itself: its statements are bounded in number, none of them must not be reached, another one can
be taken as long as there is no answer, and with the answer the operation is done. -/
theorem Implements.alone {B : Body σ L Op R} {Seq : α → Op → R → α → Prop} {Abs : σ → α → Prop} {Legal : α → Op → Prop}
    {Inside : α → Op → Nat → L → σ → Prop} (hB : Implements B Seq Abs Legal Inside) {a : α} {op : Op} {s : σ}
    (habs : Abs s a) (hlegal : Legal a op) : ∃ n, ∀ statements x, Lts.Run B.Alone (B.start op, s) statements x →
      statements.length ≤ n ∧ ¬ B.fault x.1 x.2 ∧ (B.answer x.1 = none → ∃ y, B.Alone x () y) ∧
        ∀ r, B.answer x.1 = some r → ∃ a', Abs x.2 a' ∧ Seq a op r a' := by
  obtain ⟨n, hstart⟩ := hB.start habs hlegal
  have hinside : ∀ statements x, Lts.Run B.Alone (B.start op, s) statements x →
      ∃ m, m + statements.length ≤ n ∧ Inside a op m x.1 x.2 := by
    intro statements x hrun
    induction hrun with
    | nil => exact ⟨n, Nat.le_refl n, hstart⟩
    | snoc _ hstep ih =>
        obtain ⟨m, hm, hpc⟩ := ih
        obtain ⟨m', hlt, hpc'⟩ := hB.step hpc hstep
        refine ⟨m', ?_, hpc'⟩
        rw [List.length_append, List.length_singleton]
        omega
  refine ⟨n, fun statements x hrun => ?_⟩
  obtain ⟨m, hm, hpc⟩ := hinside statements x hrun
  refine ⟨by omega, hB.safe hpc, fun hanswer => ?_, fun r hanswer => hB.finish hpc hanswer⟩
  obtain ⟨pc', s', hmicro⟩ := hB.progress hpc hanswer
  exact ⟨(pc', s'), hmicro⟩

/-- No thread but `t` is in a critical section. -/
def OnlyInside (c : Conf T σ L Op γ) (t : Option T) : Prop :=
  ∀ u op pc, c.phase u = .inside op pc → t = some u

/-- A state of the threads with the lock, and the one in which each operation is done in one step. While a thread holds
the lock, the data is as the thread found it, but for what its own statements have done. -/
structure Sim (Abs : σ → α → Prop) (Inside : α → Op → Nat → L → σ → Prop) (c : Conf T σ L Op γ)
    (a : Atomic T α Op γ) : Prop where
  client : a.client = c.client
  pending : ∀ t, a.pending t = (c.phase t).call
  only : OnlyInside c c.owner
  free : c.owner = none → Abs c.shared a.state
  held : ∀ t, c.owner = some t → ∃ op pc n, c.phase t = .inside op pc ∧ Inside a.state op n pc c.shared

section Simulation

variable {B : Body σ L Op R} {C : Client T Op R γ} {Seq : α → Op → R → α → Prop} {Abs : σ → α → Prop}
  {Legal : α → Op → Prop} {Inside : α → Op → Nat → L → σ → Prop} {I : Atomic T α Op γ → Prop}
  {c c' : Conf T σ L Op γ} {a a' : Atomic T α Op γ} {label : Label T Op R} {labels : List (Label T Op R)}

/-- The thread in a critical section holds the lock, and its statement is in order. -/
theorem Sim.inside (h : Sim Abs Inside c a) {t : T} {op : Op} {pc : L} (hphase : c.phase t = .inside op pc) :
    c.owner = some t ∧ ∃ n, Inside a.state op n pc c.shared := by
  have howner := h.only t op pc hphase
  obtain ⟨op', pc', n, hphase', hinside⟩ := h.held t howner
  rw [hphase] at hphase'
  cases hphase'
  exact ⟨howner, n, hinside⟩

theorem Sim.pending_of_phase (h : Sim Abs Inside c a) {t : T} {p : Phase Op L} (hphase : c.phase t = p) :
    a.pending t = p.call := by
  rw [h.pending t, hphase]

variable [DecidableEq T]

theorem call_update (f : T → Phase Op L) (t : T) (p : Phase Op L) (u : T) :
    (Function.update f t p u).call = Function.update (fun u => (f u).call) t p.call u := by
  by_cases hu : u = t
  · subst hu
    rw [Function.update_self, Function.update_self]
  · rw [Function.update_of_ne hu, Function.update_of_ne hu]

/-- A thread that moves between phases outside the critical section leaves those inside alone. -/
theorem OnlyInside.update (h : OnlyInside c c.owner) {t : T} {p : Phase Op L} {owner : Option T}
    (hp : ∀ op pc, p = .inside op pc → owner = some t) (hothers : ∀ u, u ≠ t → c.owner = some u → owner = some u)
    {shared : σ} {client : γ} : OnlyInside ⟨shared, owner, client, Function.update c.phase t p⟩ owner := by
  intro u op pc hphase
  dsimp only at hphase
  by_cases hu : u = t
  · subst hu
    rw [Function.update_self] at hphase
    exact hp op pc hphase
  · rw [Function.update_of_ne hu] at hphase
    exact hothers u hu (h u op pc hphase)

/-- One step of the threads with the lock is no step of the others, or the step that is seen. -/
theorem Sim.step (hB : Implements B Seq Abs Legal Inside)
    (hlegal : ∀ {a : Atomic T α Op γ} {t op}, I a → a.pending t = some op → Legal a.state op)
    (h : Sim Abs Inside c a) (hI : I a) (hstep : Step B C c label c') :
    ∃ a', Lts.Run (AtomicStep Seq C) a label.event?.toList a' ∧ Sim Abs Inside c' a' := by
  cases hstep with
  | @call t op hphase hmay =>
      have hpending := h.pending_of_phase hphase
      refine ⟨{ a with client := C.called a.client t op, pending := Function.update a.pending t (some op) },
        Lts.Run.single (.call hpending (by rw [h.client]; exact hmay)), ?_, fun u => ?_, ?_, h.free, fun u hu => ?_⟩
      · rw [h.client]
      · rw [call_update]
        exact congrFun (congrArg (fun f => Function.update f t (some op)) (funext h.pending)) u
      · exact h.only.update (fun _ _ heq => by cases heq) fun u _ hu => hu
      · obtain ⟨op', pc, n, hphase', hinside⟩ := h.held u hu
        have hne : u ≠ t := fun heq => by
          subst heq
          rw [hphase] at hphase'
          cases hphase'
        exact ⟨op', pc, n, (Function.update_of_ne hne _ _).trans hphase', hinside⟩
  | @lock t op hphase hfree =>
      have hpending := h.pending_of_phase hphase
      obtain ⟨n, hinside⟩ := hB.start (h.free hfree) (hlegal hI hpending)
      refine ⟨a, Lts.Run.nil a, h.client, fun u => ?_, ?_, fun hnone => (by cases hnone), fun u hu => ?_⟩
      · rw [call_update, h.pending u]
        by_cases hu : u = t
        · subst hu
          rw [Function.update_self, hphase]
          rfl
        · rw [Function.update_of_ne hu]
      · refine h.only.update (fun _ _ _ => rfl) fun u _ hu => ?_
        rw [hfree] at hu
        cases hu
      · cases hu
        exact ⟨op, B.start op, n, Function.update_self _ _ _, hinside⟩
  | @body t op pc pc' shared' hphase hmicro =>
      obtain ⟨howner, n, hinside⟩ := h.inside hphase
      obtain ⟨m, -, hnext⟩ := hB.step hinside hmicro
      refine ⟨a, Lts.Run.nil a, h.client, fun u => ?_, ?_, fun hnone => ?_, fun u hu => ?_⟩
      · rw [call_update, h.pending u]
        by_cases hu : u = t
        · subst hu
          rw [Function.update_self, hphase]
          rfl
        · rw [Function.update_of_ne hu]
      · exact h.only.update (fun _ _ _ => howner) fun u _ hu => hu
      · rw [howner] at hnone
        cases hnone
      · rw [howner] at hu
        cases hu
        exact ⟨op, pc', m, Function.update_self _ _ _, hnext⟩
  | @unlock t op pc r hphase hanswer =>
      obtain ⟨howner, n, hinside⟩ := h.inside hphase
      obtain ⟨state', habs, hseq⟩ := hB.finish hinside hanswer
      refine ⟨⟨state', C.returned a.client t op r, Function.update a.pending t none⟩,
        Lts.Run.single (.finish (h.pending_of_phase hphase) hseq), ?_, fun u => ?_, ?_, fun _ => habs,
        fun u hu => by cases hu⟩
      · rw [h.client]
      · rw [call_update]
        exact congrFun (congrArg (fun f => Function.update f t none) (funext h.pending)) u
      · refine h.only.update (fun _ _ heq => by cases heq) fun u hne hu => ?_
        rw [howner] at hu
        cases hu
        exact absurd rfl hne

/-- The threads with the lock refine those that do each operation in one step. -/
theorem Sim.run (hB : Implements B Seq Abs Legal Inside)
    (hlegal : ∀ {a : Atomic T α Op γ} {t op}, I a → a.pending t = some op → Legal a.state op)
    (hI : ∀ a e a', I a → AtomicStep Seq C a e a' → I a') (h : Sim Abs Inside c a) (ha : I a)
    (hrun : Lts.Run (Step B C) c labels c') :
    ∃ a', Lts.Run (AtomicStep Seq C) a (labels.filterMap Label.event?) a' ∧ I a' ∧ Sim Abs Inside c' a' := by
  induction hrun with
  | nil => exact ⟨a, Lts.Run.nil a, ha, h⟩
  | @snoc c₁ c₂ labels label _ hstep ih =>
      obtain ⟨a₁, hrun₁, ha₁, h₁⟩ := ih
      obtain ⟨a₂, hrun₂, h₂⟩ := h₁.step hB hlegal ha₁ hstep
      refine ⟨a₂, ?_, hrun₂.invariant hI ha₁, h₂⟩
      rw [List.filterMap_append]
      have hlabel : List.filterMap Label.event? [label] = label.event?.toList := by
        cases label <;> rfl
      rw [hlabel]
      exact hrun₁.append hrun₂

/-- The statements of a thread's critical section. -/
def bodies (t : T) (labels : List (Label T Op R)) : Nat :=
  labels.countP fun
    | .body u => decide (u = t)
    | _ => false

theorem bodies_concat (t : T) (labels : List (Label T Op R)) (label : Label T Op R) :
    bodies t (labels ++ [label]) = bodies t labels + bodies t [label] := List.countP_append

/-- However the other threads run, a critical section is at its end after a bounded number of its own statements. -/
theorem Sim.bodies_le (hB : Implements B Seq Abs Legal Inside) (h : Sim Abs Inside c a) {t : T} {op : Op} {pc : L}
    {n : Nat} (hphase : c.phase t = .inside op pc) (hinside : Inside a.state op n pc c.shared)
    (hrun : Lts.Run (Step B C) c labels c') (hopen : ∀ r, .event (.finish t op r) ∉ labels) :
    ∃ pc' m, c'.owner = some t ∧ OnlyInside c' c'.owner ∧ c'.phase t = .inside op pc' ∧
      Inside a.state op m pc' c'.shared ∧ bodies t labels + m ≤ n := by
  induction hrun with
  | nil => exact ⟨pc, n, (h.inside hphase).1, h.only, hphase, hinside, by simp [bodies]⟩
  | @snoc c₁ c₂ labels label _ hstep ih =>
      obtain ⟨pc₁, m₁, howner, honly, hphase₁, hinside₁, hle⟩ :=
        ih fun r hr => hopen r (List.mem_append_left _ hr)
      rw [bodies_concat]
      cases hstep with
      | @call u op' hidle hmay =>
          have hne : t ≠ u := fun heq => by
            subst heq
            rw [hphase₁] at hidle
            cases hidle
          exact ⟨pc₁, m₁, howner, honly.update (fun _ _ heq => by cases heq) fun _ _ hu => hu,
            (Function.update_of_ne hne _ _).trans hphase₁, hinside₁, hle⟩
      | lock hwaiting hfree =>
          rw [howner] at hfree
          cases hfree
      | @body u op' pc' pc₂ shared' hinside' hmicro =>
          have hu := honly u op' pc' hinside'
          rw [howner] at hu
          cases hu
          rw [hphase₁] at hinside'
          cases hinside'
          obtain ⟨m₂, hlt, hnext⟩ := hB.step hinside₁ hmicro
          refine ⟨pc₂, m₂, howner, honly.update (fun _ _ _ => howner) fun _ _ hu => hu,
            Function.update_self _ _ _, hnext, ?_⟩
          have hone : bodies t [(.body t : Label T Op R)] = 1 := by simp [bodies]
          omega
      | @unlock u op' pc' r hinside' hanswer =>
          have hu := honly u op' pc' hinside'
          rw [howner] at hu
          cases hu
          rw [hphase₁] at hinside'
          cases hinside'
          exact absurd (List.mem_append_right labels (List.mem_singleton_self _)) (hopen r)

end Simulation

end Locked
