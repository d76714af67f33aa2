import Dangless.LibLock
import Dangless.VirtmemAllocHeapSpec

/-! Threads that call `vp_alloc`, `vp_free` and `vp_reset`, with the mutex of the freelist: their statements are
interleaved in any order, and the answers of `MALLOC` are arbitrary. -/

namespace Dangless

open Locked

variable {T : Type} [DecidableEq T]

/-- The bodies of `freelist_alloc`, `freelist_free` and `freelist_reset`. -/
def vpBody : Body SpanStore VpPc VpOp VpAnswer where
  start := .start
  micro pc s pc' s' := ∃ node, MallocAnswer s node ∧ vpMicro node s pc = some (pc', s')
  answer
    | .done answer => some answer
    | _ => none
  fault pc s := (∀ answer, pc ≠ .done answer) ∧ ∃ node, MallocAnswer s node ∧ vpMicro node s pc = none

/-- At least one page; the region of a `vp_free` is page-aligned and ends within the space. `freelist_free` asserts that
the count is not 0 and the region aligned, `freelist_alloc` nothing. -/
def VpOp.InRange : VpOp → Prop
  | .alloc npages => 1 ≤ npages
  | .free p npages => p % PGSIZE = 0 ∧ 1 ≤ npages ∧ p + npages * PGSIZE < 2 ^ 64
  | .reset => True

/-- The pages of a call of `vp_free`. -/
def VpOp.gives : VpOp → Set Nat
  | .alloc _ => ∅
  | .free p npages => region p npages
  | .reset => ∅

/-- A thread gives back only pages that it has. It has what it was given, until it calls `vp_free`. -/
def vpClient (T : Type) [DecidableEq T] : Client T VpOp VpAnswer (T → Set Nat) where
  mayCall own t op := op.InRange ∧ op.gives ⊆ own t
  called own t op := Function.update own t (own t \ op.gives)
  returned own t
    | .alloc npages, .ptr va => if va = 0 then own else Function.update own t (own t ∪ region va npages)
    | .free p npages, .code result =>
        if result = 0 then own else Function.update own t (own t ∪ region p npages)
    | _, _ => own

/-- The calls on the list of spans. -/
def vpSeq (items : List VpSpan) (op : VpOp) (answer : VpAnswer) (left : List VpSpan) : Prop :=
  op.Computes items answer left

/-- The pages of a call that has not returned. -/
def inFlight : Option VpOp → Set Nat
  | some op => op.gives
  | none => ∅

/-- What a thread has, with the pages that it is giving back. -/
def holding (a : Atomic T (List VpSpan) VpOp (T → Set Nat)) (t : T) : Set Nat := a.client t ∪ inFlight (a.pending t)

/-- No page is in two places. -/
structure VpApart (a : Atomic T (List VpSpan) VpOp (T → Set Nat)) : Prop where
  wf : FreelistWf a.state
  threads : ∀ t u, t ≠ u → Disjoint (holding a t) (holding a u)
  given : ∀ t, Disjoint (a.client t) (inFlight (a.pending t))
  free : ∀ t, Disjoint (holding a t) (owned a.state)
  call : ∀ t op, a.pending t = some op → op.InRange

section Apart

variable {a a' : Atomic T (List VpSpan) VpOp (T → Set Nat)} {t : T}

omit [DecidableEq T] in
theorem VpApart.legal (h : VpApart a) {op : VpOp} (hpending : a.pending t = some op) : op.Legal a.state := by
  cases op with
  | alloc npages => trivial
  | free p npages =>
      obtain ⟨haligned, hnonempty, hwidth⟩ := h.call t _ hpending
      refine ⟨haligned, hnonempty, hwidth, (h.free t).mono_left ?_⟩
      rw [holding, hpending]
      exact Set.subset_union_right
  | reset => trivial

/-- Pages move between one thread and the list of spans. -/
theorem VpApart.move (h : VpApart a) {own : Set Nat} {op : Option VpOp} {items : List VpSpan} (hwf : FreelistWf items)
    (hown : own ∪ inFlight op ⊆ holding a t ∪ owned a.state) (hitems : owned items ⊆ holding a t ∪ owned a.state)
    (hfree : Disjoint (own ∪ inFlight op) (owned items)) (hgiven : Disjoint own (inFlight op))
    (hcall : ∀ op', op = some op' → op'.InRange) :
    VpApart ⟨items, Function.update a.client t own, Function.update a.pending t op⟩ := by
  have hself : holding ⟨items, Function.update a.client t own, Function.update a.pending t op⟩ t =
      own ∪ inFlight op := by
    dsimp only [holding]
    rw [Function.update_self, Function.update_self]
  have hother : ∀ u, u ≠ t →
      holding ⟨items, Function.update a.client t own, Function.update a.pending t op⟩ u = holding a u := fun u hu => by
    dsimp only [holding]
    rw [Function.update_of_ne hu, Function.update_of_ne hu]
  have hmoved : ∀ u, u ≠ t → Disjoint (holding a u) (holding a t ∪ owned a.state) := fun u hu =>
    Set.disjoint_union_right.mpr ⟨h.threads u t hu, h.free u⟩
  refine ⟨hwf, fun u v huv => ?_, fun u => ?_, fun u => ?_, fun u op' hpending => ?_⟩
  · by_cases hu : u = t
    · subst hu
      rw [hself, hother v huv.symm]
      exact ((hmoved v huv.symm).mono_right hown).symm
    · by_cases hv : v = t
      · subst hv
        rw [hself, hother u hu]
        exact (hmoved u hu).mono_right hown
      · rw [hother u hu, hother v hv]
        exact h.threads u v huv
  · dsimp only
    by_cases hu : u = t
    · subst hu
      rw [Function.update_self, Function.update_self]
      exact hgiven
    · rw [Function.update_of_ne hu, Function.update_of_ne hu]
      exact h.given u
  · by_cases hu : u = t
    · subst hu
      rw [hself]
      exact hfree
    · rw [hother u hu]
      exact (hmoved u hu).mono_right hitems
  · dsimp only at hpending
    by_cases hu : u = t
    · subst hu
      rw [Function.update_self] at hpending
      exact hcall op' hpending
    · rw [Function.update_of_ne hu] at hpending
      exact h.call u op' hpending

omit [DecidableEq T] in
theorem holding_of_alloc (a : Atomic T (List VpSpan) VpOp (T → Set Nat)) {npages : Nat}
    (hpending : a.pending t = some (.alloc npages)) : holding a t = a.client t := by
  rw [holding, hpending, inFlight, VpOp.gives, Set.union_empty]

theorem VpApart.call_step (h : VpApart a) {op : VpOp} (hpending : a.pending t = none)
    (hmay : (vpClient T).mayCall a.client t op) :
    VpApart { a with client := (vpClient T).called a.client t op, pending := Function.update a.pending t (some op) } := by
  have hholding : holding a t = a.client t := by rw [holding, hpending, inFlight, Set.union_empty]
  have hfree := h.free t
  rw [hholding] at hfree
  obtain ⟨hrange, hsub⟩ := hmay
  have hsame : a.client t \ op.gives ∪ inFlight (some op) = a.client t := Set.sdiff_union_of_subset hsub
  refine h.move h.wf ?_ Set.subset_union_right ?_ Set.disjoint_sdiff_left fun op' hop => ?_
  · rw [hsame, hholding]
    exact Set.subset_union_left
  · rwa [hsame]
  · cases hop
    exact hrange

theorem VpApart.finish_alloc (h : VpApart a) {npages : Nat} (hpending : a.pending t = some (.alloc npages)) :
    VpApart ⟨(freelistAlloc npages a.state).items,
      (vpClient T).returned a.client t (.alloc npages) (.ptr (freelistAlloc npages a.state).va),
      Function.update a.pending t none⟩ := by
  have hholding := holding_of_alloc a hpending
  have hfree := h.free t
  rw [hholding] at hfree
  have hkeep : ∀ items, FreelistWf items → owned items ⊆ owned a.state →
      VpApart ⟨items, a.client, Function.update a.pending t none⟩ := fun items hwf hsub => by
    have hmove : VpApart ⟨items, Function.update a.client t (a.client t), Function.update a.pending t none⟩ := by
      refine h.move hwf ?_ (hsub.trans Set.subset_union_right) ?_ (Set.disjoint_empty _) fun op' hop => by cases hop
      · rw [inFlight, Set.union_empty, hholding]
        exact Set.subset_union_left
      · rw [inFlight, Set.union_empty]
        exact hfree.mono_right hsub
    rwa [Function.update_eq_self] at hmove
  rcases freelistAlloc_spec h.wf (h.call t _ hpending) with ⟨heq, -⟩ | ⟨hleast, hwf, howned⟩
  · rw [heq]
    exact hkeep a.state h.wf subset_rfl
  · have hsub : owned (freelistAlloc npages a.state).items ⊆ owned a.state := by
      rw [howned]
      exact Set.sdiff_subset
    by_cases hva : (freelistAlloc npages a.state).va = 0
    · simp only [vpClient, if_pos hva]
      exact hkeep _ hwf hsub
    · simp only [vpClient, if_neg hva]
      refine h.move hwf ?_ (hsub.trans Set.subset_union_right) ?_ (Set.disjoint_empty _) fun op' hop => by cases hop
      · rw [inFlight, Set.union_empty, hholding]
        exact Set.union_subset_union_right _ hleast.1.2
      · rw [inFlight, Set.union_empty]
        refine Set.disjoint_union_left.mpr ⟨hfree.mono_right hsub, ?_⟩
        rw [howned]
        exact Set.disjoint_sdiff_right

theorem VpApart.finish_free (h : VpApart a) {p npages node : Nat} (hpending : a.pending t = some (.free p npages)) :
    VpApart ⟨(freelistFree a.state p npages node).items,
      (vpClient T).returned a.client t (.free p npages) (.code (freelistFree a.state p npages node).result),
      Function.update a.pending t none⟩ := by
  have hlegal : Freeable (owned a.state) p npages := h.legal hpending
  have hholding : holding a t = a.client t ∪ region p npages := by
    rw [holding, hpending, inFlight, VpOp.gives]
  have hfree := h.free t
  have hgiven := h.given t
  rw [hholding, Set.disjoint_union_left] at hfree
  rw [hpending, inFlight, VpOp.gives] at hgiven
  rcases freelistFree_spec h.wf hlegal with ⟨hres, hwf, howned⟩ | ⟨heq, -, -⟩
  · have hclient : (vpClient T).returned a.client t (.free p npages)
        (.code (freelistFree a.state p npages node).result) = a.client := if_pos hres
    rw [hclient]
    have hmove : VpApart ⟨(freelistFree a.state p npages node).items, Function.update a.client t (a.client t),
        Function.update a.pending t none⟩ := by
      refine h.move hwf ?_ ?_ ?_ (Set.disjoint_empty _) fun op' hop => by cases hop
      · rw [inFlight, Set.union_empty, hholding]
        exact Set.subset_union_left.trans Set.subset_union_left
      · rw [howned, hholding]
        exact Set.union_subset Set.subset_union_right (Set.subset_union_right.trans Set.subset_union_left)
      · rw [inFlight, Set.union_empty, howned]
        exact Set.disjoint_union_right.mpr ⟨hfree.1, hgiven⟩
    rwa [Function.update_eq_self] at hmove
  · rw [heq]
    refine h.move h.wf ?_ Set.subset_union_right ?_ (Set.disjoint_empty _) fun op' hop => by cases hop
    · rw [inFlight, Set.union_empty, hholding]
      exact Set.subset_union_left
    · rw [inFlight, Set.union_empty]
      exact Set.disjoint_union_left.mpr hfree

theorem VpApart.finish_reset (h : VpApart a) (t : T) :
    VpApart ⟨[], a.client, Function.update a.pending t none⟩ := by
  have hmove : VpApart ⟨[], Function.update a.client t (a.client t), Function.update a.pending t none⟩ := by
    refine h.move freelistWf_nil ?_ ?_ ?_ (Set.disjoint_empty _) fun op' hop => by cases hop
    · rw [inFlight, Set.union_empty, holding]
      exact Set.subset_union_left.trans Set.subset_union_left
    · rw [owned_nil]
      exact Set.empty_subset _
    · rw [owned_nil]
      exact Set.disjoint_empty _
  rwa [Function.update_eq_self] at hmove

theorem vpApart_step (a : Atomic T (List VpSpan) VpOp (T → Set Nat)) (e : Locked.Event T VpOp VpAnswer)
    (a' : Atomic T (List VpSpan) VpOp (T → Set Nat)) (h : VpApart a) (hstep : AtomicStep vpSeq (vpClient T) a e a') :
    VpApart a' := by
  cases hstep with
  | call hpending hmay => exact h.call_step hpending hmay
  | @finish t op r items hpending hseq =>
      cases op with
      | alloc npages =>
          obtain ⟨rfl, rfl⟩ := hseq
          exact h.finish_alloc hpending
      | free p npages =>
          obtain ⟨node, -, rfl, rfl⟩ := hseq
          exact h.finish_free hpending
      | reset =>
          obtain ⟨rfl, rfl⟩ := hseq
          exact h.finish_reset t

end Apart

theorem ne_done_of_answer {pc : VpPc} (h : vpBody.answer pc = none) (answer : VpAnswer) : pc ≠ .done answer := by
  rintro rfl
  cases h

theorem ne_done_of_micro {node : Nat} {pc pc' : VpPc} {s s' : SpanStore} (h : vpMicro node s pc = some (pc', s'))
    (answer : VpAnswer) : pc ≠ .done answer := by
  rintro rfl
  cases h

/-- The critical sections do what the functions on lists of spans say. -/
theorem vpBody_implements : Implements vpBody vpSeq (fun s items => HoldsSpans s items [])
    (fun items op => FreelistWf items ∧ op.Legal items)
    (fun items op rank pc s => AtPc (op.Computes items) rank pc s) where
  start h hlegal := atPc_start h hlegal.1 hlegal.2
  step h hmicro := by
    obtain ⟨node, hnode, hmicro⟩ := hmicro
    obtain ⟨pc, t, heq, m, hlt, hpc⟩ := h.advances hnode (ne_done_of_micro hmicro)
    rw [hmicro] at heq
    cases heq
    exact ⟨m, hlt, hpc⟩
  finish h hanswer := by
    cases h with
    | @done _ items _ hholds htarget =>
        cases hanswer
        exact ⟨items, hholds, htarget⟩
    | _ => cases hanswer
  safe h hfault := by
    obtain ⟨hmore, node, hnode, hmicro⟩ := hfault
    obtain ⟨pc, t, heq, -⟩ := h.advances hnode hmore
    rw [hmicro] at heq
    cases heq
  progress h hanswer := by
    obtain ⟨pc, t, heq, -⟩ := h.advances (Or.inl rfl) (ne_done_of_answer hanswer)
    exact ⟨pc, t, 0, Or.inl rfl, heq⟩

/-- Before the first call: an empty list, and each thread with pages of its own. -/
def vpStart (s : SpanStore) (own : T → Set Nat) : Conf T SpanStore VpPc VpOp (T → Set Nat) :=
  ⟨s, none, own, fun _ => .idle⟩

variable {s : SpanStore} {own : T → Set Nat} {labels : List (Label T VpOp VpAnswer)}
  {c : Conf T SpanStore VpPc VpOp (T → Set Nat)}

theorem vpThreads_sim (hs : HoldsSpans s [] []) (hown : ∀ t u, t ≠ u → Disjoint (own t) (own u))
    (hrun : Lts.Run (Step vpBody (vpClient T)) (vpStart s own) labels c) :
    ∃ a, Lts.Run (AtomicStep vpSeq (vpClient T)) ⟨[], own, fun _ => none⟩ (labels.filterMap Label.event?) a ∧
      VpApart a ∧ Sim (fun s items => HoldsSpans s items [])
        (fun items op rank pc s => AtPc (op.Computes items) rank pc s) c a := by
  have hapart : VpApart (T := T) ⟨[], own, fun _ => none⟩ := by
    refine ⟨freelistWf_nil, fun t u htu => ?_, fun t => Set.disjoint_empty _, fun t => ?_, fun t op hop => by cases hop⟩
    · simpa [holding, inFlight] using hown t u htu
    · rw [owned_nil]
      exact Set.disjoint_empty _
  have hsim : Sim (fun s items => HoldsSpans s items [])
      (fun items op rank pc s => AtPc (op.Computes items) rank pc s) (vpStart s own) ⟨[], own, fun _ => none⟩ := by
    refine ⟨rfl, fun _ => rfl, fun t op pc hphase => ?_, fun _ => hs, fun t howner => ?_⟩
    · cases hphase
    · cases howner
  exact hsim.run vpBody_implements (fun h hpending => ⟨h.wf, h.legal hpending⟩) vpApart_step hapart hrun

/-- No `vp_span` object is allocated. -/
def noSpans : SpanStore := ⟨fun _ => false, none, fun _ => none, fun _ => .head, fun _ => ⟨0, 0⟩⟩

theorem holdsSpans_noSpans : HoldsSpans noSpans [] [] :=
  ⟨LinkedList.linked_nil rfl, by simp, fun a => by simp [noSpans, nodes], by simp, rfl⟩

/-- One thread has a page to give. -/
def lonePage (t : Bool) : Set Nat := if t then region 4096 1 else ∅

theorem onePage_apart (t u : Bool) (h : t ≠ u) : Disjoint (lonePage t) (lonePage u) := by
  cases t <;> cases u
  · exact absurd rfl h
  · exact Set.empty_disjoint _
  · exact Set.disjoint_empty _
  · exact absurd rfl h

/-- A thread gives a page back while another one waits for a page. -/
theorem vpThreads_run : ∃ c, Lts.Run (Step vpBody (vpClient Bool)) (vpStart noSpans lonePage)
    [.event (.call true (.free 4096 1)), .lock true, .event (.call false (.alloc 1)), .body true, .body true, .body true,
      .body true, .body true, .body true, .body true, .event (.finish true (.free 4096 1) (.code 0))] c ∧
    c.owner = none := by
  have h₁ := Lts.Run.single (@Step.call Bool SpanStore VpPc VpOp VpAnswer _ _ vpBody (vpClient Bool)
    (vpStart noSpans lonePage) true (.free 4096 1) rfl ⟨⟨by decide, by decide, by decide⟩, subset_rfl⟩)
  have h₂ := h₁.snoc (.lock (t := true) rfl rfl)
  have h₃ := h₂.snoc (@Step.call _ _ _ _ _ _ _ _ (vpClient Bool) _ false (.alloc 1) rfl
    ⟨Nat.le_refl 1, Set.empty_subset _⟩)
  have h₄ := h₃.snoc (.body (t := true) rfl ⟨0, Or.inl rfl, rfl⟩)
  have h₅ := h₄.snoc (.body (t := true) rfl ⟨0, Or.inl rfl, rfl⟩)
  have h₆ := h₅.snoc (.body (t := true) rfl ⟨0, Or.inl rfl, rfl⟩)
  have h₇ := h₆.snoc (.body (t := true) rfl ⟨0, Or.inl rfl, rfl⟩)
  have h₈ := h₇.snoc (.body (t := true) rfl ⟨65536, Or.inr rfl, rfl⟩)
  have h₉ := h₈.snoc (.body (t := true) rfl ⟨0, Or.inl rfl, rfl⟩)
  have h₁₀ := h₉.snoc (.body (t := true) rfl ⟨0, Or.inl rfl, rfl⟩)
  exact ⟨_, h₁₀.snoc (.unlock (t := true) rfl rfl), rfl⟩

/-- **Threads that share the freelist under its mutex cannot be told apart from threads that do each call in one step on
a list of spans**, whatever the order of their statements and the answers of `MALLOC`. No statement touches a `vp_span`
object that is not allocated, frees one twice or fails an assertion; and once no thread is inside, the objects that are
allocated are those of the list. -/
theorem vpThreads_atomic (hs : HoldsSpans s [] []) (hown : ∀ t u, t ≠ u → Disjoint (own t) (own u))
    (hrun : Lts.Run (Step vpBody (vpClient T)) (vpStart s own) labels c) :
    ∃ a, Lts.Run (AtomicStep vpSeq (vpClient T)) ⟨[], own, fun _ => none⟩ (labels.filterMap Label.event?) a ∧
      (c.owner = none → HoldsSpans c.shared a.state []) ∧
      ∀ t op pc, c.phase t = .inside op pc → c.owner = some t ∧ ¬ vpBody.fault pc c.shared := by
  obtain ⟨a, hatomic, -, hsim⟩ := vpThreads_sim hs hown hrun
  refine ⟨a, hatomic, hsim.free, fun t op pc hphase => ?_⟩
  obtain ⟨howner, rank, hinside⟩ := hsim.inside hphase
  exact ⟨howner, vpBody_implements.safe hinside⟩

/-- The page that was given back is in the list, in one span object. -/
theorem vpThreads_atomic_free : ∃ (s : SpanStore) (a : Atomic Bool (List VpSpan) VpOp (Bool → Set Nat)),
    Lts.Run (AtomicStep vpSeq (vpClient Bool)) ⟨[], lonePage, fun _ => none⟩
      [.call true (.free 4096 1), .call false (.alloc 1), .finish true (.free 4096 1) (.code 0)] a ∧
    HoldsSpans s a.state [] := by
  obtain ⟨c, hrun, hfree⟩ := vpThreads_run
  obtain ⟨a, hatomic, hholds, -⟩ := vpThreads_atomic holdsSpans_noSpans onePage_apart hrun
  exact ⟨c.shared, a, hatomic, hholds hfree⟩

/-- **No two threads ever have a page in common**, whether they were given it or are giving it back, and while no thread
is inside none of them has a page that the freelist can still give to another. -/
theorem vpThreads_apart (hs : HoldsSpans s [] []) (hown : ∀ t u, t ≠ u → Disjoint (own t) (own u))
    (hrun : Lts.Run (Step vpBody (vpClient T)) (vpStart s own) labels c) :
    (∀ t u, t ≠ u → Disjoint (c.client t ∪ inFlight (c.phase t).call) (c.client u ∪ inFlight (c.phase u).call)) ∧
    (c.owner = none → ∃ items, HoldsSpans c.shared items [] ∧ FreelistWf items ∧
      ∀ t, Disjoint (c.client t ∪ inFlight (c.phase t).call) (owned items)) := by
  obtain ⟨a, -, hapart, hsim⟩ := vpThreads_sim hs hown hrun
  have hholding : ∀ t, holding a t = c.client t ∪ inFlight (c.phase t).call := fun t => by
    rw [holding, hsim.client, hsim.pending t]
  refine ⟨fun t u htu => ?_, fun howner => ⟨a.state, hsim.free howner, hapart.wf, fun t => ?_⟩⟩
  · rw [← hholding t, ← hholding u]
    exact hapart.threads t u htu
  · rw [← hholding t]
    exact hapart.free t

theorem vpThreads_apart_free : ∃ c : Conf Bool SpanStore VpPc VpOp (Bool → Set Nat),
    Disjoint (c.client true ∪ inFlight (c.phase true).call) (c.client false ∪ inFlight (c.phase false).call) := by
  obtain ⟨c, hrun, -⟩ := vpThreads_run
  exact ⟨c, (vpThreads_apart holdsSpans_noSpans onePage_apart hrun).1 true false (by decide)⟩

/-- **A critical section ends**: once a thread is inside, a number of its own statements is enough, whatever the other
threads do, and each of them can be taken. -/
theorem vpThreads_ends (hs : HoldsSpans s [] []) (hown : ∀ t u, t ≠ u → Disjoint (own t) (own u))
    (hrun : Lts.Run (Step vpBody (vpClient T)) (vpStart s own) labels c) {t : T} {op : VpOp} {pc : VpPc}
    (hinside : c.phase t = .inside op pc) :
    ∃ n, ∀ more c', Lts.Run (Step vpBody (vpClient T)) c more c' → (∀ r, .event (.finish t op r) ∉ more) →
      bodies t more ≤ n ∧ ∃ pc', c'.phase t = .inside op pc' ∧
        ((∃ r, vpBody.answer pc' = some r) ∨ ∃ pc'' s', vpBody.micro pc' c'.shared pc'' s') := by
  obtain ⟨a, -, -, hsim⟩ := vpThreads_sim hs hown hrun
  obtain ⟨-, n, hat⟩ := hsim.inside hinside
  refine ⟨n, fun more c' hmore hopen => ?_⟩
  obtain ⟨pc', m, -, -, hphase, hat', hle⟩ := hsim.bodies_le vpBody_implements hinside hat hmore hopen
  refine ⟨by omega, pc', hphase, ?_⟩
  cases hanswer : vpBody.answer pc' with
  | some r => exact Or.inl ⟨r, rfl⟩
  | none => exact Or.inr (vpBody_implements.progress hat' hanswer)

/-- A call of `vp_alloc` that has just got the lock. -/
theorem vpThreads_ends_alloc : ∃ n, ∀ more c',
    Lts.Run (Step vpBody (vpClient Bool)) (⟨noSpans, some true, Function.update lonePage true (lonePage true \ ∅),
      Function.update (Function.update (fun _ => .idle) true (.waiting (.alloc 1))) true
        (.inside (.alloc 1) (.start (.alloc 1)))⟩) more c' →
    (∀ r, .event (.finish true (.alloc 1) r) ∉ more) → bodies true more ≤ n := by
  have hcall := Lts.Run.single (@Step.call Bool SpanStore VpPc VpOp VpAnswer _ _ vpBody (vpClient Bool)
    (vpStart noSpans lonePage) true (.alloc 1) rfl ⟨Nat.le_refl 1, Set.empty_subset _⟩)
  have hrun := hcall.snoc (.lock (t := true) rfl rfl)
  obtain ⟨n, hends⟩ := vpThreads_ends holdsSpans_noSpans onePage_apart hrun (t := true) rfl
  exact ⟨n, fun more c' hmore hopen => (hends more c' hmore hopen).1⟩

end Dangless
