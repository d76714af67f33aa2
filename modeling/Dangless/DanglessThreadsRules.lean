import Dangless.DanglessThreadsSpec

/-! What the programs of the entry points do to the things of the thread that runs them, one rule for each program,
whatever the other threads do in between. -/

namespace Dangless

open Rely Ledger

variable {σ R R' : Type} {A : SysAllocator σ} {L : DuneLayout} {C : SysContract A L} {Z : Fin PT_NUM_ENTRIES → Prop}
  {ms ms' ms'' ks : Multiset Item} {s : SharedWorld σ} {l : ThreadVars} {m : Mapping} {va n b u p : Nat}

/-- The pages of a thing. -/
def Item.covers : Item → Set Nat
  | .region m => m.pages
  | .pages va n => Dangless.region va n
  | _ => ∅

/-- A call of the page tables looks up an address that Dune maps in advance, or it is about pages of the thread. Work on
the list is that of the thread that has the list. Both are in order, whatever the others have. -/
def WorksOn (C : SysContract A L) (Z : Fin PT_NUM_ENTRIES → Prop) (ms : Multiset Item) : Work → Prop
  | .tables call => (∃ p, call = .resolve p ∧ L.Home p) ∨
      (∃ x ∈ ms, ∀ a ∈ call.pages, ∃ a' ∈ x.covers, ptPath a = ptPath a') ∧
        ∀ F s, MtInv C Z (ms + F) s → call.Legal (slotPaths Z) s.world.pt.stopWord
  | .list op => (∃ items, .list items ∈ ms) ∧
      ∀ F s, MtInv C Z (ms + F) s → FreelistWf s.world.items ∧ op.Legal s.world.items

/-- A thread works on what it has. It waits for the mutex while another thread has the list, and for the end of
`auto_dedicate_vmem` while another thread runs it. -/
def mtAccount (C : SysContract A L) (Z : Fin PT_NUM_ENTRIES → Prop) :
    Account (SharedWorld σ) ThreadVars (Multiset Item) where
  inv := MtInv C Z
  own ms l := ∀ work, l.working = some work → WorksOn C Z ms work
  waits ms s := ms.filterMap Item.list? = 0 ∧
    (s.locked = true ∨ s.once = .running ∧ ms.filterMap Item.dedicating? = 0)

/-- The code leaves the variables of the thread as they are, and the thread has what it should. -/
structure Leaves (C : SysContract A L) (Z : Fin PT_NUM_ENTRIES → Prop) (Φ : R → Multiset Item → Prop)
    (prog : MtProg σ R) (ms : Multiset Item) (l : ThreadVars) : Prop where
  holds : Holds (mtAccount C Z) (fun r ms' l' => l' = l ∧ Φ r ms') prog ms l

variable {Φ Ψ : R → Multiset Item → Prop} {Θ : R' → Multiset Item → Prop} {prog : MtProg σ R} {k : R → MtProg σ R'}

theorem Leaves.bind (h : Leaves C Z Φ prog ms l) (hk : ∀ r ms', Φ r ms' → Leaves C Z Θ (k r) ms' l) :
    Leaves C Z Θ (prog >>= k) ms l := by
  refine ⟨Holds.bind h.holds ?_⟩
  rintro r ms' l' ⟨rfl, hΦ⟩
  exact (hk r ms' hΦ).holds

theorem Leaves.mono (h : Leaves C Z Φ prog ms l) (hΦ : ∀ r ms', Φ r ms' → Ψ r ms') : Leaves C Z Ψ prog ms l :=
  ⟨Holds.mono h.holds fun r ms' _ hpost => ⟨hpost.1, hΦ r ms' hpost.2⟩⟩

theorem leaves_pure {r : R} (h : Φ r ms) : Leaves C Z Φ (pure r) ms l := ⟨rfl, h⟩

/-- A thread that is in the middle of no work. -/
theorem own_idle (hl : l.working = none) (ms : Multiset Item) : (mtAccount C Z).own ms l := by
  intro work hwork
  rw [hl] at hwork
  cases hwork

/-- A statement that does a function of the model. -/
theorem leaves_callWorld {f : World σ → R × World σ} (hl : l.working = none)
    (hdepth : ∀ w, (f w).2.hookDepth = w.hookDepth)
    (h : ∀ F s, MtInv C Z (ms + F) s →
      ∃ ms', MtInv C Z (ms' + F) { s with world := (f s.world).2 } ∧ Φ (f s.world).1 ms') :
    Leaves C Z Φ (callWorld f) ms l := by
  constructor
  intro F s hinv
  refine ⟨fun _ => ?_, nofun⟩
  obtain ⟨ms', hinv', hΦ⟩ := h F _ (MtInv.rehook hinv l.hookDepth)
  refine ⟨ms', hinv', own_idle (C := C) (Z := Z) hl _, ?_, hΦ⟩
  show ({ l with hookDepth := (f (loadWorld (s, l))).2.hookDepth } : ThreadVars) = l
  rw [hdepth]
  rfl

/-- A statement that looks at the state. -/
theorem leaves_readWorld {f : World σ → R} (hl : l.working = none)
    (h : ∀ F s, MtInv C Z (ms + F) s → ∃ ms', MtInv C Z (ms' + F) s ∧ Φ (f s.world) ms') :
    Leaves C Z Φ (readWorld f) ms l := by
  constructor
  intro F s hinv
  refine ⟨fun _ => ?_, nofun⟩
  obtain ⟨ms', hinv', hΦ⟩ := h F _ (MtInv.rehook hinv l.hookDepth)
  exact ⟨ms', MtInv.rehook hinv' s.world.hookDepth, own_idle (C := C) (Z := Z) hl _, rfl, hΦ⟩

/-- An assertion that holds. -/
theorem leaves_assertWorld {f : World σ → Bool} (hl : l.working = none)
    (h : ∀ F s, MtInv C Z (ms + F) s → f s.world = true) :
    Leaves C Z (fun _ ms' => ms' = ms) (assertWorld f) ms l := by
  refine Leaves.bind (Φ := fun condition ms' => condition = true ∧ ms' = ms)
    (leaves_readWorld hl fun F s hinv => ⟨ms, hinv, h F s hinv, rfl⟩) ?_
  rintro _ _ ⟨rfl, rfl⟩
  exact leaves_pure rfl

/-- Work on pages of the thread, or on the list. -/
theorem leaves_work {work : Work} {f : World σ → R × World σ} (hl : l.working = none)
    (hdepth : ∀ w, (f w).2.hookDepth = w.hookDepth) (hworks : ∀ F s, MtInv C Z (ms + F) s → WorksOn C Z ms work)
    (h : ∀ F s, MtInv C Z (ms + F) s →
      ∃ ms', MtInv C Z (ms' + F) { s with world := (f s.world).2 } ∧ Φ (f s.world).1 ms') :
    Leaves C Z Φ (workProg work f) ms l := by
  constructor
  intro F s hinv
  refine ⟨fun _ => ⟨ms, hinv, ?_, ?_⟩, nofun⟩
  · intro work' hwork
    obtain rfl := Option.some.inj hwork
    exact hworks F s hinv
  · intro F s hinv
    refine ⟨fun _ => ?_, nofun⟩
    obtain ⟨ms', hinv', hΦ⟩ := h F _ (MtInv.rehook hinv l.hookDepth)
    refine ⟨ms', hinv', nofun, ?_, hΦ⟩
    show (⟨(f (loadWorld (s, _))).2.hookDepth, none⟩ : ThreadVars) = l
    rw [hdepth, ← hl]
    rfl

/-- What is known of a state before a statement, whatever the others have, is known for the code from there on. -/
theorem Leaves.facts {P : Prop} {guard : SharedWorld σ × ThreadVars → Bool}
    {update : SharedWorld σ × ThreadVars → SharedWorld σ × ThreadVars} {next : SharedWorld σ × ThreadVars → MtProg σ R}
    (hP : ∀ F s, MtInv C Z (ms + F) s → P) (h : P → Leaves C Z Φ (.step guard update next) ms l) :
    Leaves C Z Φ (.step guard update next) ms l :=
  ⟨fun F s hinv => (h (hP F s hinv)).holds F s hinv⟩

/-- What a call that asks for `n` bytes gives. -/
def Got (n : Nat) (ms : Multiset Item) (p : Nat) (ms' : Multiset Item) : Prop :=
  (p = 0 ∧ ms' = ms) ∨ (p ≠ 0 ∧ ∃ u, n ≤ u ∧ ms' = .block p u ::ₘ ms)

theorem MtInv.got {r : Nat × σ} {w : World σ} {F : Multiset Item} (h : MtInv C Z (ms + F) s) (hok : C.Ok r.2)
    (hr : Obtains A C.live s.world.sys n r) (hsame : SameGlobals s.world w) (hsys : w.sys = r.2)
    (hpt : w.pt = s.world.pt)
    (htrace : (∀ e ∈ s.world.trace, e.Own C.live) → ∀ e ∈ w.trace, e.Own C.live) :
    ∃ ms', MtInv C Z (ms' + F) { s with world := w } ∧ Got n ms r.1 ms' := by
  rcases h.obtain hok hr hsame hsys hpt htrace with ⟨hnull, hinv⟩ | ⟨hne, u, hu, hinv⟩
  · exact ⟨ms, hinv, Or.inl ⟨hnull, rfl⟩⟩
  · exact ⟨.block r.1 u ::ₘ ms, Multiset.cons_add .. ▸ hinv, Or.inr ⟨hne, u, hu, rfl⟩⟩

theorem MtInv.ok (h : MtInv C Z ms s) : C.Ok s.world.sys := by
  obtain ⟨_, _, _, _, _, _, h⟩ := h
  exact h.sys.ok

theorem sysmallocProg_leaves (hl : l.working = none) : Leaves C Z (Got n ms) (sysmallocProg A n) ms l :=
  leaves_callWorld hl (fun _ => rfl) fun F s h => by
    obtain ⟨hok, hr⟩ := C.malloc s.world.sys n h.ok
    exact h.got hok hr ⟨rfl, rfl, rfl, rfl⟩ rfl rfl fun hown => hown

theorem syscallocProg_leaves {storage num size : Nat} (hl : l.working = none) :
    Leaves C Z (Got (num * size) ms) (syscallocProg A storage num size) ms l :=
  leaves_callWorld hl (fun w => by unfold syscalloc syscallocSpecial; split <;> rfl) fun F s h => by
    obtain ⟨hok, hr⟩ := C.calloc s.world.sys num size h.ok
    have hset : s.world.addr .calloc = true := by
      obtain ⟨_, _, _, _, _, _, h⟩ := h
      exact h.calloc
    have heq : syscalloc A storage num size s.world =
        ((A.calloc num size s.world.sys).1, { s.world with sys := (A.calloc num size s.world.sys).2 }) := by
      unfold syscalloc
      rw [hset]
      rfl
    rw [heq]
    exact h.got hok hr ⟨rfl, rfl, rfl, rfl⟩ rfl rfl fun hown => hown

/-- `sysrealloc` of `NULL`. -/
theorem sysreallocProg_leaves_null (hl : l.working = none) : Leaves C Z (Got n ms) (sysreallocProg A 0 n) ms l :=
  leaves_callWorld hl (fun _ => rfl) fun F s h => by
    obtain ⟨hok, hr⟩ := C.reallocNull s.world.sys n h.ok
    refine h.got hok hr ⟨rfl, rfl, rfl, rfl⟩ rfl rfl fun hown e he => ?_
    rcases List.mem_cons.mp he with rfl | he
    · exact Or.inl rfl
    · exact hown e he

/-- `sysrealloc` of a block. -/
theorem sysreallocProg_leaves (hl : l.working = none) (hn : 0 < n) :
    Leaves C Z (fun newp ms' => (newp = 0 ∧ ms' = .block b u ::ₘ ms) ∨
      (newp ≠ 0 ∧ ∃ u', n ≤ u' ∧ ms' = .block newp u' ::ₘ ms)) (sysreallocProg A b n) (.block b u ::ₘ ms) l :=
  leaves_callWorld hl (fun _ => rfl) fun F s h => by
    rw [Multiset.cons_add] at h
    rcases h.realloced hn with ⟨hnull, hinv⟩ | ⟨hne, u', hu', hinv⟩
    · exact ⟨_, Multiset.cons_add .. ▸ hinv, Or.inl ⟨hnull, rfl⟩⟩
    · exact ⟨.block _ u' ::ₘ ms, Multiset.cons_add .. ▸ hinv, Or.inr ⟨hne, u', hu', rfl⟩⟩

theorem sysfreeProg_leaves (hl : l.working = none) :
    Leaves C Z (fun _ ms' => ms' = ms) (sysfreeProg A b) (.block b u ::ₘ ms) l :=
  leaves_callWorld hl (fun _ => rfl) fun F s h => by
    rw [Multiset.cons_add] at h
    exact ⟨ms, h.released, rfl⟩

theorem sysmallocUsableSizeProg_leaves (hl : l.working = none) :
    Leaves C Z (fun r ms' => r = u ∧ ms' = .block b u ::ₘ ms) (sysmallocUsableSizeProg A b) (.block b u ::ₘ ms) l :=
  leaves_callWorld hl (fun _ => rfl) fun F s h => by
    rw [Multiset.cons_add] at h
    exact ⟨_, Multiset.cons_add .. ▸ h.sized, h.block.2.1, rfl⟩

theorem sysmallocSpannedPagesProg_leaves (hl : l.working = none) :
    Leaves C Z (fun r ms' => r = numSpannedPages b u ∧ ms' = .block b u ::ₘ ms) (sysmallocSpannedPagesProg A b)
      (.block b u ::ₘ ms) l :=
  leaves_callWorld hl (fun _ => rfl) fun F s h => by
    rw [Multiset.cons_add] at h
    exact ⟨_, Multiset.cons_add .. ▸ h.sized, congrArg (numSpannedPages b) h.block.2.1, rfl⟩

/-! ### The virtual page allocator -/

theorem freelistLock_leaves (hl : l.working = none) (hlist : ms.filterMap Item.list? = 0) :
    Leaves C Z (fun _ ms' => ∃ items, ms' = .list items ::ₘ ms) freelistLock ms l := by
  constructor
  intro F s h
  refine ⟨fun hguard => ⟨_, ?_, own_idle (C := C) (Z := Z) hl _, rfl, s.world.items, rfl⟩, fun hguard => ?_⟩
  · rw [Multiset.cons_add]
    exact MtInv.lock h (by simpa using hguard)
  · exact ⟨hlist, Or.inl (by simpa using hguard)⟩

theorem freelistUnlock_leaves {items : List VpSpan} (hl : l.working = none) :
    Leaves C Z (fun _ ms' => ms' = ms) freelistUnlock (.list items ::ₘ ms) l := by
  constructor
  intro F s h
  refine ⟨fun _ => ⟨ms, ?_, own_idle (C := C) (Z := Z) hl _, rfl, rfl⟩, nofun⟩
  have hlist : MtInv C Z (.list items ::ₘ (ms + F)) s := Multiset.cons_add .. ▸ h
  exact hlist.unlock

theorem recordEvent_leaves {e : Event σ} (hl : l.working = none) (he : ∀ live, e.Own live) :
    Leaves C Z (fun _ ms' => ms' = ms) (recordEvent e) ms l :=
  leaves_callWorld hl (fun _ => rfl) fun F s h => by
    refine ⟨ms, h.record ⟨rfl, rfl, rfl, rfl⟩ rfl rfl fun C' hown e' he' => ?_, rfl⟩
    rcases List.mem_cons.mp he' with rfl | he'
    · exact he _
    · exact hown e' he'

/-- `FREE(span)` of span objects that have left the list. -/
theorem freeNodesProg_leaves {freed : List (Nat × Nat)} (hl : l.working = none) :
    Leaves C Z (fun _ ms' => ms' = ms) (freeNodesProg A (freed.map Prod.fst)) (blockItems freed + ms) l := by
  induction freed with
  | nil => exact leaves_pure (Multiset.zero_add ms)
  | cons x freed ih =>
      rw [blockItems_cons]
      refine (sysfreeProg_leaves hl).bind ?_
      rintro _ _ rfl
      exact ih

/-- What the end of `vp_alloc` and of `vp_free` does: the span objects are freed, and the mutex is unlocked. -/
theorem freelistEnd_leaves {items : List VpSpan} {freed : List (Nat × Nat)} {nodes : List Nat} {e : Event σ}
    {k : Unit → MtProg σ R} (hl : l.working = none) (hnodes : nodes = freed.map Prod.fst) (he : ∀ live, e.Own live)
    (hk : Leaves C Z Φ (k ()) ms l) :
    Leaves C Z Φ (do freeNodesProg A nodes; recordEvent e; freelistUnlock >>= k)
      (.list items ::ₘ (blockItems freed + ms)) l := by
  rw [hnodes, ← Multiset.add_cons]
  refine (freeNodesProg_leaves hl).bind ?_
  rintro _ _ rfl
  refine (recordEvent_leaves hl he).bind ?_
  rintro _ _ rfl
  refine (freelistUnlock_leaves hl).bind ?_
  rintro _ _ rfl
  exact hk

theorem MtInv.freelistWf (h : MtInv C Z ms s) : FreelistWf s.world.items := by
  obtain ⟨others, maps, blocks, pages, gone, k, h⟩ := h
  exact h.layout.remap.wf

/-- Pages that a thread has taken may be given back. -/
theorem MtInv.freeable (h : MtInv C Z (.pages va n ::ₘ ms) s) : Freeable (owned s.world.items) va n := by
  obtain ⟨others, maps, blocks, pages, gone, k, h⟩ := h
  obtain ⟨pages', hpages, -⟩ := lists_pages.mp h.lists
  exact (h.layout.perm (List.Perm.refl _) hpages.symm (List.Perm.refl _)).freeable

/-- `vp_alloc` finds no pages, or takes them out of the freelist. -/
theorem vpAllocProg_leaves (hl : l.working = none) (hZ : SlotsOk L Z) (hn : 1 ≤ n) (hlist : ms.filterMap Item.list? = 0) :
    Leaves C Z (fun va ms' => (va = 0 ∧ ms' = ms) ∨ (va ≠ 0 ∧ ms' = .pages va n ::ₘ ms)) (vpAllocProg A n) ms l := by
  refine (freelistLock_leaves hl hlist).bind ?_
  rintro _ _ ⟨items, rfl⟩
  have hchange : Leaves C Z (fun (r : VpAlloc) ms' => ∃ items' freed rest, r.freed = freed.map Prod.fst ∧
      ((r.va = 0 ∧ rest = ms) ∨ (r.va ≠ 0 ∧ rest = .pages r.va n ::ₘ ms)) ∧
      ms' = .list items' ::ₘ (blockItems freed + rest))
      (workProg (σ := σ) (.list (.alloc n)) fun w =>
        (freelistAlloc n w.items, { w with items := (freelistAlloc n w.items).items })) (.list items ::ₘ ms) l := by
    refine leaves_work hl (fun _ => rfl) (fun _ _ _ => ⟨⟨items, Multiset.mem_cons_self _ _⟩, fun F s h =>
      ⟨h.freelistWf, trivial⟩⟩) fun F s h => ?_
    rw [Multiset.cons_add] at h
    have hitems := h.locked.2.1
    dsimp only
    rw [hitems]
    rcases h.take hZ hn with heq | ⟨hne, hinv⟩
    · refine ⟨.list items ::ₘ ms, ?_, items, [], ms, by rw [heq]; rfl, Or.inl ⟨by rw [heq], rfl⟩, ?_⟩
      · rw [Multiset.cons_add, heq]
        exact h.record ⟨hitems.symm, rfl, rfl, rfl⟩ rfl rfl fun _ hown => hown
      · rw [show blockItems [] + ms = ms from Multiset.zero_add ms]
    · refine ⟨_, ?_, (freelistAlloc n items).items, freedBlocks A s.world.sys _, _, (freedBlocks_fst _ _).symm,
        Or.inr ⟨hne, rfl⟩, rfl⟩
      rw [Multiset.cons_add, add_assoc, Multiset.cons_add]
      exact hinv
  refine hchange.bind ?_
  rintro r _ ⟨items', freed, rest, hnodes, hrest, rfl⟩
  exact freelistEnd_leaves hl hnodes (fun _ => trivial) (leaves_pure hrest)

/-- `vp_free` of pages that the thread has: they go back into the freelist, or are lost where there is no memory for a
span object. -/
theorem vpFreeProg_leaves (hl : l.working = none) (hlist : ms.filterMap Item.list? = 0) :
    Leaves C Z (fun _ ms' => ms' = ms) (vpFreeProg A va n) (.pages va n ::ₘ ms) l := by
  have hlist' : (Item.pages va n ::ₘ ms).filterMap Item.list? = 0 := (filterMap_skip rfl ms).trans hlist
  refine (freelistLock_leaves hl hlist').bind ?_
  rintro _ _ ⟨items, rfl⟩
  have hneeds : Leaves C Z (fun needs ms' => needs = freelistFreeNeedsNode items va n ∧
      ms' = .list items ::ₘ .pages va n ::ₘ ms)
      (readWorld fun w => freelistFreeNeedsNode w.items va n : MtProg σ Bool) (.list items ::ₘ .pages va n ::ₘ ms) l := by
    refine leaves_readWorld hl fun F s h => ⟨_, h, ?_, rfl⟩
    rw [Multiset.cons_add] at h
    rw [h.locked.2.1]
  refine hneeds.bind ?_
  rintro needs _ ⟨hneeds, rfl⟩
  -- the object for a new span, if one is needed and there is memory for it
  have hnode : Leaves C Z (fun node ms' => ∃ used : List (Nat × Nat),
      ((freelistFree items va n node).freed ++ nodes (freelistFree items va n node).items).Perm
        (used.map Prod.fst ++ nodes items) ∧ ms' = .list items ::ₘ (blockItems used + .pages va n ::ₘ ms))
      (spanNodeProg A needs) (.list items ::ₘ .pages va n ::ₘ ms) l := by
    cases needs with
    | false => exact leaves_pure ⟨[], freelistFree_nodes hneeds.symm, by rw [show blockItems [] = 0 from rfl, zero_add]⟩
    | true =>
        refine (sysmallocProg_leaves hl).mono ?_
        rintro node _ (⟨rfl, rfl⟩ | ⟨hne, u, -, rfl⟩)
        · obtain ⟨hfreed, hsame, -⟩ := freelistFree_nodes_new 0 hneeds.symm
          refine ⟨[], ?_, by rw [show blockItems [] = 0 from rfl, zero_add]⟩
          rw [hfreed, hsame rfl]
          exact List.Perm.refl _
        · obtain ⟨hfreed, -, hnew⟩ := freelistFree_nodes_new node hneeds.symm
          refine ⟨[(node, u)], ?_, ?_⟩
          · rw [hfreed]
            exact hnew hne
          · rw [blockItems_cons, show blockItems [] = 0 from rfl, zero_add]
            exact Multiset.cons_swap _ _ _
  refine hnode.bind ?_
  rintro node _ ⟨used, hperm, rfl⟩
  have hchange : Leaves C Z (fun (r : VpFree) ms' => ∃ items' freed, r.freed = freed.map Prod.fst ∧
      ms' = .list items' ::ₘ (blockItems freed + ms))
      (workProg (σ := σ) (.list (.free va n)) fun w =>
        (freelistFree w.items va n node, { w with items := (freelistFree w.items va n node).items }))
      (.list items ::ₘ (blockItems used + .pages va n ::ₘ ms)) l := by
    refine leaves_work hl (fun _ => rfl) (fun _ _ _ => ⟨⟨items, Multiset.mem_cons_self _ _⟩, fun F s h =>
      ⟨h.freelistWf, ?_⟩⟩) fun F s h => ?_
    · rw [Multiset.cons_add, add_assoc, Multiset.cons_add, Multiset.add_cons, Multiset.cons_swap] at h
      exact h.freeable
    rw [Multiset.cons_add, add_assoc, Multiset.cons_add] at h
    dsimp only
    rw [h.locked.2.1]
    refine ⟨_, ?_, (freelistFree items va n node).items, freedBlocks A s.world.sys _, (freedBlocks_fst _ _).symm, rfl⟩
    rw [Multiset.cons_add, add_assoc]
    exact h.give hperm
  refine hchange.bind ?_
  rintro r _ ⟨items', freed, hnodes, rfl⟩
  exact freelistEnd_leaves hl hnodes (fun _ => trivial) (leaves_pure rfl)

theorem worksOn_of_mem {x : Item} {call : PtCall} (hx : x ∈ ms)
    (h : ∀ a ∈ call.pages, ∃ a' ∈ x.covers, ptPath a = ptPath a')
    (hlegal : ∀ F s, MtInv C Z (ms + F) s → call.Legal (slotPaths Z) s.world.pt.stopWord) :
    WorksOn C Z ms (.tables call) :=
  Or.inr ⟨⟨x, hx, h⟩, hlegal⟩

/-- Pages that a thread has taken. -/
theorem MtInv.taken (h : MtInv C Z (.pages va n ::ₘ ms) s) : va % PGSIZE = 0 ∧ 1 ≤ n ∧ region va n ⊆ vmem Z := by
  obtain ⟨others, maps, blocks, pages, gone, k, h⟩ := h
  obtain ⟨pages', hpages, -⟩ := lists_pages.mp h.lists
  obtain ⟨halign, hn, hin, -⟩ := h.layout.taken _ (hpages.mem_iff.mpr List.mem_cons_self)
  exact ⟨halign, hn, hin⟩

/-- `pt_map_region` of pages that a thread has taken is in order. -/
theorem MtInv.mapRegion_legal {pa : Nat} (h : MtInv C Z (.pages va n ::ₘ ms) s) (hpa : pa % PGSIZE = 0) :
    (PtCall.mapRegion pa va n vremapFlags).Legal (slotPaths Z) s.world.pt.stopWord := by
  obtain ⟨halign, hn, hin⟩ := h.taken
  obtain ⟨others, maps, blocks, pages, gone, k, h⟩ := h
  obtain ⟨pages', hpages, -⟩ := lists_pages.mp h.lists
  refine h.layout.fresh.mapRegion_legal hpa halign hin (region_bound hn hin) fun a ha => ?_
  exact Or.inr ⟨(va, n), hpages.mem_iff.mpr List.mem_cons_self, ha⟩

/-- A region that a thread has. -/
theorem MtInv.region (h : MtInv C Z (.region m ::ₘ ms) s) : m.Ok L Z s.world.pt := by
  obtain ⟨others, maps, blocks, pages, gone, k, h⟩ := h
  obtain ⟨maps', hmaps, -⟩ := lists_region.mp h.lists
  exact h.layout.remap.mapsOk m (hmaps.mem_iff.mpr List.mem_cons_self)

/-- `pt_map_region` of the pages that `vp_alloc` has given, to the pages of the block. -/
theorem ptMapRegionCall_leaves (hl : l.working = none) (hZ : SlotsOk L Z) (hu : 0 < u) (hn : n = numSpannedPages b u) :
    Leaves C Z (fun result ms' => (result < 0 ∧ ms' = .pages va n ::ₘ .block b u ::ₘ ms) ∨
        (¬ result < 0 ∧ va + b % PGSIZE ≠ b ∧ ms' = .region (mappingAt va n b) ::ₘ .block b u ::ₘ ms))
      (ptMapRegionCall (roundDown (L.duneVaToPa b) PGSIZE) va n) (.pages va n ::ₘ .block b u ::ₘ ms) l := by
  refine leaves_work hl (fun _ => rfl) (fun F s h => ?_) fun F s h => ?_
  · rw [Multiset.cons_add] at h
    obtain ⟨-, hn, hin⟩ := h.taken
    refine worksOn_of_mem (Multiset.mem_cons_self _ _) ?_ fun F s h => ?_
    · rintro a ⟨j, hj, ha⟩
      exact ⟨_, page_mem_region (region_bound hn hin) hj, ha⟩
    · rw [Multiset.cons_add] at h
      exact h.mapRegion_legal (roundDown_aligned _)
  · rw [Multiset.cons_add, Multiset.cons_add] at h
    rcases h.map hZ hn rfl with ⟨hneg, hinv⟩ | ⟨hok, hinv⟩
    · exact ⟨_, by rw [Multiset.cons_add, Multiset.cons_add]; exact hinv, Or.inl ⟨hneg, rfl⟩⟩
    · refine ⟨_, by rw [Multiset.cons_add, Multiset.cons_add]; exact hinv, Or.inr ⟨hok, fun heq => ?_, rfl⟩⟩
      -- the block is in the home of the blocks, and the region is not
      have hregion := hinv.region
      have hpos : 1 ≤ (mappingAt va n b).npages := by
        have hblock := (MtInv.block (Multiset.cons_swap _ _ _ ▸ hinv)).2.2
        rw [show (mappingAt va n b).npages = numSpannedPages b u from hn]
        exact numSpannedPages_pos hblock hu
      have hmem := hregion.inVmem (hregion.ptr_mem hpos).1
      rw [show (mappingAt va n b).ptr = b from heq] at hmem
      exact home_notMem_vmem hZ hregion.home hmem

/-- `virtual_invalidate` of a whole region. -/
theorem virtualInvalidateCall_leaves (hl : l.working = none) (hZ : SlotsOk L Z) :
    Leaves C Z (fun _ ms' => ms' = .gone m.pages ::ₘ ms) (virtualInvalidateCall m.ptr m.npages) (.region m ::ₘ ms) l := by
  refine leaves_work hl (fun _ => rfl) (fun F s h => ?_) fun F s h => ?_
  · rw [Multiset.cons_add] at h
    refine worksOn_of_mem (Multiset.mem_cons_self _ _) ?_ fun F s h => ?_
    · rintro a ⟨j, hj, ha⟩
      exact ⟨_, page_mem_region h.region.bound hj, ha⟩
    · rw [Multiset.cons_add] at h
      exact h.region.invalidate_legal (Nat.zero_le _) (by simp [Mapping.base])
  · rw [Multiset.cons_add] at h
    exact ⟨_, Multiset.cons_add .. ▸ h.invalidate hZ, rfl⟩

/-- `virtual_invalidate` of the end of a region. -/
theorem virtualInvalidateCall_leaves_cut {j : Nat} (hl : l.working = none) (hZ : SlotsOk L Z) (hj : j ≤ m.npages)
    (hp : roundDown p PGSIZE = m.base + j * PGSIZE) :
    Leaves C Z (fun _ ms' => ms' = .gone (m.pages \ ({ m with npages := j } : Mapping).pages) ::ₘ
        .region { m with npages := j } ::ₘ ms)
      (virtualInvalidateCall p (m.npages - j)) (.region m ::ₘ ms) l := by
  refine leaves_work hl (fun _ => rfl) (fun F s h => ?_) fun F s h => ?_
  · rw [Multiset.cons_add] at h
    refine worksOn_of_mem (Multiset.mem_cons_self _ _) ?_ fun F s h => ?_
    · rintro a ⟨i, hi, ha⟩
      rw [hp, h.region.pgOffset_add (by omega)] at ha
      exact ⟨_, page_mem_region h.region.bound (by omega), ha⟩
    · rw [Multiset.cons_add] at h
      exact h.region.invalidate_legal hj hp
  · rw [Multiset.cons_add] at h
    refine ⟨_, ?_, rfl⟩
    rw [Multiset.cons_add, Multiset.cons_add]
    exact h.cut hZ hj hp

/-- What a thread or the client has with a pointer. -/
def Handle.things (x : Handle) : Multiset Item :=
  if x.ptr = x.block then {.block x.block x.usable} else .region x.mapping ::ₘ {.block x.block x.usable}

theorem Handle.things_home (x : Handle) (h : x.ptr = x.block) (ms : Multiset Item) :
    x.things + ms = .block x.block x.usable ::ₘ ms := by
  rw [Handle.things, if_pos h, Multiset.singleton_add]

theorem Handle.things_region (x : Handle) (h : x.ptr ≠ x.block) (ms : Multiset Item) :
    x.things + ms = .region x.mapping ::ₘ .block x.block x.usable ::ₘ ms := by
  rw [Handle.things, if_neg h, Multiset.cons_add, Multiset.singleton_add]

/-- What `vremap_map` of a block makes of it. -/
def Mapped (b u : Nat) (ms : Multiset Item) (r : Int × Nat) (ms' : Multiset Item) : Prop :=
  (r.1 < 0 ∧ ms' = Handle.things ⟨b, b, u⟩ + ms) ∨ (r.1 = VREM_OK ∧ ms' = Handle.things ⟨r.2, b, u⟩ + ms)

/-- `vremap_map` once `vp_alloc` has given the region at `va`. -/
theorem vremapMapAtProg_leaves (hl : l.working = none) (hZ : SlotsOk L Z) (hu : 0 < u) (hn : n = numSpannedPages b u)
    (hlist : ms.filterMap Item.list? = 0) :
    Leaves C Z (Mapped b u ms) (vremapMapAtProg A L b n va) (.pages va n ::ₘ .block b u ::ₘ ms) l := by
  have hchecks : Leaves C Z (fun _ ms' => ms' = .pages va n ::ₘ .block b u ::ₘ ms)
      (assertWorld fun w => (vremapMapAtChecks n va w).all PtOp.passes : MtProg σ Unit)
      (.pages va n ::ₘ .block b u ::ₘ ms) l :=
    leaves_assertWorld hl fun F s h => MtInv.mapAtChecks (Multiset.cons_add .. ▸ h)
  refine hchecks.bind ?_
  rintro _ _ rfl
  refine (ptMapRegionCall_leaves hl hZ hu hn).bind ?_
  rintro result _ (⟨hneg, rfl⟩ | ⟨hok, hne, rfl⟩)
  · rw [if_pos hneg]
    refine (vpFreeProg_leaves hl ((filterMap_skip rfl ms).trans hlist)).bind ?_
    rintro _ _ rfl
    exact leaves_pure (Or.inl ⟨by decide, (Handle.things_home ⟨b, b, u⟩ rfl ms).symm⟩)
  · rw [if_neg hok]
    refine leaves_pure (Or.inr ⟨rfl, ?_⟩)
    dsimp only
    rw [getPageOffset_l1, Handle.things_region ⟨_, b, u⟩ hne, hn]
    rfl

theorem vremapMapProg_leaves (hl : l.working = none) (hZ : SlotsOk L Z) (hu : 0 < u)
    (hlist : ms.filterMap Item.list? = 0) :
    Leaves C Z (Mapped b u ms) (vremapMapProg A L b u) (.block b u ::ₘ ms) l := by
  have hlist' : (Item.block b u ::ₘ ms).filterMap Item.list? = 0 := (filterMap_skip rfl ms).trans hlist
  refine Leaves.facts (P := L.HomeBlock b u) (fun F s h => (MtInv.block (Multiset.cons_add .. ▸ h)).2.2) fun hblock => ?_
  have hchecks : Leaves C Z (fun _ ms' => ms' = .block b u ::ₘ ms)
      (assertWorld fun w => (vremapMapChecks L b u w).all PtOp.passes : MtProg σ Unit) (.block b u ::ₘ ms) l :=
    leaves_assertWorld hl fun F s h => MtInv.mapChecks (Multiset.cons_add .. ▸ h) hu
  refine hchecks.bind ?_
  rintro _ _ rfl
  refine (vpAllocProg_leaves hl hZ (numSpannedPages_pos hblock hu) hlist').bind ?_
  rintro va _ (⟨rfl, rfl⟩ | ⟨hne, rfl⟩)
  · exact leaves_pure (Or.inl ⟨by decide, (Handle.things_home ⟨b, b, _⟩ rfl ms).symm⟩)
  · rw [if_neg hne]
    exact vremapMapAtProg_leaves hl hZ hu rfl hlist

theorem slot_npages (i : Nat) :
    u64 ((i + 1) * 2 ^ ptLevelShift .l4 + 2 ^ 64 - i * 2 ^ ptLevelShift .l4) / PGSIZE = 2 ^ 27 := by
  simp only [u64, PGSIZE, ptLevelShift, PGSHIFT, PtLevel.toNat, PT_BITS_PER_LEVEL]
  omega

theorem autoDedicateLoopProg_leaves (hl : l.working = none) (hlist : ms.filterMap Item.list? = 0) {i : Nat}
    (hi : i ≤ PT_NUM_ENTRIES) :
    Leaves C Z (fun _ ms' => ms' = .dedicating i ::ₘ ms) (autoDedicateLoopProg A i) (.dedicating 0 ::ₘ ms) l := by
  induction i with
  | zero => exact leaves_pure rfl
  | succ i ih =>
      refine (ih (Nat.le_of_succ_le hi)).bind ?_
      rintro _ _ rfl
      have hread : Leaves C Z (fun word ms' => ms' = .dedicating (i + 1) ::ₘ
          if word ≠ 0 then ms else .pages (i * 2 ^ 39) (2 ^ 27) ::ₘ ms)
          (readWorld fun w => w.pt.mem (w.pt.cr3 + 8 * i) : MtProg σ Nat) (.dedicating i ::ₘ ms) l := by
        refine leaves_readWorld hl fun F s h => ⟨_, ?_, rfl⟩
        have hturn := MtInv.turn (Multiset.cons_add .. ▸ h) hi
        rw [Multiset.cons_add]
        split_ifs at hturn ⊢ with hword
        · exact hturn
        · rw [Multiset.cons_add]
          exact hturn
      refine hread.bind ?_
      rintro word _ rfl
      by_cases hword : word ≠ 0
      · rw [if_pos hword, if_pos hword]
        exact leaves_pure rfl
      · rw [if_neg hword, if_neg hword, slot_npages, Multiset.cons_swap]
        refine (vpFreeProg_leaves hl ((filterMap_skip rfl ms).trans hlist)).bind ?_
        rintro _ _ rfl
        exact leaves_pure rfl

theorem autoDedicateProg_leaves (hl : l.working = none) (hlist : ms.filterMap Item.list? = 0) :
    Leaves C Z (fun _ ms' => ms' = .dedicating (PT_NUM_ENTRIES + 1) ::ₘ ms) (autoDedicateProg A)
      (.dedicating 0 ::ₘ ms) l := by
  unfold autoDedicateProg
  refine (autoDedicateLoopProg_leaves hl hlist le_rfl).bind ?_
  rintro _ _ rfl
  refine leaves_callWorld hl (fun _ => rfl) fun F s h => ⟨_, ?_, rfl⟩
  rw [Multiset.cons_add] at h ⊢
  exact h.flagged

theorem pthreadOnce_leaves (hl : l.working = none) (hlist : ms.filterMap Item.list? = 0)
    (hdedicating : ms.filterMap Item.dedicating? = 0) :
    Leaves C Z (fun _ ms' => ms' = .dedicated ::ₘ ms) (pthreadOnce A) ms l := by
  refine Leaves.bind (Φ := fun first ms' => ms' = (if first then .dedicating 0 else .dedicated) ::ₘ ms) ?_ ?_
  · constructor
    intro F s h
    refine ⟨fun hguard => ?_, fun hguard => ⟨hlist, Or.inr ⟨by simpa using hguard, hdedicating⟩⟩⟩
    have hchange : ∃ ms', MtInv C Z (ms' + F) { s with once := if s.once = .init then .running else s.once } ∧
        ms' = (if s.once == .init then .dedicating 0 else .dedicated) ::ₘ ms := by
      refine ⟨_, ?_, rfl⟩
      rw [Multiset.cons_add]
      cases honce : s.once with
      | init => exact MtInv.begin h honce
      | running =>
          have hguard' : (s.once != .running) = true := hguard
          rw [honce] at hguard'
          cases hguard'
      | done =>
          have hinv := MtInv.know h honce
          obtain ⟨world, locked, once⟩ := s
          obtain rfl := honce
          exact hinv
    obtain ⟨ms', hinv, hms⟩ := hchange
    exact ⟨ms', hinv, own_idle (C := C) (Z := Z) hl _, rfl, hms⟩
  · rintro first _ rfl
    cases first with
    | false => exact leaves_pure rfl
    | true =>
        refine (autoDedicateProg_leaves hl hlist).bind ?_
        rintro _ _ rfl
        constructor
        intro F s h
        refine ⟨fun _ => ⟨.dedicated ::ₘ ms, ?_, own_idle (C := C) (Z := Z) hl _, rfl, rfl⟩, nofun⟩
        rw [Multiset.cons_add]
        exact MtInv.finish (Multiset.cons_add .. ▸ h)

/-- What a thread may know after `do_vremap`. -/
def Known (ks : Multiset Item) : Prop := ks = 0 ∨ ks = {.dedicated}

/-- Once virtual memory was dedicated there is no other turn. -/
theorem vremapRetryProg_leaves_known {fuel : Nat} (hl : l.working = none) (hZ : SlotsOk L Z) (hu : 0 < u)
    (hlist : ms.filterMap Item.list? = 0) :
    Leaves C Z (Mapped b u (.dedicated ::ₘ ms)) (vremapRetryProg A L b u (fuel + 1)) (.block b u ::ₘ .dedicated ::ₘ ms) l := by
  refine (vremapMapProg_leaves hl hZ hu ((filterMap_skip rfl ms).trans hlist)).bind ?_
  intro r ms' hr
  by_cases hnoVm : r.1 = EVREM_NO_VM
  · rw [if_pos hnoVm]
    have hms : ms' = Handle.things ⟨b, b, u⟩ + (.dedicated ::ₘ ms) := by
      rcases hr with ⟨-, hms⟩ | ⟨hok, -⟩
      · exact hms
      · exact absurd (hnoVm.symm.trans hok) (by decide)
    have hread : Leaves C Z (fun happened ms'' => happened = true ∧ ms'' = ms') (readWorld World.autoDedicated) ms' l := by
      refine leaves_readWorld hl fun F s h => ⟨_, h, ?_, rfl⟩
      rw [hms, Multiset.add_cons, Multiset.cons_add] at h
      exact h.known.1
    refine hread.bind ?_
    rintro _ _ ⟨rfl, rfl⟩
    exact leaves_pure hr
  · rw [if_neg hnoVm]
    exact leaves_pure hr

theorem vremapRetryProg_leaves {fuel : Nat} (hl : l.working = none) (hZ : SlotsOk L Z) (hu : 0 < u)
    (hlist : ms.filterMap Item.list? = 0) (hdedicating : ms.filterMap Item.dedicating? = 0) :
    Leaves C Z (fun r ms' => ∃ ks, Known ks ∧ Mapped b u (ks + ms) r ms') (vremapRetryProg A L b u (fuel + 2))
      (.block b u ::ₘ ms) l := by
  have hfirst : ∀ {r ms'}, Mapped b u ms r ms' → ∃ ks, Known ks ∧ Mapped b u (ks + ms) r ms' := fun hr =>
    ⟨0, Or.inl rfl, by rwa [zero_add]⟩
  refine (vremapMapProg_leaves hl hZ hu hlist).bind ?_
  intro r ms' hr
  by_cases hnoVm : r.1 = EVREM_NO_VM
  · rw [if_pos hnoVm]
    have hms : ms' = .block b u ::ₘ ms := by
      rcases hr with ⟨-, hms⟩ | ⟨hok, -⟩
      · exact hms.trans (Handle.things_home ⟨b, b, u⟩ rfl ms)
      · exact absurd (hnoVm.symm.trans hok) (by decide)
    refine Leaves.bind (Φ := fun _ ms'' => ms'' = ms') (leaves_readWorld hl fun F s h => ⟨_, h, rfl⟩) ?_
    rintro happened _ rfl
    cases happened with
    | true => exact leaves_pure (hfirst hr)
    | false =>
        rw [hms]
        have hlist' : (Item.block b u ::ₘ ms).filterMap Item.list? = 0 := (filterMap_skip rfl ms).trans hlist
        have hdedicating' : (Item.block b u ::ₘ ms).filterMap Item.dedicating? = 0 :=
          (filterMap_skip rfl ms).trans hdedicating
        refine (pthreadOnce_leaves hl hlist' hdedicating').bind ?_
        rintro _ _ rfl
        rw [Multiset.cons_swap]
        exact (vremapRetryProg_leaves_known hl hZ hu hlist).mono fun r ms' hr' => ⟨{.dedicated}, Or.inr rfl, hr'⟩
  · rw [if_neg hnoVm]
    exact leaves_pure (hfirst hr)

/-- `do_vremap` of a block answers the block itself or a pointer into a region of it. -/
theorem doVremapProg_leaves {size : Nat} (hl : l.working = none) (hZ : SlotsOk L Z) (hb : b ≠ 0) (hsize : 0 < size)
    (hle : size ≤ u) (hlist : ms.filterMap Item.list? = 0) (hdedicating : ms.filterMap Item.dedicating? = 0) :
    Leaves C Z (fun r ms' => ∃ ks, Known ks ∧ ms' = Handle.things ⟨r, b, u⟩ + (ks + ms)) (doVremapProg A L b size)
      (.block b u ::ₘ ms) l := by
  unfold doVremapProg
  rw [if_neg (by omega)]
  refine (sysmallocUsableSizeProg_leaves hl).bind ?_
  rintro _ _ ⟨rfl, rfl⟩
  refine (vremapRetryProg_leaves hl hZ (by omega) hlist hdedicating).bind ?_
  rintro r _ ⟨ks, hks, ⟨hneg, rfl⟩ | ⟨hok, rfl⟩⟩
  · rw [if_pos hneg]
    exact leaves_pure ⟨ks, hks, rfl⟩
  · rw [if_neg (by rw [hok]; decide)]
    exact leaves_pure ⟨ks, hks, rfl⟩

/-- Without a block, or for 0 bytes, it answers `NULL`. -/
theorem doVremapProg_leaves_null {size : Nat} (h : b = 0 ∨ size = 0) :
    Leaves C Z (fun r ms' => r = 0 ∧ ms' = ms) (doVremapProg A L b size) ms l := by
  unfold doVremapProg
  rw [if_pos h]
  exact leaves_pure ⟨rfl, rfl⟩

end Dangless
