import Dangless.TemporalSafety

/-! A pointer that is passed to `dangless_free` or `dangless_realloc` once more after it was released. The
page of such a pointer is not backed any more, `vremap_resolve` answers `EVREM_NO_PHYS_BACK`, and both
functions then hand the pointer itself to the library. -/

namespace Dangless

variable {σ : Type} {A : SysAllocator σ} {L : DuneLayout} {C : SysContract A L}
  {Z : Fin PT_NUM_ENTRIES → Prop} {others : Set Nat} {hs : List Handle} {stale : List Mapping}
  {w w' w'' : World σ} {c : Client σ} {calls : List ClientCall} {storage p n : Nat}

/-- The events between two states of a run. -/
def newEvents (w w' : World σ) : List (Event σ) := w'.trace.take (w'.trace.length - w.trace.length)

theorem newEvents_of_append {events : List (Event σ)} (h : w'.trace = events ++ w.trace) :
    newEvents w w' = events := by
  rw [newEvents, h, List.length_append, Nat.add_sub_cancel, List.take_left]

def Event.IsRealloc : Event σ → Prop
  | .sysrealloc _ _ => True
  | _ => False

/-- From one state to another there are only events that are no `sysrealloc`. -/
def NoRealloc (w w' : World σ) : Prop :=
  ∃ events, w'.trace = events ++ w.trace ∧ ∀ e ∈ events, ¬ e.IsRealloc

theorem NoRealloc.refl (w : World σ) : NoRealloc w w := ⟨[], rfl, by simp⟩

theorem NoRealloc.trans (h : NoRealloc w w') (h' : NoRealloc w' w'') : NoRealloc w w'' := by
  obtain ⟨events, htrace, hevents⟩ := h
  obtain ⟨events', htrace', hevents'⟩ := h'
  refine ⟨events' ++ events, ?_, fun e he => ?_⟩
  · rw [htrace', htrace, List.append_assoc]
  · rcases List.mem_append.mp he with he | he
    · exact hevents' e he
    · exact hevents e he

theorem NoRealloc.event {e : Event σ} (htrace : w'.trace = e :: w.trace) (he : ¬ e.IsRealloc) :
    NoRealloc w w' := by
  refine ⟨[e], htrace, fun e' he' => ?_⟩
  rw [List.mem_singleton.mp he']
  exact he

theorem NoRealloc.same (htrace : w'.trace = w.trace) : NoRealloc w w' := ⟨[], htrace, by simp⟩

theorem NoRealloc.retable (w : World σ) (pt : PtState) : NoRealloc w { w with pt := pt } :=
  NoRealloc.same rfl

theorem freeNodes_noRealloc (nodes : List Nat) (w : World σ) : NoRealloc w (freeNodes A nodes w) := by
  induction nodes generalizing w with
  | nil => exact NoRealloc.refl w
  | cons node nodes ih =>
      have hfree : NoRealloc w (sysfree A node w) := NoRealloc.event rfl not_false
      exact hfree.trans (ih _)

theorem vpAlloc_noRealloc (npages : Nat) (w : World σ) : NoRealloc w (vpAlloc A npages w).2 := by
  have hfree := freeNodes_noRealloc (A := A) (freelistAlloc npages w.items).freed
    { w with items := (freelistAlloc npages w.items).items }
  exact NoRealloc.trans hfree (NoRealloc.event rfl not_false)

theorem vpFree_noRealloc (p npages : Nat) (w : World σ) : NoRealloc w (vpFree A p npages w).2 := by
  unfold vpFree
  dsimp only
  refine NoRealloc.trans (NoRealloc.trans ?_ (freeNodes_noRealloc _ _)) (NoRealloc.event rfl not_false)
  apply NoRealloc.same
  cases freelistFreeNeedsNode w.items p npages <;> rfl

theorem vremapMapAt_noRealloc (ptr npages va : Nat) (w : World σ) :
    NoRealloc w (vremapMapAt A L ptr npages va w).world := by
  unfold vremapMapAt
  dsimp only
  split_ifs
  · exact NoRealloc.trans (NoRealloc.same rfl) (vpFree_noRealloc _ _ _)
  · exact NoRealloc.same rfl

theorem vremapMap_noRealloc (ptr size : Nat) (w : World σ) : NoRealloc w (vremapMap A L ptr size w).world := by
  unfold vremapMap
  dsimp only
  split_ifs
  · exact vpAlloc_noRealloc _ w
  · exact (vpAlloc_noRealloc _ w).trans (vremapMapAt_noRealloc _ _ _ _)

theorem danglessDedicateVmem_noRealloc (start end_ : Nat) (w : World σ) :
    NoRealloc w (danglessDedicateVmem A start end_ w).2 := vpFree_noRealloc _ _ _

theorem autoDedicateLoop_noRealloc (w : World σ) (i : Nat) : NoRealloc w (autoDedicateLoop A w i) := by
  induction i with
  | zero => exact NoRealloc.refl w
  | succ i ih =>
      rw [autoDedicateLoop]
      split_ifs
      · exact ih
      · exact ih.trans (danglessDedicateVmem_noRealloc _ _ _)

theorem autoDedicateVmem_noRealloc (w : World σ) : NoRealloc w (autoDedicateVmem A w) := by
  have hloop := autoDedicateLoop_noRealloc (A := A) w PT_NUM_ENTRIES
  unfold autoDedicateVmem
  generalize autoDedicateLoop A w PT_NUM_ENTRIES = w1 at hloop ⊢
  exact hloop.trans (NoRealloc.same rfl)

theorem doVremap_noRealloc (p size : Nat) (w : World σ) : NoRealloc w (doVremap A L p size w).2 := by
  have hretry : ∀ actualSize w, NoRealloc w (vremapRetry A L p actualSize w).world := by
    intro actualSize w
    have hfirst := vremapMap_noRealloc (A := A) (L := L) p actualSize w
    unfold vremapRetry
    dsimp only
    split_ifs
    · exact (hfirst.trans (autoDedicateVmem_noRealloc _)).trans (vremapMap_noRealloc _ _ _)
    · exact hfirst
  have husable : NoRealloc w (sysmallocUsableSize A p w).2 := NoRealloc.event rfl not_false
  unfold doVremap
  dsimp only
  split_ifs
  · exact NoRealloc.refl w
  · exact husable.trans (hretry _ _)
  · exact husable.trans (hretry _ _)

/-- Every pointer that a releasing call hands to the library's `free` or `realloc` is a live block. -/
def OwnReleases (C : SysContract A L) (c : Client σ) : ClientCall → Prop
  | .free p => ∀ q s, .sysfree q s ∈ newEvents c.world (danglessFree A L p c.world) → q ∈ C.live s
  | .realloc p n =>
      ∀ q s, .sysrealloc q s ∈ newEvents c.world (danglessRealloc A L p n c.world).2 → q ∈ C.live s
  | .malloc _ => True
  | .calloc _ _ => True

/-- `dangless_free` hands exactly one pointer to the library. -/
theorem ownReleases_free_iff (hready : Ready c.world) (hp : p ≠ 0) :
    OwnReleases C c (.free p) ↔ originalPtr L c.world.pt p ∈ C.live c.world.sys := by
  obtain ⟨events, htrace, hevents⟩ : ∃ events, (danglessFree A L p c.world).trace =
      .sysfree (originalPtr L c.world.pt p) c.world.sys :: events ++ c.world.trace ∧
      ∀ q s, .sysfree q s ∉ events := by
    rw [danglessFree_eq hready hp, originalPtr, if_neg hp]
    unfold danglessFreeHooked
    dsimp only
    split_ifs
    · exact ⟨[.mallocUsableSize _ c.world.sys], rfl, by simp⟩
    · exact ⟨[], rfl, by simp⟩
  change (∀ q s, .sysfree q s ∈ newEvents c.world _ → _) ↔ _
  rw [newEvents_of_append htrace]
  constructor
  · intro hown
    exact hown _ _ List.mem_cons_self
  · intro hlive q s he
    rcases List.mem_cons.mp he with heq | he
    · cases heq
      exact hlive
    · exact absurd he (hevents q s)

theorem vremapResolve_getD {pt : PtState} (h : (vremapResolve L pt p).1 ≠ VREM_OK) :
    (vremapResolve L pt p).2.getD p = p := by
  unfold vremapResolve at h ⊢
  dsimp only at h ⊢
  split_ifs with hnone hsame
  · rfl
  · rfl
  · rw [if_neg hnone, if_neg hsame] at h
    exact absurd rfl h

/-- `dangless_realloc` calls the library's `realloc` once. -/
theorem danglessReallocHooked_events (p n : Nat) (hp : p ≠ 0) (w : World σ) : ∃ w1 : World σ,
    NoRealloc w w1 ∧ w1.sys = w.sys ∧
      NoRealloc (sysrealloc A (originalPtr L w.pt p) n w1).2 (danglessReallocHooked A L p n w).2 := by
  have hnew : ∀ b old newp w1, NoRealloc w1 (danglessReallocNew A L p b old newp n w1).2 := by
    intro b old newp w1
    have husable : NoRealloc w1 (sysmallocUsableSize A newp w1).2 := NoRealloc.event rfl not_false
    unfold danglessReallocNew
    dsimp only
    generalize sysmallocUsableSize A newp w1 = usable at husable ⊢
    split_ifs
    · exact husable
    · exact husable.trans (NoRealloc.retable _ _)
    · apply NoRealloc.trans husable
      apply NoRealloc.trans (NoRealloc.retable _ (virtualInvalidate usable.2.pt p old))
      exact doVremap_noRealloc newp n _
  rw [originalPtr, if_neg hp]
  unfold danglessReallocHooked
  dsimp only
  split_ifs with hremapped
  · generalize (vremapResolve L w.pt p).2.getD p = b
    refine ⟨(sysmallocUsableSize A b w).2, NoRealloc.event rfl not_false, rfl, ?_⟩
    unfold danglessReallocRemapped
    dsimp only
    split_ifs
    · exact NoRealloc.refl _
    · exact hnew _ _ _ _
  · rw [vremapResolve_getD fun hok => hremapped ⟨hp, hok⟩]
    exact ⟨w, NoRealloc.refl w, rfl, doVremap_noRealloc _ _ _⟩

/-- So does `dangless_realloc`. -/
theorem ownReleases_realloc_iff (hready : Ready c.world) (hp : p ≠ 0) (n : Nat) :
    OwnReleases C c (.realloc p n) ↔ originalPtr L c.world.pt p ∈ C.live c.world.sys := by
  have hevents := danglessReallocHooked_events (A := A) (L := L) p n hp { c.world with hookDepth := 1 }
  change (∀ q s, .sysrealloc q s ∈ newEvents c.world _ → _) ↔ _
  rw [danglessRealloc_eq hready]
  generalize danglessReallocHooked A L p n { c.world with hookDepth := 1 } = r at hevents ⊢
  obtain ⟨w1, ⟨before, hbefore, hnone⟩, hsys, ⟨after, hafter, hnone'⟩⟩ := hevents
  have htrace : (hookExit r.2).trace =
      (after ++ .sysrealloc (originalPtr L c.world.pt p) c.world.sys :: before) ++ c.world.trace := by
    calc (hookExit r.2).trace = after ++ (sysrealloc A (originalPtr L c.world.pt p) n w1).2.trace := hafter
      _ = after ++ .sysrealloc (originalPtr L c.world.pt p) w1.sys :: w1.trace := rfl
      _ = _ := by rw [hbefore, hsys, List.append_assoc, List.cons_append]
  rw [newEvents_of_append htrace]
  constructor
  · intro hown
    exact hown _ _ (List.mem_append_right _ List.mem_cons_self)
  · intro hlive q s he
    rcases List.mem_append.mp he with he | he
    · exact absurd trivial (hnone' _ he)
    rcases List.mem_cons.mp he with heq | he
    · cases heq
      exact hlive
    · exact absurd trivial (hnone _ he)

/-- A released pointer leads to a live block where its region was left behind and the library has handed
out the address of its block again. -/
def Reused (C : SysContract A L) (w : World σ) (p : Nat) : Prop :=
  ∃ b ∈ C.live w.sys, vremapResolve L w.pt p = (VREM_OK, some b)

/-- What `dangless_free` and `dangless_realloc` make of a released pointer. -/
theorem ClientInv.originalPtr_live_iff (hZ : SlotsOk L Z) (h : ClientInv C Z others hs stale c)
    (hp : p ∈ c.released) : p ≠ 0 ∧ (originalPtr L c.world.pt p ∈ C.live c.world.sys ↔ Reused C c.world p) := by
  have hremap := h.accounted.sound.remap
  rcases h.released p hp with hout | ⟨m, hm, rfl⟩
  · -- the page is gone: the pointer stands for itself, and is no block
    have hne : p ≠ 0 := by
      rintro rfl
      exact zero_notMem_vmem hZ hout.inVmem
    have hresolve : vremapResolve L c.world.pt p = (EVREM_NO_PHYS_BACK, none) :=
      if_pos (hout.resolve hremap)
    refine ⟨hne, ?_, ?_⟩
    · rw [originalPtr, if_neg hne, hresolve]
      intro hlive
      have hhome := (C.home _ _ h.accounted.sound.sys.ok hlive).home
      exact absurd hout.inVmem (home_notMem_vmem hZ hhome)
    · rintro ⟨b, -, hb⟩
      have hcode := (Prod.mk.inj (hresolve.symm.trans hb)).1
      exact absurd hcode (show EVREM_NO_PHYS_BACK ≠ VREM_OK by decide)
  · -- the region was left behind and leads to its old block
    have hok := hremap.mapsOk m (List.mem_append_right _ hm)
    obtain ⟨hn, hframe⟩ := h.staleOk m hm
    have hresolve := hok.vremapResolve_eq hZ hframe hn
    have hne : m.ptr ≠ 0 := by
      intro hzero
      have hmem := hok.inVmem (hok.ptr_mem hn).1
      exact zero_notMem_vmem hZ (hzero ▸ hmem)
    rw [originalPtr, if_neg hne, hresolve]
    refine ⟨hne, fun hlive => ⟨m.block, hlive, hresolve⟩, ?_⟩
    rintro ⟨b, hlive, hb⟩
    obtain rfl : m.block = b := Option.some.inj (Prod.mk.inj (hresolve.symm.trans hb)).2
    exact hlive

/-- **A repeated release is forwarded to the library**: after any run, what the call with a pointer that was
released before hands to the library is a live block only where the pointer leads to one again. -/
theorem ownReleases_iff_reused (hstart : DuneStart C w)
    (hrun : Lts.Run (ClientStep C storage) ⟨w, [], []⟩ calls c)
    (hsized : MinimumSize C ∨ ∀ call ∈ calls, call.Sized) (hp : p ∈ c.released) :
    (OwnReleases C c (.free p) ↔ Reused C c.world p) ∧
      ∀ n, OwnReleases C c (.realloc p n) ↔ Reused C c.world p := by
  have hZ := hstart.slotsOk
  obtain ⟨others', hs', stale', hinv, -, -⟩ := hstart.inv.run hZ hrun hsized
  obtain ⟨hne, hiff⟩ := hinv.originalPtr_live_iff hZ hp
  constructor
  · exact (ownReleases_free_iff hinv.ready hne).trans hiff
  · intro n
    exact (ownReleases_realloc_iff hinv.ready hne n).trans hiff

/-- The client after its only block was freed. -/
def noBlock : Client BumpHeap :=
  ⟨danglessFree bumpAllocator duneLayout PHYS_LIMIT oneBlock.world, [], [PHYS_LIMIT]⟩

theorem noBlock_run : Lts.Run (ClientStep (bumpContract duneLayout) 0) ⟨duneWorld, [], []⟩
    ([.malloc 32] ++ [.free PHYS_LIMIT]) noBlock := by
  apply Lts.Run.snoc oneBlock_run
  have hfree : ClientStep (bumpContract duneLayout) 0 _ _ _ :=
    ClientStep.free oneBlock PHYS_LIMIT List.mem_cons_self
  have hreleased : Client.release duneLayout oneBlock PHYS_LIMIT = [PHYS_LIMIT] := by
    rw [Client.release, oneBlock_resolve]
    rfl
  rw [hreleased] at hfree
  exact hfree

theorem noBlock_state : vremapResolve duneLayout noBlock.world.pt PHYS_LIMIT = (EVREM_NO_PHYS_BACK, none) ∧
    ∀ y ∈ noBlock.world.sys.blocks, y.1 ≠ PHYS_LIMIT := by decide +kernel

theorem ownReleases_iff_reused_noBlock :
    ¬ OwnReleases (bumpContract duneLayout) noBlock (.realloc PHYS_LIMIT 32) := by
  have hiff := ownReleases_iff_reused duneWorld_start noBlock_run (Or.inr (by simp [ClientCall.Sized]))
    List.mem_cons_self
  rw [hiff.2]
  rintro ⟨b, -, hb⟩
  rw [noBlock_state.1] at hb
  exact absurd (Prod.mk.inj hb).1 (by decide)

/-- The second `dangless_free` of a pointer hands it to the library, whose block it never was. -/
theorem doubleFree_forwarded : Lts.Run (ClientStep (bumpContract duneLayout) 0) ⟨duneWorld, [], []⟩
    ([.malloc 32] ++ [.free PHYS_LIMIT]) noBlock ∧ PHYS_LIMIT ∈ noBlock.released ∧
      ¬ OwnReleases (bumpContract duneLayout) noBlock (.free PHYS_LIMIT) := by
  refine ⟨noBlock_run, List.mem_cons_self, ?_⟩
  obtain ⟨others, hs, stale, hinv, -, -⟩ := duneWorld_start.inv.run duneWorld_start.slotsOk noBlock_run
    (Or.inr (by simp [ClientCall.Sized]))
  rw [ownReleases_free_iff hinv.ready (by decide), originalPtr, if_neg (by decide), noBlock_state.1]
  rintro ⟨y, hy, hblock⟩
  exact noBlock_state.2 y hy hblock

end Dangless
