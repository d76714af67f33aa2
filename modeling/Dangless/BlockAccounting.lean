import Dangless.TemporalSafety

/-! The blocks that the library has handed out on behalf of the client, over whole runs that also call
`dangless_posix_memalign`. A call that asks for 0 bytes, and every `dangless_posix_memalign`, drops the block
that the library answers with. -/

namespace Dangless

variable {σ : Type} {A : SysAllocator σ} {L : DuneLayout} {C : SysContract A L}
  {Z : Fin PT_NUM_ENTRIES → Prop} {others initial : Set Nat} {hs : List Handle} {stale : List Mapping}
  {w : World σ} {c c' : Client σ} {storage : Nat}

/-- The calls of the client; `old` is what `*pp` holds before `dangless_posix_memalign`. -/
inductive BlockCall where
  | plain (call : ClientCall)
  | posixMemalign (pp align size old : Nat)

/-- With `dangless_posix_memalign`, which hands over what it stores in `*pp` where it returns 0. -/
inductive BlockStep (C : SysContract A L) (storage : Nat) : Client σ → BlockCall → Client σ → Prop
  | plain {c c' : Client σ} {call : ClientCall} (h : ClientStep C storage c call c') :
      BlockStep C storage c (.plain call) c'
  | posixMemalign (c : Client σ) (pp align size old : Nat)
      (h : (danglessPosixMemalign A L pp align size old c.world).1 = 0) :
      BlockStep C storage c (.posixMemalign pp align size old)
        ⟨(danglessPosixMemalign A L pp align size old c.world).2.2,
          gain (danglessPosixMemalign A L pp align size old c.world).2.1 c.held, c.released⟩
  | posixMemalignFailed (c : Client σ) (pp align size old : Nat)
      (h : (danglessPosixMemalign A L pp align size old c.world).1 ≠ 0) :
      BlockStep C storage c (.posixMemalign pp align size old)
        ⟨(danglessPosixMemalign A L pp align size old c.world).2.2, c.held, c.released⟩

/-- The call has no block to lose: where it asks for 0 bytes the library answers `NULL`, and `memalign`
answers `NULL` while `*pp` does not make `do_vremap` remap anything. -/
def KeepsBlocks (A : SysAllocator σ) (L : DuneLayout) (c : Client σ) : BlockCall → Prop
  | .plain call => Lossless A L c call
  | .posixMemalign pp align size old =>
      (A.memalign pp align c.world.sys).1 = 0 ∧ (old = 0 ∨ size = 0)

/-- The live blocks are the initial ones, the span objects and those behind the pointers held, each of the
latter behind one pointer only. -/
structure BlocksExact (C : SysContract A L) (initial : Set Nat) (c : Client σ) : Prop where
  live : ∀ b, b ∈ C.live c.world.sys ↔
    b ∈ initial ∨ b ∈ nodes c.world.items ∨ ∃ p ∈ c.held, originalPtr L c.world.pt p = b
  oneToOne : (c.held.map (originalPtr L c.world.pt)).Nodup
  apart : ∀ p ∈ c.held,
    originalPtr L c.world.pt p ∉ initial ∧ originalPtr L c.world.pt p ∉ nodes c.world.items

theorem ClientInv.blocksExact (hZ : SlotsOk L Z) (h : ClientInv C Z others hs stale c) :
    BlocksExact C others c := by
  have hsys := h.accounted.sound.sys
  have hperm := h.accounted.originalPtrs_perm hZ
  have hblocks : (blocksOf hs).map Prod.fst = hs.map Handle.block := by
    rw [blocksOf, List.map_map]
    rfl
  have hnodup := hsys.nodup
  have happart := hsys.apart
  rw [hblocks] at hnodup happart
  obtain ⟨hblocksNodup, -, hdisjoint⟩ := List.nodup_append.mp hnodup
  refine ⟨fun b => ?_, hperm.nodup_iff.mpr hblocksNodup, fun p hp => ?_⟩
  · rw [hsys.live_eq, hblocks]
    have hheld : (∃ p ∈ c.held, originalPtr L c.world.pt p = b) ↔ b ∈ hs.map Handle.block := by
      rw [← hperm.mem_iff, List.mem_map]
    rw [hheld, Set.mem_union, Set.mem_ofPred_eq, List.mem_append]
    tauto
  · have hmem := hperm.mem_iff.mp (List.mem_map_of_mem hp)
    exact ⟨happart _ (List.mem_append_left _ hmem), fun hnode => hdisjoint _ hmem _ hnode rfl⟩

theorem Lossless.resolvable {call : ClientCall} (h : Lossless A L c call) : Resolvable C c call := by
  refine Or.inr fun p n hcall hzero => ?_
  rw [hcall] at h
  exact h hzero

/-- Where `memalign` answers `NULL`, so does `dangless_posix_memalign`. -/
theorem danglessPosixMemalign_null {pp align size old : Nat} (hready : Ready w)
    (hnull : (A.memalign pp align w.sys).1 = 0) (hold : old = 0 ∨ size = 0) :
    danglessPosixMemalign A L pp align size old w =
      (0, 0, { w with sys := (A.memalign pp align w.sys).2, hookDepth := 0 }) := by
  have hready' : Ready (sysmemalign A pp align w).2 := hready.of_modes rfl
  have hresult : (sysmemalign A pp align w).1 = 0 := by
    change (A.memalign pp align w.sys).1 % 2 ^ 32 = 0
    rw [hnull, Nat.zero_mod]
  have hvremap : ∀ w', hookVremap A L old size w' = (0, hookExit w') := by
    intro w'
    rw [hookVremap, doVremap, if_pos hold]
  unfold danglessPosixMemalign
  dsimp only
  rw [hresult, if_neg (fun h => h rfl), hready'.hookEnter]
  dsimp only
  rw [hvremap]
  rfl

/-- A step that keeps the blocks keeps the invariant, with the blocks of others as they were. -/
theorem ClientInv.blockStep {call : BlockCall} (hZ : SlotsOk L Z) (h : ClientInv C Z others hs stale c)
    (hstep : BlockStep C storage c call c') (hkeeps : KeepsBlocks A L c call) :
    ∃ hs' stale', ClientInv C Z others hs' stale' c' := by
  have hmemalign : ∀ pp align size old, KeepsBlocks A L c (.posixMemalign pp align size old) →
      ClientInv C Z others hs stale
        ⟨(danglessPosixMemalign A L pp align size old c.world).2.2, c.held, c.released⟩ := by
    rintro pp align size old ⟨hnull, hold⟩
    have hsound := h.accounted.sound
    obtain ⟨hok, hr⟩ := C.memalign c.world.sys pp align hsound.sys.ok
    rw [danglessPosixMemalign_null h.ready hnull hold]
    have hsys : SysInv C others (blocksOf hs)
        { c.world with sys := (A.memalign pp align c.world.sys).2, hookDepth := 0 } :=
      hsound.sys.obtain_null hok hr hnull rfl rfl hsound.sys.own
    have hacc : Accounted C Z others hs stale c.held
        { c.world with sys := (A.memalign pp align c.world.sys).2, hookDepth := 0 } :=
      ⟨h.accounted.held, h.accounted.usable, ⟨⟨hsys, hsound.remap⟩, hsound.undedicated⟩⟩
    refine h.keep (Spends.same _ ?_ rfl rfl) hacc
    simp only [World.modes, h.ready.hookDepth]
  cases hstep with
  | plain hplain =>
      obtain ⟨others', hs', stale', hresult⟩ := h.step hZ hplain (Lossless.resolvable hkeeps)
      rw [← hresult.others hkeeps]
      exact ⟨hs', stale', hresult.inv⟩
  | posixMemalign pp align size old _ =>
      have hgain : gain (danglessPosixMemalign A L pp align size old c.world).2.1 c.held = c.held := by
        rw [danglessPosixMemalign_null h.ready hkeeps.1 hkeeps.2]
        exact gain_zero _
      rw [hgain]
      exact ⟨hs, stale, hmemalign pp align size old hkeeps⟩
  | posixMemalignFailed pp align size old _ => exact ⟨hs, stale, hmemalign pp align size old hkeeps⟩

/-- The steps that keep the blocks. -/
def KeepingStep (C : SysContract A L) (storage : Nat) (c : Client σ) (call : BlockCall) (c' : Client σ) :
    Prop := BlockStep C storage c call c' ∧ KeepsBlocks A L c call

theorem ClientInv.blockRun {calls : List BlockCall} (hZ : SlotsOk L Z) (h : ClientInv C Z others hs stale c)
    (hrun : Lts.Run (KeepingStep C storage) c calls c') : ∃ hs' stale', ClientInv C Z others hs' stale' c' := by
  apply hrun.invariant (I := fun c => ∃ hs stale, ClientInv C Z others hs stale c)
  · rintro s label t ⟨hs1, stale1, hinv⟩ ⟨hstep, hkeeps⟩
    exact hinv.blockStep hZ hstep hkeeps
  · exact ⟨hs, stale, h⟩

/-- The client can always free everything it holds. -/
theorem freeAll (C : SysContract A L) (storage : Nat) (c : Client σ) :
    ∃ c' : Client σ, Lts.Run (KeepingStep C storage) c (c.held.map fun p => .plain (.free p)) c' ∧
      c'.held = [] := by
  obtain ⟨world, held, released⟩ := c
  induction held generalizing world released with
  | nil => exact ⟨_, Lts.Run.nil _, rfl⟩
  | cons p held ih =>
      have hfree : KeepingStep C storage ⟨world, p :: held, released⟩ (.plain (.free p)) _ :=
        ⟨.plain (ClientStep.free _ p List.mem_cons_self), trivial⟩
      rw [List.erase_cons_head] at hfree
      obtain ⟨c', hrun, hnil⟩ := ih (danglessFree A L p world)
        (Client.release L ⟨world, p :: held, released⟩ p)
      exact ⟨c', (Lts.Run.single hfree).append hrun, hnil⟩

/-- **No block is lost**: in every run whose calls all keep their blocks, the live blocks are those behind the
pointers held, and once the client has freed these, those it started with. -/
theorem blocksExact_of_run {calls : List BlockCall} (hstart : DuneStart C w)
    (hrun : Lts.Run (KeepingStep C storage) ⟨w, [], []⟩ calls c) :
    BlocksExact C (C.live w.sys) c ∧
      ∃ c', Lts.Run (KeepingStep C storage) c (c.held.map fun p => .plain (.free p)) c' ∧ c'.held = [] ∧
        ∀ b, b ∈ C.live c'.world.sys ↔ b ∈ C.live w.sys ∨ b ∈ nodes c'.world.items := by
  have hZ := hstart.slotsOk
  obtain ⟨hs, stale, hinv⟩ := hstart.inv.blockRun hZ hrun
  obtain ⟨c', hfrees, hnil⟩ := freeAll C storage c
  obtain ⟨hs', stale', hinv'⟩ := hinv.blockRun hZ hfrees
  refine ⟨hinv.blocksExact hZ, c', hfrees, hnil, fun b => ?_⟩
  rw [(hinv'.blocksExact hZ).live, hnil]
  simp

theorem blocksExact_of_run_twoBlocks : BlocksExact (bumpContract duneLayout) (BumpHeap.live duneWorld.sys)
    twoBlocks := by
  have hkeeps : ∀ c size, size ≠ 0 → KeepsBlocks bumpAllocator duneLayout c (.plain (.malloc size)) :=
    fun _ _ hsize hzero => absurd hzero hsize
  have hfirst : KeepingStep (bumpContract duneLayout) 0 _ _ _ := ⟨.plain oneBlock_step, hkeeps _ _ (by decide)⟩
  have hsecond : KeepingStep (bumpContract duneLayout) 0 _ _ _ := ⟨.plain twoBlocks_step, hkeeps _ _ (by decide)⟩
  exact (blocksExact_of_run duneWorld_start ((Lts.Run.single hfirst).snoc hsecond)).1

/-- `dangless_malloc(0)` loses the block that the library has answered with. -/
theorem malloc_zero_loses : ∃ c : Client BumpHeap,
    Lts.Run (BlockStep (bumpContract duneLayout) 0) ⟨duneWorld, [], []⟩ [.plain (.malloc 0)] c ∧
      c.held = [] ∧ ¬ BlocksExact (bumpContract duneLayout) (BumpHeap.live duneWorld.sys) c := by
  obtain ⟨hanswer, hblocks, hitems⟩ : (danglessMalloc bumpAllocator duneLayout 0 duneWorld).1 = 0 ∧
      (danglessMalloc bumpAllocator duneLayout 0 duneWorld).2.sys.blocks = [(PGSIZE, 16)] ∧
      nodes (danglessMalloc bumpAllocator duneLayout 0 duneWorld).2.items = [] := by decide +kernel
  have hstep : ClientStep (bumpContract duneLayout) 0 _ _ _ := ClientStep.malloc ⟨duneWorld, [], []⟩ 0
  rw [hanswer, gain_zero] at hstep
  refine ⟨_, Lts.Run.single (.plain hstep), rfl, fun hexact => ?_⟩
  have hlive : PGSIZE ∈ BumpHeap.live (danglessMalloc bumpAllocator duneLayout 0 duneWorld).2.sys := by
    refine ⟨(PGSIZE, 16), ?_, rfl⟩
    rw [hblocks]
    exact List.mem_cons_self
  rcases (hexact.live PGSIZE).mp hlive with ⟨y, hy, -⟩ | hnode | ⟨p, hp, -⟩
  · exact absurd hy List.not_mem_nil
  · dsimp only at hnode
    rw [hitems] at hnode
    exact absurd hnode List.not_mem_nil
  · exact absurd hp List.not_mem_nil

end Dangless
