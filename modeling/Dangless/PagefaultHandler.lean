import Dangless.ClientTrace

/-! The page-fault handler of `platform/dune/init.c`, and what a processor with a TLB sees of the calls of a client: an
access to a page that was released faults, and the handler reports exactly such accesses as dangling. -/

namespace Dangless

open Tlb Tlb.Machine

variable {σ : Type} {A : SysAllocator σ} {L : DuneLayout} {C : SysContract A L}
  {Z : Fin PT_NUM_ENTRIES → Prop} {others : Set Nat} {w : World σ} {storage a : Nat}
  {calls : List ClientCall} {call : ClientCall}

def PGFLT_FLAG_ISPRESENT : Nat := 0x1
def PGFLT_FLAG_ISWRITE : Nat := 0x2
def PGFLT_FLAG_ISUSER : Nat := 0x4

/-- What `PRINTF_SAFE` is called with. -/
inductive HandlerLine where
  | fault (addr flags : Nat) (ring access cause : String)
  | note (ppte : Nat) (level : PtLevel)
  | newline
  deriving DecidableEq

/-- `dangless_pagefault_handler`, before it dumps the trap frame and dies. -/
def danglessPagefaultHandler (s : PtState) (addr flags : Nat) : List HandlerLine :=
  let addrPage := roundDown addr PGSIZE
  .fault addr flags (if flagIsSet flags PGFLT_FLAG_ISUSER then "user" else "kernel")
      (if flagIsSet flags PGFLT_FLAG_ISWRITE then "write" else "read")
      (if flagIsSet flags PGFLT_FLAG_ISPRESENT then "protection-violation" else "not-present") ::
    (if !flagIsSet flags PGFLT_FLAG_ISPRESENT then
      let (level, ppte) := ptWalk s addrPage .l1
      if s.mem ppte = PTE_INVALIDATED then [.note ppte level] else []
    else []) ++ [.newline]

/-- The handler reports a dangling access. -/
def Reported (s : PtState) (addr flags : Nat) : Prop :=
  ∃ ppte level, HandlerLine.note ppte level ∈ danglessPagefaultHandler s addr flags

theorem path_roundDown (a : Nat) : ptPath (roundDown a PGSIZE) = ptPath a := by
  rw [ptPath_eq_iff, roundDown_eq]
  simp only [PGSIZE]
  omega

theorem reported_iff (s : PtState) (addr flags : Nat) :
    Reported s addr flags ↔ flagIsSet flags PGFLT_FLAG_ISPRESENT = false ∧ s.Marked addr := by
  rw [← marked_of_path s (path_roundDown addr)]
  unfold Reported danglessPagefaultHandler PtState.Marked
  dsimp only
  cases flagIsSet flags PGFLT_FLAG_ISPRESENT with
  | true => simp
  | false =>
      by_cases hmarked : s.mem (ptWalk s (roundDown addr PGSIZE) .l1).2 = PTE_INVALIDATED
      · simp [hmarked]
      · simp [hmarked]

/-- A client, with the pages that its calls have released. -/
structure ClientHistory (σ : Type) where
  client : Client σ
  released : Set Nat

/-- A call of the client, and the pages that it releases. -/
inductive HistoryStep (C : SysContract A L) (storage : Nat) : ClientHistory σ → ClientCall → ClientHistory σ → Prop
  | call {x : ClientHistory σ} {call : ClientCall} {c' : Client σ} (hstep : ClientStep C storage x.client call c') :
      HistoryStep C storage x call ⟨c', x.released ∪ Released A L x.client call⟩

/-- What holds in every state of a run: the released pages are out of use for good, and they are the ones marked. -/
structure HistoryInv (C : SysContract A L) (Z : Fin PT_NUM_ENTRIES → Prop) (x : ClientHistory σ) : Prop where
  client : ∃ others hs stale, ClientInv C Z others hs stale x.client ∧
    ∀ a ∈ x.released, OutOfUse Z (mapsOf hs ++ stale) x.client.world a
  marks : Marks Z x.client.world.pt x.released

variable {x y : ClientHistory σ}

/-- A page that was released is not mapped. -/
theorem HistoryInv.entry (h : HistoryInv C Z x) (ha : a ∈ x.released) :
    a ∈ vmem Z ∧ x.client.world.pt.entry a = none := by
  obtain ⟨_, _, _, hclient, hout⟩ := h.client
  have hgone := hout a ha
  exact ⟨hgone.inVmem, hclient.accounted.sound.remap.unmapped a hgone.inVmem fun m hm ham =>
    hgone.notUsed (Or.inr ⟨m, hm, ham⟩)⟩

/-- Under a top-level entry that is 0 nothing is marked. -/
theorem not_marked_of_freeSlot {s : PtState} (ha : a ∈ vmem (FreeSlot s)) : ¬ s.Marked a := by
  have hroot : s.mem (pteSlot s.cr3 (ptIndex a .l4)) = 0 := ha.2
  have hlookup : s.lookup a = (3, pteSlot s.cr3 (ptIndex a .l4)) := by
    rw [PtState.lookup, TableTree.lookup_cons, hroot]
    rfl
  rw [PtState.marked_iff, hlookup, hroot]
  decide

theorem DuneStart.history (h : DuneStart C w) : HistoryInv C (FreeSlot w.pt) ⟨⟨w, [], []⟩, ∅⟩ :=
  ⟨⟨_, [], [], h.inv, fun _ ha => absurd ha (Set.notMem_empty _)⟩,
    fun _ ha => ⟨fun hmarked => absurd hmarked (not_marked_of_freeSlot ha), fun hmem => absurd hmem (Set.notMem_empty _)⟩⟩

/-- A call keeps the invariant, and its operations follow the protocol of the page tables. -/
theorem HistoryInv.step (hZ : SlotsOk L Z) (h : HistoryInv C Z x) (hstep : HistoryStep C storage x call y)
    (hpos : MinimumSize C ∨ call.Sized) :
    HistoryInv C Z y ∧ PtTrace Z x.client.world.pt x.released (clientOps A L storage x.client.world call)
      y.client.world.pt y.released := by
  obtain ⟨_, _, _, hclient, hout⟩ := h.client
  cases hstep with
  | call hstep =>
      have hresolvable : Resolvable C x.client call := hpos.elim Or.inl fun hsized => hsized.resolvable
      obtain ⟨others', hs', stale', hresult⟩ := hclient.step hZ hstep hresolvable
      have htrace := hclient.trace hZ hstep hout
      refine ⟨⟨⟨others', hs', stale', hresult.inv, ?_⟩, (htrace.spec h.marks).2⟩, htrace⟩
      rintro a (ha | ha)
      · exact (hout a ha).spends hresult.spends
      · exact hresult.gone a ha

theorem HistoryInv.run (hZ : SlotsOk L Z) (h : HistoryInv C Z x)
    (hrun : Lts.Run (HistoryStep C storage) x calls y) (hsized : MinimumSize C ∨ ∀ call ∈ calls, call.Sized) :
    HistoryInv C Z y := by
  induction hrun with
  | nil => exact h
  | snoc _ hstep ih =>
      have hinv := ih (hsized.imp_right fun hall call hcall => hall call (List.mem_append_left _ hcall))
      exact (hinv.step hZ hstep (hsized.imp_right fun hall => hall _ (List.mem_append_right _ List.mem_cons_self))).1

/-- **The handler reports exactly the dangling accesses**: in every state of every run, a fault in the memory that is
remapped to is reported as dangling if and only if it is a not-present fault at a page that an earlier call has released;
and each such page is not present, so every access to it does fault that way. -/
theorem pagefaultHandler_exact (hstart : DuneStart C w)
    (hrun : Lts.Run (HistoryStep C storage) ⟨⟨w, [], []⟩, ∅⟩ calls x)
    (hsized : MinimumSize C ∨ ∀ call ∈ calls, call.Sized) :
    (∀ a ∈ vmem (FreeSlot w.pt), ∀ flags, Reported x.client.world.pt a flags ↔
      flagIsSet flags PGFLT_FLAG_ISPRESENT = false ∧ a ∈ x.released) ∧
    ∀ a ∈ x.released, a ∈ vmem (FreeSlot w.pt) ∧ x.client.world.pt.entry a = none := by
  have hinv := hstart.history.run hstart.slotsOk hrun hsized
  refine ⟨fun a ha flags => ?_, fun a ha => hinv.entry ha⟩
  rw [reported_iff, hinv.marks a ha]

/-- The pointer of a block that was freed. -/
def oneFreed : ClientHistory BumpHeap :=
  ⟨⟨danglessFree bumpAllocator duneLayout PHYS_LIMIT oneBlock.world, oneBlock.held.erase PHYS_LIMIT,
      oneBlock.release duneLayout PHYS_LIMIT⟩,
    ∅ ∪ Released bumpAllocator duneLayout ⟨duneWorld, [], []⟩ (.malloc 32) ∪
      Released bumpAllocator duneLayout oneBlock (.free PHYS_LIMIT)⟩

theorem oneFreed_run : Lts.Run (HistoryStep (bumpContract duneLayout) 0) ⟨⟨duneWorld, [], []⟩, ∅⟩
    [.malloc 32, .free PHYS_LIMIT] oneFreed := by
  have hmalloc := Lts.Run.single (HistoryStep.call (x := ⟨⟨duneWorld, [], []⟩, ∅⟩) oneBlock_step)
  have hfree : ClientStep (bumpContract duneLayout) 0 oneBlock (.free PHYS_LIMIT) _ :=
    ClientStep.free oneBlock PHYS_LIMIT List.mem_cons_self
  exact hmalloc.snoc (HistoryStep.call hfree)

theorem oneFreed_released : PHYS_LIMIT ∈ oneFreed.released := Or.inr oneBlock_regionOf

theorem pagefaultHandler_exact_free : Reported oneFreed.client.world.pt PHYS_LIMIT PGFLT_FLAG_ISWRITE := by
  have hsized : ∀ call ∈ [ClientCall.malloc 32, .free PHYS_LIMIT], call.Sized := by simp [ClientCall.Sized]
  obtain ⟨hreported, hgone⟩ := pagefaultHandler_exact duneWorld_start oneFreed_run (Or.inr hsized)
  exact (hreported _ (hgone _ oneFreed_released).1 _).mpr ⟨by decide, oneFreed_released⟩

/-- **No assertion on the way to the page tables fails**, in any call of any run: those of `vremap_map` (a block with
memory behind it, pages that are not mapped yet), `vremap_resolve`, `pt_map_region`, `pt_map_page` (no mapping is
replaced), `virtual_invalidate` (only mapped 4K pages), `dangless_realloc` and `do_hook_exit`. And the operations that they
are among lead to the page tables after the call. -/
theorem assertions_hold (hstart : DuneStart C w)
    (hrun : Lts.Run (HistoryStep C storage) ⟨⟨w, [], []⟩, ∅⟩ calls x) (hstep : HistoryStep C storage x call y)
    (hsized : MinimumSize C ∨ ∀ c ∈ calls ++ [call], c.Sized) :
    (∀ b, .check b ∈ clientOps A L storage x.client.world call → b = true) ∧
    x.client.world.pt.applyAll (clientOps A L storage x.client.world call) = y.client.world.pt := by
  have hinv := hstart.history.run hstart.slotsOk hrun
    (hsized.imp_right fun hall c hc => hall c (List.mem_append_left _ hc))
  obtain ⟨-, htrace⟩ := hinv.step hstart.slotsOk hstep
    (hsized.imp_right fun hall => hall call (List.mem_append_right _ List.mem_cons_self))
  exact ⟨(htrace.spec hinv.marks).1.checks, htrace.apply⟩

theorem assertions_hold_malloc :
    (∀ b, .check b ∈ clientOps bumpAllocator duneLayout 0 duneWorld (.malloc 32) → b = true) ∧
    duneWorld.pt.applyAll (clientOps bumpAllocator duneLayout 0 duneWorld (.malloc 32)) = oneBlock.world.pt := by
  have hsized : ∀ c ∈ [] ++ [ClientCall.malloc 32], c.Sized := by simp [ClientCall.Sized]
  have hstep := HistoryStep.call (x := ⟨⟨duneWorld, [], []⟩, ∅⟩) oneBlock_step
  have hholds := assertions_hold duneWorld_start (.nil _) hstep (Or.inr hsized)
  exact ⟨hholds.1, hholds.2⟩

end Dangless
