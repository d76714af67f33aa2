import Dangless.DanglessThreadsCalls

/-! Runs of threads that allocate and release at the same time, for a client that frees and reallocates what it holds,
each pointer once, from whatever thread. -/

namespace Dangless

open Rely Ledger

variable {σ T : Type} {A : SysAllocator σ} {L : DuneLayout} {C : SysContract A L} {Z : Fin PT_NUM_ENTRIES → Prop}
  {ms ms' mc : Multiset Item} {s : SharedWorld σ} {w : World σ} {x : Handle} {hs hs0 : List Handle}
  {gone : List (Set Nat)} {others : Set Nat} {maps : List Mapping} {blocks pages : List (Nat × Nat)} {k p a storage : Nat}

/-- The client of all threads: the pointers that it holds and that are in no call, and the pages that it has released. -/
structure MtClient where
  held : List Nat
  released : Set Nat

/-- The pointer that a call is given. -/
def ClientCall.pointer : ClientCall → Nat
  | .malloc _ => 0
  | .calloc _ _ => 0
  | .realloc p _ => p
  | .free p => p

/-- A thread may be given `NULL` or a pointer that is held, and `realloc` a size that is not 0. -/
def MtClient.may (c : MtClient) (call : ClientCall) : Prop :=
  (call.pointer = 0 ∨ call.pointer ∈ c.held) ∧ call.Sized

def MtClient.called (c : MtClient) (call : ClientCall) : MtClient := { c with held := c.held.erase call.pointer }

/-- What the client knows after an answer: the pointer is held, or is again; and the pages of the region `g` that the
pointer of the call had are released, unless the answer still has them. -/
def MtClient.returned (A : SysAllocator σ) (L : DuneLayout) (c : MtClient) (call : ClientCall) (g : Set Nat) (r : Nat)
    (s : SharedWorld σ) : MtClient :=
  match call with
  | .malloc _ => { c with held := gain r c.held }
  | .calloc _ _ => { c with held := gain r c.held }
  | .realloc p _ =>
      if r = 0 then { c with held := gain p c.held }
      else ⟨r :: c.held, c.released ∪ g \ regionOf A L s.world r⟩
  | .free _ => { c with released := c.released ∪ g }

def handleThings (hs : List Handle) : Multiset Item := (hs.map Handle.things).sum

def goneThings (gone : List (Set Nat)) : Multiset Item := (gone.map Item.gone : List Item)

/-- The things that the client has: blocks and regions with its pointers, and the knowledge of what was invalidated. -/
structure MtClient.Has (c : MtClient) (mc : Multiset Item) (hs : List Handle) (gone : List (Set Nat)) : Prop where
  held : c.held.Perm (hs.map Handle.ptr)
  usable : ∀ x ∈ hs, 0 < x.usable
  released : ∀ a ∈ c.released, ∃ S ∈ gone, a ∈ S
  things : mc = handleThings hs + goneThings gone

/-- The entry points of `dangless_malloc.c` as operations of threads. -/
def danglessService (C : SysContract A L) (Z : Fin PT_NUM_ENTRIES → Prop) (storage : Nat) :
    Service (SharedWorld σ) ThreadVars (Multiset Item) ClientCall Nat (Set Nat) MtClient where
  account := mtAccount C Z
  code := ClientCall.code A L storage
  note call s := regionOf A L s.world call.pointer
  idle l := l = idleVars
  may := MtClient.may
  called := MtClient.called
  returned := MtClient.returned A L
  client c mc := ∃ hs gone, c.Has mc hs gone

theorem handleThings_cons (x : Handle) (hs : List Handle) : handleThings (x :: hs) = x.things + handleThings hs := by
  rw [handleThings, List.map_cons, List.sum_cons]
  rfl

theorem handleThings_perm (h : hs.Perm hs0) : handleThings hs = handleThings hs0 := (h.map _).sum_eq

theorem goneThings_cons (S : Set Nat) (gone : List (Set Nat)) : goneThings (S :: gone) = .gone S ::ₘ goneThings gone := rfl

/-- What is known of a pointer whose things somebody has. -/
theorem MtInv.handle (h : MtInv C Z (x.things + ms) s) (hZ : SlotsOk L Z) (hu : 0 < x.usable) :
    x.ptr ≠ 0 ∧ originalPtr L s.world.pt x.ptr = x.block ∧ x.block ∈ C.live s.world.sys ∧
      A.mallocUsableSize x.block s.world.sys = x.usable ∧ regionOf A L s.world x.ptr = x.pages ∧
      ((x.ptr = x.block ∧ vremapResolve L s.world.pt x.ptr = (VREM_NOT_REMAPPED, some x.ptr)) ∨
        (x.ptr ≠ x.block ∧ vremapResolve L s.world.pt x.ptr = (VREM_OK, some x.block) ∧ x.mapping.Ok L Z s.world.pt ∧
          PGSIZE ≤ x.mapping.frame L)) := by
  by_cases hhome : x.ptr = x.block
  · rw [x.things_home hhome] at h
    obtain ⟨hlive, husable, hblock⟩ := h.block
    have hresolve := h.resolve_home
    have hne : x.ptr ≠ 0 := hhome ▸ hblock.home.ne_zero
    rw [← hhome] at hresolve
    refine ⟨hne, ?_, hlive, husable, ?_, Or.inl ⟨hhome, hresolve⟩⟩
    · rw [originalPtr, if_neg hne, hresolve]
      exact hhome
    · rw [regionOf_home hresolve, Handle.pages, if_pos hhome]
  · rw [x.things_region hhome] at h
    obtain ⟨hn, hresolve⟩ := h.resolve hZ ⟨rfl, rfl⟩ hu
    have hok := h.region
    obtain ⟨hlive, husable, hblock⟩ := MtInv.block (Multiset.cons_swap _ _ _ ▸ h)
    have hne : x.ptr ≠ 0 := by
      intro hzero
      have hmem := hok.inVmem (hok.ptr_mem hn).1
      rw [show x.mapping.ptr = 0 from hzero] at hmem
      exact zero_notMem_vmem hZ hmem
    refine ⟨hne, ?_, hlive, husable, ?_, Or.inr ⟨hhome, hresolve, hok, hblock.frames.2.1⟩⟩
    · rw [originalPtr, if_neg hne, show vremapResolve L s.world.pt x.ptr = _ from hresolve]
      rfl
    · rw [regionOf_region hne hresolve husable, Handle.pages, if_neg hhome]

/-- The handle of a pointer that is held. -/
theorem MtClient.Has.pick {c : MtClient} (h : c.Has mc hs gone) (hp : p ∈ c.held) :
    ∃ x hs0, x.ptr = p ∧ 0 < x.usable ∧ hs.Perm (x :: hs0) ∧
      MtClient.Has { c with held := c.held.erase p } (handleThings hs0 + goneThings gone) hs0 gone := by
  obtain ⟨x, hx, rfl⟩ := List.mem_map.mp (h.held.mem_iff.mp hp)
  have hperm := List.perm_cons_erase hx
  refine ⟨x, hs.erase x, rfl, h.usable x hx, hperm, ?_, fun y hy => h.usable y (List.mem_of_mem_erase hy), h.released, rfl⟩
  have hheld := (h.held.trans (hperm.map Handle.ptr)).erase x.ptr
  rwa [List.map_cons, List.erase_cons_head] at hheld

/-- The client is handed a pointer. -/
theorem MtClient.Has.gain {c : MtClient} (h : c.Has mc hs gone) (hne : x.ptr ≠ 0) (hu : 0 < x.usable) :
    MtClient.Has { c with held := Dangless.gain x.ptr c.held } (x.things + mc) (x :: hs) gone := by
  refine ⟨?_, List.forall_mem_cons.mpr ⟨hu, h.usable⟩, h.released, ?_⟩
  · rw [Dangless.gain, if_neg hne]
    exact h.held.cons _
  · rw [handleThings_cons, h.things, add_assoc]

/-- The client learns that pages were invalidated. -/
theorem MtClient.Has.release {c : MtClient} {S R : Set Nat} (h : c.Has mc hs gone) (hR : R ⊆ S) :
    MtClient.Has { c with released := c.released ∪ R } (.gone S ::ₘ mc) hs (S :: gone) := by
  refine ⟨h.held, h.usable, ?_, ?_⟩
  · rintro a (ha | ha)
    · obtain ⟨S', hS', ha'⟩ := h.released a ha
      exact ⟨S', List.mem_cons_of_mem _ hS', ha'⟩
    · exact ⟨S, List.mem_cons_self, hR ha⟩
  · rw [goneThings_cons, h.things, Multiset.add_cons]

/-- An answer of a call that hands out a pointer. -/
theorem Handed.returned {c : MtClient} {r : Nat} {F : Multiset Item} (hr : Handed 0 r ms) (hZ : SlotsOk L Z)
    (h : c.Has mc hs gone) (hinv : MtInv C Z (ms + mc + F) s) :
    ∃ mc', MtInv C Z (mc' + F) s ∧ ∃ hs' gone', MtClient.Has { c with held := gain r c.held } mc' hs' gone' := by
  rcases hr with ⟨rfl, rfl⟩ | ⟨x, rfl, hu, rfl⟩
  · rw [zero_add] at hinv
    exact ⟨mc, hinv, hs, gone, h⟩
  · rw [add_zero, add_assoc] at hinv
    have hne := (hinv.handle hZ hu).1
    exact ⟨x.things + mc, (add_assoc x.things mc F).symm ▸ hinv, x :: hs, gone, h.gain hne hu⟩

/-- An answer of `dangless_realloc` of a pointer that was held. -/
theorem Realloc.returned {c : MtClient} {r n : Nat} {F : Multiset Item} (hr : Realloc x 0 r ms) (hZ : SlotsOk L Z)
    (hu : 0 < x.usable) (h : c.Has mc hs gone) (hinv : MtInv C Z (ms + mc + F) s) :
    ∃ mc', MtInv C Z (mc' + F) s ∧
      ∃ hs' gone', (c.returned A L (.realloc x.ptr n) x.pages r s).Has mc' hs' gone' := by
  rcases hr with ⟨rfl, rfl⟩ | ⟨y, S, rfl, huy, hS, rfl⟩
  · rw [add_zero, add_assoc] at hinv
    have hne := (hinv.handle hZ hu).1
    refine ⟨x.things + mc, (add_assoc x.things mc F).symm ▸ hinv, x :: hs, gone, ?_⟩
    rw [MtClient.returned, if_pos rfl]
    exact h.gain hne hu
  · rw [add_zero, Multiset.cons_add, Multiset.cons_add, add_assoc] at hinv
    have hy : MtInv C Z (y.things + .gone S ::ₘ (mc + F)) s :=
      (Multiset.add_cons (.gone S) y.things (mc + F)).symm ▸ hinv
    obtain ⟨hne, -, -, -, hregion, -⟩ := hy.handle hZ huy
    refine ⟨.gone S ::ₘ (y.things + mc), ?_, y :: hs, S :: gone, ?_⟩
    · rw [Multiset.cons_add, add_assoc]
      exact hinv
    · rw [MtClient.returned, if_neg hne, hregion]
      have hdone := (h.gain hne huy).release hS
      rwa [Dangless.gain, if_neg hne] at hdone

/-- A pointer that the client gives away with a call, and what the thread that calls gets with it. -/
theorem MtClient.Has.give {c : MtClient} {F : Multiset Item} (h : c.Has mc hs gone) (hZ : SlotsOk L Z) (hp : p ∈ c.held)
    (hinv : MtInv C Z (mc + F) s) :
    ∃ (x : Handle) (mc' : Multiset Item), x.ptr = p ∧ x.ptr ≠ 0 ∧ 0 < x.usable ∧ regionOf A L s.world p = x.pages ∧
      mc = x.things + mc' ∧ ∃ hs' gone', MtClient.Has { c with held := c.held.erase p } mc' hs' gone' := by
  obtain ⟨x, hs0, rfl, hu, hperm, hrest⟩ := h.pick hp
  have hmc : mc = x.things + (handleThings hs0 + goneThings gone) := by
    rw [h.things, handleThings_perm hperm, handleThings_cons, add_assoc]
  rw [hmc, add_assoc] at hinv
  obtain ⟨hne, -, -, -, hregion, -⟩ := hinv.handle hZ hu
  exact ⟨x, _, rfl, hne, hu, hregion, hmc, hs0, gone, hrest⟩

/-- Nobody holds `NULL`. -/
theorem MtClient.Has.null {c : MtClient} {F : Multiset Item} (h : c.Has mc hs gone) (hZ : SlotsOk L Z)
    (hinv : MtInv C Z (mc + F) s) : c.held.erase 0 = c.held := by
  refine List.erase_of_not_mem fun hmem => ?_
  obtain ⟨x, _, hzero, hne, -⟩ := h.give hZ hmem hinv
  exact hne hzero

theorem regionOf_null (w : World σ) : regionOf A L w 0 = ∅ :=
  Set.eq_empty_of_forall_notMem fun _ ha => ha.1 rfl

/-- A client that may call an operation has what its code needs. -/
theorem danglessService_sound (hZ : SlotsOk L Z) : (danglessService C Z storage).Sound := by
  rintro c mc F s l call ⟨hs, gone, hhas⟩ hmay hinv hidle
  obtain rfl : l = idleVars := hidle
  -- a call that is given no pointer
  have hnull : ∀ {call : ClientCall}, call.pointer = 0 → Leaves C Z (Handed 0) (call.code A L storage) 0 idleVars →
      (∀ (c : MtClient) r s', c.returned A L call ∅ r s' = { c with held := gain r c.held }) →
      ∃ m mc', mc = m + mc' ∧ (danglessService C Z storage).client (c.called call) mc' ∧
        (danglessService C Z storage).account.own m idleVars ∧ Holds (danglessService C Z storage).account
          ((danglessService C Z storage).Post call (regionOf A L s.world call.pointer)) (call.code A L storage) m idleVars := by
    intro call hzero hcode hreturned
    refine ⟨0, mc, (zero_add mc).symm, ⟨hs, gone, ?_⟩, own_idle (C := C) (Z := Z) rfl _, hcode.holds.mono ?_⟩
    · rw [MtClient.called, hzero, hhas.null hZ hinv]
      exact hhas
    · rintro r m _ ⟨rfl, hr⟩
      refine ⟨rfl, ?_⟩
      rintro c mc F s' ⟨hs, gone, hhas⟩ hinv
      show ∃ mc', MtInv C Z (mc' + F) s' ∧ ∃ hs' gone', (c.returned A L call _ r s').Has mc' hs' gone'
      rw [hzero, regionOf_null, hreturned]
      exact hr.returned hZ hhas hinv
  cases call with
  | malloc size => exact hnull rfl (danglessMallocProg_leaves hZ tokenless_zero) fun _ _ _ => rfl
  | calloc num size => exact hnull rfl (danglessCallocProg_leaves hZ tokenless_zero) fun _ _ _ => rfl
  | realloc p n =>
      obtain ⟨hp | hp, hn⟩ := hmay
      · obtain rfl : p = 0 := hp
        refine hnull rfl (danglessReallocProg_leaves_null hZ tokenless_zero) fun c r s' => ?_
        rw [MtClient.returned, Set.empty_sdiff, Set.union_empty]
        by_cases hr : r = 0
        · rw [if_pos hr, hr]
        · rw [if_neg hr, gain, if_neg hr]
      · have hp : p ∈ c.held := hp
        obtain ⟨x, mc', rfl, hne, hu, hregion, rfl, hrest⟩ := hhas.give hZ hp hinv
        refine ⟨x.things, mc', rfl, hrest, own_idle (C := C) (Z := Z) rfl _, ?_⟩
        have hcode := danglessReallocProg_leaves (C := C) (Z := Z) (A := A) (L := L) (n := n) hZ tokenless_zero hne hu hn
        rw [add_zero] at hcode
        refine hcode.holds.mono ?_
        rintro r m _ ⟨rfl, hr⟩
        refine ⟨rfl, ?_⟩
        rintro c mc F s' ⟨hs, gone, hhas⟩ hinv
        show ∃ mc', MtInv C Z (mc' + F) s' ∧ ∃ hs' gone', (c.returned A L (.realloc x.ptr n)
          (regionOf A L s.world x.ptr) r s').Has mc' hs' gone'
        rw [hregion]
        exact hr.returned hZ hu hhas hinv
  | free p =>
      obtain ⟨hp | hp, -⟩ := hmay
      · obtain rfl : p = 0 := hp
        refine ⟨0, mc, (zero_add mc).symm, ⟨hs, gone, ?_⟩, own_idle (C := C) (Z := Z) rfl _, rfl, ?_⟩
        · show MtClient.Has { c with held := c.held.erase 0 } mc hs gone
          rw [hhas.null hZ hinv]
          exact hhas
        · rintro c mc F s' ⟨hs, gone, hhas⟩ hinv
          rw [zero_add] at hinv
          refine ⟨mc, hinv, hs, gone, ?_⟩
          show (c.returned A L (.free 0) (regionOf A L s.world 0) 0 s').Has mc hs gone
          rw [MtClient.returned, regionOf_null, Set.union_empty]
          exact hhas
      · have hp : p ∈ c.held := hp
        obtain ⟨x, mc', rfl, hne, hu, hregion, rfl, hrest⟩ := hhas.give hZ hp hinv
        refine ⟨x.things, mc', rfl, hrest, own_idle (C := C) (Z := Z) rfl _, ?_⟩
        have hcode : Leaves C Z (fun _ ms' => ms' = .gone x.pages ::ₘ 0) (danglessFreeProg A L x.ptr) (x.things + 0)
            idleVars := danglessFreeProg_leaves hZ hne hu
        rw [add_zero] at hcode
        refine Holds.bind hcode.holds ?_
        rintro _ m _ ⟨rfl, rfl⟩
        refine holds_pure ⟨rfl, ?_⟩
        rintro c mc F s' ⟨hs, gone, hhas⟩ hinv
        show ∃ mc', MtInv C Z (mc' + F) s' ∧ ∃ hs' gone', (c.returned A L (.free x.ptr)
          (regionOf A L s.world x.ptr) 0 s').Has mc' hs' gone'
        rw [hregion]
        exact ⟨.gone x.pages ::ₘ mc, hinv, hs, x.pages :: gone, hhas.release subset_rfl⟩

theorem lists_handleThings (h : Lists (handleThings hs + ms) maps blocks pages gone) :
    ∃ maps' blocks', maps.Perm (mapsOf hs ++ maps') ∧ blocks.Perm (blocksOf hs ++ blocks') ∧
      Lists ms maps' blocks' pages gone := by
  induction hs generalizing maps blocks with
  | nil =>
      rw [show handleThings [] + ms = ms from zero_add ms] at h
      exact ⟨maps, blocks, List.Perm.refl _, List.Perm.refl _, h⟩
  | cons x hs ih =>
      rw [handleThings_cons, add_assoc] at h
      by_cases hhome : x.ptr = x.block
      · rw [x.things_home hhome, lists_block] at h
        obtain ⟨blocks1, hblocks, h⟩ := h
        obtain ⟨maps', blocks', hmaps', hblocks', hrest⟩ := ih h
        refine ⟨maps', blocks', ?_, hblocks.trans (hblocks'.cons _), hrest⟩
        rw [mapsOf_cons_home hhome]
        exact hmaps'
      · rw [x.things_region hhome, lists_region] at h
        obtain ⟨maps1, hmaps, h⟩ := h
        obtain ⟨blocks1, hblocks, h⟩ := lists_block.mp h
        obtain ⟨maps', blocks', hmaps', hblocks', hrest⟩ := ih h
        refine ⟨maps', blocks', ?_, hblocks.trans (hblocks'.cons _), hrest⟩
        rw [mapsOf_cons_region hhome]
        exact hmaps.trans (hmaps'.cons _)

/-- Pointers are held exactly: each is a live block of the system allocator, or points into a region that resolves to the
pages of one; different pointers have different blocks and disjoint regions, and the freelist has none of their pages. -/
structure HeldExact (C : SysContract A L) (held : List Nat) (w : World σ) : Prop where
  pointers : ∀ p ∈ held,
    (p ∈ C.live w.sys ∧ vremapResolve L w.pt p = (VREM_NOT_REMAPPED, some p)) ∨
    ∃ b ∈ C.live w.sys, vremapResolve L w.pt p = (VREM_OK, some b) ∧ p % PGSIZE = b % PGSIZE ∧
      ∀ k, k < numSpannedPages b (A.mallocUsableSize b w.sys) → ∀ o, o < PGSIZE →
        ptResolve w.pt (roundDown p PGSIZE + k * PGSIZE + o) = roundDown (L.duneVaToPa b) PGSIZE + k * PGSIZE + o
  blocks : (held.map (originalPtr L w.pt)).Nodup
  disjoint : held.Pairwise fun p q => Disjoint (regionOf A L w p) (regionOf A L w q)
  freelist : ∀ p ∈ held, Disjoint (regionOf A L w p) (owned w.items)

/-- A handle of the client, with what is known of it. -/
theorem MtClient.Has.handle {c : MtClient} (h : c.Has mc hs gone) (hx : x ∈ hs) (hinv : MtInv C Z (mc + ms) s) :
    ∃ rest, MtInv C Z (x.things + rest) s := by
  rw [h.things, handleThings_perm (List.perm_cons_erase hx), handleThings_cons, add_assoc, add_assoc] at hinv
  exact ⟨_, hinv⟩

theorem MtClient.Has.heldExact {c : MtClient} (h : c.Has mc hs gone) (hZ : SlotsOk L Z) (hinv : MtInv C Z (mc + ms) s) :
    HeldExact C c.held s.world := by
  have hhandle : ∀ x ∈ hs, _ := fun x hx => (h.handle hx hinv).choose_spec.handle hZ (h.usable x hx)
  have hbooks : ∃ others maps blocks pages gone' k, Books C Z others maps blocks pages gone' k
      (handleThings hs + (goneThings gone + ms)) s := by
    have hinv' := hinv
    rw [h.things, add_assoc] at hinv'
    exact hinv'
  obtain ⟨others, maps, blocks, pages, gone', k, hbooks⟩ := hbooks
  obtain ⟨maps', blocks', hmaps, hblocks, -⟩ := lists_handleThings hbooks.lists
  have hremap := hbooks.layout.remap.perm hmaps.symm
  refine ⟨fun p hp => ?_, ?_, ?_, fun p hp => ?_⟩
  · obtain ⟨x, hx, rfl⟩ := List.mem_map.mp (h.held.mem_iff.mp hp)
    obtain ⟨-, -, hlive, husable, -, ⟨hhome, hresolve⟩ | ⟨-, hresolve, hok, hframe⟩⟩ := hhandle x hx
    · exact Or.inl ⟨hhome ▸ hlive, hresolve⟩
    · refine Or.inr ⟨x.block, hlive, hresolve, hok.offset, fun k hk o ho => ?_⟩
      rw [husable] at hk
      exact hok.resolve_byte hframe hk ho
  · have hmap : (c.held.map (originalPtr L s.world.pt)).Perm (hs.map Handle.block) := by
      refine (h.held.map _).trans (List.Perm.of_eq ?_)
      rw [List.map_map]
      exact List.map_congr_left fun x hx => (hhandle x hx).2.1
    have hnodup := (hbooks.sys.congr hblocks.symm rfl rfl hbooks.sys.own).nodup
    rw [List.map_append, blocksOf, List.map_map] at hnodup
    exact hmap.nodup_iff.mpr (List.nodup_append.mp (List.nodup_append.mp hnodup).1).1
  · refine (h.held.pairwise_iff fun {_ _} hd => hd.symm).mpr ?_
    have hpairs := (List.pairwise_append.mp hremap.disjoint).1
    rw [mapsOf, List.pairwise_map, List.pairwise_filter] at hpairs
    rw [List.pairwise_map]
    refine hpairs.imp_of_mem fun {x y} hx hy hxy => ?_
    rw [(hhandle x hx).2.2.2.2.1, (hhandle y hy).2.2.2.2.1, Handle.pages, Handle.pages]
    split_ifs with hxhome hyhome
    · exact Set.disjoint_empty _
    · exact Set.empty_disjoint _
    · exact Set.disjoint_empty _
    · exact hxy (by simpa using hxhome) (by simpa using by assumption)
  · obtain ⟨x, hx, rfl⟩ := List.mem_map.mp (h.held.mem_iff.mp hp)
    rw [(hhandle x hx).2.2.2.2.1, Handle.pages]
    split_ifs with hhome
    · exact Set.empty_disjoint _
    · refine hremap.mapsOwned _ (List.mem_append_left _ (List.mem_map.mpr ⟨x, ?_, rfl⟩))
      exact List.mem_filter.mpr ⟨hx, by simpa using hhome⟩

/-- Pages that were invalidated. -/
theorem MtInv.invalidated {S : Set Nat} (h : MtInv C Z (.gone S ::ₘ ms) s) (ha : a ∈ S) :
    ptResolve s.world.pt a = 0 ∧ a ∉ owned s.world.items := by
  obtain ⟨others, maps, blocks, pages, gone, k, h⟩ := h
  obtain ⟨gone', hgone, -⟩ := lists_gone.mp h.lists
  obtain ⟨hvmem, -, hnot⟩ := h.layout.goneOk S (hgone.mem_iff.mpr List.mem_cons_self) a ha
  refine ⟨ptResolve_of_entry_none (h.layout.remap.unmapped a hvmem fun m hm ham => ?_), fun howned => ?_⟩
  · exact hnot (Or.inl (Or.inr ⟨m, hm, ham⟩))
  · exact hnot (owned_subset_inUse howned)

variable [DecidableEq T] {c : Ledger.Conf T (SharedWorld σ) ThreadVars ClientCall Nat (Set Nat) MtClient}
  {labels : List (Ledger.Label T ClientCall Nat)}

/-- Threads that take their statements in any order. -/
abbrev MtStep (C : SysContract A L) (Z : Fin PT_NUM_ENTRIES → Prop) (storage : Nat) :=
  Service.Step (T := T) (danglessService C Z storage)

/-- A process in which no thread has called anything yet. -/
def mtStart (w : World σ) : Ledger.Conf T (SharedWorld σ) ThreadVars ClientCall Nat (Set Nat) MtClient :=
  ⟨⟨w, false, .init⟩, fun _ => idleVars, ⟨[], ∅⟩, fun _ => .idle⟩

theorem DuneStart.mtInv (h : DuneStart C w) : MtInv C (FreeSlot w.pt) 0 ⟨w, false, .init⟩ := by
  have hsound := (Accounted.start h.sys h.items h.trace h.tables h.home).sound
  have hnone : ∀ a, a ∉ InUse [] [] w.items := by
    intro a ha
    rw [h.items] at ha
    rcases ha with (ha | ⟨m, hm, -⟩) | ⟨x, hx, -⟩
    · rw [owned_nil] at ha
      exact ha
    · exact absurd hm List.not_mem_nil
    · exact absurd hx List.not_mem_nil
  have hfresh : Fresh (FreeSlot w.pt) (Unused [] w.items) w.pt := by
    refine (Fresh.start h.tables fun i hi => hi).mono fun a ha => ?_
    exact (hnone a (ha.elim (fun ha => Or.inl (Or.inl ha)) Or.inr)).elim
  refine ⟨C.live w.sys, [], [], [], [], 0, ⟨rfl, rfl, rfl, rfl⟩, hsound.sys, ⟨hsound.remap, by simp, by simp,
    List.Pairwise.nil, fun a ha => absurd ha (hnone a), by simp, hfresh⟩, h.ready.kernelMode, h.ready.addr, rfl, rfl, fun _ => rfl,
    nofun, fun hlt => absurd hlt (Nat.not_lt_zero _), fun hmem => absurd hmem (Multiset.notMem_zero _)⟩

/-- The account of a state that threads reach. -/
theorem DuneStart.mtSim (h : DuneStart C w)
    (hrun : Lts.Run (MtStep C (FreeSlot w.pt) storage) (mtStart w) labels c) :
    ∃ ρ m mc, (danglessService C (FreeSlot w.pt) storage).Sim c ρ m mc := by
  have hstart : (danglessService C (FreeSlot w.pt) storage).Sim (mtStart (T := T) w) (fun _ => 0) 0 0 :=
    Service.sim_start ⟨[], [], ⟨List.Perm.refl _, by simp, by simp, rfl⟩⟩ h.mtInv rfl
  exact hstart.run (danglessService_sound h.slotsOk) hrun

end Dangless
