import Dangless.BumpAllocator
import Dangless.Client
import Dangless.DuneTables
import Dangless.VirtualRemapSpec

/-! Temporal safety of the allocator: a virtual page that was released never resolves again, the pages of the
pointers that are held are exactly those of their blocks, and `dangless_realloc` leaves no page of a block
that is gone, except where the library releases it and answers `NULL`. -/

namespace Dangless

variable {σ : Type} {A : SysAllocator σ} {L : DuneLayout} {C : SysContract A L}
  {Z : Fin PT_NUM_ENTRIES → Prop} {others : Set Nat} {hs : List Handle} {stale : List Mapping}
  {w : World σ} {c c' : Client σ} {calls : List ClientCall} {storage p n : Nat}

theorem freeSlot_duneTables {items : List VpSpan} {pool : List Nat} {i : Fin PT_NUM_ENTRIES}
    (hfree : FreeSlot (bumpWorld items (duneTables pool)).pt i) : duneHalf i = none := by
  have hword := (duneWord_root i).symm.trans hfree
  cases hhalf : duneHalf i with
  | none => rfl
  | some h =>
      rw [hhalf] at hword
      exact absurd hword entry_ne_zero

/-- A process that Dune has set up, whose library meets the contract. -/
theorem duneStart {pool : List Nat}
    (hpool : ∀ pa ∈ pool, pa ≠ 0 → pa % PGSIZE = 0 ∧ 2 ^ 47 ≤ pa ∧ pa < 2 ^ 52)
    (hdistinct : pool.Pairwise fun pa pa' => pa ≠ 0 → pa' ≠ pa) :
    DuneStart (bumpContract duneLayout) (bumpWorld [] (duneTables pool)) where
  ready := ⟨rfl, rfl, rfl⟩
  sys := ⟨le_rfl, by simp [bumpWorld], show PGSIZE ≤ 2 ^ 32 by decide⟩
  items := rfl
  autoDedicated := rfl
  trace := rfl
  tables := duneTables_inv (fun _ i hpath hhead => freeSlot_duneTables (hpath i hhead)) hpool hdistinct
  home := fun va hva => duneTables_home pool hva

/-- Such a process, with memory for three more tables. -/
def duneWorld : World BumpHeap := bumpWorld [] (duneTables [2 ^ 47, 2 ^ 47 + PGSIZE, 2 ^ 47 + 2 * PGSIZE])

theorem duneWorld_start : DuneStart (bumpContract duneLayout) duneWorld := by
  apply duneStart
  · decide
  · decide

/-- Its client once it has asked for 32 bytes: the block is the first one of the heap, and its page is mapped
where the dedicated memory starts. -/
def oneBlock : Client BumpHeap :=
  ⟨(danglessMalloc bumpAllocator duneLayout 32 duneWorld).2, [PHYS_LIMIT], []⟩

/-- Two blocks are those of the spans under the unused top-level entries. -/
theorem oneBlock_state : (danglessMalloc bumpAllocator duneLayout 32 duneWorld).1 = PHYS_LIMIT ∧
    oneBlock.world.sys.blocks = [(PGSIZE + 96, 48), (PGSIZE + 48, 48), (PGSIZE, 48)] ∧
    vremapResolve duneLayout oneBlock.world.pt PHYS_LIMIT = (VREM_OK, some PGSIZE) := by decide +kernel

theorem oneBlock_modes : oneBlock.world.modes = duneWorld.modes := by
  obtain ⟨others, hs, hresult⟩ := duneWorld_start.inv.malloc duneWorld_start.slotsOk 32
  exact hresult.spends.modes

theorem oneBlock_step :
    ClientStep (bumpContract duneLayout) 0 ⟨duneWorld, [], []⟩ (.malloc 32) oneBlock := by
  have hstep : ClientStep (bumpContract duneLayout) 0 _ _ _ := ClientStep.malloc ⟨duneWorld, [], []⟩ 32
  rw [oneBlock_state.1] at hstep
  exact hstep

theorem oneBlock_run :
    Lts.Run (ClientStep (bumpContract duneLayout) 0) ⟨duneWorld, [], []⟩ [.malloc 32] oneBlock :=
  Lts.Run.snoc (Lts.Run.nil _) oneBlock_step

/-- The client once it has asked for another 9000 bytes, which are in the same page as the first block and in the two
behind it. -/
def twoBlocks : Client BumpHeap :=
  ⟨(danglessMalloc bumpAllocator duneLayout 9000 oneBlock.world).2, [PHYS_LIMIT + PGSIZE + 144, PHYS_LIMIT], []⟩

theorem twoBlocks_step : ClientStep (bumpContract duneLayout) 0 oneBlock (.malloc 9000) twoBlocks := by
  have hptr : (danglessMalloc bumpAllocator duneLayout 9000 oneBlock.world).1 = PHYS_LIMIT + PGSIZE + 144 := by
    decide +kernel
  have hstep : ClientStep (bumpContract duneLayout) 0 _ _ _ := ClientStep.malloc oneBlock 9000
  rw [hptr] at hstep
  exact hstep

theorem twoBlocks_run :
    Lts.Run (ClientStep (bumpContract duneLayout) 0) ⟨duneWorld, [], []⟩ [.malloc 32, .malloc 9000] twoBlocks :=
  oneBlock_run.snoc twoBlocks_step

theorem oneBlock_resolve : vremapResolve duneLayout oneBlock.world.pt PHYS_LIMIT = (VREM_OK, some PGSIZE) :=
  oneBlock_state.2.2

theorem oneBlock_regionOf : PHYS_LIMIT ∈ regionOf bumpAllocator duneLayout oneBlock.world PHYS_LIMIT := by
  refine ⟨by decide, PGSIZE, oneBlock_resolve, ?_⟩
  have husable : bumpAllocator.mallocUsableSize PGSIZE oneBlock.world.sys = 48 := by
    have hsize : bumpAllocator.mallocUsableSize = BumpHeap.mallocUsableSize := rfl
    rw [hsize, BumpHeap.mallocUsableSize, oneBlock_state.2.1]
    rfl
  rw [husable]
  exact ⟨by decide, by decide⟩

/-- The invariant holds after every run, and what is used after it was used before it. -/
theorem ClientInv.run (hZ : SlotsOk L Z) (h : ClientInv C Z others hs stale c)
    (hrun : Lts.Run (ClientStep C storage) c calls c')
    (hsized : MinimumSize C ∨ ∀ call ∈ calls, call.Sized) :
    ∃ others' hs' stale', ClientInv C Z others' hs' stale' c' ∧
      Spends (mapsOf hs ++ stale) c.world (mapsOf hs' ++ stale') c'.world ∧
      ((∀ call ∈ calls, call.Sized) → stale' = stale) := by
  induction hrun with
  | nil => exact ⟨others, hs, stale, h, Spends.refl _ _, fun _ => rfl⟩
  | @snoc t _ labels label _ hstep ih =>
      have hearlier : ∀ {P : ClientCall → Prop}, (∀ call ∈ labels ++ [label], P call) →
          (∀ call ∈ labels, P call) ∧ P label := by
        intro P hall
        exact ⟨fun call hcall => hall call (List.mem_append_left _ hcall),
          hall label (List.mem_append_right _ (List.mem_singleton.mpr rfl))⟩
      obtain ⟨others1, hs1, stale1, hinv, hspends, hstale⟩ := ih (hsized.imp_right fun hall =>
        (hearlier hall).1)
      have hpos : Resolvable C t label := by
        rcases hsized with hmin | hall
        · exact Or.inl hmin
        · exact (hearlier hall).2.resolvable
      obtain ⟨others2, hs2, stale2, hresult⟩ := hinv.step hZ hstep hpos
      refine ⟨others2, hs2, stale2, hresult.inv, hspends.trans hresult.spends, fun hall => ?_⟩
      obtain ⟨hlabels, hlabel⟩ := hearlier hall
      exact (hresult.stale hlabel).trans (hstale hlabels)

/-- The region of a pointer that is held is in use. -/
theorem ClientInv.regionOf_subset (hZ : SlotsOk L Z) (h : ClientInv C Z others hs stale c)
    (hp : p ∈ c.held) : regionOf A L c.world p ⊆ Used (mapsOf hs ++ stale) c.world := by
  obtain ⟨x, hs0, rfl, hx⟩ := h.picked hZ hp
  rcases (hx.accounted.resolve hZ).2.2 with ⟨hregion, hresolve, hsound⟩ | ⟨-, hresolve, -⟩
  · rw [regionOf_region hx.ne_zero hresolve (hsound.sys.usable _ List.mem_cons_self)]
    exact fun a ha => Or.inr ⟨x.mapping, hx.subset_region hregion List.mem_cons_self, ha⟩
  · rw [regionOf_home hresolve]
    exact Set.empty_subset _

/-- **A page that was released never resolves again**, is never handed out again, and is in the region of no
pointer that is held later. -/
theorem released_never_resolves {before after : List ClientCall} {call : ClientCall}
    {c1 c2 c3 : Client σ} {a : Nat} (hstart : DuneStart C w)
    (hbefore : Lts.Run (ClientStep C storage) ⟨w, [], []⟩ before c1)
    (hcall : ClientStep C storage c1 call c2) (hafter : Lts.Run (ClientStep C storage) c2 after c3)
    (hsized : ∀ x ∈ before ++ call :: after, x.Sized) (ha : a ∈ Released A L c1 call) :
    ptResolve c3.world.pt a = 0 ∧ a ∉ owned c3.world.items ∧ ∀ p ∈ c3.held, a ∉ regionOf A L c3.world p := by
  have hZ := hstart.slotsOk
  obtain ⟨_, _, _, hinv1, -, -⟩ := hstart.inv.run hZ hbefore
    (Or.inr fun x hx => hsized x (List.mem_append_left _ hx))
  have hcallSized : call.Sized := hsized call (List.mem_append_right _ List.mem_cons_self)
  obtain ⟨_, _, _, hresult⟩ := hinv1.step hZ hcall hcallSized.resolvable
  obtain ⟨_, hs3, stale3, hinv3, hspends, -⟩ := hresult.inv.run hZ hafter
    (Or.inr fun x hx => hsized x (List.mem_append_right _ (List.mem_cons_of_mem _ hx)))
  have hout := (hresult.gone a ha).spends hspends
  refine ⟨hout.resolve hinv3.accounted.sound.remap, fun howned => hout.notUsed (Or.inl howned), fun p hp ha' => ?_⟩
  exact hout.notUsed (hinv3.regionOf_subset hZ hp ha')

theorem released_never_resolves_free :
    ptResolve (danglessFree bumpAllocator duneLayout PHYS_LIMIT oneBlock.world).pt PHYS_LIMIT = 0 := by
  have hfree : ClientStep (bumpContract duneLayout) 0 _ _ _ :=
    ClientStep.free oneBlock PHYS_LIMIT List.mem_cons_self
  have hsized : ∀ x ∈ [ClientCall.malloc 32] ++ .free PHYS_LIMIT :: [], x.Sized := by simp [ClientCall.Sized]
  have hgone := released_never_resolves duneWorld_start oneBlock_run hfree (Lts.Run.nil _) hsized
    oneBlock_regionOf
  exact hgone.1

/-- The accounting of pages: a pointer that is held is its block, or a region that resolves to the pages of
its block; different pointers have different blocks and disjoint regions, the regions are apart from the
freelist, and no other page of the dedicated memory resolves. -/
structure PagesExact (C : SysContract A L) (Z : Fin PT_NUM_ENTRIES → Prop) (c : Client σ) : Prop where
  pointers : ∀ p ∈ c.held,
    (p ∈ C.live c.world.sys ∧ vremapResolve L c.world.pt p = (VREM_NOT_REMAPPED, some p)) ∨
    ∃ b ∈ C.live c.world.sys, vremapResolve L c.world.pt p = (VREM_OK, some b) ∧
      p % PGSIZE = b % PGSIZE ∧
      ∀ k, k < numSpannedPages b (A.mallocUsableSize b c.world.sys) → ∀ o, o < PGSIZE →
        ptResolve c.world.pt (roundDown p PGSIZE + k * PGSIZE + o) =
          roundDown (L.duneVaToPa b) PGSIZE + k * PGSIZE + o
  blocks : (c.held.map (originalPtr L c.world.pt)).Nodup
  disjoint : c.held.Pairwise fun p q => Disjoint (regionOf A L c.world p) (regionOf A L c.world q)
  freelist : ∀ p ∈ c.held, Disjoint (regionOf A L c.world p) (owned c.world.items)
  rest : ∀ a ∈ vmem Z, (∀ p ∈ c.held, a ∉ regionOf A L c.world p) → ptResolve c.world.pt a = 0

/-- The bytes of a region resolve to those of the pages of the block. -/
theorem Mapping.Ok.resolve_byte {pt : PtState} {m : Mapping} {k o : Nat} (hm : m.Ok L Z pt)
    (hframe : PGSIZE ≤ m.frame L) (hk : k < m.npages) (ho : o < PGSIZE) :
    ptResolve pt (m.base + k * PGSIZE + o) = m.frame L + k * PGSIZE + o := by
  have halign := m.base_aligned
  have hbound := (pgOffset_of_bound hm.bound hk).2
  have hpage : (m.base + k * PGSIZE + o) / PGSIZE = m.base / PGSIZE + k ∧
      (m.base + k * PGSIZE + o) % PGSIZE = o ∧ m.base + k * PGSIZE + o < 2 ^ 48 := by
    simp only [PGSIZE] at *
    omega
  obtain ⟨hdiv, hmod, hlt⟩ := hpage
  rw [hm.resolve hframe hk ((path_eq_page_iff halign hbound hlt).mpr hdiv), hmod]

section Exact

variable {x : Handle} {held : List Nat}

theorem Accounted.of_mem (h : Accounted C Z others hs stale held w) (hx : x ∈ hs) :
    Accounted C Z others (x :: hs.erase x) stale held w := h.perm (List.perm_cons_erase hx).symm

/-- The region of a handle. -/
theorem Accounted.regionOf_eq (hZ : SlotsOk L Z) (h : Accounted C Z others hs stale held w) (hx : x ∈ hs) :
    regionOf A L w x.ptr = if x.ptr = x.block then ∅ else x.mapping.pages := by
  obtain ⟨hne, -, ⟨hregion, hresolve, hsound⟩ | ⟨hhome, hresolve, -⟩⟩ := (h.of_mem hx).resolve hZ
  · rw [if_neg hregion]
    exact regionOf_region hne hresolve (hsound.sys.usable _ List.mem_cons_self)
  · rw [if_pos hhome]
    exact regionOf_home hresolve

/-- The regions of different handles are disjoint. -/
theorem Accounted.regions_disjoint (hZ : SlotsOk L Z) (h : Accounted C Z others hs stale held w) :
    hs.Pairwise fun x y => Disjoint (regionOf A L w x.ptr) (regionOf A L w y.ptr) := by
  have hmaps := (List.pairwise_append.mp h.sound.remap.disjoint).1
  rw [mapsOf, List.pairwise_map, List.pairwise_filter] at hmaps
  refine hmaps.imp_of_mem fun {x y} hx hy hxy => ?_
  rw [h.regionOf_eq hZ hx, h.regionOf_eq hZ hy]
  split_ifs with hxhome hyhome
  · exact Set.disjoint_empty _
  · exact Set.empty_disjoint _
  · exact Set.disjoint_empty _
  · exact hxy (by simpa using hxhome) (by simpa using by assumption)

/-- The blocks behind the pointers held. -/
theorem Accounted.originalPtrs_perm (hZ : SlotsOk L Z) (h : Accounted C Z others hs stale held w) :
    (held.map (originalPtr L w.pt)).Perm (hs.map Handle.block) := by
  have hblocks : (hs.map fun x => originalPtr L w.pt x.ptr) = hs.map Handle.block := by
    apply List.map_congr_left
    intro x hx
    exact ((h.of_mem hx).resolve hZ).2.1
  have hmap := h.held.map (originalPtr L w.pt)
  rw [List.map_map] at hmap
  exact hmap.trans (hblocks ▸ List.Perm.refl _)

end Exact

/-- The accounting, from the invariant of the client without regions that were left behind. -/
theorem ClientInv.pagesExact (hZ : SlotsOk L Z) (h : ClientInv C Z others hs [] c) :
    PagesExact C Z c := by
  have hacc := h.accounted
  refine ⟨fun p hp => ?_, ?_, ?_, fun p hp => ?_, fun a ha hnot => ?_⟩
  · obtain ⟨x, hs0, rfl, hx⟩ := h.picked hZ hp
    have husable := hx.accounted.usable x List.mem_cons_self
    rcases (hx.accounted.resolve hZ).2.2 with ⟨-, hresolve, hsound⟩ | ⟨hhome, hresolve, hsound⟩
    · right
      have hok := hsound.remap.mapsOk _ List.mem_cons_self
      have hframe : PGSIZE ≤ x.mapping.frame L := (hsound.sys.homeBlock List.mem_cons_self).frames.2.1
      refine ⟨x.block, hsound.sys.mem_live List.mem_cons_self, hresolve, hok.offset, fun k hk o ho => ?_⟩
      rw [show A.mallocUsableSize x.block c.world.sys = x.usable from
        hsound.sys.usable _ List.mem_cons_self] at hk
      exact hok.resolve_byte hframe hk ho
    · left
      rw [hhome] at hresolve ⊢
      exact ⟨hsound.sys.mem_live List.mem_cons_self, hresolve⟩
  · have hperm := hacc.originalPtrs_perm hZ
    have hnodup := (List.nodup_append.mp hacc.sound.sys.nodup).1
    rw [blocksOf, List.map_map] at hnodup
    exact hperm.nodup_iff.mpr hnodup
  · refine (hacc.held.pairwise_iff fun {_ _} hd => hd.symm).mpr ?_
    rw [List.pairwise_map]
    exact hacc.regions_disjoint hZ
  · obtain ⟨x, hx, rfl⟩ := List.mem_map.mp (hacc.held.mem_iff.mp hp)
    rw [hacc.regionOf_eq hZ hx]
    split_ifs with hhome
    · exact Set.empty_disjoint _
    · refine hacc.sound.remap.mapsOwned _ (List.mem_append_left _ (List.mem_map.mpr ⟨x, ?_, rfl⟩))
      exact List.mem_filter.mpr ⟨hx, by simpa using hhome⟩
  · refine ptResolve_of_entry_none (hacc.sound.remap.unmapped a ha fun m hm ham => ?_)
    rw [List.append_nil] at hm
    obtain ⟨x, hx, rfl⟩ := List.mem_map.mp hm
    obtain ⟨hx, hregion⟩ := List.mem_filter.mp hx
    refine hnot x.ptr (hacc.held.mem_iff.mpr (List.mem_map_of_mem hx)) ?_
    rw [hacc.regionOf_eq hZ hx, if_neg (by simpa using hregion)]
    exact ham

/-- **The pages of what the client holds are accounted for exactly**, in every state of every run. -/
theorem pagesExact_of_run (hstart : DuneStart C w)
    (hrun : Lts.Run (ClientStep C storage) ⟨w, [], []⟩ calls c) (hsized : ∀ call ∈ calls, call.Sized) :
    PagesExact C (FreeSlot w.pt) c := by
  obtain ⟨others', hs', stale', hinv, -, hstale⟩ :=
    hstart.inv.run hstart.slotsOk hrun (Or.inr hsized)
  obtain rfl := hstale hsized
  exact hinv.pagesExact hstart.slotsOk

theorem pagesExact_of_run_twoBlocks : PagesExact (bumpContract duneLayout) (FreeSlot duneWorld.pt) twoBlocks :=
  pagesExact_of_run duneWorld_start twoBlocks_run (by simp [ClientCall.Sized])

section Realloc

variable {x : Handle} {hs0 : List Handle} {m : Mapping} {maps : List Mapping} {blocks : List (Nat × Nat)}
  {b u a : Nat} {r : Nat × World σ}

/-- What `do_vremap` keeps, whatever it answers. -/
theorem Remapped.sound (hsound : Sound C Z others maps blocks w)
    (h : Remapped C Z others maps blocks w b u n r) :
    ∃ maps', Sound C Z others maps' blocks r.2 ∧ Spends maps w maps' r.2 := by
  cases h with
  | zero _ hr =>
      obtain rfl := hr
      exact ⟨maps, hsound, Spends.refl _ _⟩
  | fallback _ _ hsound' hspends => exact ⟨_, hsound', hspends⟩
  | region _ hsound' hspends => exact ⟨_, hsound', hspends⟩

/-- The pages of a block that `dangless_realloc` leaves resolve to nothing once the block is gone, unless the
library has released it and answered `NULL`. -/
theorem Realloced.noDangling_iff (h : Sound C Z others (m :: maps) ((b, u) :: blocks) w)
    (hm : m.Of b u) (hu : 0 < u) (hr : Realloced C Z others maps blocks w m b u n r) :
    (b ∉ C.live r.2.sys → ∀ a ∈ m.pages, ptResolve r.2.pt a = 0) ↔
      ¬ ((A.realloc b n w.sys).1 = 0 ∧ b ∉ C.live (A.realloc b n w.sys).2) := by
  have hb : b ≠ 0 := (h.sys.homeBlock List.mem_cons_self).home.ne_zero
  cases hr with
  | failed hanswer _ hsys hsound _ =>
      have hlive := hsound.sys.mem_live List.mem_cons_self
      refine ⟨fun _ hgone => ?_, fun _ hgone => absurd hlive hgone⟩
      rw [← hsys] at hgone
      exact hgone.2 hlive
  | released hanswer _ _ hsys hgone hsound _ =>
      rw [hsys] at hgone
      refine ⟨fun hnone => ?_, fun hnot => absurd ⟨hanswer, hgone⟩ hnot⟩
      -- the page of the pointer still resolves to that of the block
      have hpos : 1 ≤ m.npages := hm.npages ▸ numSpannedPages_pos (h.sys.homeBlock List.mem_cons_self) hu
      have hok := hsound.remap.mapsOk m List.mem_cons_self
      have hframe : PGSIZE ≤ m.frame L := by
        have hblock := (h.sys.homeBlock List.mem_cons_self).frames.2.1
        rwa [← hm.block] at hblock
      have hbase := hok.resolve_byte (o := 0) hframe hpos (by decide)
      have hmem : m.base + 0 * PGSIZE + 0 ∈ m.pages := by
        constructor <;> simp only [PGSIZE] <;> omega
      rw [← hsys] at hgone
      rw [hnone hgone _ hmem] at hbase
      simp only [PGSIZE] at hbase hframe
      omega
  | kept hanswer _ _ u' _ _ hsound _ =>
      have hlive := hsound.sys.mem_live List.mem_cons_self
      refine ⟨fun _ hnull => hb ?_, fun _ hgone => absurd hlive hgone⟩
      rw [← hanswer]
      exact hnull.1
  | moved hanswer _ b' u' w1 _ _ hsound hspends hremapped =>
      refine ⟨fun _ hnull => hanswer hnull.1, fun _ _ a ha => ?_⟩
      obtain ⟨maps', hsound', hspends'⟩ := hremapped.sound hsound
      exact (h.outOfUse (hspends.trans hspends') ha).resolve hsound'.remap

/-- **`dangless_realloc` leaves no page of a block that is gone** exactly where the library has not both
released the block and answered `NULL`, as glibc's `realloc` does with size 0. -/
theorem danglessRealloc_noDangling_iff (hstart : DuneStart C w)
    (hrun : Lts.Run (ClientStep C storage) ⟨w, [], []⟩ calls c)
    (hsized : MinimumSize C ∨ ∀ call ∈ calls, call.Sized) (hp : p ∈ c.held)
    (hresolve : vremapResolve L c.world.pt p = (VREM_OK, some b)) :
    (b ∉ C.live (danglessRealloc A L p n c.world).2.sys → ∀ a ∈ regionOf A L c.world p,
        ptResolve (danglessRealloc A L p n c.world).2.pt a = 0) ↔
      ¬ ((A.realloc b n c.world.sys).1 = 0 ∧ b ∉ C.live (A.realloc b n c.world.sys).2) := by
  have hZ := hstart.slotsOk
  obtain ⟨others', hs', stale', hinv, -, -⟩ := hstart.inv.run hZ hrun hsized
  obtain ⟨x, hs0, rfl, hx⟩ := hinv.picked hZ hp
  obtain ⟨hne, -, ⟨hregion, hresolve', hsound⟩ | ⟨-, hresolve', -⟩⟩ := hx.accounted.resolve hZ
  · obtain rfl : x.block = b := Option.some.inj (Prod.mk.inj (hresolve'.symm.trans hresolve)).2
    have husable := hx.accounted.usable x List.mem_cons_self
    rw [regionOf_region hne hresolve (hsound.sys.usable _ List.mem_cons_self),
      danglessRealloc_eq hinv.ready]
    have hsound1 := hsound.rehook 1
    have hrealloced := danglessReallocHooked_remapped (n := n) hZ hsound1 ⟨rfl, rfl⟩ husable
    have hiff := hrealloced.noDangling_iff hsound1 ⟨rfl, rfl⟩ husable
    exact hiff
  · have hcode := (Prod.mk.inj (hresolve'.symm.trans hresolve)).1
    exact absurd hcode (show VREM_NOT_REMAPPED ≠ VREM_OK by decide)

theorem danglessRealloc_noDangling_iff_oneBlock :
    ptResolve (danglessRealloc bumpAllocator duneLayout PHYS_LIMIT 5000 oneBlock.world).2.pt PHYS_LIMIT = 0 := by
  obtain ⟨hanswer, hgone⟩ : (bumpAllocator.realloc PGSIZE 5000 oneBlock.world.sys).1 ≠ 0 ∧
      ∀ y ∈ (danglessRealloc bumpAllocator duneLayout PHYS_LIMIT 5000 oneBlock.world).2.sys.blocks,
        y.1 ≠ PGSIZE := by decide +kernel
  have hiff := danglessRealloc_noDangling_iff (n := 5000) duneWorld_start oneBlock_run
    (Or.inr (by simp [ClientCall.Sized])) List.mem_cons_self oneBlock_resolve
  apply hiff.mpr fun hnull => hanswer hnull.1
  · rintro ⟨y, hy, hblock⟩
    exact hgone y hy hblock
  · exact oneBlock_regionOf

/-- With size 0 the library here releases the block, and its page still resolves afterwards. -/
theorem danglessRealloc_dangling :
    Lts.Run (ClientStep (bumpContract duneLayout) 0) ⟨duneWorld, [], []⟩ [.malloc 32] oneBlock ∧
      PGSIZE ∉ BumpHeap.live (danglessRealloc bumpAllocator duneLayout PHYS_LIMIT 0 oneBlock.world).2.sys ∧
      PHYS_LIMIT ∈ regionOf bumpAllocator duneLayout oneBlock.world PHYS_LIMIT ∧
      ptResolve (danglessRealloc bumpAllocator duneLayout PHYS_LIMIT 0 oneBlock.world).2.pt PHYS_LIMIT =
        PGSIZE := by
  obtain ⟨hgone, hresolve⟩ :
      (∀ y ∈ (danglessRealloc bumpAllocator duneLayout PHYS_LIMIT 0 oneBlock.world).2.sys.blocks, y.1 ≠ PGSIZE) ∧
      ptResolve (danglessRealloc bumpAllocator duneLayout PHYS_LIMIT 0 oneBlock.world).2.pt PHYS_LIMIT =
        PGSIZE := by decide +kernel
  refine ⟨oneBlock_run, ?_, oneBlock_regionOf, hresolve⟩
  rintro ⟨y, hy, hblock⟩
  exact hgone y hy hblock

end Realloc

end Dangless
