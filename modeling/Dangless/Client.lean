import Dangless.DanglessRelease
import Dangless.LibRun

/-! Runs of a client of the allocator, in kernel mode, and the accounting of what it holds: behind each
pointer there is a block of the library, and the pointer is the block itself or points into a region of its
own. -/

namespace Dangless

variable {σ : Type} {A : SysAllocator σ} {L : DuneLayout} {C : SysContract A L}
  {Z : Fin PT_NUM_ENTRIES → Prop} {others : Set Nat} {maps : List Mapping} {blocks : List (Nat × Nat)}
  {w w' : World σ}

/-- The hooks are not nested, the ring is that of the kernel, and `populate_addrs` is done. -/
structure Ready (w : World σ) : Prop where
  kernelMode : w.kernelMode = true
  hookDepth : w.hookDepth = 0
  addr : w.addr .calloc = true

/-- A client: the state of the program, the pointers it holds, and those into a region that it has
released. -/
structure Client (σ : Type) where
  world : World σ
  held : List Nat
  released : List Nat

inductive ClientCall where
  | malloc (size : Nat)
  | calloc (num size : Nat)
  | realloc (p newSize : Nat)
  | free (p : Nat)

/-- The pointers held after a call has answered. -/
def gain (p : Nat) (held : List Nat) : List Nat := if p = 0 then held else p :: held

/-- `original_ptr` of `dangless_free` and `dangless_realloc`. -/
def originalPtr (L : DuneLayout) (pt : PtState) (p : Nat) : Nat :=
  if p = 0 then 0 else (vremapResolve L pt p).2.getD p

/-- A pointer into a region joins the released ones. -/
def Client.release (L : DuneLayout) (c : Client σ) (p : Nat) : List Nat :=
  if (vremapResolve L c.world.pt p).1 = VREM_OK then p :: c.released else c.released

/-- The library's `realloc` has answered `NULL` and left the block alone. -/
def ReallocFailed (C : SysContract A L) (c : Client σ) (p n : Nat) : Prop :=
  (A.realloc (originalPtr L c.world.pt p) n c.world.sys).1 = 0 ∧
    originalPtr L c.world.pt p ∈ C.live (A.realloc (originalPtr L c.world.pt p) n c.world.sys).2

/-- The calls of a client that only frees and reallocates what it holds. `NULL` from `realloc` takes the
pointer away, unless the library's `realloc` has failed. -/
inductive ClientStep (C : SysContract A L) (storage : Nat) :
    Client σ → ClientCall → Client σ → Prop
  | malloc (c : Client σ) (size : Nat) : ClientStep C storage c (.malloc size)
      ⟨(danglessMalloc A L size c.world).2, gain (danglessMalloc A L size c.world).1 c.held, c.released⟩
  | calloc (c : Client σ) (num size : Nat) : ClientStep C storage c (.calloc num size)
      ⟨(danglessCalloc A L storage num size c.world).2,
        gain (danglessCalloc A L storage num size c.world).1 c.held, c.released⟩
  | reallocNull (c : Client σ) (n : Nat) : ClientStep C storage c (.realloc 0 n)
      ⟨(danglessRealloc A L 0 n c.world).2, gain (danglessRealloc A L 0 n c.world).1 c.held, c.released⟩
  | realloc (c : Client σ) (p n : Nat) (hp : p ∈ c.held) (hr : (danglessRealloc A L p n c.world).1 ≠ 0) :
      ClientStep C storage c (.realloc p n)
        ⟨(danglessRealloc A L p n c.world).2, (danglessRealloc A L p n c.world).1 :: c.held.erase p,
          if (danglessRealloc A L p n c.world).1 = p then c.released else c.release L p⟩
  | reallocFailed (c : Client σ) (p n : Nat) (hp : p ∈ c.held)
      (hr : (danglessRealloc A L p n c.world).1 = 0) (hfailed : ReallocFailed C c p n) :
      ClientStep C storage c (.realloc p n) ⟨(danglessRealloc A L p n c.world).2, c.held, c.released⟩
  | reallocReleased (c : Client σ) (p n : Nat) (hp : p ∈ c.held)
      (hr : (danglessRealloc A L p n c.world).1 = 0) (hfailed : ¬ ReallocFailed C c p n) :
      ClientStep C storage c (.realloc p n)
        ⟨(danglessRealloc A L p n c.world).2, c.held.erase p, c.release L p⟩
  | freeNull (c : Client σ) : ClientStep C storage c (.free 0)
      ⟨danglessFree A L 0 c.world, c.held, c.released⟩
  | free (c : Client σ) (p : Nat) (hp : p ∈ c.held) : ClientStep C storage c (.free p)
      ⟨danglessFree A L p c.world, c.held.erase p, c.release L p⟩

theorem Ready.of_modes (h : Ready w) (hmodes : w'.modes = w.modes) : Ready w' := by
  simp only [World.modes, Prod.mk.injEq] at hmodes
  obtain ⟨hkernel, hdepth, haddr, -⟩ := hmodes
  exact ⟨hkernel.trans h.kernelMode, hdepth.trans h.hookDepth, (congrFun haddr _).trans h.addr⟩

theorem Ready.hookEnter (h : Ready w) : hookEnter w = some { w with hookDepth := 1 } := by
  unfold Dangless.hookEnter
  rw [h.hookDepth, h.kernelMode]
  rfl

theorem Sound.rehook (h : Sound C Z others maps blocks w) (depth : Nat) :
    Sound C Z others maps blocks { w with hookDepth := depth } :=
  ⟨⟨h.sys.congr (List.Perm.refl _) rfl rfl h.sys.own, h.remap⟩, h.undedicated⟩

/-- A call between `HOOK_ENTER` and `HOOK_EXIT`. -/
theorem Spends.hook {maps' : List Mapping} (hready : Ready w)
    (h : Spends maps { w with hookDepth := 1 } maps' w') : Spends maps w maps' (hookExit w') := by
  obtain ⟨hmodes, hded, hused⟩ := h
  refine ⟨?_, hded, hused⟩
  simp only [World.modes, Prod.mk.injEq] at hmodes
  obtain ⟨hkernel, hdepth, haddr, hpop, hstorage⟩ := hmodes
  simp only [World.modes, hookExit, hkernel, hdepth, haddr, hpop, hstorage, hready.hookDepth]

/-- A pointer the client holds, the block behind it and the usable size of the block. -/
structure Handle where
  ptr : Nat
  block : Nat
  usable : Nat
  deriving DecidableEq

def Handle.mapping (h : Handle) : Mapping := ⟨h.ptr, h.block, numSpannedPages h.block h.usable⟩

/-- The regions of the pointers that are not the blocks themselves. -/
def mapsOf (hs : List Handle) : List Mapping := (hs.filter fun h => h.ptr ≠ h.block).map Handle.mapping

def blocksOf (hs : List Handle) : List (Nat × Nat) := hs.map fun h => (h.block, h.usable)

/-- The accounting of the pointers held. `stale` are regions whose blocks were taken back. -/
structure Accounted (C : SysContract A L) (Z : Fin PT_NUM_ENTRIES → Prop) (others : Set Nat)
    (hs : List Handle) (stale : List Mapping) (held : List Nat) (w : World σ) : Prop where
  held : held.Perm (hs.map Handle.ptr)
  usable : ∀ h ∈ hs, 0 < h.usable
  sound : Sound C Z others (mapsOf hs ++ stale) (blocksOf hs) w

section Accounted

variable {hs hs' : List Handle} {stale : List Mapping} {held : List Nat} {x : Handle} {p n b u : Nat}
  {r : Nat × World σ}

theorem mapsOf_cons_region (hx : x.ptr ≠ x.block) : mapsOf (x :: hs) = x.mapping :: mapsOf hs := by
  simp [mapsOf, hx]

theorem mapsOf_cons_home (hx : x.ptr = x.block) : mapsOf (x :: hs) = mapsOf hs := by
  simp [mapsOf, hx]

theorem Sound.perm {maps' : List Mapping} {blocks' : List (Nat × Nat)}
    (h : Sound C Z others maps blocks w) (hmaps : maps'.Perm maps) (hblocks : blocks'.Perm blocks) :
    Sound C Z others maps' blocks' w := by
  refine ⟨⟨h.sys.congr hblocks rfl rfl h.sys.own, h.remap.perm hmaps⟩, fun hnot => ?_⟩
  obtain ⟨hitems, hnil⟩ := h.undedicated hnot
  exact ⟨hitems, List.Perm.eq_nil (hnil ▸ hmaps)⟩

theorem mapsOf_perm (hperm : hs'.Perm hs) (stale : List Mapping) :
    (mapsOf hs' ++ stale).Perm (mapsOf hs ++ stale) :=
  ((hperm.filter _).map _).append_right _

theorem Accounted.perm (h : Accounted C Z others hs stale held w) (hperm : hs'.Perm hs) :
    Accounted C Z others hs' stale held w :=
  ⟨h.held.trans (hperm.map _).symm, fun x hx => h.usable x (hperm.mem_iff.mp hx),
    h.sound.perm (mapsOf_perm hperm stale) (hperm.map _)⟩

theorem Spends.weaken {maps' maps'' : List Mapping} (h : Spends maps w maps'' w')
    (hmaps : ∀ m ∈ maps, ∃ m' ∈ maps', m.pages ⊆ m'.pages) : Spends maps' w maps'' w' := by
  refine ⟨h.modes, h.dedicated, fun hw => (h.used hw).trans (Set.union_subset_union_right _ ?_)⟩
  rintro a ⟨m, hm, ha⟩
  obtain ⟨m', hm', hsub⟩ := hmaps m hm
  exact ⟨m', hm', hsub ha⟩

theorem Spends.of_subset {maps' maps'' : List Mapping} (h : Spends maps w maps'' w') (hmaps : maps ⊆ maps') :
    Spends maps' w maps'' w' := h.weaken fun m hm => ⟨m, hmaps hm, subset_rfl⟩

theorem Spends.shrink {maps' maps'' : List Mapping} (h : Spends maps w maps' w') (hmaps : maps'' ⊆ maps') :
    Spends maps w maps'' w' := by
  refine ⟨h.modes, h.dedicated, fun hw => Set.Subset.trans (Set.union_subset_union_right _ ?_) (h.used hw)⟩
  rintro a ⟨m, hm, ha⟩
  exact ⟨m, hmaps hm, ha⟩

/-- A block that is held as it is. -/
theorem Accounted.consHome (hheld : held.Perm (hs.map Handle.ptr)) (husable : ∀ y ∈ hs, 0 < y.usable)
    (hu : 0 < u) (hsound : Sound C Z others (mapsOf hs ++ stale) ((b, u) :: blocksOf hs) w) :
    Accounted C Z others (⟨b, b, u⟩ :: hs) stale (b :: held) w := by
  have hmaps : mapsOf (⟨b, b, u⟩ :: hs) = mapsOf hs := mapsOf_cons_home rfl
  exact ⟨hheld.cons _, List.forall_mem_cons.mpr ⟨hu, husable⟩, hmaps ▸ hsound⟩

theorem mapsOf_resize (hregion : x.ptr ≠ x.block) (u : Nat) : mapsOf ({ x with usable := u } :: hs) =
    { x.mapping with npages := numSpannedPages x.block u } :: mapsOf hs :=
  mapsOf_cons_region (show ({ x with usable := u } : Handle).ptr ≠ _ from hregion)

/-- A block that was resized in place, with its region. -/
theorem Accounted.resize (hheld : held.Perm (hs.map Handle.ptr)) (husable : ∀ y ∈ hs, 0 < y.usable)
    (hu : 0 < u) (hregion : x.ptr ≠ x.block)
    (hsound : Sound C Z others ({ x.mapping with npages := numSpannedPages x.block u } :: (mapsOf hs ++ stale))
      ((x.block, u) :: blocksOf hs) w) :
    Accounted C Z others ({ x with usable := u } :: hs) stale (x.ptr :: held) w := by
  refine ⟨hheld.cons _, List.forall_mem_cons.mpr ⟨hu, husable⟩, ?_⟩
  rw [mapsOf_resize hregion]
  exact hsound

/-- A block that was taken back, while its region stays. -/
theorem Accounted.leaveRegion {m : Mapping} (hheld : held.Perm (hs.map Handle.ptr))
    (husable : ∀ y ∈ hs, 0 < y.usable) (hsound : Sound C Z others (m :: (mapsOf hs ++ stale)) (blocksOf hs) w) :
    Accounted C Z others hs (m :: stale) held w :=
  ⟨hheld, husable, hsound.perm List.perm_middle (List.Perm.refl _)⟩

/-- The handle of a pointer that is held. -/
theorem Accounted.pick (h : Accounted C Z others hs stale held w) (hp : p ∈ held) :
    ∃ x hs0, x.ptr = p ∧ hs.Perm (x :: hs0) ∧ Accounted C Z others (x :: hs0) stale held w ∧
      (held.erase p).Perm (hs0.map Handle.ptr) := by
  obtain ⟨x, hx, rfl⟩ := List.mem_map.mp (h.held.mem_iff.mp hp)
  have hperm := List.perm_cons_erase hx
  refine ⟨x, hs.erase x, rfl, hperm, h.perm hperm.symm, ?_⟩
  have herase := (h.held.trans (hperm.map _)).erase x.ptr
  rwa [List.map_cons, List.erase_cons_head] at herase

theorem gain_of_ne (hp : p ≠ 0) : gain p held = p :: held := if_neg hp

theorem gain_zero (held : List Nat) : gain 0 held = held := if_pos rfl

/-- A region that is in use. -/
theorem Sound.region_ne {m : Mapping} (hZ : SlotsOk L Z) (h : Sound C Z others (m :: maps) blocks w)
    (hb : (b, u) ∈ blocks) (hm : m.Of b u) (hu : 0 < u) : m.ptr ≠ b ∧ m.ptr ≠ 0 := by
  have hok := h.remap.mapsOk m List.mem_cons_self
  have hmem := hok.inVmem (hok.ptr_mem (hm.npages ▸ numSpannedPages_pos (h.sys.homeBlock hb) hu)).1
  constructor
  · intro heq
    exact home_notMem_vmem hZ (h.sys.homeBlock hb).home (heq ▸ hmem)
  · intro hzero
    exact zero_notMem_vmem hZ (hzero ▸ hmem)

/-- What the client holds once `do_vremap` has answered for a new block. Size 0 loses the block. -/
theorem Remapped.accounted (hZ : SlotsOk L Z) (hheld : held.Perm (hs.map Handle.ptr))
    (husable : ∀ x ∈ hs, 0 < x.usable)
    (hsound : Sound C Z others (mapsOf hs ++ stale) ((b, u) :: blocksOf hs) w) (hle : n ≤ u)
    (h : Remapped C Z others (mapsOf hs ++ stale) ((b, u) :: blocksOf hs) w b u n r) :
    ∃ others' hs', Accounted C Z others' hs' stale (gain r.1 held) r.2 ∧
      Spends (mapsOf hs ++ stale) w (mapsOf hs' ++ stale) r.2 ∧ (n ≠ 0 → others' = others) := by
  have hgain : ∀ x : Handle, x.ptr = r.1 → x.block = b → x.usable = u → x.ptr ≠ 0 → n ≠ 0 →
      Sound C Z others (mapsOf (x :: hs) ++ stale) ((b, u) :: blocksOf hs) r.2 →
      Accounted C Z others (x :: hs) stale (gain r.1 held) r.2 := by
    intro x hptr hblock hsize hne hn hsound'
    have hblocks : blocksOf (x :: hs) = (b, u) :: blocksOf hs := by rw [← hblock, ← hsize]; rfl
    refine ⟨?_, fun y hy => ?_, hblocks ▸ hsound'⟩
    · rw [gain_of_ne (hptr ▸ hne), List.map_cons, hptr]
      exact hheld.cons _
    · rcases List.mem_cons.mp hy with rfl | hy
      · omega
      · exact husable y hy
  cases h with
  | zero hsize hr =>
      obtain rfl := hr
      refine ⟨insert b others, hs, ⟨hheld, husable, ⟨⟨hsound.sys.leak, hsound.remap⟩, hsound.undedicated⟩⟩,
        Spends.refl _ _, fun hne => absurd hsize hne⟩
  | fallback hsize hr hsound' hspends =>
      have hmaps : mapsOf (⟨r.1, b, u⟩ :: hs) = mapsOf hs := mapsOf_cons_home hr
      have hb0 : b ≠ 0 := (hsound.sys.homeBlock List.mem_cons_self).home.ne_zero
      refine ⟨others, ⟨r.1, b, u⟩ :: hs, hgain _ rfl rfl rfl (hr ▸ hb0) hsize ?_, ?_, fun _ => rfl⟩
      · rw [hmaps]
        exact hsound'
      · rw [hmaps]
        exact hspends
  | region hsize hsound' hspends =>
      obtain ⟨hneBlock, hne⟩ := hsound'.region_ne hZ List.mem_cons_self ⟨rfl, rfl⟩ (by omega)
      have hmaps : mapsOf (⟨r.1, b, u⟩ :: hs) = ⟨r.1, b, numSpannedPages b u⟩ :: mapsOf hs :=
        mapsOf_cons_region hneBlock
      refine ⟨others, ⟨r.1, b, u⟩ :: hs, hgain _ rfl rfl rfl hne hsize ?_, ?_, fun _ => rfl⟩
      · rw [hmaps]
        exact hsound'
      · rw [hmaps]
        exact hspends

theorem Obtained.accounted {answer : Nat} (hZ : SlotsOk L Z)
    (hacc : Accounted C Z others hs stale held w)
    (h : Obtained C Z others (mapsOf hs ++ stale) (blocksOf hs) w answer n r) :
    ∃ others' hs', Accounted C Z others' hs' stale (gain r.1 held) r.2 ∧
      Spends (mapsOf hs ++ stale) w (mapsOf hs' ++ stale) r.2 ∧
      ((n = 0 → answer = 0) → others' = others) := by
  cases h with
  | null _ hr hsound hspends =>
      refine ⟨others, hs, ?_, hspends, fun _ => rfl⟩
      rw [hr, gain_zero]
      exact ⟨hacc.held, hacc.usable, hsound⟩
  | block hanswer u' w1 hu' hsound hspends hremapped =>
      obtain ⟨others', hs', hacc', hspends', hothers⟩ :=
        hremapped.accounted hZ hacc.held hacc.usable hsound hu'
      exact ⟨others', hs', hacc', hspends.trans hspends', fun hlossless =>
        hothers fun hzero => hanswer (hlossless hzero)⟩

/-- The region of a remapped pointer, as `dangless_free` computes it. -/
def regionOf (A : SysAllocator σ) (L : DuneLayout) (w : World σ) (p : Nat) : Set Nat :=
  {a | p ≠ 0 ∧ ∃ b, vremapResolve L w.pt p = (VREM_OK, some b) ∧
    a ∈ region (roundDown p PGSIZE) (numSpannedPages b (A.mallocUsableSize b w.sys))}

/-- What `vremap_resolve` makes of a pointer that is held. -/
theorem Accounted.resolve (hZ : SlotsOk L Z) (h : Accounted C Z others (x :: hs) stale held w) :
    x.ptr ≠ 0 ∧ originalPtr L w.pt x.ptr = x.block ∧
      ((x.ptr ≠ x.block ∧ vremapResolve L w.pt x.ptr = (VREM_OK, some x.block) ∧
        Sound C Z others (x.mapping :: (mapsOf hs ++ stale)) ((x.block, x.usable) :: blocksOf hs) w) ∨
      (x.ptr = x.block ∧ vremapResolve L w.pt x.ptr = (VREM_NOT_REMAPPED, some x.block) ∧
        Sound C Z others (mapsOf hs ++ stale) ((x.block, x.usable) :: blocksOf hs) w)) := by
  have hsound := h.sound
  have husable := h.usable x List.mem_cons_self
  by_cases hx : x.ptr = x.block
  · rw [mapsOf_cons_home hx] at hsound
    have hhome := (hsound.sys.homeBlock List.mem_cons_self).home
    have hne : x.ptr ≠ 0 := hx ▸ hhome.ne_zero
    have hresolve : vremapResolve L w.pt x.ptr = (VREM_NOT_REMAPPED, some x.block) := by
      rw [hx]
      exact hsound.remap.vremapResolve_home hhome
    refine ⟨hne, ?_, Or.inr ⟨hx, hresolve, hsound⟩⟩
    rw [originalPtr, if_neg hne, hresolve]
    rfl
  · rw [mapsOf_cons_region hx] at hsound
    have hof : x.mapping.Of x.block x.usable := ⟨rfl, rfl⟩
    have hne : x.ptr ≠ 0 := (hsound.region_ne hZ List.mem_cons_self hof husable).2
    have hresolve : vremapResolve L w.pt x.ptr = (VREM_OK, some x.block) :=
      (hsound.resolve hZ List.mem_cons_self List.mem_cons_self hof husable).2
    refine ⟨hne, ?_, Or.inl ⟨hx, hresolve, hsound⟩⟩
    rw [originalPtr, if_neg hne, hresolve]
    rfl

theorem regionOf_region (hne : x.ptr ≠ 0) (hresolve : vremapResolve L w.pt x.ptr = (VREM_OK, some x.block))
    (husable : A.mallocUsableSize x.block w.sys = x.usable) : regionOf A L w x.ptr = x.mapping.pages := by
  ext a
  constructor
  · rintro ⟨-, b, hb, ha⟩
    rw [hresolve] at hb
    obtain rfl := Option.some.inj (Prod.mk.inj hb).2
    rwa [husable] at ha
  · intro ha
    refine ⟨hne, x.block, hresolve, ?_⟩
    rw [husable]
    exact ha

theorem regionOf_home {b : Nat} (hresolve : vremapResolve L w.pt p = (VREM_NOT_REMAPPED, some b)) :
    regionOf A L w p = ∅ := by
  ext a
  refine ⟨fun ha => ?_, fun ha => absurd ha (Set.notMem_empty _)⟩
  obtain ⟨-, c, hc, -⟩ := ha
  rw [hresolve] at hc
  exact absurd (Prod.mk.inj hc).1 (show VREM_NOT_REMAPPED ≠ VREM_OK by decide)

/-- A region is apart from all other virtual memory in use. -/
theorem Sound.notMem_used {m : Mapping} {a : Nat} (h : Sound C Z others (m :: maps) blocks w)
    (ha : a ∈ m.pages) : a ∉ Used maps w := by
  rintro (howned | ⟨m', hm', ha'⟩)
  · exact Set.disjoint_left.mp (h.remap.mapsOwned m List.mem_cons_self) ha howned
  · exact Set.disjoint_left.mp ((List.pairwise_cons.mp h.remap.disjoint).1 m' hm') ha ha'

theorem Sound.dedicated {m : Mapping} (h : Sound C Z others (m :: maps) blocks w) :
    w.autoDedicated = true := by
  cases hw : w.autoDedicated with
  | true => rfl
  | false => exact absurd (h.undedicated hw).2 (List.cons_ne_nil _ _)

end Accounted

/-! ### The invariant of the client -/

/-- An address that was in use and is not any more. -/
structure OutOfUse (Z : Fin PT_NUM_ENTRIES → Prop) (maps : List Mapping) (w : World σ) (a : Nat) :
    Prop where
  dedicated : w.autoDedicated = true
  inVmem : a ∈ vmem Z
  notUsed : a ∉ Used maps w

theorem OutOfUse.spends {maps' : List Mapping} {a : Nat} (h : OutOfUse Z maps w a)
    (hspends : Spends maps w maps' w') : OutOfUse Z maps' w' a :=
  ⟨hspends.dedicated h.dedicated, h.inVmem, fun hused => h.notUsed (hspends.used h.dedicated hused)⟩

theorem OutOfUse.resolve {a : Nat} (h : OutOfUse Z maps w a) (hinv : RemapInv L Z maps w.items w.pt) :
    ptResolve w.pt a = 0 :=
  ptResolve_of_entry_none (hinv.unmapped a h.inVmem fun m hm ha => h.notUsed (Or.inr ⟨m, hm, ha⟩))

/-- The bytes of a region that a call takes out of use. -/
theorem Sound.outOfUse {m : Mapping} {maps' : List Mapping} {a : Nat}
    (h : Sound C Z others (m :: maps) blocks w) (hspends : Spends maps w maps' w') (ha : a ∈ m.pages) :
    OutOfUse Z maps' w' a :=
  ⟨hspends.dedicated h.dedicated, (h.remap.mapsOk m List.mem_cons_self).inVmem ha,
    fun hused => h.notMem_used ha (hspends.used h.dedicated hused)⟩

/-- The invariant: the accounting, and what became of the regions of released pointers. A released
pointer is out of use, or its region was left behind. -/
structure ClientInv (C : SysContract A L) (Z : Fin PT_NUM_ENTRIES → Prop) (others : Set Nat)
    (hs : List Handle) (stale : List Mapping) (c : Client σ) : Prop where
  accounted : Accounted C Z others hs stale c.held c.world
  ready : Ready c.world
  staleOk : ∀ m ∈ stale, 1 ≤ m.npages ∧ PGSIZE ≤ m.frame L
  released : ∀ p ∈ c.released, OutOfUse Z (mapsOf hs ++ stale) c.world p ∨ ∃ m ∈ stale, m.ptr = p

/-- The virtual pages that a call releases: those of the block that is freed, moved or regrown, and those
that a shrink in place cuts off. -/
def Released (A : SysAllocator σ) (L : DuneLayout) (c : Client σ) : ClientCall → Set Nat
  | .free p => regionOf A L c.world p
  | .realloc p n =>
      let b := originalPtr L c.world.pt p
      let r := A.realloc b n c.world.sys
      {a ∈ regionOf A L c.world p | r.1 ≠ 0 ∧
        (r.1 = b → reallocPages A r ≤ numSpannedPages b (A.mallocUsableSize b c.world.sys) →
          roundDown p PGSIZE + reallocPages A r * PGSIZE ≤ a)}
  | .malloc _ => ∅
  | .calloc _ _ => ∅

/-- `realloc` asks for more than 0 bytes. -/
def ClientCall.Sized : ClientCall → Prop
  | .realloc _ n => 0 < n
  | _ => True

/-- Where a call asks for 0 bytes, the library answers `NULL`. -/
def Lossless (A : SysAllocator σ) (L : DuneLayout) (c : Client σ) : ClientCall → Prop
  | .malloc size => size = 0 → (A.malloc size c.world.sys).1 = 0
  | .calloc num size => u64 (num * size) = 0 → (A.calloc num size c.world.sys).1 = 0
  | .realloc p n => n = 0 → (A.realloc (originalPtr L c.world.pt p) n c.world.sys).1 = 0
  | .free _ => True

/-- Every live block has a usable byte: the library hands out no blocks below its minimum size. -/
def MinimumSize (C : SysContract A L) : Prop :=
  ∀ s b, C.Ok s → b ∈ C.live s → 0 < A.mallocUsableSize b s

/-- What a step of the client keeps and does. -/
structure StepInv (C : SysContract A L) (Z : Fin PT_NUM_ENTRIES → Prop) (others others' : Set Nat)
    (hs hs' : List Handle) (stale stale' : List Mapping) (c : Client σ) (call : ClientCall)
    (c' : Client σ) : Prop where
  inv : ClientInv C Z others' hs' stale' c'
  spends : Spends (mapsOf hs ++ stale) c.world (mapsOf hs' ++ stale') c'.world
  gone : ∀ a ∈ Released A L c call, OutOfUse Z (mapsOf hs' ++ stale') c'.world a
  others : Lossless A L c call → others' = others
  stale : call.Sized → stale' = stale

section Steps

variable {others' : Set Nat} {hs : List Handle} {stale stale' : List Mapping} {c : Client σ}
  {storage p n : Nat} {r : Nat × World σ}

/-- What became of released pointers stays. -/
theorem ClientInv.released_mono {hs' : List Handle} (h : ClientInv C Z others hs stale c)
    (hspends : Spends (mapsOf hs ++ stale) c.world (mapsOf hs' ++ stale') w') (hstale : stale ⊆ stale') :
    ∀ p ∈ c.released, OutOfUse Z (mapsOf hs' ++ stale') w' p ∨ ∃ m ∈ stale', m.ptr = p := by
  intro p hp
  rcases h.released p hp with hout | ⟨m, hm, hptr⟩
  · exact Or.inl (hout.spends hspends)
  · exact Or.inr ⟨m, hstale hm, hptr⟩

theorem Accounted.rehook {held : List Nat} (h : Accounted C Z others hs stale held w) (depth : Nat) :
    Accounted C Z others hs stale held { w with hookDepth := depth } :=
  ⟨h.held, h.usable, h.sound.rehook depth⟩

theorem Accounted.hookExit {held : List Nat} (h : Accounted C Z others hs stale held w) :
    Accounted C Z others hs stale held (hookExit w) := h.rehook _

/-- A call that obtains a block, between the hooks. -/
theorem ClientInv.obtained {answer : Nat} (hZ : SlotsOk L Z) (h : ClientInv C Z others hs stale c)
    (hob : Obtained C Z others (mapsOf hs ++ stale) (blocksOf hs) { c.world with hookDepth := 1 }
      answer n r) :
    ∃ others' hs', ClientInv C Z others' hs' stale ⟨hookExit r.2, gain r.1 c.held, c.released⟩ ∧
      Spends (mapsOf hs ++ stale) c.world (mapsOf hs' ++ stale) (hookExit r.2) ∧
      ((n = 0 → answer = 0) → others' = others) := by
  obtain ⟨others', hs', hacc, hspends, hothers⟩ := hob.accounted hZ (h.accounted.rehook 1)
  have hspends' := Spends.hook h.ready hspends
  exact ⟨others', hs', ⟨hacc.hookExit, h.ready.of_modes hspends'.modes, h.staleOk,
    h.released_mono hspends' (List.Subset.refl _)⟩, hspends', hothers⟩

theorem danglessMalloc_eq (hready : Ready w) (size : Nat) : danglessMalloc A L size w =
    hookVremap A L (A.malloc size w.sys).1 size
      { w with sys := (A.malloc size w.sys).2, hookDepth := 1 } := by
  have hready' : Ready (sysmalloc A size w).2 := hready.of_modes rfl
  unfold danglessMalloc
  dsimp only
  rw [hready'.hookEnter]
  rfl

/-- `syscalloc` once `populate_addrs` has found `calloc`. -/
theorem syscalloc_eq (haddr : w.addr .calloc = true) (num size : Nat) : syscalloc A storage num size w =
    ((A.calloc num size w.sys).1, { w with sys := (A.calloc num size w.sys).2 }) := by
  unfold syscalloc
  rw [haddr]
  rfl

theorem danglessCalloc_eq (hready : Ready w) (num size : Nat) :
    danglessCalloc A L storage num size w = hookVremap A L (A.calloc num size w.sys).1 (u64 (num * size))
      { w with sys := (A.calloc num size w.sys).2, hookDepth := 1 } := by
  have hready' : Ready { w with sys := (A.calloc num size w.sys).2 } := hready.of_modes rfl
  unfold danglessCalloc
  rw [syscalloc_eq hready.addr]
  dsimp only
  rw [hready'.hookEnter]

theorem danglessRealloc_eq (hready : Ready w) (p n : Nat) : danglessRealloc A L p n w =
    ((danglessReallocHooked A L p n { w with hookDepth := 1 }).1,
      hookExit (danglessReallocHooked A L p n { w with hookDepth := 1 }).2) := by
  unfold danglessRealloc
  rw [hready.hookEnter]

theorem danglessFree_eq (hready : Ready w) (hp : p ≠ 0) : danglessFree A L p w =
    hookExit (danglessFreeHooked A L p { w with hookDepth := 1 }) := by
  unfold danglessFree
  rw [if_neg hp, hready.hookEnter]

/-- `dangless_malloc`. -/
theorem ClientInv.malloc (hZ : SlotsOk L Z) (h : ClientInv C Z others hs stale c) (size : Nat) :
    ∃ others' hs', StepInv C Z others others' hs hs' stale stale c (.malloc size)
      ⟨(danglessMalloc A L size c.world).2, gain (danglessMalloc A L size c.world).1 c.held,
        c.released⟩ := by
  obtain ⟨hok, hr⟩ := C.malloc c.world.sys size h.accounted.sound.sys.ok
  obtain ⟨others', hs', hinv, hspends, hothers⟩ := h.obtained hZ (doVremap_obtained
    { c.world with sys := _, hookDepth := 1 } hZ (h.accounted.sound.rehook 1) hok hr le_rfl rfl rfl rfl
    rfl rfl h.accounted.sound.sys.own)
  rw [danglessMalloc_eq h.ready]
  exact ⟨others', hs', hinv, hspends, fun a ha => absurd ha (Set.notMem_empty a), hothers, fun _ => rfl⟩

theorem ClientInv.calloc (hZ : SlotsOk L Z) (h : ClientInv C Z others hs stale c) (storage num size : Nat) :
    ∃ others' hs', StepInv C Z others others' hs hs' stale stale c (.calloc num size)
      ⟨(danglessCalloc A L storage num size c.world).2,
        gain (danglessCalloc A L storage num size c.world).1 c.held, c.released⟩ := by
  obtain ⟨hok, hr⟩ := C.calloc c.world.sys num size h.accounted.sound.sys.ok
  obtain ⟨others', hs', hinv, hspends, hothers⟩ := h.obtained hZ (doVremap_obtained
    { c.world with sys := _, hookDepth := 1 } hZ (h.accounted.sound.rehook 1) hok hr
    (Nat.mod_le (num * size) _) rfl rfl rfl rfl rfl h.accounted.sound.sys.own)
  rw [danglessCalloc_eq h.ready]
  exact ⟨others', hs', hinv, hspends, fun a ha => absurd ha (Set.notMem_empty a), hothers, fun _ => rfl⟩

theorem ClientInv.reallocNull (hZ : SlotsOk L Z) (h : ClientInv C Z others hs stale c) (n : Nat) :
    ∃ others' hs', StepInv C Z others others' hs hs' stale stale c (.realloc 0 n)
      ⟨(danglessRealloc A L 0 n c.world).2, gain (danglessRealloc A L 0 n c.world).1 c.held,
        c.released⟩ := by
  obtain ⟨others', hs', hinv, hspends, hothers⟩ :=
    h.obtained hZ (danglessReallocHooked_null hZ (h.accounted.sound.rehook 1) (n := n))
  rw [danglessRealloc_eq h.ready]
  exact ⟨others', hs', hinv, hspends, fun a ha => absurd rfl ha.1.1, hothers, fun _ => rfl⟩

/-- The handle of a pointer that is held, and the others. -/
structure Picked (C : SysContract A L) (Z : Fin PT_NUM_ENTRIES → Prop) (others : Set Nat)
    (hs : List Handle) (stale : List Mapping) (c : Client σ) (x : Handle) (hs0 : List Handle) : Prop where
  perm : hs.Perm (x :: hs0)
  accounted : Accounted C Z others (x :: hs0) stale c.held c.world
  erased : (c.held.erase x.ptr).Perm (hs0.map Handle.ptr)
  ne_zero : x.ptr ≠ 0
  original : originalPtr L c.world.pt x.ptr = x.block

theorem ClientInv.picked (hZ : SlotsOk L Z) (h : ClientInv C Z others hs stale c) (hp : p ∈ c.held) :
    ∃ x hs0, x.ptr = p ∧ Picked C Z others hs stale c x hs0 := by
  obtain ⟨x, hs0, rfl, hperm, hacc, herase⟩ := h.accounted.pick hp
  obtain ⟨hne, horiginal, -⟩ := hacc.resolve hZ
  exact ⟨x, hs0, rfl, hperm, hacc, herase, hne, horiginal⟩

section Picked

variable {x : Handle} {hs0 : List Handle}

theorem Picked.usable (hx : Picked C Z others hs stale c x hs0) : ∀ y ∈ hs0, 0 < y.usable :=
  fun y hy => hx.accounted.usable y (List.mem_cons_of_mem _ hy)

theorem Picked.subset (hx : Picked C Z others hs stale c x hs0) :
    mapsOf hs0 ++ stale ⊆ mapsOf hs ++ stale := by
  intro m hm
  refine (mapsOf_perm hx.perm stale).mem_iff.mpr ?_
  by_cases hhome : x.ptr = x.block
  · rwa [mapsOf_cons_home hhome]
  · rw [mapsOf_cons_region hhome]
    exact List.mem_cons_of_mem _ hm

theorem Picked.subset_region (hx : Picked C Z others hs stale c x hs0) (hregion : x.ptr ≠ x.block) :
    x.mapping :: (mapsOf hs0 ++ stale) ⊆ mapsOf hs ++ stale := by
  intro m hm
  refine (mapsOf_perm hx.perm stale).mem_iff.mpr ?_
  rwa [mapsOf_cons_region hregion]

end Picked

/-- Nothing more is released. -/
theorem ClientInv.keep {hs' : List Handle} {held : List Nat} (h : ClientInv C Z others hs stale c)
    (hspends : Spends (mapsOf hs ++ stale) c.world (mapsOf hs' ++ stale) w')
    (hacc : Accounted C Z others' hs' stale held w') :
    ClientInv C Z others' hs' stale ⟨w', held, c.released⟩ :=
  ⟨hacc, h.ready.of_modes hspends.modes, h.staleOk, h.released_mono hspends (List.Subset.refl _)⟩

/-- One more pointer is released, and its region is out of use or left behind. -/
theorem ClientInv.release_region {hs' : List Handle} {held : List Nat} {b : Nat}
    (h : ClientInv C Z others hs stale c) (hresolve : vremapResolve L c.world.pt p = (VREM_OK, some b))
    (hspends : Spends (mapsOf hs ++ stale) c.world (mapsOf hs' ++ stale') w') (hsub : stale ⊆ stale')
    (hstale : ∀ m ∈ stale', 1 ≤ m.npages ∧ PGSIZE ≤ m.frame L)
    (hgone : OutOfUse Z (mapsOf hs' ++ stale') w' p ∨ ∃ m ∈ stale', m.ptr = p)
    (hacc : Accounted C Z others' hs' stale' held w') :
    ClientInv C Z others' hs' stale' ⟨w', held, c.release L p⟩ := by
  refine ⟨hacc, h.ready.of_modes hspends.modes, hstale, fun q hq => ?_⟩
  unfold Client.release at hq
  rw [if_pos (congrArg Prod.fst hresolve)] at hq
  rcases List.mem_cons.mp hq with rfl | hq
  · exact hgone
  · exact h.released_mono hspends hsub q hq

theorem ClientInv.release_home {hs' : List Handle} {b : Nat} {held : List Nat}
    (h : ClientInv C Z others hs stale c)
    (hresolve : vremapResolve L c.world.pt p = (VREM_NOT_REMAPPED, some b))
    (hspends : Spends (mapsOf hs ++ stale) c.world (mapsOf hs' ++ stale) w')
    (hacc : Accounted C Z others' hs' stale held w') :
    ClientInv C Z others' hs' stale ⟨w', held, c.release L p⟩ := by
  have hnot : (vremapResolve L c.world.pt p).1 ≠ VREM_OK := by
    rw [hresolve]
    exact (show VREM_NOT_REMAPPED ≠ VREM_OK by decide)
  have hsame : c.release L p = c.released := if_neg hnot
  rw [hsame]
  exact h.keep hspends hacc

/-- `dangless_free` of a pointer that is held. -/
theorem ClientInv.free (hZ : SlotsOk L Z) (h : ClientInv C Z others hs stale c) (hp : p ∈ c.held) :
    ∃ hs', StepInv C Z others others hs hs' stale stale c (.free p)
      ⟨danglessFree A L p c.world, c.held.erase p, c.release L p⟩ := by
  obtain ⟨x, hs0, rfl, hx⟩ := h.picked hZ hp
  have husable := hx.accounted.usable x List.mem_cons_self
  rw [danglessFree_eq h.ready hx.ne_zero]
  rcases (hx.accounted.resolve hZ).2.2 with ⟨-, hresolve, hsound⟩ | ⟨hhome, hresolve, hsound⟩
  · obtain ⟨hsound', hspends⟩ := danglessFreeHooked_remapped hZ (hsound.rehook 1) ⟨rfl, rfl⟩ husable rfl
    have hn : 1 ≤ x.mapping.npages :=
      (hsound.resolve hZ List.mem_cons_self List.mem_cons_self ⟨rfl, rfl⟩ husable).1
    have hspends0 := Spends.hook h.ready hspends
    have hspends' := hspends0.of_subset hx.subset
    have hptr := ((hsound.remap.mapsOk _ List.mem_cons_self).ptr_mem hn).1
    refine ⟨hs0, h.release_region hresolve hspends' (List.Subset.refl _) h.staleOk
      (Or.inl (hsound.outOfUse hspends0 hptr)) ⟨hx.erased, hx.usable, hsound'.rehook _⟩, hspends',
      fun a ha => ?_, fun _ => rfl, fun _ => rfl⟩
    rw [Released, regionOf_region hx.ne_zero hresolve (hsound.sys.usable _ List.mem_cons_self)] at ha
    exact hsound.outOfUse hspends0 ha
  · have hfree := danglessFreeHooked_home (hsound.rehook 1) rfl
    rw [← hhome] at hfree
    obtain ⟨hsound', hspends⟩ := hfree
    have hspends' := (Spends.hook h.ready hspends).of_subset hx.subset
    refine ⟨hs0, h.release_home hresolve hspends' ⟨hx.erased, hx.usable, hsound'.rehook _⟩, hspends',
      fun a ha => ?_, fun _ => rfl, fun _ => rfl⟩
    rw [Released, regionOf_home hresolve] at ha
    exact absurd ha (Set.notMem_empty a)

/-! ### Reallocation -/

/-- What the client holds after `dangless_realloc`, and what it has released. -/
def ReallocAnswer (C : SysContract A L) (c : Client σ) (p n : Nat) (held released : List Nat) : Prop :=
  ((danglessRealloc A L p n c.world).1 ≠ 0 ∧
    held = (danglessRealloc A L p n c.world).1 :: c.held.erase p ∧
    released = if (danglessRealloc A L p n c.world).1 = p then c.released else c.release L p) ∨
  ((danglessRealloc A L p n c.world).1 = 0 ∧ ReallocFailed C c p n ∧ held = c.held ∧
    released = c.released) ∨
  ((danglessRealloc A L p n c.world).1 = 0 ∧ ¬ ReallocFailed C c p n ∧ held = c.held.erase p ∧
    released = c.release L p)

/-- The answer of `do_vremap` goes to the client. -/
theorem ReallocAnswer.of_gain (hp : p ≠ 0) (hfailed : ¬ ReallocFailed C c p n) :
    ReallocAnswer C c p n (gain (danglessRealloc A L p n c.world).1 (c.held.erase p))
      (if (danglessRealloc A L p n c.world).1 = p then c.released else c.release L p) := by
  by_cases hzero : (danglessRealloc A L p n c.world).1 = 0
  · refine Or.inr (Or.inr ⟨hzero, hfailed, ?_, ?_⟩)
    · rw [hzero, gain_zero]
    · rw [hzero, if_neg hp.symm]
  · exact Or.inl ⟨hzero, gain_of_ne hzero, rfl⟩

section Realloc

variable {x : Handle} {hs0 : List Handle}

theorem Picked.reallocFailed_iff (hx : Picked C Z others hs stale c x hs0) :
    ReallocFailed C c x.ptr n ↔ (A.realloc x.block n c.world.sys).1 = 0 ∧
      x.block ∈ C.live (A.realloc x.block n c.world.sys).2 := by
  unfold ReallocFailed
  rw [hx.original]

/-- A request that was refused leaves the block in use. -/
theorem Picked.reallocFailed (hx : Picked C Z others hs stale c x hs0) {blocks : List (Nat × Nat)}
    (hanswer : (A.realloc x.block n c.world.sys).1 = 0)
    (hsys : w'.sys = (A.realloc x.block n c.world.sys).2)
    (hsound : SysInv C others ((x.block, x.usable) :: blocks) w') : ReallocFailed C c x.ptr n := by
  have hlive := hsound.mem_live List.mem_cons_self
  rw [hsys] at hlive
  exact hx.reallocFailed_iff.mpr ⟨hanswer, hlive⟩

theorem Picked.not_reallocFailed (hx : Picked C Z others hs stale c x hs0)
    (hsys : w'.sys = (A.realloc x.block n c.world.sys).2) (hgone : x.block ∉ C.live w'.sys) :
    ¬ ReallocFailed C c x.ptr n := by
  intro hfailed
  rw [hsys] at hgone
  exact hgone (hx.reallocFailed_iff.mp hfailed).2

/-- What `dangless_realloc` releases of a region: all its pages where the block moves, and those past
the new last page where it stays. -/
theorem Picked.released_region (hx : Picked C Z others hs stale c x hs0)
    (hresolve : vremapResolve L c.world.pt x.ptr = (VREM_OK, some x.block))
    (husable : A.mallocUsableSize x.block c.world.sys = x.usable) {a : Nat}
    (ha : a ∈ Released A L c (.realloc x.ptr n)) : a ∈ x.mapping.pages ∧
      (A.realloc x.block n c.world.sys).1 ≠ 0 ∧ ((A.realloc x.block n c.world.sys).1 = x.block →
        reallocPages A (A.realloc x.block n c.world.sys) ≤ x.mapping.npages →
        x.mapping.base + reallocPages A (A.realloc x.block n c.world.sys) * PGSIZE ≤ a) := by
  obtain ⟨hmem, hne, hcut⟩ := ha
  rw [regionOf_region hx.ne_zero hresolve husable] at hmem
  rw [hx.original] at hne hcut
  rw [husable] at hcut
  exact ⟨hmem, hne, hcut⟩

/-- The block stays, and the handle stays with it: the pages that are cut off are out of use. -/
theorem ClientInv.realloc_kept (h : ClientInv C Z others hs stale c)
    (hx : Picked C Z others hs stale c x hs0) (hregion : x.ptr ≠ x.block)
    (hresolve : vremapResolve L c.world.pt x.ptr = (VREM_OK, some x.block))
    (hsound : Sound C Z others (x.mapping :: (mapsOf hs0 ++ stale))
      ((x.block, x.usable) :: blocksOf hs0) c.world)
    (hanswer : (A.realloc x.block n c.world.sys).1 = x.block)
    (hle : reallocPages A (A.realloc x.block n c.world.sys) ≤ x.mapping.npages) (hu : 0 < u)
    (hpages : reallocPages A (A.realloc x.block n c.world.sys) = numSpannedPages x.block u)
    (hsound' : Sound C Z others
      ({ x.mapping with npages := numSpannedPages x.block u } :: (mapsOf hs0 ++ stale))
      ((x.block, u) :: blocksOf hs0) w')
    (hspends : Spends ({ x.mapping with npages := numSpannedPages x.block u } :: (mapsOf hs0 ++ stale))
      { c.world with hookDepth := 1 }
      ({ x.mapping with npages := numSpannedPages x.block u } :: (mapsOf hs0 ++ stale)) w') :
    StepInv C Z others others hs ({ x with usable := u } :: hs0) stale stale c (.realloc x.ptr n)
      ⟨hookExit w', x.ptr :: c.held.erase x.ptr, c.released⟩ := by
  have hok := hsound.remap.mapsOk _ List.mem_cons_self
  have hfewer : numSpannedPages x.block u ≤ x.mapping.npages := hpages ▸ hle
  have hmaps : mapsOf ({ x with usable := u } :: hs0) ++ stale =
      { x.mapping with npages := numSpannedPages x.block u } :: (mapsOf hs0 ++ stale) := by
    rw [mapsOf_resize hregion]
    rfl
  have hspends0 := Spends.hook h.ready hspends
  have hspends' : Spends (mapsOf hs ++ stale) c.world
      (mapsOf ({ x with usable := u } :: hs0) ++ stale) (hookExit w') := by
    rw [hmaps]
    refine hspends0.weaken fun m hm => ?_
    rcases List.mem_cons.mp hm with rfl | hm
    · exact ⟨x.mapping, hx.subset_region hregion List.mem_cons_self, Mapping.pages_subset hfewer⟩
    · exact ⟨m, hx.subset hm, subset_rfl⟩
  have hacc := (Accounted.resize hx.erased hx.usable hu hregion hsound').hookExit
  refine ⟨h.keep hspends' hacc, hspends', fun a ha => ?_, fun _ => rfl, fun _ => rfl⟩
  obtain ⟨hmem, -, hcut⟩ :=
    hx.released_region hresolve (hsound.sys.usable _ List.mem_cons_self) ha
  refine ⟨hspends'.dedicated hsound.dedicated, hok.inVmem hmem, fun hused => ?_⟩
  rw [hmaps] at hused
  rcases hspends0.used hsound.dedicated hused with howned | ⟨m, hm, ham⟩
  · exact hsound.notMem_used hmem (Or.inl howned)
  · rcases List.mem_cons.mp hm with rfl | hm
    · have hge := hcut hanswer hle
      rw [hpages] at hge
      exact absurd (Mapping.lt_of_mem_pages ham) (Nat.not_lt.mpr hge)
    · exact hsound.notMem_used hmem (Or.inr ⟨m, hm, ham⟩)

/-- The library has released the block and answered `NULL`: the region goes on without the handle. -/
theorem ClientInv.realloc_released (hZ : SlotsOk L Z) (h : ClientInv C Z others hs stale c)
    (hx : Picked C Z others hs stale c x hs0) (hregion : x.ptr ≠ x.block)
    (hresolve : vremapResolve L c.world.pt x.ptr = (VREM_OK, some x.block))
    (hsound : Sound C Z others (x.mapping :: (mapsOf hs0 ++ stale))
      ((x.block, x.usable) :: blocksOf hs0) c.world)
    (hanswer : (A.realloc x.block n c.world.sys).1 = 0) (hzero : n = 0)
    (hsound' : Sound C Z others (x.mapping :: (mapsOf hs0 ++ stale)) (blocksOf hs0) w')
    (hspends : Spends (x.mapping :: (mapsOf hs0 ++ stale)) { c.world with hookDepth := 1 }
      (x.mapping :: (mapsOf hs0 ++ stale)) w') :
    StepInv C Z others others hs hs0 stale (x.mapping :: stale) c (.realloc x.ptr n)
      ⟨hookExit w', c.held.erase x.ptr, c.release L x.ptr⟩ := by
  have husable := hx.accounted.usable x List.mem_cons_self
  have hn : 1 ≤ x.mapping.npages :=
    (hsound.resolve hZ List.mem_cons_self List.mem_cons_self ⟨rfl, rfl⟩ husable).1
  have hperm : (mapsOf hs0 ++ (x.mapping :: stale)).Perm (x.mapping :: (mapsOf hs0 ++ stale)) := List.perm_middle
  have hspends' := ((Spends.hook h.ready hspends).of_subset (hx.subset_region hregion)).shrink hperm.subset
  have hacc := (Accounted.leaveRegion hx.erased hx.usable hsound').hookExit
  have hframe : PGSIZE ≤ x.mapping.frame L := (hsound.sys.homeBlock List.mem_cons_self).frames.2.1
  have hstale : ∀ m ∈ x.mapping :: stale, 1 ≤ m.npages ∧ PGSIZE ≤ m.frame L :=
    List.forall_mem_cons.mpr ⟨⟨hn, hframe⟩, h.staleOk⟩
  have hinv := h.release_region hresolve hspends' (List.subset_cons_self _ _) hstale
    (Or.inr ⟨x.mapping, List.mem_cons_self, rfl⟩) hacc
  have hsize := hsound.sys.usable _ List.mem_cons_self
  exact ⟨hinv, hspends', fun a ha => absurd hanswer (hx.released_region hresolve hsize ha).2.1, fun _ => rfl,
    fun hsized => absurd hzero (Nat.pos_iff_ne_zero.mp hsized)⟩

/-- The old region is gone, and the new block has been given to `do_vremap`. -/
theorem ClientInv.realloc_moved {r : Nat × World σ} {b u : Nat} {w1 : World σ} (hZ : SlotsOk L Z)
    (h : ClientInv C Z others hs stale c) (hx : Picked C Z others hs stale c x hs0)
    (hresolve : vremapResolve L c.world.pt x.ptr = (VREM_OK, some x.block))
    (hsound : Sound C Z others (x.mapping :: (mapsOf hs0 ++ stale))
      ((x.block, x.usable) :: blocksOf hs0) c.world)
    (hanswer : (A.realloc x.block n c.world.sys).1 ≠ 0) (hu : n ≤ u)
    (hsound' : Sound C Z others (mapsOf hs0 ++ stale) ((b, u) :: blocksOf hs0) w1)
    (hspends : Spends (mapsOf hs0 ++ stale) { c.world with hookDepth := 1 } (mapsOf hs0 ++ stale) w1)
    (hremapped : Remapped C Z others (mapsOf hs0 ++ stale) ((b, u) :: blocksOf hs0) w1 b u n r) :
    ∃ others' hs', StepInv C Z others others' hs hs' stale stale c (.realloc x.ptr n)
      ⟨hookExit r.2, gain r.1 (c.held.erase x.ptr), if r.1 = x.ptr then c.released else c.release L x.ptr⟩ := by
  obtain ⟨others', hs', hacc, hspends1, hothers⟩ := hremapped.accounted hZ hx.erased hx.usable hsound' hu
  have husable := hx.accounted.usable x List.mem_cons_self
  have hn : 1 ≤ x.mapping.npages :=
    (hsound.resolve hZ List.mem_cons_self List.mem_cons_self ⟨rfl, rfl⟩ husable).1
  have hptr := ((hsound.remap.mapsOk _ List.mem_cons_self).ptr_mem hn).1
  have hspends0 := Spends.hook h.ready (hspends.trans hspends1)
  have hspends' := hspends0.of_subset hx.subset
  have hsize := hsound.sys.usable _ List.mem_cons_self
  refine ⟨others', hs', ?_, hspends',
    fun a ha => hsound.outOfUse hspends0 (hx.released_region hresolve hsize ha).1,
    fun hlossless => hothers fun hzero => hanswer ?_, fun _ => rfl⟩
  · split_ifs
    · exact h.keep hspends' hacc.hookExit
    · exact h.release_region hresolve hspends' (List.Subset.refl _) h.staleOk
        (Or.inl (hsound.outOfUse hspends0 hptr)) hacc.hookExit
  · rw [← hx.original]
    exact hlossless hzero

/-- `dangless_realloc` of a pointer into a region. -/
theorem ClientInv.realloc_region (hZ : SlotsOk L Z) (h : ClientInv C Z others hs stale c)
    (hx : Picked C Z others hs stale c x hs0) (hregion : x.ptr ≠ x.block)
    (hresolve : vremapResolve L c.world.pt x.ptr = (VREM_OK, some x.block))
    (hsound : Sound C Z others (x.mapping :: (mapsOf hs0 ++ stale))
      ((x.block, x.usable) :: blocksOf hs0) c.world)
    (hpos : MinimumSize C ∨ (n = 0 → (A.realloc x.block n c.world.sys).1 = 0)) :
    ∃ others' hs' stale' held released, ReallocAnswer C c x.ptr n held released ∧
      StepInv C Z others others' hs hs' stale stale' c (.realloc x.ptr n)
        ⟨(danglessRealloc A L x.ptr n c.world).2, held, released⟩ := by
  have husable := hx.accounted.usable x List.mem_cons_self
  have hspec : Realloced C Z others (mapsOf hs0 ++ stale) (blocksOf hs0) { c.world with hookDepth := 1 }
      x.mapping x.block x.usable n (danglessReallocHooked A L x.ptr n { c.world with hookDepth := 1 }) :=
    danglessReallocHooked_remapped hZ (hsound.rehook 1) ⟨rfl, rfl⟩ husable
  have hsize : A.mallocUsableSize x.block c.world.sys = x.usable :=
    hsound.sys.usable _ List.mem_cons_self
  have heq : danglessRealloc A L x.ptr n c.world = _ := danglessRealloc_eq h.ready x.ptr n
  generalize danglessReallocHooked A L x.ptr n { c.world with hookDepth := 1 } = rh at hspec heq
  have hanswer1 : (danglessRealloc A L x.ptr n c.world).1 = rh.1 := by rw [heq]
  have hmaps : mapsOf (x :: hs0) ++ stale = x.mapping :: (mapsOf hs0 ++ stale) := by
    rw [mapsOf_cons_region hregion]
    rfl
  rw [show (danglessRealloc A L x.ptr n c.world).2 = hookExit rh.2 by rw [heq]]
  cases hspec with
  | failed hanswer hr hsys hsound' hspends =>
      have hspends' := (Spends.hook h.ready hspends).of_subset (hx.subset_region hregion)
      have hfailed := hx.reallocFailed hanswer hsys hsound'.sys
      rw [← hmaps] at hspends' hsound'
      have hinv := h.keep hspends'
        ⟨hx.accounted.held, hx.accounted.usable, hsound'.rehook _⟩
      refine ⟨others, x :: hs0, stale, c.held, c.released,
        Or.inr (Or.inl ⟨hanswer1.trans hr, hfailed, rfl, rfl⟩), hinv, hspends',
        fun a ha => absurd hanswer (hx.released_region hresolve hsize ha).2.1, fun _ => rfl, fun _ => rfl⟩
  | released hanswer hzero hr hsys hgone hsound' hspends =>
      have hnotFailed := hx.not_reallocFailed hsys hgone
      exact ⟨others, hs0, x.mapping :: stale, _, _, Or.inr (Or.inr ⟨hanswer1.trans hr, hnotFailed, rfl, rfl⟩),
        h.realloc_released hZ hx hregion hresolve hsound hanswer hzero hsound' hspends⟩
  | kept hanswer hle hr u' hu' hpages hsound' hspends =>
      have hpos' : 0 < u' := by
        rcases hpos with hmin | hnull
        · have hsize : A.mallocUsableSize x.block rh.2.sys = u' := hsound'.sys.usable _ List.mem_cons_self
          rw [← hsize]
          exact hmin _ _ hsound'.sys.ok (hsound'.sys.mem_live List.mem_cons_self)
        · have hblock : x.block ≠ 0 := (hsound.sys.homeBlock List.mem_cons_self).home.ne_zero
          by_contra hzero
          exact hblock (hanswer.symm.trans (hnull (by omega)))
      refine ⟨others, { x with usable := u' } :: hs0, stale, x.ptr :: c.held.erase x.ptr, c.released,
        Or.inl ⟨?_, ?_, ?_⟩,
        h.realloc_kept hx hregion hresolve hsound hanswer hle hpos' hpages hsound' hspends⟩
      · rw [hanswer1, hr]
        exact hx.ne_zero
      · rw [hanswer1, hr]
        rfl
      · rw [hanswer1, hr]
        exact (if_pos rfl).symm
  | moved hanswer hmoved b' u' w1 hu' hlive hsound' hspends hremapped =>
      have hnotFailed : ¬ ReallocFailed C c x.ptr n :=
        fun hfailed => hanswer (hx.reallocFailed_iff.mp hfailed).1
      have hgain := ReallocAnswer.of_gain hx.ne_zero hnotFailed
      rw [hanswer1] at hgain
      obtain ⟨others', hs', hstep⟩ := h.realloc_moved hZ hx hresolve hsound hanswer hu' hsound' hspends hremapped
      exact ⟨others', hs', stale, _, _, hgain, hstep⟩

/-- `dangless_realloc` of a pointer that is the block itself. -/
theorem ClientInv.realloc_home (hZ : SlotsOk L Z) (h : ClientInv C Z others hs stale c)
    (hx : Picked C Z others hs stale c x hs0) (hhome : x.ptr = x.block)
    (hresolve : vremapResolve L c.world.pt x.ptr = (VREM_NOT_REMAPPED, some x.block))
    (hsound : Sound C Z others (mapsOf hs0 ++ stale) ((x.block, x.usable) :: blocksOf hs0) c.world) :
    ∃ others' hs' held released, ReallocAnswer C c x.ptr n held released ∧
      StepInv C Z others others' hs hs' stale stale c (.realloc x.ptr n)
        ⟨(danglessRealloc A L x.ptr n c.world).2, held, released⟩ := by
  have hspec : ReallocedHome C Z others (mapsOf hs0 ++ stale) (blocksOf hs0)
      { c.world with hookDepth := 1 } x.block x.usable n
      (danglessReallocHooked A L x.ptr n { c.world with hookDepth := 1 }) := by
    rw [hhome]
    exact danglessReallocHooked_home hZ (hsound.rehook 1)
  have hnone : ∀ a, a ∉ Released A L c (.realloc x.ptr n) := by
    intro a ha
    have hmem := ha.1
    rw [regionOf_home hresolve] at hmem
    exact Set.notMem_empty a hmem
  have heq : danglessRealloc A L x.ptr n c.world = _ := danglessRealloc_eq h.ready x.ptr n
  generalize danglessReallocHooked A L x.ptr n { c.world with hookDepth := 1 } = rh at hspec heq
  have hanswer1 : (danglessRealloc A L x.ptr n c.world).1 = rh.1 := by rw [heq]
  have hmaps : mapsOf (x :: hs0) ++ stale = mapsOf hs0 ++ stale := by rw [mapsOf_cons_home hhome]
  rw [show (danglessRealloc A L x.ptr n c.world).2 = hookExit rh.2 by rw [heq]]
  cases hspec with
  | failed hanswer hr hsys hsound' hspends =>
      have hspends' := (Spends.hook h.ready hspends).of_subset hx.subset
      have hfailed := hx.reallocFailed hanswer hsys hsound'.sys
      rw [← hmaps] at hspends' hsound'
      have hinv := h.keep hspends'
        ⟨hx.accounted.held, hx.accounted.usable, hsound'.rehook _⟩
      exact ⟨others, x :: hs0, c.held, c.released,
        Or.inr (Or.inl ⟨hanswer1.trans hr, hfailed, rfl, rfl⟩), hinv, hspends',
        fun a ha => absurd ha (hnone a), fun _ => rfl, fun _ => rfl⟩
  | released hanswer hzero hr hsys hgone' hsound' hspends =>
      have hspends' := (Spends.hook h.ready hspends).of_subset hx.subset
      have hinv := h.release_home hresolve hspends' ⟨hx.erased, hx.usable, hsound'.rehook _⟩
      have hnotFailed := hx.not_reallocFailed hsys hgone'
      exact ⟨others, hs0, _, _, Or.inr (Or.inr ⟨hanswer1.trans hr, hnotFailed, rfl, rfl⟩), hinv, hspends',
        fun a ha => absurd ha (hnone a), fun _ => rfl, fun _ => rfl⟩
  | block hanswer b' u' w1 hu' hsound' hspends hremapped =>
      obtain ⟨others', hs', hacc, hspends1, hothers⟩ :=
        hremapped.accounted hZ hx.erased hx.usable hsound' hu'
      have hspends' := (Spends.hook h.ready (hspends.trans hspends1)).of_subset hx.subset
      have hnotFailed : ¬ ReallocFailed C c x.ptr n :=
        fun hfailed => hanswer (hx.reallocFailed_iff.mp hfailed).1
      have hgain := ReallocAnswer.of_gain hx.ne_zero hnotFailed
      rw [hanswer1] at hgain
      refine ⟨others', hs', _, _, hgain, ?_, hspends', fun a ha => absurd ha (hnone a),
        fun hlossless => hothers fun hzero => hanswer ?_, fun _ => rfl⟩
      · split_ifs
        · exact h.keep hspends' hacc.hookExit
        · exact h.release_home hresolve hspends' hacc.hookExit
      · rw [← hx.original]
        exact hlossless hzero

end Realloc

/-- `dangless_realloc` of a pointer that is held. -/
theorem ClientInv.realloc (hZ : SlotsOk L Z) (h : ClientInv C Z others hs stale c) (hp : p ∈ c.held)
    (hpos : MinimumSize C ∨ (n = 0 → (A.realloc (originalPtr L c.world.pt p) n c.world.sys).1 = 0)) :
    ∃ others' hs' stale' held released, ReallocAnswer C c p n held released ∧
      StepInv C Z others others' hs hs' stale stale' c (.realloc p n)
        ⟨(danglessRealloc A L p n c.world).2, held, released⟩ := by
  obtain ⟨x, hs0, rfl, hx⟩ := h.picked hZ hp
  rw [hx.original] at hpos
  rcases (hx.accounted.resolve hZ).2.2 with ⟨hregion, hresolve, hsound⟩ | ⟨hhome, hresolve, hsound⟩
  · exact h.realloc_region hZ hx hregion hresolve hsound hpos
  · obtain ⟨others', hs', hresult⟩ := h.realloc_home hZ hx hhome hresolve hsound (n := n)
    exact ⟨others', hs', stale, hresult⟩

/-! ### Runs -/

/-- Where `realloc` is asked for 0 bytes it answers `NULL`, or the library has no empty blocks. -/
def Resolvable (C : SysContract A L) (c : Client σ) (call : ClientCall) : Prop :=
  MinimumSize C ∨ ∀ p n, call = .realloc p n → n = 0 →
    (A.realloc (originalPtr L c.world.pt p) n c.world.sys).1 = 0

theorem ClientCall.Sized.resolvable {call : ClientCall} (h : call.Sized) : Resolvable C c call := by
  refine Or.inr fun p n hcall hzero => ?_
  rw [hcall] at h
  exact absurd hzero (Nat.pos_iff_ne_zero.mp h)

/-- The invariant holds after every step. -/
theorem ClientInv.step {call : ClientCall} {c' : Client σ} (hZ : SlotsOk L Z)
    (h : ClientInv C Z others hs stale c) (hstep : ClientStep C storage c call c')
    (hpos : Resolvable C c call) :
    ∃ others' hs' stale', StepInv C Z others others' hs hs' stale stale' c call c' := by
  have hrealloc : ∀ p n, call = .realloc p n → p ∈ c.held →
      ∃ others' hs' stale' held released, ReallocAnswer C c p n held released ∧
        StepInv C Z others others' hs hs' stale stale' c (.realloc p n)
          ⟨(danglessRealloc A L p n c.world).2, held, released⟩ := by
    intro p n hcall hp
    exact h.realloc hZ hp (hpos.imp_right fun hnull => hnull p n hcall)
  cases hstep with
  | malloc size =>
      obtain ⟨others', hs', hresult⟩ := h.malloc hZ size
      exact ⟨others', hs', stale, hresult⟩
  | calloc num size =>
      obtain ⟨others', hs', hresult⟩ := h.calloc hZ storage num size
      exact ⟨others', hs', stale, hresult⟩
  | reallocNull n =>
      obtain ⟨others', hs', hresult⟩ := h.reallocNull hZ n
      exact ⟨others', hs', stale, hresult⟩
  | realloc p n hp hr =>
      obtain ⟨others', hs', stale', held, released, hanswer, hresult⟩ := hrealloc p n rfl hp
      rcases hanswer with ⟨-, rfl, rfl⟩ | ⟨hzero, -⟩ | ⟨hzero, -⟩
      · exact ⟨others', hs', stale', hresult⟩
      · exact absurd hzero hr
      · exact absurd hzero hr
  | reallocFailed p n hp hr hfailed =>
      obtain ⟨others', hs', stale', held, released, hanswer, hresult⟩ := hrealloc p n rfl hp
      rcases hanswer with ⟨hne, -⟩ | ⟨-, -, rfl, rfl⟩ | ⟨-, hnot, -⟩
      · exact absurd hr hne
      · exact ⟨others', hs', stale', hresult⟩
      · exact absurd hfailed hnot
  | reallocReleased p n hp hr hfailed =>
      obtain ⟨others', hs', stale', held, released, hanswer, hresult⟩ := hrealloc p n rfl hp
      rcases hanswer with ⟨hne, -⟩ | ⟨-, hyes, -⟩ | ⟨-, -, rfl, rfl⟩
      · exact absurd hr hne
      · exact absurd hyes hfailed
      · exact ⟨others', hs', stale', hresult⟩
  | freeNull =>
      have hsame : danglessFree A L 0 c.world = c.world := if_pos rfl
      rw [hsame]
      refine ⟨others, hs, stale, h, Spends.refl _ _, fun a ha => ?_, fun _ => rfl, fun _ => rfl⟩
      exact absurd rfl ha.1
  | free p hp =>
      obtain ⟨hs', hresult⟩ := h.free hZ hp
      exact ⟨others, hs', stale, hresult⟩

end Steps

/-- The top-level entries that are not in use. -/
def FreeSlot (pt : PtState) (i : Fin PT_NUM_ENTRIES) : Prop := pt.mem (pteSlot pt.cr3 i) = 0

/-- A process under Dune that has entered kernel mode and has no virtual memory to remap to yet. Dune maps
the home of the blocks to the physical addresses of `dune_va_to_pa`, so the first top-level entry is in
use. -/
structure DuneStart (C : SysContract A L) (w : World σ) : Prop where
  ready : Ready w
  sys : C.Ok w.sys
  items : w.items = []
  autoDedicated : w.autoDedicated = false
  trace : w.trace = []
  tables : PtInv (slotPaths (FreeSlot w.pt)) w.pt
  home : ∀ va, L.Home va → ptResolve w.pt va = L.duneVaToPa va

/-- The top-level entries over the home of the blocks are in use. -/
theorem slotsOk_of_home {pt : PtState} (hhome : ∀ va, L.Home va → ptResolve pt va = L.duneVaToPa va) :
    SlotsOk L (FreeSlot pt) := by
  have hused : ∀ va, L.Home va → ¬ FreeSlot pt (ptIndex va .l4) := by
    intro va hva
    apply root_ne_zero_of_entry
    intro hnone
    have hzero := ptResolve_of_entry_none hnone
    rw [hhome va hva] at hzero
    exact hva.pa_ne_zero hzero
  refine ⟨?_, hused⟩
  have hpage : ptIndex 0 .l4 = ptIndex PGSIZE .l4 := by decide
  rw [hpage]
  exact hused PGSIZE (Or.inl ⟨le_rfl, by decide⟩)

/-- Nothing is held at the start, and no virtual memory is dedicated. -/
theorem Accounted.start (hok : C.Ok w.sys) (hitems : w.items = []) (htrace : w.trace = [])
    (htables : PtInv (slotPaths (FreeSlot w.pt)) w.pt)
    (hhome : ∀ va, L.Home va → ptResolve w.pt va = L.duneVaToPa va) :
    Accounted C (FreeSlot w.pt) (C.live w.sys) [] [] [] w := by
  have hsys : SysInv C (C.live w.sys) [] w := by
    refine ⟨hok, ?_, ?_, ?_, by simp, ?_⟩
    · rw [hitems]
      exact List.nodup_nil
    · rw [hitems]
      simp [nodes]
    · rw [hitems]
      simp [nodes]
    · rw [htrace]
      simp
  have hremap : RemapInv L (FreeSlot w.pt) [] w.items w.pt := by
    refine ⟨hitems ▸ freelistWf_nil, htables, fun i hi => hi, hhome, ?_, by simp, List.Pairwise.nil,
      by simp, fun a ha _ => ?_⟩
    · rw [hitems, owned_nil]
      exact Set.empty_subset _
    · by_contra hne
      exact root_ne_zero_of_entry hne ha.2
  exact ⟨List.Perm.refl _, by simp, ⟨⟨hsys, hremap⟩, fun _ => ⟨hitems, rfl⟩⟩⟩

theorem DuneStart.slotsOk (h : DuneStart C w) : SlotsOk L (FreeSlot w.pt) := slotsOk_of_home h.home

theorem DuneStart.inv (h : DuneStart C w) :
    ClientInv C (FreeSlot w.pt) (C.live w.sys) [] [] ⟨w, [], []⟩ :=
  ⟨Accounted.start h.sys h.items h.trace h.tables h.home, h.ready, by simp, by simp⟩

end Dangless
