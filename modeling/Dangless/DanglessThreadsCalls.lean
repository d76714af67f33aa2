import Dangless.DanglessThreadsRules

/-! What the entry points do to the things of the thread that calls them, and to those that come with the pointers of the
client. -/

namespace Dangless

open Rely Ledger

variable {σ R R' : Type} {A : SysAllocator σ} {L : DuneLayout} {C : SysContract A L} {Z : Fin PT_NUM_ENTRIES → Prop}
  {ms ms' ms'' ks : Multiset Item} {s : SharedWorld σ} {l : ThreadVars} {m : Mapping} {x : Handle}
  {n b u p newSize : Nat} {Φ Ψ : R → Multiset Item → Prop}

/-- Who has the first things may be said to have the second ones. -/
def Turns (C : SysContract A L) (Z : Fin PT_NUM_ENTRIES → Prop) (ms ms' : Multiset Item) : Prop :=
  ∀ F s, MtInv C Z (ms + F) s → MtInv C Z (ms' + F) s

theorem Turns.refl (ms : Multiset Item) : Turns C Z ms ms := fun _ _ h => h

theorem Turns.trans (h : Turns C Z ms ms') (h' : Turns C Z ms' ms'') : Turns C Z ms ms'' := fun F s hinv =>
  h' F s (h F s hinv)

/-- A block that is left behind. -/
theorem Turns.leak (b u : Nat) (ms : Multiset Item) : Turns C Z (.block b u ::ₘ ms) ms := fun _ _ h =>
  MtInv.leak (Multiset.cons_add .. ▸ h)

theorem Turns.forget (hks : Known ks) (ms : Multiset Item) : Turns C Z (ks + ms) ms := by
  intro F s h
  rcases hks with rfl | rfl
  · rwa [zero_add] at h
  · rw [Multiset.singleton_add, Multiset.cons_add] at h
    exact h.known.2

/-- No page was invalidated. -/
theorem Turns.none (ms : Multiset Item) : Turns C Z ms (.gone ∅ ::ₘ ms) := by
  intro F s h
  rw [Multiset.cons_add]
  obtain ⟨others, maps, blocks, pages, gone, k, h⟩ := h
  have hlayout : Layout L Z maps pages (∅ :: gone) k s.world.items s.world.pt := by
    refine { h.layout with goneOk := fun S hS a ha => ?_ }
    rcases List.mem_cons.mp hS with rfl | hS
    · exact absurd ha (Set.notMem_empty a)
    · exact h.layout.goneOk S hS a ha
  exact h.update (.refl _) (.add rfl rfl (by simp)) (lists_gone.mpr ⟨_, List.Perm.refl _, h.lists⟩) h.sys hlayout

/-- The variables of a thread between operations, and in a hook. -/
def idleVars : ThreadVars := ⟨0, none⟩
def hookedVars : ThreadVars := ⟨1, none⟩

theorem MtInv.ready (h : MtInv C Z ms s) : Ready (loadWorld (s, idleVars)) := by
  obtain ⟨_, _, _, _, _, _, h⟩ := h
  exact ⟨h.kernelMode, rfl, h.calloc⟩

/-- `HOOK_ENTER` of a thread that is in no hook. -/
theorem hookEnterProg_holds {post : R → Multiset Item → ThreadVars → Prop} {k : Bool → MtProg σ R}
    (hk : Holds (mtAccount C Z) post (k true) ms hookedVars) :
    Holds (mtAccount C Z) post (hookEnterProg >>= k) ms idleVars := by
  refine holds_fetch fun F s h => ?_
  have henter := (MtInv.ready h).hookEnter
  beta_reduce
  rw [henter]
  exact ⟨ms, MtInv.rehook h 1, own_idle (C := C) (Z := Z) (l := hookedVars) rfl _, hk⟩

/-- `HOOK_EXIT` of a thread that is in a hook. -/
theorem hookExitProg_holds (h : Turns C Z ms ms') : Holds (mtAccount C Z) (fun _ ms'' l => l = idleVars ∧ ms'' = ms')
    (hookExitProg : MtProg σ Unit) ms hookedVars := by
  intro F s hinv
  refine ⟨fun _ => ⟨ms, hinv, own_idle (C := C) (Z := Z) (l := hookedVars) rfl _, ?_⟩, nofun⟩
  -- the hook depth is 1
  intro F s hinv
  exact ⟨fun _ => ⟨ms', MtInv.rehook (h F s hinv) 0, own_idle (C := C) (Z := Z) (l := idleVars) rfl _, rfl, rfl⟩, nofun⟩

/-- The body of an entry point, between `HOOK_ENTER` and `HOOK_EXIT`. -/
theorem hooked_holds {body : MtProg σ R}
    (h : Leaves C Z (fun r ms' => ∃ rest, Turns C Z ms' rest ∧ Φ r rest) body ms hookedVars) :
    Holds (mtAccount C Z) (fun r ms' l => l = idleVars ∧ Φ r ms')
      (do let r ← body; hookExitProg; return r) ms hookedVars := by
  refine Holds.bind h.holds ?_
  rintro r ms' _ ⟨rfl, rest, hturns, hΦ⟩
  refine Holds.bind (hookExitProg_holds hturns) ?_
  rintro _ _ _ ⟨rfl, rfl⟩
  exact ⟨rfl, hΦ⟩

/-- Things with which a thread has neither locked the mutex nor come to dedicate virtual memory. -/
structure Tokenless (ms : Multiset Item) : Prop where
  list : ms.filterMap Item.list? = 0
  dedicating : ms.filterMap Item.dedicating? = 0

theorem tokenless_zero : Tokenless 0 := ⟨rfl, rfl⟩

theorem Tokenless.cons (h : Tokenless ms) {y : Item} (hlist : y.list? = none) (hdedicating : y.dedicating? = none) :
    Tokenless (y ::ₘ ms) :=
  ⟨(filterMap_skip hlist ms).trans h.list, (filterMap_skip hdedicating ms).trans h.dedicating⟩

/-- What an allocating call hands out: nothing, or a pointer with its block. -/
def Handed (ms : Multiset Item) (r : Nat) (ms' : Multiset Item) : Prop :=
  (r = 0 ∧ ms' = ms) ∨ ∃ x : Handle, x.ptr = r ∧ 0 < x.usable ∧ ms' = x.things + ms

/-- `do_vremap` of a block hands out a pointer with it. -/
theorem doVremapProg_leaves_block {size : Nat} (hl : l.working = none) (hZ : SlotsOk L Z) (hb : b ≠ 0) (hsize : 0 < size)
    (hle : size ≤ u) (hms : Tokenless ms) :
    Leaves C Z (fun r ms' => ∃ rest, Turns C Z ms' rest ∧ rest = Handle.things ⟨r, b, u⟩ + ms) (doVremapProg A L b size)
      (.block b u ::ₘ ms) l := by
  refine (doVremapProg_leaves hl hZ hb hsize hle hms.list hms.dedicating).mono ?_
  rintro r _ ⟨ks, hks, rfl⟩
  refine ⟨_, ?_, rfl⟩
  rw [add_left_comm]
  exact .forget hks _

/-- `do_vremap` of what the system allocator has given. -/
theorem doVremapProg_leaves_got {size : Nat} (hl : l.working = none) (hZ : SlotsOk L Z) (hms : Tokenless ms)
    (hgot : Got n ms p ms') (hle : size ≤ n) :
    Leaves C Z (fun r ms'' => ∃ rest, Turns C Z ms'' rest ∧ Handed ms r rest) (doVremapProg A L p size) ms' l := by
  rcases hgot with ⟨rfl, rfl⟩ | ⟨hne, u, hu, rfl⟩
  · refine (doVremapProg_leaves_null (Or.inl rfl)).mono ?_
    rintro _ _ ⟨rfl, rfl⟩
    exact ⟨_, .refl _, Or.inl ⟨rfl, rfl⟩⟩
  · rcases Nat.eq_zero_or_pos size with rfl | hsize
    · refine (doVremapProg_leaves_null (Or.inr rfl)).mono ?_
      rintro _ _ ⟨rfl, rfl⟩
      exact ⟨_, .leak _ _ _, Or.inl ⟨rfl, rfl⟩⟩
    · refine (doVremapProg_leaves_block hl hZ hne hsize (hle.trans hu) hms).mono ?_
      rintro r _ ⟨_, hturns, rfl⟩
      exact ⟨_, hturns, Or.inr ⟨⟨r, p, u⟩, rfl, show 0 < u by omega, rfl⟩⟩

theorem danglessMallocProg_leaves {size : Nat} (hZ : SlotsOk L Z) (hms : Tokenless ms) :
    Leaves C Z (Handed ms) (danglessMallocProg A L size) ms idleVars := by
  refine ⟨Holds.bind (sysmallocProg_leaves (l := idleVars) rfl).holds ?_⟩
  rintro p ms' _ ⟨rfl, hgot⟩
  exact hookEnterProg_holds (hooked_holds (doVremapProg_leaves_got rfl hZ hms hgot le_rfl))

theorem danglessCallocProg_leaves {storage num size : Nat} (hZ : SlotsOk L Z) (hms : Tokenless ms) :
    Leaves C Z (Handed ms) (danglessCallocProg A L storage num size) ms idleVars := by
  refine ⟨Holds.bind (syscallocProg_leaves (l := idleVars) rfl).holds ?_⟩
  rintro p ms' _ ⟨rfl, hgot⟩
  exact hookEnterProg_holds (hooked_holds (doVremapProg_leaves_got rfl hZ hms hgot (Nat.mod_le _ _)))

/-- The pages of the region of a pointer. -/
def Handle.pages (x : Handle) : Set Nat := if x.ptr = x.block then ∅ else x.mapping.pages

theorem vremapResolveProg_leaves_region (hl : l.working = none) (hZ : SlotsOk L Z) (hm : m.Of b u) (hu : 0 < u) :
    Leaves C Z (fun r ms' => r = (VREM_OK, some b) ∧ ms' = .region m ::ₘ .block b u ::ₘ ms) (vremapResolveProg L m.ptr)
      (.region m ::ₘ .block b u ::ₘ ms) l := by
  refine (leaves_assertWorld hl fun F s h => (MtInv.ready h).kernelMode).bind ?_
  rintro _ _ rfl
  refine leaves_work hl (fun _ => rfl) (fun F s h => ?_) fun F s h => ?_
  · rw [Multiset.cons_add, Multiset.cons_add] at h
    refine worksOn_of_mem (Multiset.mem_cons_self _ _) (fun a ha => ⟨m.ptr, ?_, ha⟩) fun F s h => ?_
    · exact (h.region.ptr_mem (h.resolve hZ hm hu).1).1
    · rw [Multiset.cons_add, Multiset.cons_add] at h
      exact h.region.resolve_legal (h.resolve hZ hm hu).1
  · refine ⟨_, h, ?_, rfl⟩
    rw [Multiset.cons_add, Multiset.cons_add] at h
    exact (h.resolve hZ hm hu).2

theorem vremapResolveProg_leaves_home (hl : l.working = none) :
    Leaves C Z (fun r ms' => r = (VREM_NOT_REMAPPED, some b) ∧ ms' = .block b u ::ₘ ms) (vremapResolveProg L b)
      (.block b u ::ₘ ms) l := by
  refine (leaves_assertWorld hl fun F s h => (MtInv.ready h).kernelMode).bind ?_
  rintro _ _ rfl
  refine leaves_work hl (fun _ => rfl) (fun F s h => Or.inl ⟨b, rfl, ?_⟩) fun F s h => ⟨_, h, ?_, rfl⟩
  · exact (MtInv.block (Multiset.cons_add .. ▸ h)).2.2.home
  · exact MtInv.resolve_home (Multiset.cons_add .. ▸ h)

theorem danglessFreeHookedProg_leaves (hl : l.working = none) (hZ : SlotsOk L Z) (hu : 0 < x.usable) :
    Leaves C Z (fun _ ms' => ∃ rest, Turns C Z ms' rest ∧ rest = .gone x.pages ::ₘ ms) (danglessFreeHookedProg A L x.ptr)
      (x.things + ms) l := by
  by_cases hhome : x.ptr = x.block
  · rw [x.things_home hhome, hhome, Handle.pages, if_pos hhome]
    refine (vremapResolveProg_leaves_home hl).bind ?_
    rintro _ _ ⟨rfl, rfl⟩
    refine (sysfreeProg_leaves hl).mono ?_
    rintro _ _ rfl
    exact ⟨_, .none _, rfl⟩
  · rw [x.things_region hhome, Handle.pages, if_neg hhome]
    refine (vremapResolveProg_leaves_region (m := x.mapping) hl hZ ⟨rfl, rfl⟩ hu).bind ?_
    rintro _ _ ⟨rfl, rfl⟩
    rw [if_pos rfl, Multiset.cons_swap]
    refine (sysmallocSpannedPagesProg_leaves hl).bind ?_
    rintro _ _ ⟨rfl, rfl⟩
    rw [Multiset.cons_swap]
    refine (virtualInvalidateCall_leaves (m := x.mapping) hl hZ).bind ?_
    rintro _ _ rfl
    rw [Multiset.cons_swap]
    refine (sysfreeProg_leaves hl).mono ?_
    rintro _ _ rfl
    exact ⟨_, .refl _, rfl⟩

/-- `dangless_free` of a pointer takes back its block and its region. -/
theorem danglessFreeProg_leaves (hZ : SlotsOk L Z) (hne : x.ptr ≠ 0) (hu : 0 < x.usable) :
    Leaves C Z (fun _ ms' => ms' = .gone x.pages ::ₘ ms) (danglessFreeProg A L x.ptr) (x.things + ms) idleVars := by
  unfold danglessFreeProg
  rw [if_neg hne]
  refine ⟨hookEnterProg_holds (Holds.bind (danglessFreeHookedProg_leaves rfl hZ hu).holds ?_)⟩
  rintro _ _ _ ⟨rfl, _, hturns, rfl⟩
  exact hookExitProg_holds hturns

/-- What `dangless_realloc` leaves of a pointer: it fails, or it answers a pointer whose region has what is left of the
old one, if anything is; the other pages are invalidated. -/
def Realloc (x : Handle) (ms : Multiset Item) (r : Nat) (ms' : Multiset Item) : Prop :=
  (r = 0 ∧ ms' = x.things + ms) ∨ ∃ (y : Handle) (S : Set Nat), y.ptr = r ∧ 0 < y.usable ∧ x.pages \ y.pages ⊆ S ∧
    ms' = .gone S ::ₘ (y.things + ms)

theorem Realloc.of_gone (y : Handle) (ms : Multiset Item) {S : Set Nat} (hy : 0 < y.usable) (hS : x.pages \ y.pages ⊆ S) :
    Realloc x ms y.ptr (.gone S ::ₘ (y.things + ms)) := Or.inr ⟨y, S, rfl, hy, hS, rfl⟩

theorem leaves_check {condition : Bool} {k : Unit → MtProg σ R} (hcondition : condition = true)
    (h : Leaves C Z Φ (k ()) ms l) : Leaves C Z Φ (Prog.check condition >>= k) ms l :=
  ⟨holds_check hcondition h.holds⟩

/-- Where the library has answered with a block: the region is kept, cut, or invalidated. -/
theorem danglessReallocNewProg_leaves {newp u' : Nat} (hl : l.working = none) (hZ : SlotsOk L Z) (hms : Tokenless ms)
    (hx : x.ptr ≠ x.block) (hpos : 1 ≤ x.mapping.npages) (hn : 0 < n) (hne : newp ≠ 0) (hle : n ≤ u') :
    Leaves C Z (fun r ms' => ∃ rest, Turns C Z ms' rest ∧ Realloc x ms r rest)
      (danglessReallocNewProg A L x.ptr x.block x.mapping.npages newp n)
      (.block newp u' ::ₘ .region x.mapping ::ₘ ms) l := by
  have hu' : 0 < u' := hn.trans_le hle
  refine Leaves.facts (P := newp = x.block → roundDown (roundUp (u64 (x.ptr + u')) PGSIZE) PGSIZE =
    x.mapping.base + numSpannedPages newp u' * PGSIZE) (fun F s h => ?_) fun hpoint => ?_
  · rintro rfl
    rw [Multiset.cons_add, Multiset.cons_add] at h
    have hregion := MtInv.region (Multiset.cons_swap _ _ _ ▸ h)
    exact hregion.cut_point hpos h.block.2.2
  refine (sysmallocUsableSizeProg_leaves hl).bind ?_
  rintro actualNewSize _ ⟨hactual, rfl⟩
  rw [hactual]
  refine leaves_check (decide_eq_true hle) ?_
  dsimp only
  rw [Multiset.cons_swap]
  by_cases hsame : newp = x.block ∧ numSpannedPages newp u' ≤ x.mapping.npages
  · obtain ⟨rfl, hfewer⟩ := hsame
    have hregion : ({ x.mapping with npages := numSpannedPages x.block u' } : Mapping) =
      (⟨x.ptr, x.block, u'⟩ : Handle).mapping := rfl
    have hthings := Handle.things_region ⟨x.ptr, x.block, u'⟩ hx ms
    by_cases hequal : numSpannedPages x.block u' = x.mapping.npages
    · -- the same pages
      rw [if_pos ⟨rfl, hequal⟩]
      have hpages : Handle.pages ⟨x.ptr, x.block, u'⟩ = x.pages := by
        rw [Handle.pages, Handle.pages, ← hregion, hequal]
      refine leaves_pure ⟨_, .none _, ?_⟩
      have hdone : Realloc x ms x.ptr (.gone ∅ ::ₘ (Handle.things ⟨x.ptr, x.block, u'⟩ + ms)) :=
        Realloc.of_gone ⟨x.ptr, x.block, u'⟩ ms hu' (by rw [hpages, Set.sdiff_self])
      rwa [hthings, ← hregion, hequal] at hdone
    · -- fewer pages
      rw [if_neg fun h => hequal h.2, if_pos ⟨rfl, by omega⟩]
      refine (virtualInvalidateCall_leaves_cut hl hZ hfewer (hpoint rfl)).bind ?_
      rintro _ _ rfl
      refine leaves_pure ⟨_, .refl _, ?_⟩
      have hgone : x.pages \ Handle.pages ⟨x.ptr, x.block, u'⟩ ⊆
          x.mapping.pages \ ({ x.mapping with npages := numSpannedPages x.block u' } : Mapping).pages := by
        rw [Handle.pages, Handle.pages, if_neg hx, if_neg hx, ← hregion]
      have hdone := Realloc.of_gone ⟨x.ptr, x.block, u'⟩ ms hu' hgone
      rwa [hthings, ← hregion] at hdone
  · -- moved, or more pages
    rw [if_neg fun h => hsame ⟨h.1, h.2.le⟩, if_neg fun h => hsame ⟨h.1, h.2.le⟩]
    refine (virtualInvalidateCall_leaves (m := x.mapping) hl hZ).bind ?_
    rintro _ _ rfl
    rw [Multiset.cons_swap]
    refine (doVremapProg_leaves_block hl hZ hne hn hle (hms.cons rfl rfl)).mono ?_
    rintro r _ ⟨_, hturns, rfl⟩
    refine ⟨_, hturns, ?_⟩
    have hgone : x.pages \ Handle.pages ⟨r, newp, u'⟩ ⊆ x.mapping.pages := by
      rw [Handle.pages, if_neg hx]
      exact Set.sdiff_subset
    have hdone := Realloc.of_gone ⟨r, newp, u'⟩ ms hu' hgone
    rwa [← Multiset.add_cons] at hdone

theorem danglessReallocRemappedProg_leaves (hl : l.working = none) (hZ : SlotsOk L Z) (hms : Tokenless ms)
    (hx : x.ptr ≠ x.block) (hu : 0 < x.usable) (hn : 0 < n) :
    Leaves C Z (fun r ms' => ∃ rest, Turns C Z ms' rest ∧ Realloc x ms r rest)
      (danglessReallocRemappedProg A L x.ptr x.block n) (.region x.mapping ::ₘ .block x.block x.usable ::ₘ ms) l := by
  rw [Multiset.cons_swap]
  refine Leaves.facts (P := 1 ≤ x.mapping.npages) (fun F s h => ?_) fun hpos => ?_
  · rw [Multiset.cons_add] at h
    exact numSpannedPages_pos h.block.2.2 hu
  refine (sysmallocUsableSizeProg_leaves hl).bind ?_
  rintro _ _ ⟨rfl, rfl⟩
  refine (sysreallocProg_leaves hl hn).bind ?_
  rintro newp _ (⟨rfl, rfl⟩ | ⟨hne, u', hle, rfl⟩)
  · refine leaves_pure ⟨_, .refl _, Or.inl ⟨rfl, ?_⟩⟩
    rw [Multiset.cons_swap, x.things_region hx]
  · rw [if_neg hne]
    exact danglessReallocNewProg_leaves hl hZ hms hx hpos hn hne hle

/-- `dangless_realloc` of a pointer that is the block itself. -/
theorem danglessReallocPlainProg_leaves_home (hl : l.working = none) (hZ : SlotsOk L Z) (hms : Tokenless ms)
    (hx : x.ptr = x.block) (hn : 0 < n) :
    Leaves C Z (fun r ms' => ∃ rest, Turns C Z ms' rest ∧ Realloc x ms r rest)
      (danglessReallocPlainProg A L x.block n) (.block x.block x.usable ::ₘ ms) l := by
  refine (sysreallocProg_leaves hl hn).bind ?_
  rintro newp _ (⟨rfl, rfl⟩ | ⟨hne, u', hle, rfl⟩)
  · refine (doVremapProg_leaves_null (Or.inl rfl)).mono ?_
    rintro _ _ ⟨rfl, rfl⟩
    exact ⟨_, .refl _, Or.inl ⟨rfl, (x.things_home hx ms).symm⟩⟩
  · refine (doVremapProg_leaves_block hl hZ hne hn hle hms).mono ?_
    rintro r _ ⟨_, hturns, rfl⟩
    refine ⟨_, hturns.trans (.none _), Realloc.of_gone ⟨r, newp, u'⟩ ms (hn.trans_le hle) ?_⟩
    rw [Handle.pages, if_pos hx, Set.empty_sdiff]

theorem danglessReallocHookedProg_leaves (hl : l.working = none) (hZ : SlotsOk L Z) (hms : Tokenless ms)
    (hne : x.ptr ≠ 0) (hu : 0 < x.usable) (hn : 0 < n) :
    Leaves C Z (fun r ms' => ∃ rest, Turns C Z ms' rest ∧ Realloc x ms r rest)
      (danglessReallocHookedProg A L x.ptr n) (x.things + ms) l := by
  unfold danglessReallocHookedProg
  rw [if_neg hne]
  by_cases hhome : x.ptr = x.block
  · rw [x.things_home hhome, hhome]
    refine (vremapResolveProg_leaves_home hl).bind ?_
    rintro _ _ ⟨rfl, rfl⟩
    exact danglessReallocPlainProg_leaves_home hl hZ hms hhome hn
  · rw [x.things_region hhome]
    refine (vremapResolveProg_leaves_region (m := x.mapping) hl hZ ⟨rfl, rfl⟩ hu).bind ?_
    rintro _ _ ⟨rfl, rfl⟩
    exact danglessReallocRemappedProg_leaves hl hZ hms hhome hu hn

theorem danglessReallocProg_leaves (hZ : SlotsOk L Z) (hms : Tokenless ms) (hne : x.ptr ≠ 0) (hu : 0 < x.usable)
    (hn : 0 < n) :
    Leaves C Z (Realloc x ms) (danglessReallocProg A L x.ptr n) (x.things + ms) idleVars :=
  ⟨hookEnterProg_holds (hooked_holds (danglessReallocHookedProg_leaves rfl hZ hms hne hu hn))⟩

/-- `dangless_realloc` of `NULL`. -/
theorem danglessReallocProg_leaves_null (hZ : SlotsOk L Z) (hms : Tokenless ms) :
    Leaves C Z (Handed ms) (danglessReallocProg A L 0 n) ms idleVars := by
  refine ⟨hookEnterProg_holds (hooked_holds ?_)⟩
  unfold danglessReallocHookedProg
  rw [if_pos rfl]
  refine (sysreallocProg_leaves_null rfl).bind ?_
  intro p ms' hgot
  exact doVremapProg_leaves_got rfl hZ hms hgot le_rfl

end Dangless
