import Dangless.HookRuns
import Dangless.TemporalSafety
import Mathlib.Data.List.Nodup

/-! The pointers that the system allocator is given in runs of a process. They are its own live blocks as long as
no call hands on the static buffer of `syscalloc_special`, and no call that is passed through has a remapped
pointer: only the path inside the hook resolves it. -/

namespace Dangless

variable {σ : Type} {A : SysAllocator σ} {L : DuneLayout} {C : SysContract A L}
  {Z : Fin PT_NUM_ENTRIES → Prop} {others : Set Nat} {hs hs0 : List Handle} {stale : List Mapping}
  {held held' own own' left : List Nat} {x : Handle} {w w' : World σ} {storage p n : Nat}

theorem Accounted.reheld (h : Accounted C Z others hs stale held w) (hperm : held'.Perm held) :
    Accounted C Z others hs stale held' w :=
  ⟨hperm.trans h.held, h.usable, h.sound⟩

/-- A block that the library has answered with. -/
theorem Accounted.obtain {r : Nat × σ} (hmin : MinimumSize C) (h : Accounted C Z others hs stale held w)
    (hok : C.Ok r.2) (hr : Obtains A C.live w.sys n r) (hsys : w'.sys = r.2) (hitems : w'.items = w.items)
    (hpt : w'.pt = w.pt) (hauto : w'.autoDedicated = w.autoDedicated) (hown : ∀ e ∈ w'.trace, e.Own C.live) :
    ∃ hs', hs ⊆ hs' ∧ Accounted C Z others hs' stale (gain r.1 held) w' ∧
      (r.1 ≠ 0 → ∃ u, n ≤ u ∧ ⟨r.1, r.1, u⟩ ∈ hs') := by
  have hsound := h.sound
  by_cases hnull : r.1 = 0
  · have hsys' := hsound.sys.obtain_null hok hr hnull hsys hitems hown
    refine ⟨hs, List.Subset.refl _, ?_, fun hne => absurd hnull hne⟩
    rw [hnull, gain_zero]
    exact ⟨h.held, h.usable, hsound.resys hsys' hitems hpt hauto⟩
  · have hsys' := hsound.sys.obtain hok hr hnull hsys hitems hown
    have hpos : 0 < A.mallocUsableSize r.1 r.2 := by
      apply hmin _ _ hok
      rw [hr.live_eq hnull]
      exact Set.mem_insert _ _
    have hacc := Accounted.consHome h.held h.usable hpos (hsound.resys hsys' hitems hpt hauto)
    rw [gain_of_ne hnull]
    exact ⟨_, List.subset_cons_self _ _, hacc, fun _ => ⟨_, hr.size hnull, List.mem_cons_self⟩⟩

/-- `sysfree` of a block. -/
theorem Accounted.sysfree (h : Accounted C Z others (x :: hs0) stale held w) (hhome : x.ptr = x.block)
    (hheld : held'.Perm (hs0.map Handle.ptr)) :
    Accounted C Z others hs0 stale held' (sysfree A x.ptr w) := by
  have hsound := h.sound
  rw [mapsOf_cons_home hhome] at hsound
  rw [hhome]
  exact ⟨hheld, fun y hy => h.usable y (List.mem_cons_of_mem _ hy),
    hsound.resys (sysfree_inv hsound.sys) rfl rfl rfl⟩

/-- The library's `realloc` has failed. -/
theorem ReallocLeaves.eq_of_failed {b answer : Nat} {sys : σ} (h : ReallocLeaves C p b n sys answer left)
    (hanswer : answer = 0) (hnull : (A.realloc b n sys).1 = 0) (hlive : b ∈ C.live (A.realloc b n sys).2) :
    left = [p] := by
  cases h with
  | block hne => exact absurd hanswer hne
  | failed => rfl
  | gone _ hgone => exact absurd ⟨hnull, hlive⟩ hgone

theorem ReallocLeaves.eq_gain {b answer : Nat} {sys : σ} (h : ReallocLeaves C p b n sys answer left)
    (hnot : (A.realloc b n sys).1 = 0 → b ∉ C.live (A.realloc b n sys).2) : left = gain answer [] := by
  cases h with
  | block hne => exact (gain_of_ne hne).symm
  | failed _ hnull hlive => exact absurd hlive (hnot hnull)
  | gone hanswer _ => rw [hanswer, gain_zero]

/-- `sysrealloc` of a block. -/
theorem Accounted.sysrealloc (hmin : MinimumSize C) (h : Accounted C Z others (x :: hs0) stale held w)
    (hhome : x.ptr = x.block) (hheld : held'.Perm (hs0.map Handle.ptr))
    (hleft : ReallocLeaves C x.ptr x.ptr n w.sys (sysrealloc A x.ptr n w).1 left) :
    ∃ hs', hs0 ⊆ hs' ∧ Accounted C Z others hs' stale (left ++ held') (sysrealloc A x.ptr n w).2 := by
  have hsound := h.sound
  have husable : ∀ y ∈ hs0, 0 < y.usable := fun y hy => h.usable y (List.mem_cons_of_mem _ hy)
  rw [mapsOf_cons_home hhome] at hsound
  rw [hhome] at hleft ⊢
  rcases sysrealloc_inv hsound.sys (rfl : Dangless.sysrealloc A x.block n w = _) with
    ⟨hnull, hsame⟩ | ⟨hnull, -, hgone⟩ | ⟨hne, -, hnew⟩
  · obtain rfl := hleft.eq_of_failed hnull hnull (hsame.mem_live List.mem_cons_self)
    have hacc := Accounted.consHome hheld husable (h.usable x List.mem_cons_self)
      (hsound.resys hsame rfl rfl rfl)
    exact ⟨_, List.subset_cons_self _ _, hacc⟩
  · obtain rfl := hleft.eq_gain fun _ => hsound.sys.notMem_live hgone rfl
    rw [hnull, gain_zero]
    exact ⟨hs0, List.Subset.refl _, hheld, husable, hsound.resys hgone rfl rfl rfl⟩
  · obtain rfl := hleft.eq_gain fun hnull => absurd hnull hne
    have hpos := hmin _ _ hnew.ok (hnew.mem_live List.mem_cons_self)
    have hacc := Accounted.consHome hheld husable hpos (hsound.resys hnew rfl rfl rfl)
    rw [gain_append, gain_of_ne hne]
    exact ⟨_, List.subset_cons_self _ _, hacc⟩

/-- `do_vremap` of a block. -/
theorem Accounted.doVremap {u : Nat} (hZ : SlotsOk L Z) (h : Accounted C Z others hs stale (p :: own) w)
    (hblock : ⟨p, p, u⟩ ∈ hs) (hle : n ≤ u) :
    ∃ others' hs', Accounted C Z others' hs' stale (gain (doVremap A L p n w).1 own) (doVremap A L p n w).2 ∧
      (doVremap A L p n w).2.modes = w.modes := by
  have hfirst := h.perm (List.perm_cons_erase hblock).symm
  have hheld : own.Perm ((hs.erase ⟨p, p, u⟩).map Handle.ptr) := (List.perm_cons p).mp hfirst.held
  have hsound := hfirst.sound
  rw [mapsOf_cons_home rfl] at hsound
  have hremapped := doVremap_remapped hZ hsound List.mem_cons_self hle
  obtain ⟨others', hs', hacc, hspends, -⟩ := hremapped.accounted hZ hheld
    (fun y hy => hfirst.usable y (List.mem_cons_of_mem _ hy)) hsound hle
  exact ⟨others', hs', hacc, hspends.modes⟩

/-- `dangless_free`. -/
theorem Accounted.freeHooked (hZ : SlotsOk L Z) (h : Accounted C Z others (x :: hs0) stale held w)
    (hheld : held'.Perm (hs0.map Handle.ptr)) :
    Accounted C Z others hs0 stale held' (danglessFreeHooked A L x.ptr w) ∧
      (danglessFreeHooked A L x.ptr w).modes = w.modes := by
  have husable : ∀ y ∈ hs0, 0 < y.usable := fun y hy => h.usable y (List.mem_cons_of_mem _ hy)
  rcases (h.resolve hZ).2.2 with ⟨-, -, hsound⟩ | ⟨hhome, -, hsound⟩
  · obtain ⟨hsound', hspends⟩ := danglessFreeHooked_remapped hZ hsound ⟨rfl, rfl⟩
      (h.usable x List.mem_cons_self) rfl
    exact ⟨⟨hheld, husable, hsound'⟩, hspends.modes⟩
  · rw [hhome]
    obtain ⟨hsound', hspends⟩ := danglessFreeHooked_home hsound rfl
    exact ⟨⟨hheld, husable, hsound'⟩, hspends.modes⟩

/-- `dangless_realloc` of a pointer into a region. -/
theorem Accounted.reallocHooked_region (hZ : SlotsOk L Z) (hmin : MinimumSize C)
    (hheld : held'.Perm (hs0.map Handle.ptr)) (husable : ∀ y ∈ hs0, 0 < y.usable) (hx : 0 < x.usable)
    (hne : x.ptr ≠ 0) (hregion : x.ptr ≠ x.block)
    (hsound : Sound C Z others (x.mapping :: (mapsOf hs0 ++ stale)) ((x.block, x.usable) :: blocksOf hs0) w)
    (hleft : ReallocLeaves C x.ptr x.block n w.sys (danglessReallocHooked A L x.ptr n w).1 left) :
    ∃ others' hs' stale', Accounted C Z others' hs' stale' (left ++ held') (danglessReallocHooked A L x.ptr n w).2 ∧
      (danglessReallocHooked A L x.ptr n w).2.modes = w.modes := by
  have hspec : Realloced C Z others _ _ w x.mapping x.block x.usable n (danglessReallocHooked A L x.ptr n w) :=
    danglessReallocHooked_remapped hZ hsound ⟨rfl, rfl⟩ hx
  generalize danglessReallocHooked A L x.ptr n w = r at hleft hspec ⊢
  cases hspec with
  | failed hanswer hr hsys hsound' hspends =>
      have hlive := hsound'.sys.mem_live List.mem_cons_self
      rw [hsys] at hlive
      obtain rfl := hleft.eq_of_failed hr hanswer hlive
      rw [← List.cons_append, ← mapsOf_cons_region hregion] at hsound'
      exact ⟨others, x :: hs0, stale, ⟨hheld.cons _, List.forall_mem_cons.mpr ⟨hx, husable⟩, hsound'⟩, hspends.modes⟩
  | released hanswer hzero hr hsys hgone hsound' hspends =>
      rw [hsys] at hgone
      obtain rfl := hleft.eq_gain fun _ => hgone
      rw [hr, gain_zero]
      exact ⟨others, hs0, x.mapping :: stale, Accounted.leaveRegion hheld husable hsound', hspends.modes⟩
  | kept hanswer hle hr u' hu' hpages hsound' hspends =>
      have hpos : 0 < u' := by
        have hsize : A.mallocUsableSize x.block r.2.sys = u' := hsound'.sys.usable _ List.mem_cons_self
        rw [← hsize]
        exact hmin _ _ hsound'.sys.ok (hsound'.sys.mem_live List.mem_cons_self)
      have hblock : x.block ≠ 0 := (hsound.sys.homeBlock List.mem_cons_self).home.ne_zero
      have hptr : r.1 ≠ 0 := hr ▸ hne
      obtain rfl := hleft.eq_gain fun hnull => absurd (hanswer.symm.trans hnull) hblock
      have hacc := Accounted.resize hheld husable hpos hregion hsound'
      rw [gain_append, gain_of_ne hptr, hr]
      exact ⟨others, _, stale, hacc, hspends.modes⟩
  | moved hanswer hmoved b' u' w1 hu' hlive hsound' hspends hremapped =>
      obtain rfl := hleft.eq_gain fun hnull => absurd hnull hanswer
      obtain ⟨others', hs', hacc, hspends', -⟩ := hremapped.accounted hZ hheld husable hsound' hu'
      rw [gain_append]
      exact ⟨others', hs', stale, hacc, hspends'.modes.trans hspends.modes⟩

/-- `dangless_realloc` of a block that is held as it is. -/
theorem Accounted.reallocHooked_home {b u : Nat} (hZ : SlotsOk L Z) (hheld : held'.Perm (hs0.map Handle.ptr))
    (husable : ∀ y ∈ hs0, 0 < y.usable) (hu : 0 < u)
    (hsound : Sound C Z others (mapsOf hs0 ++ stale) ((b, u) :: blocksOf hs0) w)
    (hleft : ReallocLeaves C b b n w.sys (danglessReallocHooked A L b n w).1 left) :
    ∃ others' hs', Accounted C Z others' hs' stale (left ++ held') (danglessReallocHooked A L b n w).2 ∧
      (danglessReallocHooked A L b n w).2.modes = w.modes := by
  have hspec : ReallocedHome C Z others _ _ w b u n (danglessReallocHooked A L b n w) :=
    danglessReallocHooked_home hZ hsound
  generalize danglessReallocHooked A L b n w = r at hleft hspec ⊢
  cases hspec with
  | failed hanswer hr hsys hsound' hspends =>
      have hlive := hsound'.sys.mem_live List.mem_cons_self
      rw [hsys] at hlive
      obtain rfl := hleft.eq_of_failed hr hanswer hlive
      exact ⟨others, _, Accounted.consHome hheld husable hu hsound', hspends.modes⟩
  | released hanswer hzero hr hsys hgone hsound' hspends =>
      rw [hsys] at hgone
      obtain rfl := hleft.eq_gain fun _ => hgone
      rw [hr, gain_zero]
      exact ⟨others, hs0, ⟨hheld, husable, hsound'⟩, hspends.modes⟩
  | block hanswer b' u' w1 hu' hsound' hspends hremapped =>
      obtain rfl := hleft.eq_gain fun hnull => absurd hnull hanswer
      obtain ⟨others', hs', hacc, hspends', -⟩ := hremapped.accounted hZ hheld husable hsound' hu'
      rw [gain_append]
      exact ⟨others', hs', hacc, hspends'.modes.trans hspends.modes⟩

/-- `dangless_realloc`. -/
theorem Accounted.reallocHooked (hZ : SlotsOk L Z) (hmin : MinimumSize C)
    (h : Accounted C Z others (x :: hs0) stale held w) (hheld : held'.Perm (hs0.map Handle.ptr))
    (hleft : ReallocLeaves C x.ptr (originalPtr L w.pt x.ptr) n w.sys (danglessReallocHooked A L x.ptr n w).1 left) :
    ∃ others' hs' stale', Accounted C Z others' hs' stale' (left ++ held') (danglessReallocHooked A L x.ptr n w).2 ∧
      (danglessReallocHooked A L x.ptr n w).2.modes = w.modes := by
  obtain ⟨hx, husable⟩ := List.forall_mem_cons.mp h.usable
  obtain ⟨hne, horiginal, hresolve⟩ := h.resolve hZ
  rw [horiginal] at hleft
  rcases hresolve with ⟨hregion, -, hsound⟩ | ⟨hhome, -, hsound⟩
  · exact Accounted.reallocHooked_region hZ hmin hheld husable hx hne hregion hsound hleft
  · rw [hhome] at hleft ⊢
    obtain ⟨others', hs', hresult⟩ := Accounted.reallocHooked_home hZ hheld husable hx hsound hleft
    exact ⟨others', hs', stale, hresult⟩

/-! ### The invariant of the process -/

/-- The pointers that a running hook will hand to its caller or to the library. `do_vremap` drops a block of size 0. -/
def inHand : Option RunningHook → List Nat
  | none => []
  | some (.vremap p size) => if size = 0 then [] else gain p []
  | some (.free p) => [p]
  | some (.realloc p _) => gain p []
  | some (.exit answer) => answer

/-- The invariant. `own` are the pointers that the client holds, without those to the static buffer. -/
structure ProcessInv (C : SysContract A L) (Z : Fin PT_NUM_ENTRIES → Prop) (storage : Nat) (others : Set Nat)
    (hs : List Handle) (stale : List Mapping) (own : List Nat) (s : Process σ) : Prop where
  accounted : Accounted C Z others hs stale (inHand s.running ++ own) s.world
  held : ∃ k, s.held.Perm (List.replicate k storage ++ own)
  depth : s.world.hookDepth = if s.running.isSome then 1 else 0
  block : ∀ p size, s.running = some (.vremap p size) → p ≠ 0 → size ≠ 0 → ∃ u, size ≤ u ∧ ⟨p, p, u⟩ ∈ hs

theorem hookEnter_eq_some : hookEnter w = some w' ↔
    w.hookDepth = 0 ∧ w.kernelMode = true ∧ w' = { w with hookDepth := 1 } := by
  unfold hookEnter
  split_ifs with hdepth hkernel
  · simp [Nat.pos_iff_ne_zero.mp hdepth]
  · rw [Bool.not_eq_true'] at hkernel
    simp [hkernel]
  · rw [Bool.not_eq_true', Bool.not_eq_false] at hkernel
    have hzero : w.hookDepth = 0 := Nat.eq_zero_of_not_pos hdepth
    simp [hzero, hkernel, eq_comm]

section Steps

variable {s : Process σ} {others' : Set Nat} {hs' : List Handle} {stale' : List Mapping}

/-- Pointers are held once. -/
theorem Accounted.nodup (hZ : SlotsOk L Z) (h : Accounted C Z others hs stale held w) : held.Nodup := by
  have hblocks := (List.nodup_append.mp h.sound.sys.nodup).1
  rw [blocksOf, List.map_map] at hblocks
  exact List.Nodup.of_map _ ((h.originalPtrs_perm hZ).nodup_iff.mpr hblocks)

theorem gain_append_perm (p : Nat) (l held : List Nat) : (gain p (l ++ held)).Perm (l ++ gain p held) := by
  by_cases hp : p = 0
  · rw [hp, gain_zero, gain_zero]
  · rw [gain_of_ne hp, gain_of_ne hp]
    exact List.perm_middle.symm

/-- A call that is passed through while the hook of another one may be running. -/
theorem ProcessInv.pass (h : ProcessInv C Z storage others hs stale own s)
    (hacc : Accounted C Z others hs' stale (inHand s.running ++ own') w') (hdepth : w'.hookDepth = s.world.hookDepth)
    (hheld : ∃ k, held'.Perm (List.replicate k storage ++ own'))
    (hblock : ∀ p u, p ∈ inHand s.running → ⟨p, p, u⟩ ∈ hs → ⟨p, p, u⟩ ∈ hs') :
    ProcessInv C Z storage others hs' stale own' ⟨w', held', s.running⟩ := by
  refine ⟨hacc, hheld, hdepth.trans h.depth, fun p size hrunning hp hsize => ?_⟩
  obtain ⟨u, hle, hmem⟩ := h.block p size hrunning hp hsize
  refine ⟨u, hle, hblock p u ?_ hmem⟩
  rw [hrunning, inHand, if_neg hsize, gain_of_ne hp]
  exact List.mem_singleton_self p

/-- The handle of a pointer that is given away, and the others, among them that of the block in hand. -/
theorem ProcessInv.pick (hZ : SlotsOk L Z) (h : ProcessInv C Z storage others hs stale own s) (hp : p ∈ own) :
    ∃ x hs0, x.ptr = p ∧ Accounted C Z others (x :: hs0) stale (inHand s.running ++ own) s.world ∧
      (inHand s.running ++ own.erase p).Perm (hs0.map Handle.ptr) ∧
      ∀ q u, q ∈ inHand s.running → ⟨q, q, u⟩ ∈ hs → ⟨q, q, u⟩ ∈ hs0 := by
  obtain ⟨x, hs0, rfl, hperm, hacc, herase⟩ := h.accounted.pick (List.mem_append_right _ hp)
  have hnodup := h.accounted.nodup hZ
  have hnot : x.ptr ∉ inHand s.running := fun hin => (List.nodup_append.mp hnodup).2.2 _ hin _ hp rfl
  rw [List.erase_append_right _ hnot] at herase
  refine ⟨x, hs0, rfl, hacc, herase, fun q u hq hmem => ?_⟩
  rcases List.mem_cons.mp (hperm.mem_iff.mp hmem) with rfl | hmem
  · exact absurd hq hnot
  · exact hmem

/-- The accounting does not depend on the modes. -/
theorem Accounted.remode (h : Accounted C Z others hs stale held w) (hsys : w'.sys = w.sys)
    (hitems : w'.items = w.items) (hpt : w'.pt = w.pt) (hauto : w'.autoDedicated = w.autoDedicated)
    (htrace : w'.trace = w.trace) : Accounted C Z others hs stale held w' :=
  ⟨h.held, h.usable, h.sound.resys
    (h.sound.sys.congr (List.Perm.refl _) hsys hitems (htrace ▸ h.sound.sys.own)) hitems hpt hauto⟩

theorem gain_perm (p : Nat) (h : held.Perm held') : (gain p held).Perm (gain p held') := by
  rw [← gain_append, ← gain_append p held']
  exact h.append_left _

/-- A new block that nobody keeps. -/
theorem Accounted.lose (h : Accounted C Z others hs stale (gain p held) w) (hblock : p ≠ 0 → ∃ u, ⟨p, p, u⟩ ∈ hs) :
    ∃ others' hs', Accounted C Z others' hs' stale held w := by
  by_cases hp : p = 0
  · rw [hp, gain_zero] at h
    exact ⟨others, hs, h⟩
  · obtain ⟨u, hmem⟩ := hblock hp
    rw [gain_of_ne hp] at h
    obtain ⟨hheld, husable, hsound⟩ := h.perm (List.perm_cons_erase hmem).symm
    rw [mapsOf_cons_home rfl] at hsound
    exact ⟨insert p others, hs.erase ⟨p, p, u⟩, (List.perm_cons p).mp hheld,
      fun y hy => husable y (List.mem_cons_of_mem _ hy), ⟨hsound.sys.leak, hsound.remap⟩, hsound.undedicated⟩

/-- A block that the library answers with goes to the caller. -/
theorem ProcessInv.alloc {r : Nat × σ} {trace : List (Event σ)} (hmin : MinimumSize C)
    (h : ProcessInv C Z storage others hs stale own s) (hok : C.Ok r.2) (hr : Obtains A C.live s.world.sys n r)
    (hown : ∀ e ∈ trace, e.Own C.live) : ∃ hs', ProcessInv C Z storage others hs' stale (gain r.1 own)
      ⟨{ s.world with sys := r.2, trace := trace }, gain r.1 s.held, s.running⟩ := by
  obtain ⟨hs', hsub, hacc, -⟩ : ∃ hs', hs ⊆ hs' ∧ Accounted C Z others hs' stale
      (gain r.1 (inHand s.running ++ own)) { s.world with sys := r.2, trace := trace } ∧ _ :=
    h.accounted.obtain hmin hok hr rfl rfl rfl rfl hown
  obtain ⟨k, hheld⟩ := h.held
  have hacc' := hacc.reheld (gain_append_perm r.1 (inHand s.running) own).symm
  have hheld' := (gain_perm r.1 hheld).trans (gain_append_perm r.1 (List.replicate k storage) own)
  exact ⟨hs', h.pass hacc' rfl ⟨k, hheld'⟩ fun q u _ hmem => hsub hmem⟩

/-- Or it waits in the hook for `do_vremap`. -/
theorem ProcessInv.allocHook {r : Nat × σ} {size : Nat} (hmin : MinimumSize C)
    (h : ProcessInv C Z storage others hs stale own s) (hrunning : s.running = none) (hok : C.Ok r.2)
    (hr : Obtains A C.live s.world.sys n r) (hle : size ≤ n) :
    ∃ others' hs', ProcessInv C Z storage others' hs' stale own
      ⟨{ s.world with sys := r.2, hookDepth := 1 }, s.held, some (.vremap r.1 size)⟩ := by
  obtain ⟨hs', -, hacc, hblock⟩ : ∃ hs', hs ⊆ hs' ∧ Accounted C Z others hs' stale
      (gain r.1 (inHand s.running ++ own)) { s.world with sys := r.2, hookDepth := 1 } ∧ _ :=
    h.accounted.obtain hmin hok hr rfl rfl rfl rfl h.accounted.sound.sys.own
  rw [hrunning, inHand, List.nil_append] at hacc
  by_cases hsize : size = 0
  · subst hsize
    obtain ⟨others', hs'', hacc'⟩ := hacc.lose fun hne => (hblock hne).imp fun _ hu => hu.2
    exact ⟨others', hs'', hacc', h.held, rfl, fun p size' heq _ hne => absurd (by cases heq; rfl) hne⟩
  · rw [← gain_append] at hacc
    refine ⟨others, hs', ?_, h.held, rfl, fun p size' heq hp _ => ?_⟩
    · rw [inHand, if_neg hsize]
      exact hacc
    · cases heq
      obtain ⟨u, hu, hmem⟩ := hblock hp
      exact ⟨u, hle.trans hu, hmem⟩

/-- The static buffer may wait there too, where `do_vremap` drops it. -/
theorem ProcessInv.specialHook (h : ProcessInv C Z storage others hs stale own s) (hrunning : s.running = none) :
    ProcessInv C Z storage others hs stale own
      ⟨{ s.world with storageUsed := true, hookDepth := 1 }, s.held, some (.vremap storage 0)⟩ := by
  have hacc := h.accounted
  rw [hrunning] at hacc
  refine ⟨hacc.remode rfl rfl rfl rfl rfl, h.held, rfl, fun p size heq _ hne => ?_⟩
  cases heq
  exact absurd rfl hne

theorem mem_own {k : Nat} (hheld : held.Perm (List.replicate k storage ++ own)) (hne : p ≠ storage) (hp : p ∈ held) :
    p ∈ own := by
  rcases List.mem_append.mp (hheld.mem_iff.mp hp) with hspecial | hown
  · exact absurd (List.eq_of_mem_replicate hspecial) hne
  · exact hown

theorem erase_own {k : Nat} (hheld : held.Perm (List.replicate k storage ++ own)) (hne : p ≠ storage) :
    (held.erase p).Perm (List.replicate k storage ++ own.erase p) := by
  have hnot : p ∉ List.replicate k storage := fun hmem => hne (List.eq_of_mem_replicate hmem)
  rw [← List.erase_append_right _ hnot]
  exact hheld.erase p

theorem ProcessInv.zero_notMem (hZ : SlotsOk L Z) (h : ProcessInv C Z storage others hs stale own s) : 0 ∉ own := by
  intro hzero
  obtain ⟨x, hs0, hptr, hacc, -⟩ := h.pick hZ hzero
  exact (hacc.resolve hZ).1 hptr

/-- The hook of a releasing call is entered with the pointer in hand. -/
theorem ProcessInv.enter {hook : RunningHook} (h : ProcessInv C Z storage others hs stale own s)
    (hrunning : s.running = none) (hne : p ≠ storage) (hin : (inHand (some hook) ++ own.erase p).Perm own)
    (hnot : ∀ q size, hook ≠ .vremap q size) : ProcessInv C Z storage others hs stale (own.erase p)
      ⟨{ s.world with hookDepth := 1 }, s.held.erase p, some hook⟩ := by
  obtain ⟨k, hheld⟩ := h.held
  have hacc := h.accounted
  rw [hrunning] at hacc
  refine ⟨(hacc.reheld hin).rehook 1, ⟨k, erase_own hheld hne⟩, rfl, fun q size heq _ _ => ?_⟩
  exact absurd (Option.some.inj heq) (hnot q size)

/-- `dangless_free` that is passed through. -/
theorem ProcessInv.free (hZ : SlotsOk L Z) (h : ProcessInv C Z storage others hs stale own s) (hp : p ∈ own)
    (hne : p ≠ storage) (horiginal : originalPtr L s.world.pt p = p) :
    ∃ hs', ProcessInv C Z storage others hs' stale (own.erase p)
      ⟨sysfree A p s.world, s.held.erase p, s.running⟩ := by
  obtain ⟨x, hs0, rfl, hacc, herase, hblock⟩ := h.pick hZ hp
  obtain ⟨k, hheld⟩ := h.held
  have hhome : x.ptr = x.block := horiginal.symm.trans (hacc.resolve hZ).2.1
  exact ⟨hs0, h.pass (hacc.sysfree hhome herase) rfl ⟨k, erase_own hheld hne⟩ hblock⟩

/-- `dangless_realloc` that is passed through. -/
theorem ProcessInv.realloc (hZ : SlotsOk L Z) (hmin : MinimumSize C)
    (h : ProcessInv C Z storage others hs stale own s) (hp : p = 0 ∨ p ∈ own) (hne : p ≠ storage)
    (horiginal : originalPtr L s.world.pt p = p)
    (hleft : ReallocLeaves C p p n s.world.sys (sysrealloc A p n s.world).1 left) :
    ∃ hs', ProcessInv C Z storage others hs' stale (left ++ own.erase p)
      ⟨(sysrealloc A p n s.world).2, left ++ s.held.erase p, s.running⟩ := by
  obtain ⟨k, hheld⟩ := h.held
  have herased := (erase_own hheld hne).append_left left
  rcases hp with rfl | hp
  · obtain ⟨hok, hr⟩ := C.reallocNull s.world.sys n h.accounted.sound.sys.ok
    obtain rfl := hleft.eq_gain fun _ => C.null_notMem hok
    have hown := h.zero_notMem hZ
    have hnot : 0 ∉ s.held := fun hmem => hown (mem_own hheld hne hmem)
    rw [List.erase_of_not_mem hown, List.erase_of_not_mem hnot, gain_append, gain_append]
    exact h.alloc hmin hok hr (List.forall_mem_cons.mpr ⟨Or.inl rfl, h.accounted.sound.sys.own⟩)
  · obtain ⟨x, hs0, rfl, hacc, herase, hblock⟩ := h.pick hZ hp
    have hhome : x.ptr = x.block := horiginal.symm.trans (hacc.resolve hZ).2.1
    obtain ⟨hs', hsub, hacc'⟩ := hacc.sysrealloc hmin hhome herase hleft
    refine ⟨hs', h.pass (hacc'.reheld (List.perm_append_comm_assoc _ _ _)) rfl ⟨k, ?_⟩ fun q u hq hmem =>
      hsub (hblock q u hq hmem)⟩
    exact herased.trans (List.perm_append_comm_assoc _ _ _)

/-- The body of a hook leaves an answer for the caller. -/
theorem ProcessInv.answer {answer : List Nat} (h : ProcessInv C Z storage others hs stale own s)
    (hrunning : s.running.isSome = true) (hacc : Accounted C Z others' hs' stale' (answer ++ own) w')
    (hmodes : w'.modes = s.world.modes) :
    ProcessInv C Z storage others' hs' stale' own ⟨w', s.held, some (.exit answer)⟩ := by
  have hdepth := h.depth
  rw [hrunning] at hdepth
  refine ⟨hacc, h.held, ?_, fun p size heq => ?_⟩
  · simp only [World.modes, Prod.mk.injEq] at hmodes
    exact hmodes.2.1.trans hdepth
  · cases heq

theorem ProcessInv.vremapBody {size : Nat} (hZ : SlotsOk L Z) (h : ProcessInv C Z storage others hs stale own s)
    (hrunning : s.running = some (.vremap p size)) :
    ∃ others' hs', ProcessInv C Z storage others' hs' stale own
      ⟨(doVremap A L p size s.world).2, s.held, some (.exit (gain (doVremap A L p size s.world).1 []))⟩ := by
  have hacc := h.accounted
  rw [hrunning, inHand] at hacc
  have hsome : s.running.isSome = true := hrunning ▸ rfl
  by_cases hdropped : p = 0 ∨ size = 0
  · have hnone : (if size = 0 then [] else gain p []) = [] := by
      rcases hdropped with rfl | rfl
      · rw [gain_zero, ite_self]
      · exact if_pos rfl
    have hanswer : doVremap A L p size s.world = (0, s.world) := if_pos hdropped
    rw [hnone] at hacc
    rw [hanswer]
    exact ⟨others, hs, h.answer hsome hacc rfl⟩
  · obtain ⟨hp, hsize⟩ := not_or.mp hdropped
    obtain ⟨u, hle, hmem⟩ := h.block p size hrunning hp hsize
    rw [if_neg hsize, gain_append, gain_of_ne hp] at hacc
    obtain ⟨others', hs', hacc', hmodes⟩ := hacc.doVremap hZ hmem hle
    rw [← gain_append] at hacc'
    exact ⟨others', hs', h.answer hsome hacc' hmodes⟩

theorem ProcessInv.freeBody (hZ : SlotsOk L Z) (h : ProcessInv C Z storage others hs stale own s)
    (hrunning : s.running = some (.free p)) : ∃ hs', ProcessInv C Z storage others hs' stale own
      ⟨danglessFreeHooked A L p s.world, s.held, some (.exit [])⟩ := by
  have hacc := h.accounted
  rw [hrunning, inHand, List.singleton_append] at hacc
  obtain ⟨x, hs0, rfl, -, hfirst, herase⟩ := hacc.pick List.mem_cons_self
  rw [List.erase_cons_head] at herase
  obtain ⟨hacc', hmodes⟩ := hfirst.freeHooked hZ herase
  exact ⟨hs0, h.answer (hrunning ▸ rfl) hacc' hmodes⟩

theorem ProcessInv.reallocBody (hZ : SlotsOk L Z) (hmin : MinimumSize C)
    (h : ProcessInv C Z storage others hs stale own s) (hrunning : s.running = some (.realloc p n))
    (hleft : ReallocLeaves C p (originalPtr L s.world.pt p) n s.world.sys
      (danglessReallocHooked A L p n s.world).1 left) :
    ∃ others' hs' stale', ProcessInv C Z storage others' hs' stale' own
      ⟨(danglessReallocHooked A L p n s.world).2, s.held, some (.exit left)⟩ := by
  have hacc := h.accounted
  rw [hrunning, inHand, gain_append] at hacc
  have hsome : s.running.isSome = true := hrunning ▸ rfl
  by_cases hp : p = 0
  · subst hp
    rw [gain_zero] at hacc
    have hok := (C.reallocNull s.world.sys n hacc.sound.sys.ok).1
    obtain rfl := hleft.eq_gain fun _ => C.null_notMem hok
    obtain ⟨others', hs', hacc', hspends, -⟩ := (danglessReallocHooked_null hZ hacc.sound).accounted hZ hacc
    rw [← gain_append] at hacc'
    exact ⟨others', hs', stale, h.answer hsome hacc' hspends.modes⟩
  · rw [gain_of_ne hp] at hacc
    obtain ⟨x, hs0, rfl, -, hfirst, herase⟩ := hacc.pick List.mem_cons_self
    rw [List.erase_cons_head] at herase
    obtain ⟨others', hs', stale', hacc', hmodes⟩ := hfirst.reallocHooked hZ hmin herase hleft
    exact ⟨others', hs', stale', h.answer hsome hacc' hmodes⟩

theorem ProcessInv.exit {answer : List Nat} (h : ProcessInv C Z storage others hs stale own s)
    (hrunning : s.running = some (.exit answer)) : ProcessInv C Z storage others hs stale (answer ++ own)
      ⟨hookExit s.world, answer ++ s.held, none⟩ := by
  have hacc := h.accounted
  have hdepth := h.depth
  rw [hrunning] at hacc hdepth
  obtain ⟨k, hheld⟩ := h.held
  refine ⟨hacc.hookExit, ⟨k, (hheld.append_left answer).trans (List.perm_append_comm_assoc _ _ _)⟩, ?_, nofun⟩
  simp only [hookExit, hdepth]
  rfl

/-- A pointer that `dangless_free` and `dangless_realloc` hand on as a block: not the static buffer of
`syscalloc_special`, nor, where the call is passed through, a remapped pointer. -/
def Sendable (L : DuneLayout) (storage : Nat) (w : World σ) (p : Nat) : Prop :=
  p ≠ storage ∧ (hookEnter w = none → originalPtr L w.pt p = p)

/-- A step hands on no foreign pointer. A block of `calloc` goes to `malloc_usable_size` if the hook is entered, unless
its size is 0. -/
def SendsBlocks (L : DuneLayout) (storage : Nat) (s : Process σ) : ProcessEvent → Prop
  | .call (.calloc num size) =>
      s.world.addr .calloc = true ∨ hookEnter s.world = none ∨ u64 (num * size) = 0
  | .call (.realloc p _) => Sendable L storage s.world p
  | .call (.free p) => p = 0 ∨ Sendable L storage s.world p
  | _ => True

theorem hookEnter_eq_none_congr (hdepth : w'.hookDepth = w.hookDepth) (hkernel : w'.kernelMode = w.kernelMode) :
    hookEnter w' = none ↔ hookEnter w = none := by
  unfold hookEnter
  rw [hdepth, hkernel]
  split_ifs <;> simp

theorem danglessMalloc_pass {size : Nat} (hpass : hookEnter w = none) :
    danglessMalloc A L size w = sysmalloc A size w := by
  have hsame : hookEnter (sysmalloc A size w).2 = none ↔ hookEnter w = none := hookEnter_eq_none_congr rfl rfl
  unfold danglessMalloc
  dsimp only
  rw [hsame.mpr hpass]

/-- `syscalloc` of a call that `dlsym` makes. -/
theorem syscalloc_special {num size : Nat} (haddr : w.addr .calloc = false) (hpopulating : w.populating = true) :
    syscalloc A storage num size w = (storage, { w with storageUsed := true }) := by
  unfold syscalloc
  rw [if_pos (by rw [haddr, hpopulating]; rfl)]
  rfl

theorem hookEnter_syscalloc {num size : Nat} :
    hookEnter (syscalloc A storage num size w).2 = none ↔ hookEnter w = none := by
  apply hookEnter_eq_none_congr
  · unfold syscalloc
    split_ifs <;> rfl
  · unfold syscalloc
    split_ifs <;> rfl

theorem danglessCalloc_pass {num size : Nat} (hpass : hookEnter w = none) :
    danglessCalloc A L storage num size w = syscalloc A storage num size w := by
  unfold danglessCalloc
  dsimp only
  rw [hookEnter_syscalloc.mpr hpass]

theorem danglessRealloc_pass (hpass : hookEnter w = none) : danglessRealloc A L p n w = sysrealloc A p n w := by
  unfold danglessRealloc
  rw [hpass]

theorem danglessFree_pass (hpass : hookEnter w = none) (hp : p ≠ 0) : danglessFree A L p w = sysfree A p w := by
  unfold danglessFree
  rw [if_neg hp, hpass]

variable {s' : Process σ} {event : ProcessEvent}

theorem ProcessInv.idle (h : ProcessInv C Z storage others hs stale own s) (henter : hookEnter w = some w')
    (hdepth : w.hookDepth = s.world.hookDepth) : s.running = none := by
  have hzero := (hookEnter_eq_some.mp henter).1
  rw [hdepth, h.depth] at hzero
  cases hrunning : s.running with
  | none => rfl
  | some hook =>
      rw [hrunning] at hzero
      cases hzero

/-- A step that touches modes only. -/
theorem ProcessInv.remode (h : ProcessInv C Z storage others hs stale own s) (hsys : w'.sys = s.world.sys)
    (hitems : w'.items = s.world.items) (hpt : w'.pt = s.world.pt)
    (hauto : w'.autoDedicated = s.world.autoDedicated) (htrace : w'.trace = s.world.trace)
    (hdepth : w'.hookDepth = s.world.hookDepth) :
    ProcessInv C Z storage others hs stale own ⟨w', s.held, s.running⟩ :=
  h.pass (h.accounted.remode hsys hitems hpt hauto htrace) hdepth h.held fun _ _ _ hmem => hmem

/-- The static buffer. -/
theorem ProcessInv.special (h : ProcessInv C Z storage others hs stale own s) :
    ProcessInv C Z storage others hs stale own
      ⟨{ s.world with storageUsed := true }, gain storage s.held, s.running⟩ := by
  obtain ⟨k, hheld⟩ := h.held
  refine h.pass (h.accounted.remode rfl rfl rfl rfl rfl) rfl ?_ fun _ _ _ hmem => hmem
  by_cases hzero : storage = 0
  · rw [hzero, gain_zero]
    exact ⟨k, hzero ▸ hheld⟩
  · rw [gain_of_ne hzero]
    exact ⟨k + 1, hheld.cons storage⟩

/-- `dangless_calloc` outside of the hooks, with the library's block or the static buffer. -/
theorem ProcessInv.calloc {num size : Nat} (hmin : MinimumSize C)
    (h : ProcessInv C Z storage others hs stale own s)
    (haddr : s.world.addr .calloc = true ∨ (s.world.populating = true ∧ s.world.storageUsed = false))
    (hpass : hookEnter s.world = none) :
    ∃ hs' own', ProcessInv C Z storage others hs' stale own'
      ⟨(danglessCalloc A L storage num size s.world).2,
        gain (danglessCalloc A L storage num size s.world).1 s.held, s.running⟩ := by
  rw [danglessCalloc_pass hpass]
  cases hfound : s.world.addr .calloc with
  | true =>
      rw [syscalloc_eq hfound]
      obtain ⟨hok', hr⟩ := C.calloc s.world.sys _ _ h.accounted.sound.sys.ok
      obtain ⟨hs', hinv⟩ := h.alloc hmin hok' hr h.accounted.sound.sys.own
      exact ⟨hs', _, hinv⟩
  | false =>
      rw [hfound] at haddr
      have hpopulating := (haddr.resolve_left Bool.false_ne_true).1
      rw [syscalloc_special hfound hpopulating]
      exact ⟨hs, own, h.special⟩

/-- `dangless_calloc` as a hook. Only a request for nothing may find the static buffer. -/
theorem ProcessInv.callocHook {num size : Nat} (hmin : MinimumSize C)
    (h : ProcessInv C Z storage others hs stale own s)
    (haddr : s.world.addr .calloc = true ∨ (s.world.populating = true ∧ s.world.storageUsed = false))
    (henter : hookEnter (syscalloc A storage num size s.world).2 = some w)
    (hsends : SendsBlocks L storage s (.call (.calloc num size))) :
    ∃ others' hs', ProcessInv C Z storage others' hs' stale own
      ⟨w, s.held, some (.vremap (syscalloc A storage num size s.world).1 (u64 (num * size)))⟩ := by
  have hentered : hookEnter s.world ≠ none := by
    intro hpass
    rw [hookEnter_syscalloc.mpr hpass] at henter
    cases henter
  cases hfound : s.world.addr .calloc with
  | true =>
      rw [syscalloc_eq hfound] at henter ⊢
      obtain ⟨-, -, rfl⟩ := hookEnter_eq_some.mp henter
      obtain ⟨hok', hr⟩ := C.calloc s.world.sys _ _ h.accounted.sound.sys.ok
      exact h.allocHook hmin (h.idle henter rfl) hok' hr (Nat.mod_le _ _)
  | false =>
      rw [hfound] at haddr
      have hpopulating := (haddr.resolve_left Bool.false_ne_true).1
      have hzero := (hsends.resolve_left (hfound ▸ Bool.false_ne_true)).resolve_left hentered
      rw [syscalloc_special hfound hpopulating] at henter ⊢
      obtain ⟨-, -, rfl⟩ := hookEnter_eq_some.mp henter
      rw [hzero]
      exact ⟨others, hs, h.specialHook (h.idle henter rfl)⟩

/-- The invariant holds after every step. -/
theorem ProcessInv.step (hZ : SlotsOk L Z) (hmin : MinimumSize C)
    (h : ProcessInv C Z storage others hs stale own s) (hstep : ProcessStep C storage s event s')
    (hsends : SendsBlocks L storage s event) :
    ∃ others' hs' stale' own', ProcessInv C Z storage others' hs' stale' own' s' := by
  have hok := h.accounted.sound.sys.ok
  have htrace := h.accounted.sound.sys.own
  cases hstep with
  | malloc haddr hpass =>
      rw [danglessMalloc_pass hpass]
      obtain ⟨hok', hr⟩ := C.malloc s.world.sys _ hok
      obtain ⟨hs', hinv⟩ := h.alloc hmin hok' hr htrace
      exact ⟨others, hs', stale, _, hinv⟩
  | mallocHook haddr henter =>
      obtain ⟨-, -, rfl⟩ := hookEnter_eq_some.mp henter
      obtain ⟨hok', hr⟩ := C.malloc s.world.sys _ hok
      obtain ⟨others', hs', hinv⟩ := h.allocHook hmin (h.idle henter rfl) hok' hr le_rfl
      exact ⟨others', hs', stale, _, hinv⟩
  | calloc haddr hpass =>
      obtain ⟨hs', own', hinv⟩ := h.calloc hmin haddr hpass
      exact ⟨others, hs', stale, own', hinv⟩
  | callocHook haddr henter =>
      obtain ⟨others', hs', hinv⟩ := h.callocHook hmin haddr henter hsends
      exact ⟨others', hs', stale, own, hinv⟩
  | realloc haddr hpass hp hleft =>
      rw [danglessRealloc_pass hpass] at hleft ⊢
      obtain ⟨k, hheld⟩ := h.held
      obtain ⟨hs', hinv⟩ := h.realloc hZ hmin (hp.imp_right (mem_own hheld hsends.1)) hsends.1 (hsends.2 hpass) hleft
      exact ⟨others, hs', stale, _, hinv⟩
  | reallocHook haddr henter hp =>
      obtain ⟨-, -, rfl⟩ := hookEnter_eq_some.mp henter
      obtain ⟨k, hheld⟩ := h.held
      refine ⟨others, hs, stale, _, h.enter (h.idle henter rfl) hsends.1 ?_ nofun⟩
      rw [inHand, gain_append]
      rcases hp with rfl | hp
      · rw [gain_zero, List.erase_of_not_mem (h.zero_notMem hZ)]
      · have hown := mem_own hheld hsends.1 hp
        rw [gain_of_ne fun heq => h.zero_notMem hZ (heq ▸ hown)]
        exact (List.perm_cons_erase hown).symm
  | freeNull => exact ⟨others, hs, stale, own, h⟩
  | free haddr hpass hne hp =>
      obtain ⟨hspecial, hblock⟩ := hsends.resolve_left hne
      obtain ⟨k, hheld⟩ := h.held
      obtain ⟨hs', hinv⟩ := h.free hZ (mem_own hheld hspecial hp) hspecial (hblock hpass)
      rw [danglessFree_pass hpass hne]
      exact ⟨others, hs', stale, _, hinv⟩
  | freeHook haddr henter hne hp =>
      obtain ⟨-, -, rfl⟩ := hookEnter_eq_some.mp henter
      have hspecial := (hsends.resolve_left hne).1
      obtain ⟨k, hheld⟩ := h.held
      have hin := (List.perm_cons_erase (mem_own hheld hspecial hp)).symm
      exact ⟨others, hs, stale, _, h.enter (h.idle henter rfl) hspecial hin nofun⟩
  | vremapBody hrunning =>
      obtain ⟨others', hs', hinv⟩ := h.vremapBody hZ hrunning
      exact ⟨others', hs', stale, own, hinv⟩
  | freeBody hrunning =>
      obtain ⟨hs', hinv⟩ := h.freeBody hZ hrunning
      exact ⟨others, hs', stale, own, hinv⟩
  | reallocBody hrunning hleft =>
      obtain ⟨others', hs', stale', hinv⟩ := h.reallocBody hZ hmin hrunning hleft
      exact ⟨others', hs', stale', own, hinv⟩
  | exit hrunning => exact ⟨others, hs, stale, _, h.exit hrunning⟩
  | populate hnot hfirst => exact ⟨others, hs, stale, own, h.remode rfl rfl rfl rfl rfl rfl⟩
  | handleSym hpopulating hnext => exact ⟨others, hs, stale, own, h.remode rfl rfl rfl rfl rfl rfl⟩
  | populated hpopulating hall => exact ⟨others, hs, stale, own, h.remode rfl rfl rfl rfl rfl rfl⟩
  | enterKernelMode => exact ⟨others, hs, stale, own, h.remode rfl rfl rfl rfl rfl rfl⟩

/-- The steps that hand on no foreign pointer. -/
def SendingStep (C : SysContract A L) (storage : Nat) (s : Process σ) (event : ProcessEvent)
    (s' : Process σ) : Prop :=
  ProcessStep C storage s event s' ∧ SendsBlocks L storage s event

theorem ProcessStart.inv (h : ProcessStart C w) :
    ProcessInv C (FreeSlot w.pt) storage (C.live w.sys) [] [] [] ⟨w, [], none⟩ :=
  ⟨Accounted.start h.sys h.items h.trace h.tables h.home, ⟨0, List.Perm.refl _⟩, h.hookDepth, nofun⟩

/-- **The library is only given its own live blocks**, in every state of every run whose steps hand on no foreign
pointer, before kernel mode and in it, with hooks running and not. -/
theorem ownPointers_of_run {events : List ProcessEvent} (hmin : MinimumSize C) (hstart : ProcessStart C w)
    (hrun : Lts.Run (SendingStep C storage) ⟨w, [], none⟩ events s) : ∀ e ∈ s.world.trace, e.Own C.live := by
  have hZ : SlotsOk L (FreeSlot w.pt) := slotsOk_of_home hstart.home
  obtain ⟨others, hs, stale, own, hinv⟩ : ∃ others hs stale own,
      ProcessInv C (FreeSlot w.pt) storage others hs stale own s := by
    apply hrun.invariant (I := fun s => ∃ others hs stale own,
      ProcessInv C (FreeSlot w.pt) storage others hs stale own s)
    · rintro s event s' ⟨others, hs, stale, own, hinv⟩ ⟨hstep, hsends⟩
      exact hinv.step hZ hmin hstep hsends
    · exact ⟨_, _, _, _, hstart.inv⟩
  exact hinv.accounted.sound.sys.own

end Steps

theorem bumpContract_minimumSize : MinimumSize (bumpContract duneLayout) := by
  intro s b hok hb
  exact (hok.inside _ (BumpHeap.mallocUsableSize_mem hb)).2.1

theorem duneWorld_processStart : ProcessStart (bumpContract duneLayout) duneWorld :=
  ⟨duneWorld_start.sys, rfl, rfl, rfl, duneWorld_start.tables, duneWorld_start.home⟩

/-- A call of `malloc` while the hook of another one is running. -/
theorem ownPointers_of_run_nested : ∃ s, Lts.Run (SendingStep (bumpContract duneLayout) 0x602000)
    ⟨duneWorld, [], none⟩ [.call (.malloc 32), .call (.malloc 16), .hookBody, .hookExit] s ∧
      ∀ e ∈ s.world.trace, e.Own (bumpContract duneLayout).live := by
  have hrun : Lts.Run (SendingStep (bumpContract duneLayout) 0x602000) ⟨duneWorld, [], none⟩
      ([.call (.malloc 32)] ++ [.call (.malloc 16)] ++ [.hookBody] ++ [.hookExit]) _ :=
    (((Lts.Run.single ⟨.mallocHook rfl rfl, trivial⟩).snoc ⟨.malloc rfl rfl, trivial⟩).snoc
      ⟨.vremapBody rfl, trivial⟩).snoc ⟨.exit rfl, trivial⟩
  exact ⟨_, hrun, ownPointers_of_run bumpContract_minimumSize duneWorld_processStart hrun⟩

/-- A process that loads the library: the addresses are not set, and the ring is that of the user. -/
def loadedWorld : World BumpHeap := { duneWorld with addr := fun _ => false, kernelMode := false }

/-- `dlsym` gets the static buffer from `calloc` and frees it later; and a remapped pointer is freed while the hook of
another call is running. Both reach the library's `free`, whose blocks they are not. -/
theorem ownPointers_not_of_run :
    (ProcessStart (bumpContract duneLayout) loadedWorld ∧ ∃ s, Lts.Run (ProcessStep (bumpContract duneLayout) 0x602000) ⟨loadedWorld, [], none⟩
      [.populate, .call (.calloc 1 32), .handleSym .malloc, .handleSym .calloc, .handleSym .realloc,
        .handleSym .memalign, .handleSym .free, .populated, .call (.free 0x602000)] s ∧
      ¬ ∀ e ∈ s.world.trace, e.Own (bumpContract duneLayout).live) ∧
    ProcessStart (bumpContract duneLayout) duneWorld ∧ ∃ s, Lts.Run (ProcessStep (bumpContract duneLayout) 0x602000) ⟨duneWorld, [], none⟩
      [.call (.malloc 32), .hookBody, .hookExit, .call (.malloc 32), .call (.free PHYS_LIMIT)] s ∧
      ¬ ∀ e ∈ s.world.trace, e.Own (bumpContract duneLayout).live := by
  refine ⟨⟨⟨duneWorld_start.sys, rfl, rfl, rfl, duneWorld_start.tables, duneWorld_start.home⟩, ?_⟩,
    duneWorld_processStart, ?_⟩
  · have hpopulate : Lts.Run (ProcessStep (bumpContract duneLayout) 0x602000) ⟨loadedWorld, [], none⟩ [.populate] _ :=
      Lts.Run.single (.populate rfl rfl)
    have hcalloc : ProcessStep (bumpContract duneLayout) 0x602000 ⟨{ loadedWorld with populating := true }, [], none⟩
        (.call (.calloc 1 32)) _ := .calloc (Or.inr ⟨rfl, rfl⟩) rfl
    rw [danglessCalloc_pass rfl, syscalloc_special rfl rfl, gain_of_ne (by decide)] at hcalloc
    have hrun := ((hpopulate.snoc hcalloc).append (populateAddrs_run rfl)).snoc
      (.free rfl rfl (by decide) List.mem_cons_self)
    rw [danglessFree_pass rfl (by decide)] at hrun
    refine ⟨_, hrun, fun hown => ?_⟩
    obtain ⟨y, hy, -⟩ := hown _ List.mem_cons_self
    exact absurd hy List.not_mem_nil
  · have hmalloc : Lts.Run (ProcessStep (bumpContract duneLayout) 0x602000) ⟨duneWorld, [], none⟩
        [.call (.malloc 32), .hookBody, .hookExit] ⟨oneBlock.world, gain _ [], none⟩ :=
      malloc_run duneWorld_start.ready rfl 32 []
    rw [oneBlock_state.1] at hmalloc
    have hmodes := oneBlock_modes
    have hforeign : ∀ y ∈ (sysmalloc bumpAllocator 32 oneBlock.world).2.sys.blocks, y.1 ≠ PHYS_LIMIT := by
      decide +kernel
    generalize oneBlock.world = w at hmalloc hmodes hforeign
    have hentered : Ready (sysmalloc bumpAllocator 32 w).2 := duneWorld_start.ready.of_modes hmodes
    simp only [World.modes, Prod.mk.injEq] at hmodes
    obtain ⟨-, -, haddr, -⟩ := hmodes
    have hhook := hmalloc.snoc (.mallocHook (congrFun haddr _) hentered.hookEnter)
    have hrun := hhook.snoc (.free (congrFun haddr _) rfl (by decide) List.mem_cons_self)
    rw [danglessFree_pass rfl (by decide)] at hrun
    refine ⟨_, hrun, fun hown => ?_⟩
    obtain ⟨y, hy, hblock⟩ := hown _ List.mem_cons_self
    exact hforeign y hy hblock

end Dangless
