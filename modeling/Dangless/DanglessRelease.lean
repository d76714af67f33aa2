import Dangless.DanglessSpec
import Dangless.VirtmemInvalidate

/-! What `dangless_free` and `dangless_realloc` do to the invariant of the state. -/

namespace Dangless

variable {σ : Type} {A : SysAllocator σ} {L : DuneLayout} {C : SysContract A L}
  {Z : Fin PT_NUM_ENTRIES → Prop} {others : Set Nat} {maps : List Mapping} {blocks : List (Nat × Nat)}
  {w w' : World σ} {b u : Nat} {m : Mapping}

theorem Mapping.Ok.pgOffset_add {pt : PtState} (hm : m.Ok L Z pt) {n k : Nat} (hk : n + k < m.npages) :
    pgOffset (m.base + n * PGSIZE) k = pgOffset m.base (n + k) := by
  have hbound := (pgOffset_of_bound hm.bound hk).2
  simp only [pgOffset, u64, PGSIZE] at *
  omega

/-- `virtual_invalidate` of the pages of a region from `n` on. -/
theorem RemapInv.invalidate {items : List VpSpan} {pt : PtState} {n p : Nat}
    (h : RemapInv L Z (m :: maps) items pt) (hZ : SlotsOk L Z) (hn : n ≤ m.npages)
    (hp : roundDown p PGSIZE = m.base + n * PGSIZE) :
    RemapInv L Z ({ m with npages := n } :: maps) items (virtualInvalidate pt p (m.npages - n)) := by
  have hok := h.mapsOk m List.mem_cons_self
  have hwithin : ∀ k, k < m.npages - n → Within (slotPaths Z) (pgOffset (m.base + n * PGSIZE) k) := by
    intro k hk
    rw [hok.pgOffset_add (by omega)]
    exact within_of_mem_vmem (hok.inVmem (page_mem_region hok.bound (by omega)))
  have hmapped : ∀ k, k < m.npages - n →
      ∃ w, pt.entry (pgOffset (m.base + n * PGSIZE) k) = some (.l1, w) := by
    intro k hk
    rw [hok.pgOffset_add (by omega)]
    exact ⟨_, hok.mapped (n + k) (by omega) _ rfl⟩
  obtain ⟨hpt, hkeeps, hcleared⟩ := virtualInvalidate_spec h.tables hp hwithin hmapped rfl
  refine h.cut hZ hpt hkeeps hn ⟨fun k hk hk' a ha => ?_, fun a ha => ?_⟩
  · refine hcleared.cleared (k - n) (Nat.zero_le _) (by omega) a ?_
    rw [hok.pgOffset_add (by omega), Nat.add_sub_cancel' hk]
    exact ha
  · refine hcleared.frame a fun k _ hk => ?_
    rw [hok.pgOffset_add (by omega)]
    exact ha (n + k) (by omega) (by omega)

/-- `virtual_invalidate` of a whole region. -/
theorem RemapInv.invalidateAll {items : List VpSpan} {pt : PtState}
    (h : RemapInv L Z (m :: maps) items pt) (hZ : SlotsOk L Z) :
    RemapInv L Z maps items (virtualInvalidate pt m.ptr m.npages) := by
  have hcut := h.invalidate hZ (Nat.zero_le m.npages) (p := m.ptr) (by simp [Mapping.base])
  exact hcut.drop rfl

/-- A region that belongs to the block `(b, u)`. -/
structure Mapping.Of (m : Mapping) (b u : Nat) : Prop where
  block : m.block = b
  npages : m.npages = numSpannedPages b u

/-- `vremap_resolve` of the pointer into the region of a live block. -/
theorem Sound.resolve (hZ : SlotsOk L Z) (h : Sound C Z others maps blocks w) (hmem : m ∈ maps)
    (hb : (b, u) ∈ blocks) (hm : m.Of b u) (hu : 0 < u) :
    1 ≤ m.npages ∧ vremapResolve L w.pt m.ptr = (VREM_OK, some b) := by
  have hblock := h.sys.homeBlock hb
  have hn : 1 ≤ m.npages := hm.npages ▸ numSpannedPages_pos hblock hu
  have hframe : PGSIZE ≤ m.frame L := by
    rw [Mapping.frame, hm.block]
    exact hblock.frames.2.1
  refine ⟨hn, ?_⟩
  rw [← hm.block]
  exact (h.remap.mapsOk m hmem).vremapResolve_eq hZ hframe hn

theorem SysInv.retable (h : SysInv C others blocks w) (pt : PtState) :
    SysInv C others blocks { w with pt := pt } :=
  h.congr (List.Perm.refl _) rfl rfl h.own

theorem Undedicated.retable {maps' : List Mapping} (h : Undedicated maps w) (pt : PtState)
    (hmaps : maps = [] → maps' = []) : Undedicated maps' { w with pt := pt } := by
  intro hnot
  obtain ⟨hempty, hnil⟩ := h hnot
  exact ⟨hempty, hmaps hnil⟩

/-- `dangless_free` of a remapped pointer takes back its block and its region. -/
theorem danglessFreeHooked_remapped (hZ : SlotsOk L Z)
    (h : Sound C Z others (m :: maps) ((b, u) :: blocks) w) (hm : m.Of b u) (hu : 0 < u)
    (hw' : danglessFreeHooked A L m.ptr w = w') :
    Sound C Z others maps blocks w' ∧ Spends maps w maps w' := by
  have hresolve := (h.resolve hZ List.mem_cons_self List.mem_cons_self hm hu).2
  have hnpages : numSpannedPages b (A.mallocUsableSize b w.sys) = m.npages := by
    rw [hm.npages, h.sys.usable _ List.mem_cons_self]
  unfold danglessFreeHooked at hw'
  rw [hresolve] at hw'
  dsimp only [Option.getD_some, sysmallocSpannedPages, sysmallocUsableSize] at hw'
  rw [if_pos rfl, hnpages] at hw'
  obtain rfl := hw'
  have hevent := h.sys.event (e := .mallocUsableSize b w.sys) (h.sys.mem_live List.mem_cons_self)
  refine ⟨⟨⟨sysfree_inv (hevent.retable (virtualInvalidate w.pt m.ptr m.npages)),
    h.remap.invalidateAll hZ⟩, ?_⟩,
    Spends.same maps rfl rfl rfl⟩
  intro hnot
  exact absurd (h.undedicated hnot).2 (List.cons_ne_nil _ _)

/-- `dangless_free` of a pointer that is the block itself. -/
theorem danglessFreeHooked_home (h : Sound C Z others maps ((b, u) :: blocks) w)
    (hw' : danglessFreeHooked A L b w = w') :
    Sound C Z others maps blocks w' ∧ Spends maps w maps w' := by
  have hresolve := h.remap.vremapResolve_home (h.sys.homeBlock List.mem_cons_self).home
  unfold danglessFreeHooked at hw'
  rw [hresolve] at hw'
  dsimp only [Option.getD_some] at hw'
  rw [if_neg (by decide)] at hw'
  obtain rfl := hw'
  exact ⟨⟨⟨sysfree_inv h.sys, h.remap⟩, h.undedicated⟩,
    Spends.same maps rfl rfl rfl⟩

/-- The number of pages of a block after `realloc` has answered. -/
def reallocPages (A : SysAllocator σ) (r : Nat × σ) : Nat := numSpannedPages r.1 (A.mallocUsableSize r.1 r.2)

/-- What `dangless_realloc` leaves of a remapped pointer. Whether the region is kept, in part or not at
all depends on what the library's `realloc` answers. -/
inductive Realloced (C : SysContract A L) (Z : Fin PT_NUM_ENTRIES → Prop) (others : Set Nat)
    (maps : List Mapping) (blocks : List (Nat × Nat)) (w : World σ) (m : Mapping) (b u n : Nat)
    (r : Nat × World σ) : Prop where
  | failed (hanswer : (A.realloc b n w.sys).1 = 0) (hr : r.1 = 0) (hsys : r.2.sys = (A.realloc b n w.sys).2)
      (hsound : Sound C Z others (m :: maps) ((b, u) :: blocks) r.2)
      (hspends : Spends (m :: maps) w (m :: maps) r.2) : Realloced C Z others maps blocks w m b u n r
  | released (hanswer : (A.realloc b n w.sys).1 = 0) (hn : n = 0) (hr : r.1 = 0)
      (hsys : r.2.sys = (A.realloc b n w.sys).2) (hgone : b ∉ C.live r.2.sys)
      (hsound : Sound C Z others (m :: maps) blocks r.2)
      (hspends : Spends (m :: maps) w (m :: maps) r.2) : Realloced C Z others maps blocks w m b u n r
  | kept (hanswer : (A.realloc b n w.sys).1 = b) (hle : reallocPages A (A.realloc b n w.sys) ≤ m.npages)
      (hr : r.1 = m.ptr) (u' : Nat) (hu' : n ≤ u')
      (hpages : reallocPages A (A.realloc b n w.sys) = numSpannedPages b u')
      (hsound : Sound C Z others ({ m with npages := numSpannedPages b u' } :: maps)
        ((b, u') :: blocks) r.2)
      (hspends : Spends ({ m with npages := numSpannedPages b u' } :: maps) w
        ({ m with npages := numSpannedPages b u' } :: maps) r.2) :
      Realloced C Z others maps blocks w m b u n r
  | moved (hanswer : (A.realloc b n w.sys).1 ≠ 0)
      (hmoved : ¬ ((A.realloc b n w.sys).1 = b ∧ reallocPages A (A.realloc b n w.sys) ≤ m.npages))
      (b' u' : Nat) (w1 : World σ) (hu' : n ≤ u') (hlive : (A.realloc b n w.sys).1 = b')
      (hsound : Sound C Z others maps ((b', u') :: blocks) w1) (hspends : Spends maps w maps w1)
      (hremapped : Remapped C Z others maps ((b', u') :: blocks) w1 b' u' n r) :
      Realloced C Z others maps blocks w m b u n r

/-- A block that was released is not live any more. -/
theorem SysInv.notMem_live (h : SysInv C others ((b, u) :: blocks) w) (h' : SysInv C others blocks w')
    (hitems : w'.items = w.items) : b ∉ C.live w'.sys := by
  rw [h'.live_eq, hitems]
  rintro (hother | hmem)
  · exact h.apart b List.mem_cons_self hother
  · exact (List.nodup_cons.mp h.nodup).1 hmem

/-- The first page that an in-place shrink cuts off. -/
theorem cut_point {p n : Nat} (hoffset : p % PGSIZE = b % PGSIZE) (hb : b + n + PGSIZE ≤ 2 ^ 64)
    (hp : p + n + PGSIZE ≤ 2 ^ 64) : roundDown (roundUp (u64 (p + n)) PGSIZE) PGSIZE =
      roundDown p PGSIZE + numSpannedPages b n * PGSIZE := by
  rw [u64_of_lt (by simp only [PGSIZE] at hp; omega), roundUp_eq hp, roundDown_eq, roundDown_eq,
    numSpannedPages_eq hb]
  simp only [PGSIZE] at *
  omega

theorem Mapping.Ok.cut_point {pt : PtState} (hok : m.Ok L Z pt) (hn : 1 ≤ m.npages)
    (hblock : L.HomeBlock m.block u) : roundDown (roundUp (u64 (m.ptr + u)) PGSIZE) PGSIZE =
      m.base + numSpannedPages m.block u * PGSIZE := by
  have hptr := (hok.inVmem (hok.ptr_mem hn).1).1
  have hend : m.block + u ≤ 2 ^ 47 := by
    have hmmap := L.mmapEnd_le
    have hstack := L.stackEnd_le
    rcases hblock with ⟨-, -, hend⟩ | ⟨-, -, hend⟩ <;>
      simp only [GPA_STACK_SIZE] at * <;> omega
  refine Dangless.cut_point hok.offset ?_ ?_ <;> simp only [PGSIZE] <;> omega

/-- Where the library has answered with a block. -/
theorem danglessReallocNew_spec {n newp u' : Nat} (hZ : SlotsOk L Z)
    (hsys : SysInv C others ((newp, u') :: blocks) w) (hremap : RemapInv L Z (m :: maps) w.items w.pt)
    (hauto : Undedicated (m :: maps) w) (hn : 1 ≤ m.npages) (hle : n ≤ u') (hblock : m.block = b)
    {w0 : World σ} (hspends : ∀ maps, Spends maps w0 maps w)
    (hanswer : A.realloc b n w0.sys = (newp, w.sys)) :
    Realloced C Z others maps blocks w0 m b u n (danglessReallocNew A L m.ptr b m.npages newp n w) := by
  have husable : A.mallocUsableSize newp w.sys = u' := hsys.usable _ List.mem_cons_self
  have hpages : reallocPages A (A.realloc b n w0.sys) = numSpannedPages newp u' := by
    rw [hanswer, reallocPages, husable]
  have hne : newp ≠ 0 := (hsys.homeBlock List.mem_cons_self).home.ne_zero
  have hevent : SysInv C others ((newp, u') :: blocks) (sysmallocUsableSize A newp w).2 :=
    hsys.event (hsys.mem_live List.mem_cons_self)
  have hspends1 : ∀ maps, Spends maps w0 maps (sysmallocUsableSize A newp w).2 := fun maps =>
    (hspends maps).trans (Spends.same maps rfl rfl rfl)
  have hremap1 : RemapInv L Z (m :: maps) (sysmallocUsableSize A newp w).2.items
      (sysmallocUsableSize A newp w).2.pt := hremap
  have hauto1 : Undedicated (m :: maps) (sysmallocUsableSize A newp w).2 := hauto
  unfold danglessReallocNew
  dsimp only
  rw [show (sysmallocUsableSize A newp w).1 = u' from husable]
  generalize (sysmallocUsableSize A newp w).2 = w1 at hevent hspends1 hremap1 hauto1 ⊢
  by_cases hsame : newp = b ∧ numSpannedPages newp u' ≤ m.npages
  · obtain ⟨rfl, hfewer⟩ := hsame
    have hkept : (A.realloc newp n w0.sys).1 = newp := congrArg Prod.fst hanswer
    by_cases hequal : numSpannedPages newp u' = m.npages
    · -- the same pages
      rw [if_pos ⟨rfl, hequal⟩]
      have hm : ({ m with npages := numSpannedPages newp u' } : Mapping) = m := by rw [hequal]
      refine .kept hkept (hpages ▸ hfewer) rfl u' hle hpages ?_ ?_
      · rw [hm]
        exact ⟨⟨hevent, hremap1⟩, hauto1⟩
      · exact hspends1 _
    · -- fewer pages
      rw [if_neg (fun h => hequal h.2), if_pos ⟨rfl, by omega⟩]
      have hhome : L.HomeBlock m.block u' := by
        rw [hblock]
        exact hsys.homeBlock List.mem_cons_self
      have hfrom := (hremap1.mapsOk m List.mem_cons_self).cut_point hn hhome
      rw [hblock] at hfrom
      have hcut := hremap1.invalidate hZ hfewer hfrom
      exact .kept hkept (hpages ▸ hfewer) rfl u' hle hpages ⟨⟨hevent.retable _, hcut⟩,
        hauto1.retable _ fun hnil => absurd hnil (List.cons_ne_nil _ _)⟩
        ((hspends1 _).trans (Spends.retable _ _ _))
  · -- moved, or more pages
    rw [if_neg (fun h => hsame ⟨h.1, h.2.le⟩), if_neg (fun h => hsame ⟨h.1, h.2.le⟩)]
    have hsound : Sound C Z others maps ((newp, u') :: blocks)
        { w1 with pt := virtualInvalidate w1.pt m.ptr m.npages } := by
      exact ⟨⟨hevent.retable _, hremap1.invalidateAll hZ⟩,
        hauto1.retable _ fun hnil => absurd hnil (List.cons_ne_nil _ _)⟩
    refine .moved ?_ ?_ newp u' _ hle (congrArg Prod.fst hanswer) hsound
      ((hspends1 maps).trans (Spends.retable _ _ _))
      (doVremap_remapped hZ hsound List.mem_cons_self hle)
    · rw [hanswer]
      exact hne
    · rw [hpages, hanswer]
      exact hsame

theorem danglessReallocRemapped_spec {n : Nat} (hZ : SlotsOk L Z)
    (h : Sound C Z others (m :: maps) ((b, u) :: blocks) w) (hm : m.Of b u) (hu : 0 < u) :
    Realloced C Z others maps blocks w m b u n (danglessReallocRemapped A L m.ptr b n w) := by
  obtain ⟨hn, -⟩ := h.resolve hZ List.mem_cons_self List.mem_cons_self hm hu
  have hevent : SysInv C others ((b, u) :: blocks) (sysmallocUsableSize A b w).2 :=
    h.sys.event (h.sys.mem_live List.mem_cons_self)
  have hnpages : numSpannedPages b (sysmallocUsableSize A b w).1 = m.npages := by
    rw [hm.npages, show (sysmallocUsableSize A b w).1 = u from h.sys.usable _ List.mem_cons_self]
  unfold danglessReallocRemapped
  dsimp only
  rw [hnpages]
  have hspends : ∀ maps, Spends maps w maps (sysrealloc A b n (sysmallocUsableSize A b w).2).2 :=
    fun maps => Spends.same maps rfl rfl rfl
  have hundedicated : Undedicated (m :: maps) (sysrealloc A b n (sysmallocUsableSize A b w).2).2 :=
    h.undedicated
  rcases sysrealloc_inv hevent (rfl : sysrealloc A b n _ = _) with
    ⟨hnull, hsame⟩ | ⟨hnull, hzero, hgone⟩ | ⟨hne, hsize, hnew⟩
  · rw [if_pos hnull]
    exact .failed hnull rfl rfl ⟨⟨hsame, h.remap⟩, hundedicated⟩ (hspends _)
  · rw [if_pos hnull]
    exact .released hnull hzero rfl rfl (h.sys.notMem_live hgone rfl) ⟨⟨hgone, h.remap⟩, hundedicated⟩
      (hspends _)
  · rw [if_neg hne]
    exact danglessReallocNew_spec hZ hnew h.remap hundedicated hn hsize hm.block hspends rfl

/-- What a call that asks the library for a block of `n` bytes and remaps the answer leaves. -/
inductive Obtained (C : SysContract A L) (Z : Fin PT_NUM_ENTRIES → Prop) (others : Set Nat)
    (maps : List Mapping) (blocks : List (Nat × Nat)) (w : World σ) (answer n : Nat)
    (r : Nat × World σ) : Prop where
  | null (hanswer : answer = 0) (hr : r.1 = 0) (hsound : Sound C Z others maps blocks r.2)
      (hspends : Spends maps w maps r.2) : Obtained C Z others maps blocks w answer n r
  | block (hanswer : answer ≠ 0) (u' : Nat) (w1 : World σ) (hu' : n ≤ u')
      (hsound : Sound C Z others maps ((answer, u') :: blocks) w1) (hspends : Spends maps w maps w1)
      (hremapped : Remapped C Z others maps ((answer, u') :: blocks) w1 answer u' n r) :
      Obtained C Z others maps blocks w answer n r

theorem doVremap_null (n : Nat) (w : World σ) : doVremap A L 0 n w = (0, w) := if_pos (Or.inl rfl)

/-- `do_vremap` of what the library has answered. -/
theorem doVremap_obtained {n size : Nat} {r : Nat × σ} (w' : World σ) (hZ : SlotsOk L Z)
    (h : Sound C Z others maps blocks w) (hok : C.Ok r.2) (hr : Obtains A C.live w.sys n r)
    (hle : size ≤ n) (hsys : w'.sys = r.2) (hitems : w'.items = w.items) (hpt : w'.pt = w.pt)
    (hauto : w'.autoDedicated = w.autoDedicated) (hmodes : w'.modes = w.modes)
    (hown : ∀ e ∈ w'.trace, e.Own C.live) :
    Obtained C Z others maps blocks w r.1 size (doVremap A L r.1 size w') := by
  have hspends : Spends maps w maps w' := Spends.same maps hmodes hauto hitems
  by_cases hnull : r.1 = 0
  · have hsys' := h.sys.obtain_null hok hr hnull hsys hitems hown
    rw [hnull, doVremap_null]
    exact .null rfl rfl (h.resys hsys' hitems hpt hauto) hspends
  · have hsys' := h.sys.obtain hok hr hnull hsys hitems hown
    have hsound := h.resys hsys' hitems hpt hauto
    have hsize : size ≤ A.mallocUsableSize r.1 r.2 := hle.trans (hr.size hnull)
    exact .block hnull _ w' hsize hsound hspends (doVremap_remapped hZ hsound List.mem_cons_self hsize)

/-- `dangless_realloc` of `NULL`. -/
theorem danglessReallocHooked_null {n : Nat} (hZ : SlotsOk L Z) (h : Sound C Z others maps blocks w) :
    Obtained C Z others maps blocks w (A.realloc 0 n w.sys).1 n (danglessReallocHooked A L 0 n w) := by
  obtain ⟨hok, hr⟩ := C.reallocNull w.sys n h.sys.ok
  unfold danglessReallocHooked
  dsimp only
  rw [if_neg (by simp)]
  refine doVremap_obtained _ hZ h hok hr le_rfl rfl rfl rfl rfl rfl fun e he => ?_
  rcases List.mem_cons.mp he with rfl | he
  · exact Or.inl rfl
  · exact h.sys.own e he

/-- What `dangless_realloc` leaves of a pointer that is the block itself. -/
inductive ReallocedHome (C : SysContract A L) (Z : Fin PT_NUM_ENTRIES → Prop) (others : Set Nat)
    (maps : List Mapping) (blocks : List (Nat × Nat)) (w : World σ) (b u n : Nat)
    (r : Nat × World σ) : Prop where
  | failed (hanswer : (A.realloc b n w.sys).1 = 0) (hr : r.1 = 0) (hsys : r.2.sys = (A.realloc b n w.sys).2)
      (hsound : Sound C Z others maps ((b, u) :: blocks) r.2) (hspends : Spends maps w maps r.2) :
      ReallocedHome C Z others maps blocks w b u n r
  | released (hanswer : (A.realloc b n w.sys).1 = 0) (hn : n = 0) (hr : r.1 = 0)
      (hsys : r.2.sys = (A.realloc b n w.sys).2) (hgone : b ∉ C.live r.2.sys)
      (hsound : Sound C Z others maps blocks r.2) (hspends : Spends maps w maps r.2) :
      ReallocedHome C Z others maps blocks w b u n r
  | block (hanswer : (A.realloc b n w.sys).1 ≠ 0) (b' u' : Nat) (w1 : World σ) (hu' : n ≤ u')
      (hsound : Sound C Z others maps ((b', u') :: blocks) w1) (hspends : Spends maps w maps w1)
      (hremapped : Remapped C Z others maps ((b', u') :: blocks) w1 b' u' n r) :
      ReallocedHome C Z others maps blocks w b u n r

theorem danglessReallocHooked_home {n : Nat} (hZ : SlotsOk L Z)
    (h : Sound C Z others maps ((b, u) :: blocks) w) :
    ReallocedHome C Z others maps blocks w b u n (danglessReallocHooked A L b n w) := by
  have hresolve := h.remap.vremapResolve_home (h.sys.homeBlock List.mem_cons_self).home
  unfold danglessReallocHooked
  dsimp only
  rw [hresolve, if_neg (fun hok => absurd hok.2 (show VREM_NOT_REMAPPED ≠ VREM_OK by decide))]
  have hspends : Spends maps w maps (sysrealloc A b n w).2 := Spends.same maps rfl rfl rfl
  have hund : Undedicated maps (sysrealloc A b n w).2 := h.undedicated
  rcases sysrealloc_inv h.sys (rfl : sysrealloc A b n w = _) with
    ⟨hnull, hsame⟩ | ⟨hnull, hzero, hgone⟩ | ⟨hne, hsize, hnew⟩
  · rw [hnull, doVremap_null]
    exact .failed hnull rfl rfl ⟨⟨hsame, h.remap⟩, hund⟩ hspends
  · rw [hnull, doVremap_null]
    exact .released hnull hzero rfl rfl (h.sys.notMem_live hgone rfl) ⟨⟨hgone, h.remap⟩, hund⟩ hspends
  · have hsound : Sound C Z others maps (((sysrealloc A b n w).1, _) :: blocks) (sysrealloc A b n w).2 :=
      ⟨⟨hnew, h.remap⟩, hund⟩
    exact .block hne _ _ _ hsize hsound hspends (doVremap_remapped hZ hsound List.mem_cons_self hsize)

theorem danglessReallocHooked_remapped {n : Nat} (hZ : SlotsOk L Z)
    (h : Sound C Z others (m :: maps) ((b, u) :: blocks) w) (hm : m.Of b u) (hu : 0 < u) :
    Realloced C Z others maps blocks w m b u n (danglessReallocHooked A L m.ptr n w) := by
  obtain ⟨hn, hresolve⟩ := h.resolve hZ List.mem_cons_self List.mem_cons_self hm hu
  have hne : m.ptr ≠ 0 := by
    intro hzero
    have hmem := ((h.remap.mapsOk m List.mem_cons_self).ptr_mem hn).1
    exact zero_notMem_vmem hZ (hzero ▸ (h.remap.mapsOk m List.mem_cons_self).inVmem hmem)
  unfold danglessReallocHooked
  dsimp only
  rw [hresolve, if_pos ⟨hne, rfl⟩]
  exact danglessReallocRemapped_spec hZ h hm hu

end Dangless
