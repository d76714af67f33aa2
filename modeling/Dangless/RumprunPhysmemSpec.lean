import Dangless.LibPool
import Dangless.LibRun
import Dangless.RumprunPhysmem
import Dangless.VirtmemPages
import Mathlib.Data.BitVec
import Mathlib.Order.Interval.Set.Disjoint

/-! Runs of the allocator of physical pages of Rumprun. No page is handed out twice, wherever its chunk lies; but the
address of a page is right only below 4 GB. -/

namespace Dangless.Rumprun

variable {env : PpEnv} {items : List PpSpan} {ps : PpSpan} {npages chunk pa : Nat} {allocated : Set Nat}
  {acquired : List Nat}

/-- The indices of `npages` pages. -/
def pageRun (begin npages : Nat) : Set Nat := Set.Ico begin (begin + npages)

/-- The pages of a span. The index behind the last one may be 0, at the end of the range of indices. -/
def PpSpan.pages (ps : PpSpan) : Set Nat := pageRun ps.begin.toNat ps.numPages

def PpSpan.Fits (ps : PpSpan) : Prop := ps.begin.toNat + ps.numPages ≤ 2 ^ 32

/-- The pages of a chunk of `bmk_pgalloc_align`. -/
def chunkPages (chunk : Nat) : Set Nat := pageRun (chunk / PGSIZE) BMK_PGALLOC_NPAGES

def acquiredPages (acquired : List Nat) : Set Nat := {i | ∃ chunk ∈ acquired, i ∈ chunkPages chunk}

theorem mem_pageRun {begin i : Nat} : i ∈ pageRun begin npages ↔ begin ≤ i ∧ i < begin + npages := Iff.rfl

theorem pageRun_subset {begin begin' npages' : Nat} (hlo : begin' ≤ begin)
    (hhi : begin + npages ≤ begin' + npages') : pageRun begin npages ⊆ pageRun begin' npages' :=
  Set.Ico_subset_Ico hlo hhi

theorem acquiredPages_mono : acquiredPages acquired ⊆ acquiredPages (chunk :: acquired) := by
  rintro i ⟨other, hother, hi⟩
  exact ⟨other, List.mem_cons_of_mem _ hother, hi⟩

theorem ppindex2pa_eq (idx : PpIndex) : ppindex2pa idx = PGSIZE * idx.toNat % 2 ^ 32 := by
  rw [ppindex2pa, BitVec.toNat_mul, Nat.mul_comm]
  rfl

theorem pa2ppindex_toNat (hlt : pa / PGSIZE < 2 ^ 32) : (pa2ppindex pa).toNat = pa / PGSIZE := by
  rw [pa2ppindex, BitVec.toNat_ofNat]
  exact Nat.mod_eq_of_lt hlt

/-- A span of `npages` pages from an address on. -/
theorem span_of_pa (hlt : pa / PGSIZE < 2 ^ 32) (hfits : pa / PGSIZE + npages ≤ 2 ^ 32) (hmax : npages < 2 ^ 32) :
    PpSpan.Fits ⟨pa2ppindex pa, pa2ppindex pa + BitVec.ofNat 32 npages⟩ ∧
      PpSpan.pages ⟨pa2ppindex pa, pa2ppindex pa + BitVec.ofNat 32 npages⟩ = pageRun (pa / PGSIZE) npages := by
  have hbegin := pa2ppindex_toNat hlt
  have hsize : (pa2ppindex pa + BitVec.ofNat 32 npages - pa2ppindex pa).toNat = npages := by
    rw [add_sub_cancel_left, BitVec.toNat_ofNat]
    exact Nat.mod_eq_of_lt hmax
  simp only [PpSpan.Fits, PpSpan.pages, PpSpan.numPages]
  rw [hbegin, hsize]
  exact ⟨hfits, rfl⟩

/-- A run is cut off the front of a span: all of it, or what stays is a span with the rest of the pages. -/
theorem ppSplit_cases (hfits : ps.Fits) (hle : npages ≤ ps.numPages) (rest : List PpSpan) :
    (npages = ps.numPages ∧ ppSplit npages ps rest = rest) ∨
    ∃ ps' : PpSpan, ppSplit npages ps rest = ps' :: rest ∧ ps'.Fits ∧ 0 < ps'.numPages ∧
      ps'.pages = pageRun (ps.begin.toNat + npages) (ps.numPages - npages) ∧ npages < ps.numPages := by
  have hlt : ps.numPages < 2 ^ 32 := (ps.end_ - ps.begin).isLt
  have hnat : (BitVec.ofNat 32 npages).toNat = npages := by
    rw [BitVec.toNat_ofNat]
    exact Nat.mod_eq_of_lt (by omega)
  have hcount : (ps.end_ - (ps.begin + BitVec.ofNat 32 npages)).toNat = ps.numPages - npages := by
    have hbv : BitVec.ofNat 32 npages ≤ ps.end_ - ps.begin := by
      rw [BitVec.le_def, hnat]
      exact hle
    calc (ps.end_ - (ps.begin + BitVec.ofNat 32 npages)).toNat
        = (ps.end_ - ps.begin - BitVec.ofNat 32 npages).toNat := by rw [BitVec.sub_sub]
      _ = (ps.end_ - ps.begin).toNat - (BitVec.ofNat 32 npages).toNat := BitVec.toNat_sub_of_le hbv
      _ = ps.numPages - npages := by rw [hnat, PpSpan.numPages]
  unfold ppSplit
  dsimp only
  split_ifs with hempty
  · left
    rw [← hempty, BitVec.sub_self, BitVec.toNat_zero] at hcount
    exact ⟨by omega, rfl⟩
  · right
    have hne : ps.numPages - npages ≠ 0 := by
      intro hzero
      rw [hzero] at hcount
      have heq : ps.end_ - (ps.begin + BitVec.ofNat 32 npages) = 0#32 := BitVec.eq_of_toNat_eq hcount
      exact hempty (sub_eq_zero.mp heq).symm
    have hbegin : (ps.begin + BitVec.ofNat 32 npages).toNat = ps.begin.toNat + npages := by
      unfold PpSpan.Fits at hfits
      rw [BitVec.toNat_add, hnat]
      exact Nat.mod_eq_of_lt (by omega)
    refine ⟨⟨ps.begin + BitVec.ofNat 32 npages, ps.end_⟩, rfl, ?_⟩
    simp only [PpSpan.Fits, PpSpan.pages, PpSpan.numPages] at *
    rw [hbegin, hcount]
    exact ⟨by omega, by omega, rfl, by omega⟩

/-- The span from which `pp_alloc` takes the run. -/
theorem ppTake_eq_some {begin : PpIndex} {items' : List PpSpan} (h : ppTake npages items = some (begin, items')) :
    ∃ before ps after, items = before ++ ps :: after ∧ npages ≤ ps.numPages ∧ begin = ps.begin ∧
      items' = before ++ ppSplit npages ps after := by
  induction items generalizing items' with
  | nil => exact absurd h (by simp [ppTake])
  | cons ps rest ih =>
      unfold ppTake at h
      split_ifs at h with hle
      · obtain ⟨rfl, rfl⟩ := Prod.mk.inj (Option.some.inj h)
        exact ⟨[], ps, rest, rfl, hle, rfl, rfl⟩
      · obtain ⟨r, hr, heq⟩ := Option.map_eq_some_iff.mp h
        obtain ⟨rfl, rfl⟩ := Prod.mk.inj heq
        obtain ⟨before, ps', after, hitems, hle', hbegin, hrest⟩ := ih hr
        exact ⟨ps :: before, ps', after, by rw [hitems]; rfl, hle', hbegin, by rw [hrest]; rfl⟩

/-- What holds of the freelist beside the allocated pages and the chunks that have been acquired. -/
structure PoolInv (items : List PpSpan) (allocated : Set Nat) (acquired : List Nat) : Prop where
  apart : Pool.Apart (items.map PpSpan.pages) allocated
  fits : ∀ ps ∈ items, ps.Fits
  inside : ∀ ps ∈ items, ps.pages ⊆ acquiredPages acquired
  allocated : allocated ⊆ acquiredPages acquired
  chunks : ∀ chunk ∈ acquired, chunk % BMK_PGALLOC_ALIGN = 0 ∧ chunk + BMK_PGALLOC_ALIGN ≤ 2 ^ 44

theorem PoolInv.nil : PoolInv [] ∅ [] :=
  ⟨Pool.Apart.nil _, by simp, by simp, Set.empty_subset _, by simp⟩

/-- `chunk` is a chunk beside the acquired ones. -/
def NewChunk (acquired : List Nat) (chunk : Nat) : Prop :=
  chunk + BMK_PGALLOC_ALIGN ≤ 2 ^ 44 ∧ ∀ other ∈ acquired, Disjoint (chunkPages chunk) (chunkPages other)

def chunkSpan (chunk : Nat) : PpSpan :=
  ⟨pa2ppindex chunk, pa2ppindex chunk + BitVec.ofNat 32 BMK_PGALLOC_NPAGES⟩

theorem chunkSpan_spec (hchunk : chunk + BMK_PGALLOC_ALIGN ≤ 2 ^ 44) :
    (chunkSpan chunk).Fits ∧ (chunkSpan chunk).pages = chunkPages chunk := by
  refine span_of_pa ?_ ?_ (by decide) <;>
    simp only [BMK_PGALLOC_ALIGN, BMK_PGALLOC_NPAGES, BMK_PGALLOC_ORDER, PGSIZE] at * <;> omega

theorem PoolInv.acquire (h : PoolInv items allocated acquired) (halign : chunk % BMK_PGALLOC_ALIGN = 0)
    (hnew : NewChunk acquired chunk) : PoolInv (chunkSpan chunk :: items) allocated (chunk :: acquired) := by
  obtain ⟨hfits, hpages⟩ := chunkSpan_spec hnew.1
  have hfresh : Disjoint (chunkPages chunk) (acquiredPages acquired) := by
    rw [Set.disjoint_left]
    rintro i hi ⟨other, hother, hi'⟩
    exact Set.disjoint_left.mp (hnew.2 other hother) hi hi'
  have hnonempty : (chunkPages chunk).Nonempty :=
    ⟨chunk / PGSIZE, mem_pageRun.mpr ⟨le_refl _, Nat.lt_add_of_pos_right (by decide)⟩⟩
  refine ⟨?_, ?_, ?_, h.allocated.trans acquiredPages_mono, ?_⟩
  · rw [List.map_cons, hpages]
    refine h.apart.add hnonempty (hfresh.mono_right h.allocated) fun other hother => ?_
    obtain ⟨ps, hps, rfl⟩ := List.mem_map.mp hother
    exact hfresh.mono_right (h.inside ps hps)
  · exact List.forall_mem_cons.mpr ⟨hfits, h.fits⟩
  · refine List.forall_mem_cons.mpr ⟨?_, fun ps hps => (h.inside ps hps).trans acquiredPages_mono⟩
    rw [hpages]
    exact fun i hi => ⟨chunk, List.mem_cons_self, hi⟩
  · exact List.forall_mem_cons.mpr ⟨⟨halign, hnew.1⟩, h.chunks⟩

/-- A run is taken from a span of the list. It was free, and it is memory that has been acquired. -/
theorem PoolInv.take {before after : List PpSpan} (h : PoolInv (before ++ ps :: after) allocated acquired)
    (hle : npages ≤ ps.numPages) :
    PoolInv (before ++ ppSplit npages ps after) (allocated ∪ pageRun ps.begin.toNat npages) acquired ∧
      pageRun ps.begin.toNat npages ⊆ acquiredPages acquired ∧ Disjoint (pageRun ps.begin.toNat npages) allocated := by
  have hmem : ps ∈ before ++ ps :: after := List.mem_append_right _ List.mem_cons_self
  have hrun : pageRun ps.begin.toNat npages ⊆ ps.pages :=
    pageRun_subset (le_refl _) (Nat.add_le_add_left hle _)
  have hinside := hrun.trans (h.inside ps hmem)
  have hallocated := Set.union_subset h.allocated hinside
  have hdisjoint := h.apart.disjoint_held (List.mem_map_of_mem hmem) hrun
  have hfits := (Pool.forall_mem_insert.mp h.fits).2
  have hin := (Pool.forall_mem_insert.mp h.inside).2
  have hapart := h.apart
  rw [List.map_append, List.map_cons] at hapart
  refine ⟨?_, hinside, hdisjoint⟩
  rcases ppSplit_cases (h.fits ps hmem) hle after with ⟨heq, hsplit⟩ | ⟨ps', hsplit, hfits', hpos, hpages, hlt⟩
  · rw [hsplit]
    refine ⟨?_, hfits, hin, hallocated, h.chunks⟩
    rw [List.map_append, heq]
    exact hapart.takeAll
  · have hsub' : ps'.pages ⊆ ps.pages := by
      rw [hpages]
      exact pageRun_subset (Nat.le_add_right _ _) (by omega)
    have hunion : ps.pages = pageRun ps.begin.toNat npages ∪ ps'.pages := by
      rw [hpages]
      ext i
      simp only [PpSpan.pages, Set.mem_union, mem_pageRun]
      omega
    have happart' : Disjoint (pageRun ps.begin.toNat npages) ps'.pages := by
      rw [hpages]
      exact Set.Ico_disjoint_Ico_same
    have hnonempty : ps'.pages.Nonempty :=
      ⟨ps'.begin.toNat, mem_pageRun.mpr ⟨le_refl _, Nat.lt_add_of_pos_right hpos⟩⟩
    rw [hsplit]
    refine ⟨?_, Pool.forall_mem_insert.mpr ⟨hfits', hfits⟩,
      Pool.forall_mem_insert.mpr ⟨hsub'.trans (h.inside ps hmem), hin⟩, hallocated, h.chunks⟩
    rw [List.map_append, List.map_cons]
    exact hapart.take hunion happart' hnonempty

/-- Pages below the end of the last chunk have an index. -/
theorem PoolInv.index_lt (h : PoolInv items allocated acquired) {i : Nat} (hi : i ∈ acquiredPages acquired) :
    i < 2 ^ 32 := by
  obtain ⟨chunk, hchunk, hi⟩ := hi
  obtain ⟨-, hhi⟩ := mem_pageRun.mp hi
  have hle := (h.chunks chunk hchunk).2
  simp only [BMK_PGALLOC_ALIGN, BMK_PGALLOC_NPAGES, BMK_PGALLOC_ORDER, PGSIZE] at *
  omega

/-- Allocated pages come back as a span of their own. -/
theorem PoolInv.give (h : PoolInv items allocated acquired) (hn : 0 < npages)
    (hsub : pageRun (pa / PGSIZE) npages ⊆ allocated) (hmax : npages < BMK_PGALLOC_NPAGES) :
    PoolInv (⟨pa2ppindex pa, pa2ppindex pa + BitVec.ofNat 32 npages⟩ :: items)
      (allocated \ pageRun (pa / PGSIZE) npages) acquired := by
  have hlast : pa / PGSIZE + npages - 1 ∈ pageRun (pa / PGSIZE) npages := by
    rw [mem_pageRun]
    exact ⟨Nat.le_sub_one_of_lt (Nat.lt_add_of_pos_right hn), Nat.sub_one_lt_of_lt (Nat.add_pos_right _ hn)⟩
  have hlt := h.index_lt (h.allocated (hsub hlast))
  have hwidth : npages < 2 ^ 32 := hmax.trans (by decide)
  obtain ⟨hfits, hpages⟩ := @span_of_pa npages pa (by omega) (by omega) hwidth
  refine ⟨?_, List.forall_mem_cons.mpr ⟨hfits, h.fits⟩, List.forall_mem_cons.mpr ⟨?_, h.inside⟩,
    Set.sdiff_subset.trans h.allocated, h.chunks⟩
  · rw [List.map_cons, hpages]
    exact h.apart.give ⟨_, hlast⟩ hsub
  · rw [hpages]
    exact hsub.trans h.allocated

/-- The run that a call of `pp_alloc` has taken, with the address it has returned for it, and what was allocated
before. -/
structure PpAnswer where
  pa : Nat
  begin : Nat
  npages : Nat
  before : Set Nat

def PpAnswer.run (answer : PpAnswer) : Set Nat := pageRun answer.begin answer.npages

/-- The freelist, the indices of the pages that are allocated, the chunks that have been acquired, and the answers
given, the last one first. -/
structure PhysState where
  items : List PpSpan
  allocated : Set Nat
  acquired : List Nat
  answers : List PpAnswer

def PhysState.init : PhysState := ⟨[], ∅, [], []⟩

/-- A call of `pp_alloc` for `npages` pages has answered. -/
def PhysState.answer (s : PhysState) (npages : Nat) (r : PpAlloc) : PhysState where
  items := r.items
  allocated := match r.begin with
    | none => s.allocated
    | some begin => s.allocated ∪ pageRun begin.toNat npages
  acquired := r.acquired.toList ++ s.acquired
  answers := match r.begin with
    | none => s.answers
    | some begin => ⟨r.pa, begin.toNat, npages, s.allocated⟩ :: s.answers

inductive PhysCall where
  | alloc (env : PpEnv) (npages : Nat)
  | zalloc (env : PpEnv) (npages : Nat) (bytes : Nat → UInt8)
  | free (env : PpEnv) (pa npages : Nat)

/-- Any pages that are allocated may be freed, whatever calls they are from. -/
inductive PhysStep : PhysState → PhysCall → PhysState → Prop
  | alloc {s : PhysState} {env : PpEnv} {npages : Nat} {r : PpAlloc} (hn : 0 < npages)
      (hr : ppAlloc env npages s.items = some r) (hnew : ∀ chunk ∈ r.acquired, NewChunk s.acquired chunk) :
      PhysStep s (.alloc env npages) (s.answer npages r)
  | zalloc {s : PhysState} {env : PpEnv} {npages : Nat} {bytes bytes' : Nat → UInt8} {r : PpAlloc} (hn : 0 < npages)
      (hr : ppZalloc env npages s.items bytes = some (r, bytes'))
      (hnew : ∀ chunk ∈ r.acquired, NewChunk s.acquired chunk) :
      PhysStep s (.zalloc env npages bytes) (s.answer npages r)
  | free {s : PhysState} {env : PpEnv} {pa npages : Nat} {items : List PpSpan}
      (hpages : pageRun (pa / PGSIZE) npages ⊆ s.allocated) (hr : ppFree env pa npages s.items = some items) :
      PhysStep s (.free env pa npages)
        ⟨items, s.allocated \ pageRun (pa / PGSIZE) npages, s.acquired, s.answers⟩

structure PhysInv (s : PhysState) : Prop where
  pool : PoolInv s.items s.allocated s.acquired
  answers : ∀ answer ∈ s.answers, 0 < answer.npages ∧ answer.run ⊆ acquiredPages s.acquired ∧
    Disjoint answer.run answer.before ∧ answer.pa = PGSIZE * answer.begin % 2 ^ 32
  begun : ∀ chunk ∈ s.acquired, ∃ answer ∈ s.answers, answer.begin = chunk / PGSIZE

theorem physInv_init : PhysInv PhysState.init := ⟨PoolInv.nil, by simp [PhysState.init], by simp [PhysState.init]⟩

/-- A page of 2 MB is aligned to its size. -/
theorem ptResolvePage_aligned {s : PtState} {va : Nat} (hne : (ptResolvePage s va).1 ≠ 0)
    (hlevel : (ptResolvePage s va).2 = .l2) : (ptResolvePage s va).1 % BMK_PGALLOC_ALIGN = 0 := by
  cases hentry : s.entry va with
  | none => exact absurd (ptResolvePage_of_entry_none hentry) hne
  | some entry =>
      obtain ⟨level, word⟩ := entry
      rw [ptResolvePage_of_entry hentry] at hlevel ⊢
      obtain rfl : level = .l2 := hlevel
      exact (ptEntryPage_frame word .l2).1

theorem physmemAcquire_span (h : physmemAcquire env = some (.span pa ps)) :
    ps = chunkSpan pa ∧ pa % BMK_PGALLOC_ALIGN = 0 := by
  unfold physmemAcquire at h
  dsimp only at h
  split_ifs at h with hchunk hpa hlevel hnode
  · nomatch h
  · nomatch h
  · obtain ⟨rfl, rfl⟩ := PhysmemAcquire.span.inj (Option.some.inj h)
    exact ⟨rfl, ptResolvePage_aligned hpa (not_not.mp hlevel)⟩

/-- What `pp_alloc` does: it takes a run from a span of the list, or fails, or takes the first pages of a new chunk. -/
theorem ppAlloc_cases {r : PpAlloc} (h : ppAlloc env npages items = some r) :
    npages < BMK_PGALLOC_NPAGES ∧
    ((∃ before ps after, items = before ++ ps :: after ∧ npages ≤ ps.numPages ∧
        r = ⟨ppindex2pa ps.begin, before ++ ppSplit npages ps after, some ps.begin, none⟩) ∨
      r = ⟨0, items, none, none⟩ ∨
      ∃ pa, pa % BMK_PGALLOC_ALIGN = 0 ∧ r = ⟨ppindex2pa (chunkSpan pa).begin, ppSplit npages (chunkSpan pa) items,
        some (chunkSpan pa).begin, some pa⟩) := by
  unfold ppAlloc at h
  split_ifs at h with hmax
  refine ⟨hmax, ?_⟩
  cases htake : ppTake npages items with
  | some taken =>
      left
      obtain ⟨begin, rest⟩ := taken
      obtain ⟨before, ps, after, hitems, hle, rfl, rfl⟩ := ppTake_eq_some htake
      rw [htake] at h
      exact ⟨before, ps, after, hitems, hle, (Option.some.inj h).symm⟩
  | none =>
      right
      rw [htake] at h
      cases hacquire : physmemAcquire env with
      | none =>
          rw [hacquire] at h
          exact absurd h (by simp)
      | some result =>
          rw [hacquire] at h
          cases result with
          | null pgfreed => exact Or.inl (Option.some.inj h).symm
          | span pa ps =>
              obtain ⟨rfl, halign⟩ := physmemAcquire_span hacquire
              exact Or.inr ⟨pa, halign, (Option.some.inj h).symm⟩

theorem ppZalloc_ppAlloc {r : PpAlloc} {bytes bytes' : Nat → UInt8}
    (h : ppZalloc env npages items bytes = some (r, bytes')) : ppAlloc env npages items = some r := by
  obtain ⟨r', hr', heq⟩ := Option.map_eq_some_iff.mp h
  split_ifs at heq <;> (obtain ⟨rfl, -⟩ := Prod.mk.inj heq; exact hr')

theorem PhysInv.answer {s : PhysState} {r : PpAlloc} (h : PhysInv s) (hn : 0 < npages)
    (hr : ppAlloc env npages s.items = some r) (hnew : ∀ chunk ∈ r.acquired, NewChunk s.acquired chunk) :
    PhysInv (s.answer npages r) := by
  obtain ⟨hmax, ⟨before, ps, after, hitems, hle, rfl⟩ | rfl | ⟨pa, halign, rfl⟩⟩ := ppAlloc_cases hr
  · -- from the list
    have hpool := h.pool
    rw [hitems] at hpool
    obtain ⟨hpool', hinside, hdisjoint⟩ := hpool.take hle
    refine ⟨hpool', List.forall_mem_cons.mpr ⟨⟨hn, hinside, hdisjoint, ppindex2pa_eq _⟩, h.answers⟩, ?_⟩
    intro chunk hchunk
    obtain ⟨answer, hanswer, hbegin⟩ := h.begun chunk hchunk
    exact ⟨answer, List.mem_cons_of_mem _ hanswer, hbegin⟩
  · exact h
  · -- from a new chunk
    have hchunk : NewChunk s.acquired pa := hnew pa rfl
    have hsize : npages ≤ (chunkSpan pa).numPages := by
      have hpages : (chunkSpan pa).numPages = BMK_PGALLOC_NPAGES := by
        simp only [chunkSpan, PpSpan.numPages, add_sub_cancel_left]
        rfl
      rw [hpages]
      exact hmax.le
    have hbegin : (chunkSpan pa).begin.toNat = pa / PGSIZE := by
      refine pa2ppindex_toNat ?_
      have hle := hchunk.1
      simp only [BMK_PGALLOC_ALIGN, BMK_PGALLOC_NPAGES, BMK_PGALLOC_ORDER, PGSIZE] at *
      omega
    obtain ⟨hpool', hinside, hdisjoint⟩ :=
      (List.nil_append (chunkSpan pa :: s.items) ▸ h.pool.acquire halign hchunk).take hsize
    refine ⟨hpool', List.forall_mem_cons.mpr ⟨⟨hn, hinside, hdisjoint, ppindex2pa_eq _⟩, fun answer hanswer => ?_⟩, ?_⟩
    · obtain ⟨hpos, hrun, hfresh, haddress⟩ := h.answers answer hanswer
      exact ⟨hpos, hrun.trans acquiredPages_mono, hfresh, haddress⟩
    · refine List.forall_mem_cons.mpr ⟨⟨_, List.mem_cons_self, hbegin⟩, fun chunk hmem => ?_⟩
      obtain ⟨answer, hanswer, hbegin⟩ := h.begun chunk hmem
      exact ⟨answer, List.mem_cons_of_mem _ hanswer, hbegin⟩

theorem physStep_inv (s : PhysState) (call : PhysCall) (s' : PhysState) (h : PhysInv s) (hstep : PhysStep s call s') :
    PhysInv s' := by
  cases hstep with
  | alloc hn hr hnew => exact h.answer hn hr hnew
  | zalloc hn hr hnew => exact h.answer hn (ppZalloc_ppAlloc hr) hnew
  | free hpages hr =>
      unfold ppFree at hr
      split_ifs at hr with halign hn hnode
      obtain ⟨hpos, hmax⟩ := hn
      obtain rfl := Option.some.inj hr
      exact ⟨h.pool.give hpos hpages hmax, h.answers, h.begun⟩

/-- The spans of the freelist are free pages, each in one span; and every run is memory that was acquired, none of
which was allocated, at the address that is returned for it. -/
structure PhysCorrect (s : PhysState) : Prop where
  apart : Pool.Apart (s.items.map PpSpan.pages) s.allocated
  fresh : ∀ answer ∈ s.answers, Disjoint answer.run answer.before
  inside : ∀ answer ∈ s.answers, answer.run ⊆ acquiredPages s.acquired
  address : ∀ answer ∈ s.answers, answer.pa = PGSIZE * answer.begin

/-- **The allocator keeps its pages apart in every run. The addresses that it returns are right exactly if no chunk
lies above 4 GB.** -/
theorem physCorrect_iff {calls : List PhysCall} {s : PhysState} (hrun : Lts.Run PhysStep PhysState.init calls s) :
    PhysCorrect s ↔ ∀ chunk ∈ s.acquired, chunk < 2 ^ 32 := by
  have hinv := hrun.invariant physStep_inv physInv_init
  constructor
  · intro h chunk hchunk
    obtain ⟨answer, hanswer, hbegin⟩ := hinv.begun chunk hchunk
    have hpa := (hinv.answers answer hanswer).2.2.2
    rw [h.address answer hanswer, hbegin] at hpa
    have halign : chunk % 0x200000 = 0 := (hinv.pool.chunks chunk hchunk).1
    simp only [PGSIZE] at *
    omega
  · intro h
    refine ⟨hinv.pool.apart, fun answer hanswer => (hinv.answers answer hanswer).2.2.1,
      fun answer hanswer => (hinv.answers answer hanswer).2.1, fun answer hanswer => ?_⟩
    obtain ⟨hpos, hinside, -, hpa⟩ := hinv.answers answer hanswer
    obtain ⟨chunk, hchunk, hin⟩ := hinside (mem_pageRun.mpr ⟨le_refl _, Nat.lt_add_of_pos_right hpos⟩)
    obtain ⟨-, hlt⟩ := mem_pageRun.mp hin
    have halign : chunk % 0x200000 = 0 := (hinv.pool.chunks chunk hchunk).1
    have hbelow := h chunk hchunk
    rw [hpa]
    apply Nat.mod_eq_of_lt
    simp only [BMK_PGALLOC_NPAGES, BMK_PGALLOC_ORDER, PGSIZE] at *
    omega

/-- A page of 2 MB, mapped to itself. -/
def hugeTables (pa : Nat) : PtState where
  cr3 := 0x1000
  mem addr :=
    if addr = 0x1000 then 0x2000 ||| PTE_V
    else if addr = 0x2000 + 8 * ptLevelOffset pa .l3 then 0x3000 ||| PTE_V
    else if addr = 0x3000 + 8 * ptLevelOffset pa .l2 then pa ||| PTE_V ||| PTE_PS
    else 0
  pool := []
  flushed := []

def hugeEnv (pa : Nat) : PpEnv := ⟨hugeTables pa, pa, 1⟩

/-- Three pages of a chunk at 2 MB. -/
theorem physCorrect_low :
    let s := PhysState.init.answer 3 ⟨0x200000, [⟨0x203, 0x400⟩], some 0x200, some 0x200000⟩
    PhysCorrect s ↔ ∀ chunk ∈ s.acquired, chunk < 2 ^ 32 := by
  have hr : ppAlloc (hugeEnv 0x200000) 3 [] =
      some ⟨0x200000, [⟨0x203, 0x400⟩], some 0x200, some 0x200000⟩ := by decide +kernel
  have hnew : ∀ chunk ∈ some 0x200000, NewChunk [] chunk := by
    rintro _ ⟨⟩
    exact ⟨by decide, by simp⟩
  exact physCorrect_iff (Lts.Run.single (.alloc (by decide) hr hnew))

/-- The first page of a chunk at 4 GB: the address that is returned is 0, as for a failure. -/
theorem physCorrect_high :
    let s := PhysState.init.answer 1 ⟨0, [⟨0x100001, 0x100200⟩], some 0x100000, some 0x100000000⟩
    Lts.Run PhysStep PhysState.init [.alloc (hugeEnv 0x100000000) 1] s ∧ ¬ PhysCorrect s := by
  have hr : ppAlloc (hugeEnv 0x100000000) 1 [] =
      some ⟨0, [⟨0x100001, 0x100200⟩], some 0x100000, some 0x100000000⟩ := by decide +kernel
  have hnew : ∀ chunk ∈ some 0x100000000, NewChunk [] chunk := by
    rintro _ ⟨⟩
    exact ⟨by decide, by simp⟩
  refine ⟨Lts.Run.single (.alloc (by decide) hr hnew), fun h => ?_⟩
  exact absurd (h.address _ List.mem_cons_self) (by decide)

end Dangless.Rumprun
