import Mathlib.Data.Multiset.Filter
import Dangless.DanglessThreads
import Dangless.PageTableCalls

/-! What threads that allocate and release at the same time have: blocks of the system allocator, remapped regions, and
pages on their way between the freelist and the page tables. No two of them ever have the same, and what was released
once is not handed out again. -/

namespace Dangless

open Rely

variable {σ : Type} {A : SysAllocator σ} {L : DuneLayout} {C : SysContract A L} {Z : Fin PT_NUM_ENTRIES → Prop}
  {maps maps' : List Mapping} {pages pages' : List (Nat × Nat)} {gone : List (Set Nat)} {k : Nat}
  {items items' : List VpSpan} {pt pt' : PtState} {m : Mapping} {va n a b u : Nat}

/-- The virtual memory in use: it is in the freelist, remapped, or in between. -/
def InUse (maps : List Mapping) (pages : List (Nat × Nat)) (items : List VpSpan) : Set Nat :=
  owned items ∪ {a | ∃ m ∈ maps, a ∈ m.pages} ∪ {a | ∃ x ∈ pages, a ∈ region x.1 x.2}

/-- The virtual memory that is in the freelist or was taken from it, and is not mapped. -/
def Unused (pages : List (Nat × Nat)) (items : List VpSpan) : Set Nat :=
  owned items ∪ {a | ∃ x ∈ pages, a ∈ region x.1 x.2}

theorem unused_perm (hpages : pages'.Perm pages) (items : List VpSpan) : Unused pages' items = Unused pages items := by
  ext a
  simp only [Unused, Set.mem_union, Set.mem_ofPred_eq, hpages.mem_iff]

theorem unused_cons (pages : List (Nat × Nat)) (items : List VpSpan) (x : Nat × Nat) :
    Unused (x :: pages) items = Unused pages items ∪ region x.1 x.2 := by
  ext a
  simp only [Unused, List.mem_cons, exists_eq_or_imp, Set.mem_union, Set.mem_ofPred_eq]
  constructor
  · rintro (h | h | h)
    exacts [Or.inl (Or.inl h), Or.inr h, Or.inl (Or.inr h)]
  · rintro ((h | h) | h)
    exacts [Or.inl h, Or.inr (Or.inr h), Or.inr (Or.inl h)]

theorem unused_owned (howned : owned items' ⊆ owned items) : Unused pages items' ⊆ Unused pages items :=
  Set.union_subset_union_left _ howned

/-- The virtual memory of the threads. `pages` were taken from the freelist and are not mapped; `gone` are pages that
were invalidated; the top-level entries below `k` are those that `auto_dedicate_vmem` is done with. -/
structure Layout (L : DuneLayout) (Z : Fin PT_NUM_ENTRIES → Prop) (maps : List Mapping) (pages : List (Nat × Nat))
    (gone : List (Set Nat)) (k : Nat) (items : List VpSpan) (pt : PtState) : Prop where
  remap : RemapInv L Z maps items pt
  taken : ∀ x ∈ pages, x.1 % PGSIZE = 0 ∧ 1 ≤ x.2 ∧ region x.1 x.2 ⊆ vmem Z ∧ Disjoint (region x.1 x.2) (owned items)
  takenMaps : ∀ x ∈ pages, ∀ m ∈ maps, Disjoint m.pages (region x.1 x.2)
  takenApart : pages.Pairwise fun x y => Disjoint (region x.1 x.2) (region y.1 y.2)
  below : ∀ a ∈ InUse maps pages items, a < k * 2 ^ 39
  goneOk : ∀ S ∈ gone, ∀ a ∈ S, a ∈ vmem Z ∧ a < k * 2 ^ 39 ∧ a ∉ InUse maps pages items
  fresh : Fresh Z (Unused pages items) pt

/-- Memory that is no longer in use. -/
theorem Layout.spend (h : Layout L Z maps pages gone k items pt) (hsub : InUse maps' pages' items' ⊆ InUse maps pages items) :
    (∀ a ∈ InUse maps' pages' items', a < k * 2 ^ 39) ∧
      ∀ S ∈ gone, ∀ a ∈ S, a ∈ vmem Z ∧ a < k * 2 ^ 39 ∧ a ∉ InUse maps' pages' items' := by
  refine ⟨fun a ha => h.below a (hsub ha), fun S hS a ha => ?_⟩
  obtain ⟨hvmem, hlt, hnot⟩ := h.goneOk S hS a ha
  exact ⟨hvmem, hlt, fun hin => hnot (hsub hin)⟩

theorem inUse_perm (hmaps : maps'.Perm maps) (hpages : pages'.Perm pages) (items : List VpSpan) :
    InUse maps' pages' items = InUse maps pages items := by
  ext a
  simp only [InUse, Set.mem_union, Set.mem_ofPred_eq, hmaps.mem_iff, hpages.mem_iff]

theorem Layout.perm (h : Layout L Z maps pages gone k items pt) (hmaps : maps'.Perm maps) (hpages : pages'.Perm pages)
    {gone' : List (Set Nat)} (hgone : gone'.Perm gone) : Layout L Z maps' pages' gone' k items pt := by
  have hsame := inUse_perm hmaps hpages items
  refine ⟨h.remap.perm hmaps, fun x hx => h.taken x (hpages.mem_iff.mp hx), fun x hx m hm =>
    h.takenMaps x (hpages.mem_iff.mp hx) m (hmaps.mem_iff.mp hm), ?_, ?_, fun S hS => ?_, ?_⟩
  · exact (hpages.pairwise_iff fun hd => hd.symm).mpr h.takenApart
  · rw [hsame]
    exact h.below
  · rw [hsame]
    exact h.goneOk S (hgone.mem_iff.mp hS)
  · rw [unused_perm hpages]
    exact h.fresh

theorem inUse_cons_pages (maps : List Mapping) (pages : List (Nat × Nat)) (items : List VpSpan) (x : Nat × Nat) :
    InUse maps (x :: pages) items = InUse maps pages items ∪ region x.1 x.2 := by
  ext a
  simp only [InUse, List.mem_cons, exists_eq_or_imp, Set.mem_union, Set.mem_ofPred_eq]
  constructor
  · rintro (h | h | h)
    exacts [Or.inl (Or.inl h), Or.inr h, Or.inl (Or.inr h)]
  · rintro ((h | h) | h)
    exacts [Or.inl h, Or.inr (Or.inr h), Or.inr (Or.inl h)]

theorem inUse_cons_maps (maps : List Mapping) (pages : List (Nat × Nat)) (items : List VpSpan) (m : Mapping) :
    InUse (m :: maps) pages items = InUse maps pages items ∪ m.pages := by
  ext a
  simp only [InUse, List.mem_cons, exists_eq_or_imp, Set.mem_union, Set.mem_ofPred_eq]
  constructor
  · rintro ((h | h | h) | h)
    exacts [Or.inl (Or.inl (Or.inl h)), Or.inr h, Or.inl (Or.inl (Or.inr h)), Or.inl (Or.inr h)]
  · rintro (((h | h) | h) | h)
    exacts [Or.inl (Or.inl h), Or.inl (Or.inr (Or.inr h)), Or.inr h, Or.inl (Or.inr (Or.inl h))]

theorem owned_subset_inUse : owned items ⊆ InUse maps pages items := fun _ ha => Or.inl (Or.inl ha)

/-- Pages that are given up. -/
theorem Layout.drop {x : Nat × Nat} (h : Layout L Z maps (x :: pages) gone k items pt) :
    Layout L Z maps pages gone k items pt := by
  have hsub : InUse maps pages items ⊆ InUse maps (x :: pages) items := by
    rw [inUse_cons_pages]
    exact Set.subset_union_left
  obtain ⟨hbelow, hgone⟩ := h.spend hsub
  exact ⟨h.remap, fun y hy => h.taken y (List.mem_cons_of_mem _ hy), fun y hy => h.takenMaps y (List.mem_cons_of_mem _ hy),
    (List.pairwise_cons.mp h.takenApart).2, hbelow, hgone, h.fresh.mono (unused_cons pages items x ▸ Set.subset_union_left)⟩

/-- `freelist_alloc`. -/
theorem Layout.take (h : Layout L Z maps pages gone k items pt) (hZ : SlotsOk L Z) (hn : 1 ≤ n) :
    freelistAlloc n items = ⟨0, items, []⟩ ∨
      ((freelistAlloc n items).va ≠ 0 ∧
        Layout L Z maps (((freelistAlloc n items).va, n) :: pages) gone k (freelistAlloc n items).items pt) := by
  rcases freelistAlloc_spec h.remap.wf hn with ⟨heq, -⟩ | ⟨⟨⟨halign, hrun⟩, -⟩, hwf, howned⟩
  · exact Or.inl heq
  right
  generalize (freelistAlloc n items).va = va at *
  generalize (freelistAlloc n items).items = items' at *
  have hsub : owned items' ⊆ owned items := howned ▸ Set.sdiff_subset
  have huse : InUse maps ((va, n) :: pages) items' ⊆ InUse maps pages items := by
    rw [inUse_cons_pages]
    apply Set.union_subset
    · exact Set.union_subset_union_left _ (Set.union_subset_union_left _ hsub)
    · exact hrun.trans owned_subset_inUse
  obtain ⟨hbelow, hgone⟩ := h.spend huse
  refine ⟨?_, h.remap.take hwf hsub, fun x hx => ?_, fun x hx m hm => ?_, List.pairwise_cons.mpr ⟨fun x hx => ?_,
    h.takenApart⟩, hbelow, hgone, h.fresh.mono ?_⟩
  · rintro rfl
    refine zero_notMem_vmem hZ (h.remap.ownedIn (hrun ?_))
    rw [mem_region]
    simp only [PGSIZE]
    omega
  · rcases List.mem_cons.mp hx with rfl | hx
    · refine ⟨halign, hn, hrun.trans h.remap.ownedIn, ?_⟩
      rw [howned]
      exact Set.disjoint_sdiff_right
    · obtain ⟨hx1, hx2, hx3, hx4⟩ := h.taken x hx
      exact ⟨hx1, hx2, hx3, hx4.mono_right hsub⟩
  · rcases List.mem_cons.mp hx with rfl | hx
    · exact (h.remap.mapsOwned m hm).mono_right hrun
    · exact h.takenMaps x hx m hm
  · exact ((h.taken x hx).2.2.2.mono_right hrun).symm
  · rw [unused_cons]
    exact Set.union_subset (unused_owned hsub) (hrun.trans Set.subset_union_left)

theorem Layout.freeable {x : Nat × Nat} (h : Layout L Z maps (x :: pages) gone k items pt) :
    Freeable (owned items) x.1 x.2 := by
  obtain ⟨halign, hn, hin, howned⟩ := h.taken x List.mem_cons_self
  have hbound := region_bound hn hin
  exact ⟨halign, hn, by omega, howned⟩

/-- `freelist_free` of pages that a thread has. -/
theorem Layout.give {x : Nat × Nat} {node : Nat} (h : Layout L Z maps (x :: pages) gone k items pt) :
    Layout L Z maps pages gone k (freelistFree items x.1 x.2 node).items pt := by
  obtain ⟨-, -, hin, -⟩ := h.taken x List.mem_cons_self
  rcases @freelistFree_spec items x.1 x.2 node h.remap.wf h.freeable with ⟨-, hwf, hgiven⟩ | ⟨heq, -, -⟩
  · have huse : InUse maps pages (freelistFree items x.1 x.2 node).items = InUse maps (x :: pages) items := by
      rw [inUse_cons_pages]
      unfold InUse
      rw [hgiven]
      ext a
      simp only [Set.mem_union]
      tauto
    obtain ⟨hbelow, hgone⟩ := h.spend huse.subset
    obtain ⟨hapart, hrest⟩ := List.pairwise_cons.mp h.takenApart
    refine ⟨h.remap.give hwf hgiven hin (h.takenMaps x List.mem_cons_self), fun y hy => ?_,
      fun y hy => h.takenMaps y (List.mem_cons_of_mem _ hy), hrest, hbelow, hgone, h.fresh.mono ?_⟩
    · obtain ⟨hy1, hy2, hy3, hy4⟩ := h.taken y (List.mem_cons_of_mem _ hy)
      refine ⟨hy1, hy2, hy3, ?_⟩
      rw [hgiven]
      exact Set.disjoint_union_right.mpr ⟨hy4, (hapart y hy).symm⟩
    · rw [Unused, hgiven, unused_cons, Unused, Set.union_right_comm]
  · rw [heq]
    exact h.drop

/-- The region that is mapped to the pages of a block. -/
def mappingAt (va n b : Nat) : Mapping := ⟨va + b % PGSIZE, b, n⟩

theorem mappingAt_base (halign : va % PGSIZE = 0) : (mappingAt va n b).base = va := by
  rw [Mapping.base, mappingAt, roundDown_eq]
  simp only [PGSIZE] at *
  omega

theorem mappingAt_pages (halign : va % PGSIZE = 0) : (mappingAt va n b).pages = region va n := by
  rw [Mapping.pages, mappingAt_base halign]
  rfl

/-- Pages that are taken are not mapped. -/
theorem Layout.unmapped {x : Nat × Nat} (h : Layout L Z maps (x :: pages) gone k items pt) {j : Nat} (hj : j < x.2) :
    Within (slotPaths Z) (pgOffset x.1 j) ∧ pt.entry (pgOffset x.1 j) = none := by
  obtain ⟨-, hn, hin, -⟩ := h.taken x List.mem_cons_self
  have hpage := page_mem_region (region_bound hn hin) hj
  exact ⟨within_of_mem_vmem (hin hpage), h.remap.unmapped _ (hin hpage) fun m hm hmem =>
    Set.disjoint_left.mp (h.takenMaps x List.mem_cons_self m hm) hmem hpage⟩

theorem Layout.unused_apart (h : Layout L Z maps ((va, n) :: pages) gone k items pt) :
    Disjoint (Unused pages items) (region va n) := by
  obtain ⟨-, -, -, howned⟩ := h.taken _ List.mem_cons_self
  obtain ⟨hapart, -⟩ := List.pairwise_cons.mp h.takenApart
  refine Set.disjoint_union_left.mpr ⟨howned.symm, Set.disjoint_left.mpr ?_⟩
  rintro a ⟨x, hx, ha⟩ ha'
  exact Set.disjoint_left.mp (hapart x hx) ha' ha

theorem Layout.unused_maps (h : Layout L Z (m :: maps) pages gone k items pt) : Disjoint (Unused pages items) m.pages := by
  refine Set.disjoint_union_left.mpr ⟨(h.remap.mapsOwned m List.mem_cons_self).symm, Set.disjoint_left.mpr ?_⟩
  rintro a ⟨x, hx, ha⟩ ham
  exact Set.disjoint_left.mp (h.takenMaps x hx m List.mem_cons_self) ham ha

theorem Layout.unused_lt (h : Layout L Z maps pages gone k items pt) (ha : a ∈ Unused pages items) : a < 2 ^ 48 := by
  rcases ha with ha | ⟨x, hx, ha⟩
  · exact (h.remap.ownedIn ha).1
  · exact ((h.taken x hx).2.2.1 ha).1

/-- `pt_map_region` of pages that a thread has taken, to the pages of a block. -/
theorem Layout.map {r : Int × PtState} (h : Layout L Z maps ((va, n) :: pages) gone k items pt) (hZ : SlotsOk L Z)
    (hblock : L.HomeBlock b u) (hnpages : n = numSpannedPages b u)
    (hr : ptMapRegion pt (roundDown (L.duneVaToPa b) PGSIZE) va (n * PGSIZE) vremapFlags = r) :
    (r.1 < 0 ∧ Layout L Z maps ((va, n) :: pages) gone k items r.2) ∨
      (¬ r.1 < 0 ∧ Layout L Z (mappingAt va n b :: maps) pages gone k items r.2) := by
  obtain ⟨halign, hn, hin, howned⟩ := h.taken _ List.mem_cons_self
  dsimp only at halign hn hin howned
  have hbound := region_bound hn hin
  obtain ⟨hpt, hkeeps, -, hmap⟩ := ptMapRegion_spec h.remap.tables vremapFlags_ok (fun j hj => (h.unmapped hj).1) hr
  obtain ⟨hfail, hok⟩ := hmap (pagesDistinct_of_bound halign hbound) fun j hj => (h.unmapped hj).2
  have hpages := mappingAt_pages (n := n) (b := b) halign
  have hbase := mappingAt_base (n := n) (b := b) halign
  have hpa := roundDown_aligned (L.duneVaToPa b)
  have hunused := unused_cons pages items (va, n)
  by_cases hneg : r.1 < 0
  · refine Or.inl ⟨hneg, { h with remap := h.remap.retable hpt hkeeps (hfail hneg), fresh := ?_ }⟩
    have hcode : r.1 ≠ 0 := ne_of_lt hneg
    rw [← hr] at hcode ⊢
    exact h.fresh.mapRegion_failed hpa halign hin hbound (hunused ▸ Set.subset_union_right) hcode
  · have huse : InUse (mappingAt va n b :: maps) pages items = InUse maps ((va, n) :: pages) items := by
      rw [inUse_cons_maps, inUse_cons_pages, hpages]
    obtain ⟨hbelow, hgone⟩ := h.spend huse.subset
    obtain ⟨hapart, hrest⟩ := List.pairwise_cons.mp h.takenApart
    refine Or.inr ⟨hneg, ?_, fun x hx => h.taken x (List.mem_cons_of_mem _ hx), fun x hx m hm => ?_, hrest, hbelow, hgone, ?_⟩
    · apply h.remap.map hZ hpt hkeeps
      · rw [hbase]
        exact hok hneg
      · show (va + b % PGSIZE) % PGSIZE = b % PGSIZE
        simp only [PGSIZE] at *
        omega
      · rw [hpages]
        exact hin
      · rw [hbase]
        exact hbound
      · exact hblock.home
      · rw [show (mappingAt va n b).npages = numSpannedPages b u from hnpages]
        exact hblock.frames.2.2
      · rw [hpages]
        exact h.takenMaps _ List.mem_cons_self
      · rw [hpages]
        exact howned
    · rcases List.mem_cons.mp hm with rfl | hm
      · rw [hpages]
        exact hapart x hx
      · exact h.takenMaps x (List.mem_cons_of_mem _ hx) m hm
    · rw [← hr]
      have hbefore := h.fresh
      rw [hunused] at hbefore
      refine hbefore.mapRegion hpa halign hin hbound (fun a ha => ?_) h.unused_apart rfl
      exact h.unused_lt (hunused ▸ Or.inl ha)

/-- `virtual_invalidate` of the pages of a region from `j` on. -/
theorem Layout.cut {j p : Nat} (h : Layout L Z (m :: maps) pages gone k items pt) (hZ : SlotsOk L Z) (hj : j ≤ m.npages)
    (hp : roundDown p PGSIZE = m.base + j * PGSIZE) :
    Layout L Z ({ m with npages := j } :: maps) pages ((m.pages \ ({ m with npages := j } : Mapping).pages) :: gone) k items
      (virtualInvalidate pt p (m.npages - j)) := by
  have hsub : ({ m with npages := j } : Mapping).pages ⊆ m.pages := Mapping.pages_subset hj
  have huse : InUse ({ m with npages := j } :: maps) pages items ⊆ InUse (m :: maps) pages items := by
    rw [inUse_cons_maps, inUse_cons_maps]
    exact Set.union_subset_union_right _ hsub
  obtain ⟨hbelow, hgone⟩ := h.spend huse
  have hok := h.remap.mapsOk m List.mem_cons_self
  obtain ⟨hapart, -⟩ := List.pairwise_cons.mp h.remap.disjoint
  refine ⟨h.remap.invalidate hZ hj hp, h.taken, fun x hx m' hm' => ?_, h.takenApart, hbelow, fun S hS a ha => ?_,
    h.fresh.invalidate hok hj hp (fun a ha => h.unused_lt ha) h.unused_maps⟩
  · rcases List.mem_cons.mp hm' with rfl | hm'
    · exact (h.takenMaps x hx m List.mem_cons_self).mono_left hsub
    · exact h.takenMaps x hx m' (List.mem_cons_of_mem _ hm')
  · rcases List.mem_cons.mp hS with rfl | hS
    · refine ⟨hok.inVmem ha.1, h.below a ?_, ?_⟩
      · rw [inUse_cons_maps]
        exact Or.inr ha.1
      · rw [inUse_cons_maps]
        rintro (((howned | ⟨m', hm', ha'⟩) | ⟨x, hx, ha'⟩) | hcut)
        · exact Set.disjoint_left.mp (h.remap.mapsOwned m List.mem_cons_self) ha.1 howned
        · exact Set.disjoint_left.mp (hapart m' hm') ha.1 ha'
        · exact Set.disjoint_left.mp (h.takenMaps x hx m List.mem_cons_self) ha.1 ha'
        · exact ha.2 hcut
    · exact hgone S hS a ha

theorem Mapping.pages_empty (m : Mapping) : ({ m with npages := 0 } : Mapping).pages = ∅ := by
  refine Set.eq_empty_of_forall_notMem fun a ha => ?_
  rw [Mapping.pages, mem_region, Nat.zero_mul] at ha
  omega

/-- `virtual_invalidate` of a whole region. -/
theorem Layout.invalidate (h : Layout L Z (m :: maps) pages gone k items pt) (hZ : SlotsOk L Z) :
    Layout L Z maps pages (m.pages :: gone) k items (virtualInvalidate pt m.ptr m.npages) := by
  have hcut := h.cut hZ (Nat.zero_le m.npages) (p := m.ptr) (by simp [Mapping.base])
  rw [m.pages_empty, Set.sdiff_empty, Nat.sub_zero] at hcut
  have huse : InUse maps pages items ⊆ InUse ({ m with npages := 0 } :: maps) pages items := by
    rw [inUse_cons_maps]
    exact Set.subset_union_left
  obtain ⟨hbelow, hgone⟩ := hcut.spend huse
  exact ⟨hcut.remap.drop rfl, hcut.taken, fun x hx m' hm' => hcut.takenMaps x hx m' (List.mem_cons_of_mem _ hm'),
    hcut.takenApart, hbelow, hgone, hcut.fresh⟩

/-- A top-level entry that is 0 when `auto_dedicate_vmem` comes to it. -/
theorem Layout.slot (h : Layout L Z maps pages gone k items pt) (hk : k < PT_NUM_ENTRIES)
    (hzero : pt.mem (pteSlot pt.cr3 ⟨k, hk⟩) = 0) :
    Layout L Z maps ((k * 2 ^ 39, 2 ^ 27) :: pages) gone (k + 1) items pt := by
  have hin : region (k * 2 ^ 39) (2 ^ 27) ⊆ vmem Z := by
    intro a ha
    obtain ⟨hlt, hindex⟩ := mem_slotRegion hk ha
    exact ⟨hlt, hindex ▸ h.remap.root _ hzero⟩
  have hbounds : ∀ {a}, a ∈ region (k * 2 ^ 39) (2 ^ 27) → k * 2 ^ 39 ≤ a ∧ a < (k + 1) * 2 ^ 39 := by
    intro a ha
    have hend : k * 2 ^ 39 + 2 ^ 27 * PGSIZE = (k + 1) * 2 ^ 39 := by
      rw [Nat.succ_mul]
      rfl
    rwa [mem_region, hend] at ha
  have halign : k * 2 ^ 39 % PGSIZE = 0 := by
    simp only [PGSIZE]
    omega
  -- what is in use lies below
  have hapart : ∀ a ∈ region (k * 2 ^ 39) (2 ^ 27), a ∉ InUse maps pages items := fun a ha huse =>
    absurd (h.below a huse) (Nat.not_lt.mpr (hbounds ha).1)
  have hlater : k * 2 ^ 39 ≤ (k + 1) * 2 ^ 39 := Nat.mul_le_mul_right _ (Nat.le_succ k)
  refine ⟨h.remap, fun x hx => ?_, fun x hx m hm => ?_, List.pairwise_cons.mpr ⟨fun x hx => ?_, h.takenApart⟩,
    fun a ha => ?_, fun S hS a ha => ?_, ?_⟩
  · rcases List.mem_cons.mp hx with rfl | hx
    · exact ⟨halign, Nat.one_le_two_pow, hin, Set.disjoint_left.mpr fun a ha howned => hapart a ha (owned_subset_inUse howned)⟩
    · exact h.taken x hx
  · rcases List.mem_cons.mp hx with rfl | hx
    · exact Set.disjoint_left.mpr fun a ham ha => hapart a ha (Or.inl (Or.inr ⟨m, hm, ham⟩))
    · exact h.takenMaps x hx m hm
  · exact Set.disjoint_left.mpr fun a ha hax => hapart a ha (Or.inr ⟨x, hx, hax⟩)
  · rw [inUse_cons_pages] at ha
    rcases ha with ha | ha
    · exact (h.below a ha).trans_le hlater
    · exact (hbounds ha).2
  · obtain ⟨hvmem, hlt, hnot⟩ := h.goneOk S hS a ha
    refine ⟨hvmem, hlt.trans_le hlater, ?_⟩
    rw [inUse_cons_pages]
    rintro (huse | ha')
    · exact hnot huse
    · exact absurd hlt (Nat.not_lt.mpr (hbounds ha').1)
  · rw [unused_cons]
    refine h.fresh.union fun a ha => stopWord_of_root ?_
    rw [(mem_slotRegion hk ha).2]
    exact hzero

theorem Layout.skip (h : Layout L Z maps pages gone k items pt) : Layout L Z maps pages gone (k + 1) items pt := by
  have hlater : k * 2 ^ 39 ≤ (k + 1) * 2 ^ 39 := Nat.mul_le_mul_right _ (Nat.le_succ k)
  refine { h with below := fun a ha => (h.below a ha).trans_le hlater, goneOk := fun S hS a ha => ?_ }
  obtain ⟨hvmem, hlt, hnot⟩ := h.goneOk S hS a ha
  exact ⟨hvmem, hlt.trans_le hlater, hnot⟩

/-- What a thread or the client has: a block of the system allocator, a remapped region, pages that were taken from the
freelist, the knowledge that pages were invalidated, the list while the mutex is locked, the entry that
`auto_dedicate_vmem` has come to, and the knowledge that it is done. -/
inductive Item where
  | block (b u : Nat)
  | region (m : Mapping)
  | pages (va n : Nat)
  | gone (S : Set Nat)
  | list (items : List VpSpan)
  | dedicating (i : Nat)
  | dedicated

def Item.block? : Item → Option (Nat × Nat)
  | .block b u => some (b, u)
  | _ => none

def Item.region? : Item → Option Mapping
  | .region m => some m
  | _ => none

def Item.pages? : Item → Option (Nat × Nat)
  | .pages va n => some (va, n)
  | _ => none

def Item.gone? : Item → Option (Set Nat)
  | .gone S => some S
  | _ => none

def Item.list? : Item → Option (List VpSpan)
  | .list items => some items
  | _ => none

def Item.dedicating? : Item → Option Nat
  | .dedicating i => some i
  | _ => none

/-- The things of a kind among others, in some order. -/
structure Lists (ms : Multiset Item) (maps : List Mapping) (blocks pages : List (Nat × Nat)) (gone : List (Set Nat)) :
    Prop where
  maps : (maps : Multiset Mapping) = ms.filterMap Item.region?
  blocks : (blocks : Multiset (Nat × Nat)) = ms.filterMap Item.block?
  pages : (pages : Multiset (Nat × Nat)) = ms.filterMap Item.pages?
  gone : (gone : Multiset (Set Nat)) = ms.filterMap Item.gone?

theorem perm_of_coe_cons {α : Type} {l : List α} {x : α} {X : Multiset α} (h : (l : Multiset α) = x ::ₘ X) :
    ∃ l', l.Perm (x :: l') ∧ (l' : Multiset α) = X := by
  refine ⟨X.toList, ?_, X.coe_toList⟩
  rw [← Multiset.coe_eq_coe, h, ← Multiset.cons_coe, X.coe_toList]

section Lists

open Multiset

variable {ms : Multiset Item} {blocks : List (Nat × Nat)} {S : Set Nat}

theorem filterMap_skip {α : Type} {f : Item → Option α} {x : Item} (hx : f x = none) (ms : Multiset Item) :
    (x ::ₘ ms).filterMap f = ms.filterMap f := filterMap_cons_none x ms hx

theorem filterMap_keep {α : Type} {f : Item → Option α} {x : Item} {y : α} (hx : f x = some y) (ms : Multiset Item) :
    (x ::ₘ ms).filterMap f = y ::ₘ ms.filterMap f := filterMap_cons_some f x ms hx

theorem coe_cons_of_eq {α : Type} {l : List α} {X : Multiset α} (x : α) (h : (l : Multiset α) = X) :
    ((x :: l : List α) : Multiset α) = x ::ₘ X := by
  rw [← h, cons_coe]

theorem lists_block : Lists (.block b u ::ₘ ms) maps blocks pages gone ↔
    ∃ blocks', blocks.Perm ((b, u) :: blocks') ∧ Lists ms maps blocks' pages gone := by
  constructor
  · rintro ⟨hmaps, hblocks, hpages, hgone⟩
    rw [filterMap_skip rfl] at hmaps hpages hgone
    rw [filterMap_keep (show Item.block? (.block b u) = some (b, u) from rfl)] at hblocks
    obtain ⟨blocks', hperm, hrest⟩ := perm_of_coe_cons hblocks
    exact ⟨blocks', hperm, hmaps, hrest, hpages, hgone⟩
  · rintro ⟨blocks', hperm, hmaps, hblocks, hpages, hgone⟩
    refine ⟨hmaps.trans (filterMap_skip rfl ms).symm, ?_, hpages.trans (filterMap_skip rfl ms).symm,
      hgone.trans (filterMap_skip rfl ms).symm⟩
    rw [coe_eq_coe.mpr hperm, filterMap_keep (show Item.block? (.block b u) = some (b, u) from rfl)]
    exact coe_cons_of_eq _ hblocks

theorem lists_region : Lists (.region m ::ₘ ms) maps blocks pages gone ↔
    ∃ maps', maps.Perm (m :: maps') ∧ Lists ms maps' blocks pages gone := by
  constructor
  · rintro ⟨hmaps, hblocks, hpages, hgone⟩
    rw [filterMap_skip rfl] at hblocks hpages hgone
    rw [filterMap_keep (show Item.region? (.region m) = some m from rfl)] at hmaps
    obtain ⟨maps', hperm, hrest⟩ := perm_of_coe_cons hmaps
    exact ⟨maps', hperm, hrest, hblocks, hpages, hgone⟩
  · rintro ⟨maps', hperm, hmaps, hblocks, hpages, hgone⟩
    refine ⟨?_, hblocks.trans (filterMap_skip rfl ms).symm, hpages.trans (filterMap_skip rfl ms).symm,
      hgone.trans (filterMap_skip rfl ms).symm⟩
    rw [coe_eq_coe.mpr hperm, filterMap_keep (show Item.region? (.region m) = some m from rfl)]
    exact coe_cons_of_eq _ hmaps

theorem lists_pages : Lists (.pages va n ::ₘ ms) maps blocks pages gone ↔
    ∃ pages', pages.Perm ((va, n) :: pages') ∧ Lists ms maps blocks pages' gone := by
  constructor
  · rintro ⟨hmaps, hblocks, hpages, hgone⟩
    rw [filterMap_skip rfl] at hmaps hblocks hgone
    rw [filterMap_keep (show Item.pages? (.pages va n) = some (va, n) from rfl)] at hpages
    obtain ⟨pages', hperm, hrest⟩ := perm_of_coe_cons hpages
    exact ⟨pages', hperm, hmaps, hblocks, hrest, hgone⟩
  · rintro ⟨pages', hperm, hmaps, hblocks, hpages, hgone⟩
    refine ⟨hmaps.trans (filterMap_skip rfl ms).symm, hblocks.trans (filterMap_skip rfl ms).symm, ?_,
      hgone.trans (filterMap_skip rfl ms).symm⟩
    rw [coe_eq_coe.mpr hperm, filterMap_keep (show Item.pages? (.pages va n) = some (va, n) from rfl)]
    exact coe_cons_of_eq _ hpages

theorem lists_gone : Lists (.gone S ::ₘ ms) maps blocks pages gone ↔
    ∃ gone', gone.Perm (S :: gone') ∧ Lists ms maps blocks pages gone' := by
  constructor
  · rintro ⟨hmaps, hblocks, hpages, hgone⟩
    rw [filterMap_skip rfl] at hmaps hblocks hpages
    rw [filterMap_keep (show Item.gone? (.gone S) = some S from rfl)] at hgone
    obtain ⟨gone', hperm, hrest⟩ := perm_of_coe_cons hgone
    exact ⟨gone', hperm, hmaps, hblocks, hpages, hrest⟩
  · rintro ⟨gone', hperm, hmaps, hblocks, hpages, hgone⟩
    refine ⟨hmaps.trans (filterMap_skip rfl ms).symm, hblocks.trans (filterMap_skip rfl ms).symm,
      hpages.trans (filterMap_skip rfl ms).symm, ?_⟩
    rw [coe_eq_coe.mpr hperm, filterMap_keep (show Item.gone? (.gone S) = some S from rfl)]
    exact coe_cons_of_eq _ hgone

/-- Things that are in none of the lists. -/
theorem lists_other {x : Item} (hmaps : x.region? = none) (hblocks : x.block? = none) (hpages : x.pages? = none)
    (hgone : x.gone? = none) : Lists (x ::ₘ ms) maps blocks pages gone ↔ Lists ms maps blocks pages gone := by
  constructor
  · rintro ⟨h1, h2, h3, h4⟩
    rw [filterMap_skip hmaps] at h1
    rw [filterMap_skip hblocks] at h2
    rw [filterMap_skip hpages] at h3
    rw [filterMap_skip hgone] at h4
    exact ⟨h1, h2, h3, h4⟩
  · rintro ⟨h1, h2, h3, h4⟩
    exact ⟨h1.trans (filterMap_skip hmaps ms).symm, h2.trans (filterMap_skip hblocks ms).symm,
      h3.trans (filterMap_skip hpages ms).symm, h4.trans (filterMap_skip hgone ms).symm⟩

end Lists

/-! ### The account -/

/-- The account of the things `ms`: they are the blocks and the virtual memory of the state, and the mutex and
`g_auto_dedicate_once` are with those who have the list and the entry. `k` is past the last entry once
`auto_dedicate_vmem` has set its flag. -/
structure Books (C : SysContract A L) (Z : Fin PT_NUM_ENTRIES → Prop) (others : Set Nat) (maps : List Mapping)
    (blocks pages : List (Nat × Nat)) (gone : List (Set Nat)) (k : Nat) (ms : Multiset Item) (s : SharedWorld σ) :
    Prop where
  lists : Lists ms maps blocks pages gone
  sys : SysInv C others blocks s.world
  layout : Layout L Z maps pages gone k s.world.items s.world.pt
  kernelMode : s.world.kernelMode = true
  calloc : s.world.addr .calloc = true
  lock : ms.filterMap Item.list? = if s.locked then {s.world.items} else 0
  once : ms.filterMap Item.dedicating? = if s.once = .running then {k} else 0
  start : s.once = .init → k = 0
  done : s.once = .done → PT_NUM_ENTRIES < k
  flag : PT_NUM_ENTRIES < k → s.world.autoDedicated = true
  known : Item.dedicated ∈ ms → s.once = .done

def MtInv (C : SysContract A L) (Z : Fin PT_NUM_ENTRIES → Prop) (ms : Multiset Item) (s : SharedWorld σ) : Prop :=
  ∃ others maps blocks pages gone k, Books C Z others maps blocks pages gone k ms s

/-- The same tokens: the list of the mutex, the entry of `auto_dedicate_vmem`, and that it is done. -/
structure SameTokens (ms ms' : Multiset Item) : Prop where
  list : ms'.filterMap Item.list? = ms.filterMap Item.list?
  dedicating : ms'.filterMap Item.dedicating? = ms.filterMap Item.dedicating?
  dedicated : Item.dedicated ∈ ms' → Item.dedicated ∈ ms

theorem SameTokens.refl (ms : Multiset Item) : SameTokens ms ms := ⟨rfl, rfl, fun h => h⟩

theorem SameTokens.trans {ms ms' ms'' : Multiset Item} (h : SameTokens ms ms') (h' : SameTokens ms' ms'') :
    SameTokens ms ms'' :=
  ⟨h'.list.trans h.list, h'.dedicating.trans h.dedicating, fun hmem => h.dedicated (h'.dedicated hmem)⟩

theorem SameTokens.add {ms : Multiset Item} {x : Item} (hlist : x.list? = none) (hdedicating : x.dedicating? = none)
    (hx : x ≠ .dedicated) : SameTokens ms (x ::ₘ ms) :=
  ⟨filterMap_skip hlist ms, filterMap_skip hdedicating ms, fun h => (Multiset.mem_cons.mp h).resolve_left hx.symm⟩

theorem SameTokens.remove {ms : Multiset Item} {x : Item} (hlist : x.list? = none) (hdedicating : x.dedicating? = none) :
    SameTokens (x ::ₘ ms) ms :=
  ⟨(filterMap_skip hlist ms).symm, (filterMap_skip hdedicating ms).symm, Multiset.mem_cons_of_mem⟩

/-- A state that differs in the system allocator, the page tables and what is recorded. -/
structure SameGlobals (w w' : World σ) : Prop where
  items : w'.items = w.items
  kernelMode : w'.kernelMode = w.kernelMode
  addr : w'.addr = w.addr
  autoDedicated : w'.autoDedicated = w.autoDedicated

section Books

variable {others others' : Set Nat} {blocks blocks' : List (Nat × Nat)} {gone' : List (Set Nat)} {ms ms' : Multiset Item}
  {s : SharedWorld σ} {w w' : World σ} {S : Set Nat}

/-- A change that leaves the list, the mutex and `g_auto_dedicate_once` alone. -/
theorem Books.update (h : Books C Z others maps blocks pages gone k ms s) (hsame : SameGlobals s.world w)
    (htokens : SameTokens ms ms') (hlists : Lists ms' maps' blocks' pages' gone') (hsys : SysInv C others' blocks' w)
    (hlayout : Layout L Z maps' pages' gone' k w.items w.pt) : MtInv C Z ms' { s with world := w } := by
  refine ⟨others', maps', blocks', pages', gone', k, hlists, hsys, hlayout, hsame.kernelMode.trans h.kernelMode, ?_, ?_,
    htokens.dedicating.trans h.once, h.start, h.done, fun hk => hsame.autoDedicated.trans (h.flag hk),
    fun hmem => h.known (htokens.dedicated hmem)⟩
  · rw [hsame.addr]
    exact h.calloc
  · rw [htokens.list, hsame.items]
    exact h.lock

theorem SameGlobals.refl (w : World σ) : SameGlobals w w := ⟨rfl, rfl, rfl, rfl⟩

theorem Books.relayout (h : Books C Z others maps blocks pages gone k ms s) (hsame : SameGlobals s.world w)
    (hpt : w.pt = s.world.pt) : Layout L Z maps pages gone k w.items w.pt := by
  rw [hsame.items, hpt]
  exact h.layout

/-- A state that differs in the hook depth and in what is recorded. -/
theorem MtInv.record (h : MtInv C Z ms s) (hsame : SameGlobals s.world w) (hsys : w.sys = s.world.sys)
    (hpt : w.pt = s.world.pt) (htrace : ∀ C' : SysContract A L, (∀ e ∈ s.world.trace, e.Own C'.live) →
      ∀ e ∈ w.trace, e.Own C'.live) : MtInv C Z ms { s with world := w } := by
  obtain ⟨others, maps, blocks, pages, gone, k, h⟩ := h
  exact h.update hsame (.refl _) h.lists (h.sys.congr (List.Perm.refl _) hsys hsame.items (htrace C h.sys.own))
    (h.relayout hsame hpt)

/-- A call that asks for a block. -/
theorem MtInv.obtain {r : Nat × σ} (h : MtInv C Z ms s) (hok : C.Ok r.2) (hr : Obtains A C.live s.world.sys n r)
    (hsame : SameGlobals s.world w) (hsys : w.sys = r.2) (hpt : w.pt = s.world.pt)
    (htrace : (∀ e ∈ s.world.trace, e.Own C.live) → ∀ e ∈ w.trace, e.Own C.live) :
    (r.1 = 0 ∧ MtInv C Z ms { s with world := w }) ∨
      (r.1 ≠ 0 ∧ ∃ u, n ≤ u ∧ MtInv C Z (.block r.1 u ::ₘ ms) { s with world := w }) := by
  obtain ⟨others, maps, blocks, pages, gone, k, h⟩ := h
  have hown := htrace h.sys.own
  by_cases hnull : r.1 = 0
  · exact Or.inl ⟨hnull, h.update hsame (.refl _) h.lists (h.sys.obtain_null hok hr hnull hsys hsame.items hown)
      (h.relayout hsame hpt)⟩
  · refine Or.inr ⟨hnull, _, hr.size hnull, h.update hsame (.add rfl rfl (by simp)) ?_
      (h.sys.obtain hok hr hnull hsys hsame.items hown) (h.relayout hsame hpt)⟩
    exact lists_block.mpr ⟨_, List.Perm.refl _, h.lists⟩

/-- The block of a thread is live, and its usable size is known. -/
theorem MtInv.block (h : MtInv C Z (.block b u ::ₘ ms) s) :
    b ∈ C.live s.world.sys ∧ A.mallocUsableSize b s.world.sys = u ∧ L.HomeBlock b u := by
  obtain ⟨others, maps, blocks, pages, gone, k, h⟩ := h
  obtain ⟨blocks', hperm, -⟩ := lists_block.mp h.lists
  have hmem : (b, u) ∈ blocks := hperm.mem_iff.mpr List.mem_cons_self
  exact ⟨h.sys.mem_live hmem, h.sys.usable _ hmem, h.sys.homeBlock hmem⟩

theorem MtInv.released (h : MtInv C Z (.block b u ::ₘ ms) s) : MtInv C Z ms { s with world := sysfree A b s.world } := by
  obtain ⟨others, maps, blocks, pages, gone, k, h⟩ := h
  obtain ⟨blocks', hperm, hlists⟩ := lists_block.mp h.lists
  have hsys := sysfree_inv (h.sys.congr hperm.symm rfl rfl h.sys.own)
  exact h.update ⟨rfl, rfl, rfl, rfl⟩ (.remove rfl rfl) hlists hsys h.layout

theorem MtInv.sized (h : MtInv C Z (.block b u ::ₘ ms) s) :
    MtInv C Z (.block b u ::ₘ ms) { s with world := (sysmallocUsableSize A b s.world).2 } := by
  obtain ⟨hlive, -, -⟩ := h.block
  obtain ⟨others, maps, blocks, pages, gone, k, h⟩ := h
  exact h.update ⟨rfl, rfl, rfl, rfl⟩ (.refl _) h.lists (h.sys.event hlive) h.layout

/-- `sysrealloc` of a block to more than 0 bytes: it fails, or the block is replaced. -/
theorem MtInv.realloced (h : MtInv C Z (.block b u ::ₘ ms) s) (hn : 0 < n) :
    ((sysrealloc A b n s.world).1 = 0 ∧
      MtInv C Z (.block b u ::ₘ ms) { s with world := (sysrealloc A b n s.world).2 }) ∨
    ((sysrealloc A b n s.world).1 ≠ 0 ∧ ∃ u', n ≤ u' ∧ MtInv C Z (.block (sysrealloc A b n s.world).1 u' ::ₘ ms)
      { s with world := (sysrealloc A b n s.world).2 }) := by
  obtain ⟨others, maps, blocks, pages, gone, k, h⟩ := h
  obtain ⟨blocks', hperm, hlists⟩ := lists_block.mp h.lists
  have hsame : SameGlobals s.world (sysrealloc A b n s.world).2 := ⟨rfl, rfl, rfl, rfl⟩
  have hlayout := h.relayout hsame rfl
  rcases sysrealloc_inv (h.sys.congr hperm.symm rfl rfl h.sys.own) (rfl : sysrealloc A b n s.world = _) with
    ⟨hnull, hsys⟩ | ⟨-, hzero, -⟩ | ⟨hne, hsize, hsys⟩
  · exact Or.inl ⟨hnull, h.update hsame (.refl _) (lists_block.mpr ⟨_, List.Perm.refl _, hlists⟩) hsys hlayout⟩
  · omega
  · refine Or.inr ⟨hne, _, hsize, h.update hsame ?_ (lists_block.mpr ⟨_, List.Perm.refl _, hlists⟩) hsys hlayout⟩
    exact SameTokens.trans (.remove rfl rfl) (.add rfl rfl (by simp))

/-- A block that is given up. -/
theorem MtInv.leak (h : MtInv C Z (.block b u ::ₘ ms) s) : MtInv C Z ms s := by
  obtain ⟨others, maps, blocks, pages, gone, k, h⟩ := h
  obtain ⟨blocks', hperm, hlists⟩ := lists_block.mp h.lists
  have hsys := (h.sys.congr hperm.symm rfl rfl h.sys.own).leak
  exact h.update (.refl _) (.remove rfl rfl) hlists hsys h.layout

/-- Another hook depth. -/
theorem MtInv.rehook (h : MtInv C Z ms s) (depth : Nat) :
    MtInv C Z ms { s with world := { s.world with hookDepth := depth } } :=
  h.record ⟨rfl, rfl, rfl, rfl⟩ rfl rfl fun _ hown => hown

/-! ### The mutex of the freelist -/

theorem MtInv.lock (h : MtInv C Z ms s) (hfree : s.locked = false) :
    MtInv C Z (.list s.world.items ::ₘ ms) { s with locked := true } := by
  obtain ⟨others, maps, blocks, pages, gone, k, h⟩ := h
  refine ⟨others, maps, blocks, pages, gone, k, (lists_other rfl rfl rfl rfl).mpr h.lists, h.sys, h.layout, h.kernelMode,
    h.calloc, ?_, (filterMap_skip rfl ms).trans h.once, h.start, h.done, h.flag,
    fun hmem => h.known ((Multiset.mem_cons.mp hmem).resolve_left (by simp))⟩
  rw [filterMap_keep (show Item.list? (.list s.world.items) = some s.world.items from rfl), h.lock, hfree]
  rfl

/-- Who has the list has the mutex locked. -/
theorem MtInv.locked (h : MtInv C Z (.list items ::ₘ ms) s) :
    s.locked = true ∧ s.world.items = items ∧ ms.filterMap Item.list? = 0 := by
  obtain ⟨others, maps, blocks, pages, gone, k, h⟩ := h
  have hlock := h.lock
  rw [filterMap_keep (show Item.list? (.list items) = some items from rfl)] at hlock
  cases hlocked : s.locked with
  | false =>
      rw [hlocked] at hlock
      exact absurd hlock (Multiset.cons_ne_zero)
  | true =>
      rw [hlocked, if_pos rfl] at hlock
      obtain ⟨hitems, hnone⟩ := (Multiset.singleton_eq_cons_iff _).mp hlock.symm
      exact ⟨rfl, hitems, hnone⟩

theorem MtInv.unlock (h : MtInv C Z (.list items ::ₘ ms) s) : MtInv C Z ms { s with locked := false } := by
  obtain ⟨-, -, hnone⟩ := h.locked
  obtain ⟨others, maps, blocks, pages, gone, k, h⟩ := h
  exact ⟨others, maps, blocks, pages, gone, k, (lists_other rfl rfl rfl rfl).mp h.lists, h.sys, h.layout, h.kernelMode,
    h.calloc, hnone, (filterMap_skip rfl ms).symm.trans h.once, h.start, h.done, h.flag,
    fun hmem => h.known (Multiset.mem_cons_of_mem hmem)⟩

/-- The thread that has the list changes it. -/
theorem Books.relist (h : Books C Z others maps blocks pages gone k (.list items ::ₘ ms) s)
    (hlocked : s.locked = true ∧ s.world.items = items ∧ ms.filterMap Item.list? = 0) (htokens : SameTokens ms ms')
    (hlists : Lists ms' maps' blocks' pages' gone') (hsys : SysInv C others' blocks' { s.world with items := items' })
    (hlayout : Layout L Z maps' pages' gone' k items' s.world.pt) :
    MtInv C Z (.list items' ::ₘ ms') { s with world := { s.world with items := items' } } := by
  refine ⟨others', maps', blocks', pages', gone', k, (lists_other rfl rfl rfl rfl).mpr hlists, hsys, hlayout, h.kernelMode,
    h.calloc, ?_, ?_, h.start, h.done, h.flag, fun hmem => ?_⟩
  · rw [filterMap_keep (show Item.list? (.list items') = some items' from rfl), htokens.list, hlocked.2.2, hlocked.1]
    rfl
  · rw [filterMap_skip rfl, htokens.dedicating]
    exact (filterMap_skip rfl ms).symm.trans h.once
  · refine h.known (Multiset.mem_cons_of_mem (htokens.dedicated ?_))
    exact (Multiset.mem_cons.mp hmem).resolve_left (by simp)

/-- Blocks, as things. -/
def blockItems (freed : List (Nat × Nat)) : Multiset Item := (freed.map fun x => Item.block x.1 x.2 : List Item)

theorem blockItems_cons (x : Nat × Nat) (freed : List (Nat × Nat)) (ms : Multiset Item) :
    blockItems (x :: freed) + ms = .block x.1 x.2 ::ₘ (blockItems freed + ms) := by
  rw [← Multiset.cons_add]
  rfl

theorem lists_blockItems {freed : List (Nat × Nat)} : Lists (blockItems freed + ms) maps blocks pages gone ↔
    ∃ blocks', blocks.Perm (freed ++ blocks') ∧ Lists ms maps blocks' pages gone := by
  induction freed generalizing blocks with
  | nil =>
      rw [show blockItems [] + ms = ms from Multiset.zero_add ms]
      constructor
      · exact fun h => ⟨blocks, List.Perm.refl _, h⟩
      · rintro ⟨blocks', hperm, h⟩
        exact { h with blocks := (Multiset.coe_eq_coe.mpr hperm).trans h.blocks }
  | cons x freed ih =>
      rw [blockItems_cons, lists_block]
      constructor
      · rintro ⟨blocks', hperm, h⟩
        obtain ⟨blocks'', hperm', hrest⟩ := ih.mp h
        exact ⟨blocks'', hperm.trans (hperm'.cons _), hrest⟩
      · rintro ⟨blocks', hperm, h⟩
        exact ⟨freed ++ blocks', hperm, ih.mpr ⟨blocks', List.Perm.refl _, h⟩⟩

theorem sameTokens_blockItems (freed : List (Nat × Nat)) (ms : Multiset Item) :
    SameTokens ms (blockItems freed + ms) ∧ SameTokens (blockItems freed + ms) ms := by
  induction freed with
  | nil =>
      rw [show blockItems [] + ms = ms from Multiset.zero_add ms]
      exact ⟨.refl ms, .refl ms⟩
  | cons x freed ih =>
      rw [blockItems_cons]
      exact ⟨ih.1.trans (.add rfl rfl (by simp)), SameTokens.trans (.remove rfl rfl) ih.2⟩

/-- Span objects that leave the list are blocks again. -/
def freedBlocks (A : SysAllocator σ) (sys : σ) (freed : List Nat) : List (Nat × Nat) :=
  freed.map fun node => (node, A.mallocUsableSize node sys)

theorem freedBlocks_fst (sys : σ) (freed : List Nat) : (freedBlocks A sys freed).map Prod.fst = freed := by
  simp [freedBlocks, Function.comp_def]

/-- Blocks that become span objects, and span objects that leave the list. -/
theorem SysInv.relist {used : List (Nat × Nat)} {freed : List Nat} (h : SysInv C others (used ++ blocks) w)
    (hperm : (freed ++ nodes items').Perm (used.map Prod.fst ++ nodes w.items)) :
    SysInv C others (freedBlocks A w.sys freed ++ blocks) { w with items := items' } := by
  refine h.exchange rfl rfl (fun x hx => ?_) ?_
  · obtain ⟨node, -, rfl⟩ := List.mem_map.mp hx
    rfl
  · rw [freedBlocks_fst]
    exact hperm

/-- `freelist_alloc` of the thread that has the list. -/
theorem MtInv.take (h : MtInv C Z (.list items ::ₘ ms) s) (hZ : SlotsOk L Z) (hn : 1 ≤ n) :
    freelistAlloc n items = ⟨0, items, []⟩ ∨ ((freelistAlloc n items).va ≠ 0 ∧
      MtInv C Z (.list (freelistAlloc n items).items ::ₘ
          (blockItems (freedBlocks A s.world.sys (freelistAlloc n items).freed) +
            .pages (freelistAlloc n items).va n ::ₘ ms))
        { s with world := { s.world with items := (freelistAlloc n items).items } }) := by
  have hlocked := h.locked
  obtain ⟨others, maps, blocks, pages, gone, k, h⟩ := h
  obtain rfl := hlocked.2.1
  rcases h.layout.take hZ hn with hnone | ⟨hne, hlayout⟩
  · exact Or.inl hnone
  refine Or.inr ⟨hne, ?_⟩
  have hlists := (lists_other (x := .list _) rfl rfl rfl rfl).mp h.lists
  have htaken : Lists (.pages (freelistAlloc n s.world.items).va n ::ₘ ms) maps blocks
      (((freelistAlloc n s.world.items).va, n) :: pages) gone := lists_pages.mpr ⟨pages, List.Perm.refl _, hlists⟩
  have hsys : SysInv C others ([] ++ blocks) s.world := h.sys
  refine h.relist hlocked ?_ (lists_blockItems.mpr ⟨blocks, List.Perm.refl _, htaken⟩)
    (hsys.relist (freelistAlloc_nodes n _)) hlayout
  exact SameTokens.trans (.add rfl rfl (by simp)) (sameTokens_blockItems _ _).1

/-- `freelist_free` of the thread that has the list, the pages and, where one is needed, an object for them. -/
theorem MtInv.give {node : Nat} {used : List (Nat × Nat)}
    (h : MtInv C Z (.list items ::ₘ (blockItems used + .pages va n ::ₘ ms)) s)
    (hperm : ((freelistFree items va n node).freed ++ nodes (freelistFree items va n node).items).Perm
      (used.map Prod.fst ++ nodes items)) :
    MtInv C Z (.list (freelistFree items va n node).items ::ₘ
        (blockItems (freedBlocks A s.world.sys (freelistFree items va n node).freed) + ms))
      { s with world := { s.world with items := (freelistFree items va n node).items } } := by
  have hlocked := h.locked
  obtain ⟨others, maps, blocks, pages, gone, k, h⟩ := h
  obtain rfl := hlocked.2.1
  obtain ⟨blocks', hblocks, hlists⟩ :=
    lists_blockItems.mp ((lists_other (x := .list _) rfl rfl rfl rfl).mp h.lists)
  obtain ⟨pages', hpages, hrest⟩ := lists_pages.mp hlists
  have hsys := h.sys.congr hblocks.symm rfl rfl h.sys.own
  have hlayout := h.layout.perm (List.Perm.refl _) hpages.symm (List.Perm.refl _)
  refine h.relist hlocked ?_ (lists_blockItems.mpr ⟨blocks', List.Perm.refl _, hrest⟩) (hsys.relist hperm)
    hlayout.give
  exact ((sameTokens_blockItems used _).2.trans (.remove rfl rfl)).trans (sameTokens_blockItems _ _).1

/-- Pages that nobody has any more. -/
theorem MtInv.drop (h : MtInv C Z (.pages va n ::ₘ ms) s) : MtInv C Z ms s := by
  obtain ⟨others, maps, blocks, pages, gone, k, h⟩ := h
  obtain ⟨pages', hpages, hlists⟩ := lists_pages.mp h.lists
  have hlayout := h.layout.perm (List.Perm.refl _) hpages.symm (List.Perm.refl _)
  exact h.update (.refl _) (.remove rfl rfl) hlists h.sys hlayout.drop

/-- `pt_map_region` of pages that a thread has taken, to the pages of its block. -/
theorem MtInv.map {r : Int × PtState} (h : MtInv C Z (.pages va n ::ₘ .block b u ::ₘ ms) s) (hZ : SlotsOk L Z)
    (hn : n = numSpannedPages b u)
    (hr : ptMapRegion s.world.pt (roundDown (L.duneVaToPa b) PGSIZE) va (n * PGSIZE) vremapFlags = r) :
    (r.1 < 0 ∧ MtInv C Z (.pages va n ::ₘ .block b u ::ₘ ms) { s with world := { s.world with pt := r.2 } }) ∨
      (¬ r.1 < 0 ∧ MtInv C Z (.region (mappingAt va n b) ::ₘ .block b u ::ₘ ms)
        { s with world := { s.world with pt := r.2 } }) := by
  obtain ⟨others, maps, blocks, pages, gone, k, h⟩ := h
  obtain ⟨pages', hpages, hlists⟩ := lists_pages.mp h.lists
  obtain ⟨blocks', hblocks, -⟩ := lists_block.mp hlists
  have hlayout := h.layout.perm (List.Perm.refl _) hpages.symm (List.Perm.refl _)
  have hblock := h.sys.homeBlock (hblocks.mem_iff.mpr List.mem_cons_self)
  have hsame : SameGlobals s.world { s.world with pt := r.2 } := ⟨rfl, rfl, rfl, rfl⟩
  rcases hlayout.map hZ hblock hn hr with ⟨hneg, hafter⟩ | ⟨hok, hafter⟩
  · exact Or.inl ⟨hneg, h.update hsame (.refl _) (lists_pages.mpr ⟨_, List.Perm.refl _, hlists⟩) (h.sys.retable _) hafter⟩
  · refine Or.inr ⟨hok, h.update hsame (SameTokens.trans (.remove rfl rfl) (.add rfl rfl (by simp)))
      (lists_region.mpr ⟨_, List.Perm.refl _, hlists⟩) (h.sys.retable _) hafter⟩

/-- `virtual_invalidate` of the pages of a region from `j` on. -/
theorem MtInv.cut {j p : Nat} (h : MtInv C Z (.region m ::ₘ ms) s) (hZ : SlotsOk L Z) (hj : j ≤ m.npages)
    (hp : roundDown p PGSIZE = m.base + j * PGSIZE) :
    MtInv C Z (.gone (m.pages \ ({ m with npages := j } : Mapping).pages) ::ₘ .region { m with npages := j } ::ₘ ms)
      { s with world := { s.world with pt := virtualInvalidate s.world.pt p (m.npages - j) } } := by
  obtain ⟨others, maps, blocks, pages, gone, k, h⟩ := h
  obtain ⟨maps', hmaps, hlists⟩ := lists_region.mp h.lists
  have hlayout := h.layout.perm hmaps.symm (List.Perm.refl _) (List.Perm.refl _)
  refine h.update ⟨rfl, rfl, rfl, rfl⟩ ?_ ?_ (h.sys.retable _) (hlayout.cut hZ hj hp)
  · exact (SameTokens.trans (.remove rfl rfl) (.add rfl rfl (by simp))).trans (.add rfl rfl (by simp))
  · exact lists_gone.mpr ⟨_, List.Perm.refl _, lists_region.mpr ⟨_, List.Perm.refl _, hlists⟩⟩

/-- `virtual_invalidate` of a whole region. -/
theorem MtInv.invalidate (h : MtInv C Z (.region m ::ₘ ms) s) (hZ : SlotsOk L Z) :
    MtInv C Z (.gone m.pages ::ₘ ms)
      { s with world := { s.world with pt := virtualInvalidate s.world.pt m.ptr m.npages } } := by
  obtain ⟨others, maps, blocks, pages, gone, k, h⟩ := h
  obtain ⟨maps', hmaps, hlists⟩ := lists_region.mp h.lists
  have hlayout := h.layout.perm hmaps.symm (List.Perm.refl _) (List.Perm.refl _)
  refine h.update ⟨rfl, rfl, rfl, rfl⟩ ?_ ?_ (h.sys.retable _) (hlayout.invalidate hZ)
  · exact SameTokens.trans (.remove rfl rfl) (.add rfl rfl (by simp))
  · exact lists_gone.mpr ⟨_, List.Perm.refl _, hlists⟩

/-- A region belongs to its block, and its pointer resolves to it. -/
theorem MtInv.resolve (h : MtInv C Z (.region m ::ₘ .block b u ::ₘ ms) s) (hZ : SlotsOk L Z) (hm : m.Of b u) (hu : 0 < u) :
    1 ≤ m.npages ∧ vremapResolve L s.world.pt m.ptr = (VREM_OK, some b) := by
  obtain ⟨-, -, hblock⟩ := MtInv.block ((Multiset.cons_swap _ _ ms) ▸ h)
  obtain ⟨others, maps, blocks, pages, gone, k, h⟩ := h
  obtain ⟨maps', hmaps, -⟩ := lists_region.mp h.lists
  have hok := h.layout.remap.mapsOk m (hmaps.mem_iff.mpr List.mem_cons_self)
  have hn : 1 ≤ m.npages := hm.npages ▸ numSpannedPages_pos hblock hu
  have hframe : PGSIZE ≤ m.frame L := by
    rw [Mapping.frame, hm.block]
    exact hblock.frames.2.1
  refine ⟨hn, ?_⟩
  rw [← hm.block]
  exact hok.vremapResolve_eq hZ hframe hn

theorem MtInv.resolve_home (h : MtInv C Z (.block b u ::ₘ ms) s) :
    vremapResolve L s.world.pt b = (VREM_NOT_REMAPPED, some b) := by
  obtain ⟨-, -, hblock⟩ := h.block
  obtain ⟨others, maps, blocks, pages, gone, k, h⟩ := h
  exact h.layout.remap.vremapResolve_home hblock.home

theorem MtInv.mapChecks (h : MtInv C Z (.block b u ::ₘ ms) s) (hu : 0 < u) :
    (vremapMapChecks L b u s.world).all PtOp.passes = true := by
  obtain ⟨others, maps, blocks, pages, gone, k, h⟩ := h
  obtain ⟨blocks', hblocks, -⟩ := lists_block.mp h.lists
  have htrace := vremapMapChecks_trace (H := {a | s.world.pt.Marked a}) ⟨h.sys, h.layout.remap⟩
    (hblocks.mem_iff.mpr List.mem_cons_self) hu h.kernelMode
  have hok := (htrace.spec fun _ _ => Iff.rfl).1
  rw [List.all_eq_true]
  intro op hop
  cases op with
  | check condition => exact hok.checks condition hop
  | store _ _ | invlpg _ | zalloc => rfl

theorem MtInv.mapAtChecks (h : MtInv C Z (.pages va n ::ₘ ms) s) :
    (vremapMapAtChecks n va s.world).all PtOp.passes = true := by
  obtain ⟨others, maps, blocks, pages, gone, k, h⟩ := h
  obtain ⟨pages', hpages, -⟩ := lists_pages.mp h.lists
  have hlayout := h.layout.perm (List.Perm.refl _) hpages.symm (List.Perm.refl _)
  rw [vremapMapAtChecks, List.all_eq_true]
  intro op hop
  obtain ⟨j, hj, rfl⟩ := List.mem_map.mp hop
  exact decide_eq_true (ptResolvePage_of_entry_absent (hlayout.unmapped (List.mem_range.mp hj)).2)

/-- The first thread at `pthread_once` comes to the first entry. -/
theorem MtInv.begin (h : MtInv C Z ms s) (hinit : s.once = .init) :
    MtInv C Z (.dedicating 0 ::ₘ ms) { s with once := .running } := by
  obtain ⟨others, maps, blocks, pages, gone, k, h⟩ := h
  obtain rfl := h.start hinit
  have honce := h.once
  rw [hinit, if_neg (by simp)] at honce
  refine ⟨others, maps, blocks, pages, gone, 0, (lists_other rfl rfl rfl rfl).mpr h.lists, h.sys, h.layout, h.kernelMode,
    h.calloc, (filterMap_skip rfl ms).trans h.lock, ?_, fun _ => rfl, nofun, h.flag, fun hmem => ?_⟩
  · rw [filterMap_keep (show Item.dedicating? (.dedicating 0) = some 0 from rfl), honce]
    rfl
  · have hdone := h.known ((Multiset.mem_cons.mp hmem).resolve_left (by simp))
    rw [hinit] at hdone
    cases hdone

/-- A thread that finds `auto_dedicate_vmem` done. -/
theorem MtInv.know (h : MtInv C Z ms s) (hdone : s.once = .done) : MtInv C Z (.dedicated ::ₘ ms) s := by
  obtain ⟨others, maps, blocks, pages, gone, k, h⟩ := h
  exact ⟨others, maps, blocks, pages, gone, k, (lists_other rfl rfl rfl rfl).mpr h.lists, h.sys, h.layout, h.kernelMode,
    h.calloc, (filterMap_skip rfl ms).trans h.lock, (filterMap_skip rfl ms).trans h.once, h.start, h.done, h.flag,
    fun _ => hdone⟩

theorem MtInv.known (h : MtInv C Z (.dedicated ::ₘ ms) s) : s.world.autoDedicated = true ∧ MtInv C Z ms s := by
  obtain ⟨others, maps, blocks, pages, gone, k, h⟩ := h
  refine ⟨h.flag (h.done (h.known (Multiset.mem_cons_self _ _))), others, maps, blocks, pages, gone, k,
    (lists_other rfl rfl rfl rfl).mp h.lists, h.sys, h.layout, h.kernelMode, h.calloc, ?_, ?_, h.start, h.done, h.flag,
    fun hmem => h.known (Multiset.mem_cons_of_mem hmem)⟩
  · exact (filterMap_skip rfl ms).symm.trans h.lock
  · exact (filterMap_skip rfl ms).symm.trans h.once

/-- Who has the entry runs `auto_dedicate_vmem`. -/
theorem Books.running {i : Nat} (h : Books C Z others maps blocks pages gone k (.dedicating i ::ₘ ms) s) :
    s.once = .running ∧ k = i ∧ ms.filterMap Item.dedicating? = 0 := by
  have honce := h.once
  rw [filterMap_keep (show Item.dedicating? (.dedicating i) = some i from rfl)] at honce
  split_ifs at honce with hrunning
  · obtain ⟨hk, hnone⟩ := (Multiset.singleton_eq_cons_iff _).mp honce.symm
    exact ⟨hrunning, hk, hnone⟩
  · exact absurd honce Multiset.cons_ne_zero

/-- A turn of `auto_dedicate_vmem`, or its end. -/
theorem Books.advance {i : Nat} (h : Books C Z others maps blocks pages gone k (.dedicating i ::ₘ ms) s)
    (htokens : SameTokens ms ms') (hlists : Lists ms' maps' blocks' pages' gone')
    (hsys : SysInv C others' blocks' w) (hsame : SameGlobals { s.world with autoDedicated := w.autoDedicated } w)
    (hlayout : Layout L Z maps' pages' gone' (i + 1) w.items w.pt)
    (hflag : PT_NUM_ENTRIES < i + 1 → w.autoDedicated = true) :
    MtInv C Z (.dedicating (i + 1) ::ₘ ms') { s with world := w } := by
  obtain ⟨hrunning, -, hnone⟩ := h.running
  refine ⟨others', maps', blocks', pages', gone', i + 1, (lists_other rfl rfl rfl rfl).mpr hlists, hsys, hlayout,
    hsame.kernelMode.trans h.kernelMode, ?_, ?_, ?_, fun hinit => ?_, fun hdone => ?_, hflag, fun hmem => ?_⟩
  · rw [hsame.addr]
    exact h.calloc
  · rw [filterMap_skip rfl, htokens.list, hsame.items]
    exact (filterMap_skip rfl ms).symm.trans h.lock
  · rw [filterMap_keep (show Item.dedicating? (.dedicating (i + 1)) = some (i + 1) from rfl), htokens.dedicating, hnone,
      if_pos hrunning]
    rfl
  · exact absurd (hrunning.symm.trans hinit) (by simp)
  · exact absurd (hrunning.symm.trans hdone) (by simp)
  · refine h.known (Multiset.mem_cons_of_mem (htokens.dedicated ?_))
    exact (Multiset.mem_cons.mp hmem).resolve_left (by simp)

/-- The thread that dedicates looks at an entry: memory under an entry that is 0 belongs to nobody yet. -/
theorem MtInv.turn {i : Nat} (h : MtInv C Z (.dedicating i ::ₘ ms) s) (hi : i < PT_NUM_ENTRIES) :
    if s.world.pt.mem (s.world.pt.cr3 + 8 * i) ≠ 0 then MtInv C Z (.dedicating (i + 1) ::ₘ ms) s
    else MtInv C Z (.dedicating (i + 1) ::ₘ .pages (i * 2 ^ 39) (2 ^ 27) ::ₘ ms) s := by
  obtain ⟨others, maps, blocks, pages, gone, k, h⟩ := h
  obtain ⟨-, rfl, -⟩ := h.running
  have hlists := (lists_other (x := .dedicating k) rfl rfl rfl rfl).mp h.lists
  have hsame : SameGlobals { s.world with autoDedicated := s.world.autoDedicated } s.world := ⟨rfl, rfl, rfl, rfl⟩
  split_ifs with hword
  · exact h.advance (.refl ms) hlists h.sys hsame h.layout.skip fun hlt => absurd hi (by omega)
  · refine h.advance (.add rfl rfl (by simp)) (lists_pages.mpr ⟨pages, List.Perm.refl _, hlists⟩) h.sys hsame
      (h.layout.slot hi (not_not.mp hword)) fun hlt => absurd hi (by omega)

/-- `g_auto_dedicate_happened = true`. -/
theorem MtInv.flagged (h : MtInv C Z (.dedicating PT_NUM_ENTRIES ::ₘ ms) s) :
    MtInv C Z (.dedicating (PT_NUM_ENTRIES + 1) ::ₘ ms) { s with world := { s.world with autoDedicated := true } } := by
  obtain ⟨others, maps, blocks, pages, gone, k, h⟩ := h
  obtain ⟨-, rfl, -⟩ := h.running
  have hlists := (lists_other (x := .dedicating PT_NUM_ENTRIES) rfl rfl rfl rfl).mp h.lists
  exact h.advance (.refl ms) hlists (h.sys.congr (List.Perm.refl _) rfl rfl h.sys.own) ⟨rfl, rfl, rfl, rfl⟩ h.layout.skip
    fun _ => rfl

/-- The end of `pthread_once`. -/
theorem MtInv.finish (h : MtInv C Z (.dedicating (PT_NUM_ENTRIES + 1) ::ₘ ms) s) :
    MtInv C Z (.dedicated ::ₘ ms) { s with once := .done } := by
  obtain ⟨others, maps, blocks, pages, gone, k, h⟩ := h
  obtain ⟨-, rfl, hnone⟩ := h.running
  have hlists := (lists_other (x := .dedicating _) rfl rfl rfl rfl).mp h.lists
  refine ⟨others, maps, blocks, pages, gone, _, (lists_other rfl rfl rfl rfl).mpr hlists, h.sys, h.layout, h.kernelMode,
    h.calloc, ?_, ?_, fun hinit => ?_, fun _ => Nat.lt_succ_self _, h.flag, fun _ => rfl⟩
  · exact (filterMap_skip rfl ms).trans ((filterMap_skip rfl ms).symm.trans h.lock)
  · rw [filterMap_skip rfl, hnone]
    rfl
  · cases hinit

end Books

end Dangless
