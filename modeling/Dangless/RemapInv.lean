import Dangless.VirtualRemapSpec

/-! The invariant that links the freelist, the page tables and the remapped regions. The virtual memory
that may be dedicated is the memory under the top-level entries of a set `Z`: a page of it is owned by
the freelist, belongs to one remapped region, or is given up; and exactly the pages of the remapped
regions are mapped. -/

namespace Dangless

section Pages

variable {va n k a : Nat}

theorem mem_region_iff_page (hva : va % PGSIZE = 0) :
    a ∈ region va n ↔ va / PGSIZE ≤ a / PGSIZE ∧ a / PGSIZE < va / PGSIZE + n := by
  rw [mem_region]
  simp only [PGSIZE] at *
  omega

/-- Below 2^48, the path of an address tells its page. -/
theorem path_eq_page_iff (hva : va % PGSIZE = 0) (hk : va + (k + 1) * PGSIZE ≤ 2 ^ 48)
    (ha : a < 2 ^ 48) : ptPath a = ptPath (pgOffset va k) ↔ a / PGSIZE = va / PGSIZE + k := by
  rw [ptPath_eq_iff]
  simp only [pgOffset, u64, PGSIZE] at *
  omega

theorem pgOffset_of_bound (hn : va + n * PGSIZE ≤ 2 ^ 48) (hk : k < n) :
    pgOffset va k = va + k * PGSIZE ∧ va + (k + 1) * PGSIZE ≤ 2 ^ 48 := by
  simp only [pgOffset, u64, PGSIZE] at *
  omega

theorem pagesDistinct_of_bound (hva : va % PGSIZE = 0) (hn : va + n * PGSIZE ≤ 2 ^ 48) :
    PagesDistinct va n := by
  intro j k hj hk heq
  obtain ⟨hpage, hbound⟩ := pgOffset_of_bound hn (hj.trans hk)
  obtain ⟨-, hboundk⟩ := pgOffset_of_bound hn hk
  have hlt : pgOffset va j < 2 ^ 48 := by
    rw [hpage]
    simp only [PGSIZE] at *
    omega
  rw [path_eq_page_iff hva hboundk hlt, hpage] at heq
  simp only [PGSIZE] at *
  omega

theorem page_mem_region (hn : va + n * PGSIZE ≤ 2 ^ 48) (hk : k < n) :
    pgOffset va k ∈ region va n := by
  rw [(pgOffset_of_bound hn hk).1, mem_region]
  simp only [PGSIZE] at *
  omega

theorem mem_region_iff_path (hva : va % PGSIZE = 0) (hn : va + n * PGSIZE ≤ 2 ^ 48) (ha : a < 2 ^ 48) :
    a ∈ region va n ↔ ∃ k, k < n ∧ ptPath a = ptPath (pgOffset va k) := by
  rw [mem_region_iff_page hva]
  constructor
  · rintro ⟨hlo, hhi⟩
    refine ⟨a / PGSIZE - va / PGSIZE, by omega, ?_⟩
    have hk : a / PGSIZE - va / PGSIZE < n := by omega
    rw [path_eq_page_iff hva (pgOffset_of_bound hn hk).2 ha]
    omega
  · rintro ⟨k, hk, heq⟩
    rw [path_eq_page_iff hva (pgOffset_of_bound hn hk).2 ha] at heq
    omega

end Pages

/-- The addresses under the top-level entries of `Z`. -/
def vmem (Z : Fin PT_NUM_ENTRIES → Prop) : Set Nat := {a | a < 2 ^ 48 ∧ Z (ptIndex a .l4)}

/-- The paths of these addresses, and the empty one. -/
def slotPaths (Z : Fin PT_NUM_ENTRIES → Prop) : PtPaths := fun path => ∀ i, path.head? = some i → Z i

/-- The top-level entries that may be dedicated hold neither page 0 nor any address that Dune maps. -/
structure SlotsOk (L : DuneLayout) (Z : Fin PT_NUM_ENTRIES → Prop) : Prop where
  zero : ¬ Z (ptIndex 0 .l4)
  home : ∀ va, L.Home va → ¬ Z (ptIndex va .l4)

section Vmem

variable {Z : Fin PT_NUM_ENTRIES → Prop} {L : DuneLayout} {va a : Nat}

theorem within_of_mem_vmem (h : va ∈ vmem Z) : Within (slotPaths Z) va := by
  intro level i hi
  cases level <;> simp only [ptPrefix, List.head?_cons, List.head?_nil, Option.some.injEq,
    reduceCtorEq] at hi
  all_goals exact hi ▸ h.2

theorem ptIndex_l4_of_path (h : ptPath a = ptPath va) : ptIndex a .l4 = ptIndex va .l4 :=
  (List.cons.inj h).1

theorem zero_notMem_vmem (hZ : SlotsOk L Z) : 0 ∉ vmem Z := by
  intro h
  exact hZ.zero h.2

theorem home_notMem_vmem (hZ : SlotsOk L Z) (h : L.Home va) : va ∉ vmem Z := fun hv => hZ.home va h hv.2

end Vmem

/-- A remapped region: the pointer into it, the block behind it, and its number of pages. -/
structure Mapping where
  ptr : Nat
  block : Nat
  npages : Nat
  deriving DecidableEq

def Mapping.base (m : Mapping) : Nat := roundDown m.ptr PGSIZE

def Mapping.pages (m : Mapping) : Set Nat := region m.base m.npages

/-- The physical page of the block. -/
def Mapping.frame (L : DuneLayout) (m : Mapping) : Nat := roundDown (L.duneVaToPa m.block) PGSIZE

/-- The pages of the region are mapped to the consecutive physical pages of the block. -/
structure Mapping.Ok (L : DuneLayout) (Z : Fin PT_NUM_ENTRIES → Prop) (pt : PtState) (m : Mapping) :
    Prop where
  offset : m.ptr % PGSIZE = m.block % PGSIZE
  inVmem : m.pages ⊆ vmem Z
  bound : m.base + m.npages * PGSIZE ≤ 2 ^ 48
  home : L.Home m.block
  frame_lt : m.frame L + m.npages * PGSIZE ≤ 2 ^ 52
  mapped : ∀ k, k < m.npages → ∀ a, ptPath a = ptPath (pgOffset m.base k) →
    pt.entry a = some (.l1, pgOffset (m.frame L) k ||| vremapFlags ||| PTE_V)

theorem Mapping.base_aligned (m : Mapping) : m.base % PGSIZE = 0 := roundDown_aligned m.ptr

/-- The first pages of a region. -/
theorem Mapping.pages_subset {m : Mapping} {n : Nat} (hn : n ≤ m.npages) :
    ({ m with npages := n } : Mapping).pages ⊆ m.pages :=
  Set.Ico_subset_Ico_right (Nat.add_le_add_left (Nat.mul_le_mul_right _ hn) _)

theorem Mapping.lt_of_mem_pages {m : Mapping} {n a : Nat}
    (ha : a ∈ ({ m with npages := n } : Mapping).pages) : a < m.base + n * PGSIZE := ha.2

/-- The invariant. -/
structure RemapInv (L : DuneLayout) (Z : Fin PT_NUM_ENTRIES → Prop) (maps : List Mapping)
    (items : List VpSpan) (pt : PtState) : Prop where
  wf : FreelistWf items
  tables : PtInv (slotPaths Z) pt
  root : ∀ i, pt.mem (pteSlot pt.cr3 i) = 0 → Z i
  home : ∀ va, L.Home va → ptResolve pt va = L.duneVaToPa va
  ownedIn : owned items ⊆ vmem Z
  mapsOk : ∀ m ∈ maps, m.Ok L Z pt
  disjoint : maps.Pairwise fun m m' => Disjoint m.pages m'.pages
  mapsOwned : ∀ m ∈ maps, Disjoint m.pages (owned items)
  unmapped : ∀ a ∈ vmem Z, (∀ m ∈ maps, a ∉ m.pages) → pt.entry a = none

section RemapInv

variable {L : DuneLayout} {Z : Fin PT_NUM_ENTRIES → Prop} {maps maps' : List Mapping}
  {items items' : List VpSpan} {pt pt' : PtState} {m m' : Mapping}

theorem RemapInv.perm (h : RemapInv L Z maps items pt) (hperm : maps'.Perm maps) :
    RemapInv L Z maps' items pt := by
  refine ⟨h.wf, h.tables, h.root, h.home, h.ownedIn, fun m hm => h.mapsOk m (hperm.mem_iff.mp hm), ?_,
    fun m hm => h.mapsOwned m (hperm.mem_iff.mp hm), fun a ha hnot => h.unmapped a ha fun m hm =>
      hnot m (hperm.mem_iff.mpr hm)⟩
  exact (hperm.pairwise_iff fun hd => hd.symm).mpr h.disjoint

/-- The freelist may lose pages. -/
theorem RemapInv.take (h : RemapInv L Z maps items pt) (hwf : FreelistWf items')
    (howned : owned items' ⊆ owned items) : RemapInv L Z maps items' pt :=
  { h with
    wf := hwf
    ownedIn := howned.trans h.ownedIn
    mapsOwned := fun m hm => (h.mapsOwned m hm).mono_right howned }

/-- The freelist may gain pages that belong to no region. -/
theorem RemapInv.give {p npages : Nat} (h : RemapInv L Z maps items pt) (hwf : FreelistWf items')
    (howned : owned items' = owned items ∪ region p npages) (hin : region p npages ⊆ vmem Z)
    (hapart : ∀ m ∈ maps, Disjoint m.pages (region p npages)) : RemapInv L Z maps items' pt :=
  { h with
    wf := hwf
    ownedIn := howned ▸ Set.union_subset h.ownedIn hin
    mapsOwned := fun m hm => howned ▸ Set.disjoint_union_right.mpr ⟨h.mapsOwned m hm, hapart m hm⟩ }

theorem RemapInv.root_of_keeps (h : RemapInv L Z maps items pt) (hkeeps : PtKeeps pt pt')
    (i : Fin PT_NUM_ENTRIES) (hi : pt'.mem (pteSlot pt'.cr3 i) = 0) : Z i := by
  rw [hkeeps.cr3] at hi
  by_contra hZ
  exact hkeeps.root i (fun hzero => hZ (h.root i hzero)) hi

/-- The tables may change as long as no translation does. -/
theorem RemapInv.retable (h : RemapInv L Z maps items pt) (hpt : PtInv (slotPaths Z) pt')
    (hkeeps : PtKeeps pt pt') (hsame : ∀ a, pt'.entry a = pt.entry a) : RemapInv L Z maps items pt' :=
  { h with
    tables := hpt
    root := h.root_of_keeps hkeeps
    home := fun va hva => (ptResolve_congr (hsame va)).trans (h.home va hva)
    mapsOk := fun m hm =>
      { h.mapsOk m hm with mapped := fun k hk a ha => (hsame a).trans ((h.mapsOk m hm).mapped k hk a ha) }
    unmapped := fun a ha hnot => (hsame a).trans (h.unmapped a ha hnot) }

/-- A page of a region is at none of the pages of another one. -/
theorem Mapping.Ok.path_ne {va n j k a : Nat} (hm : m.Ok L Z pt) (hva : va % PGSIZE = 0)
    (hn : va + n * PGSIZE ≤ 2 ^ 48) (hdisjoint : Disjoint m.pages (region va n)) (hk : k < m.npages)
    (hj : j < n) (ha : ptPath a = ptPath (pgOffset m.base k)) : ptPath a ≠ ptPath (pgOffset va j) := by
  intro heq
  have hpage := page_mem_region hm.bound hk
  have hlt : pgOffset m.base k < 2 ^ 48 := (hm.inVmem hpage).1
  refine Set.disjoint_left.mp hdisjoint hpage ?_
  rw [mem_region_iff_path hva hn hlt]
  exact ⟨j, hj, ha.symm.trans heq⟩

/-- Mapping a region that was taken from the freelist. -/
theorem RemapInv.map (h : RemapInv L Z maps items pt) (hZ : SlotsOk L Z) (hpt : PtInv (slotPaths Z) pt')
    (hkeeps : PtKeeps pt pt')
    (hmapped : MappedTo pt pt' (m.frame L) m.base vremapFlags m.npages)
    (hoffset : m.ptr % PGSIZE = m.block % PGSIZE) (hin : m.pages ⊆ vmem Z)
    (hbound : m.base + m.npages * PGSIZE ≤ 2 ^ 48) (hhome : L.Home m.block)
    (hframe : m.frame L + m.npages * PGSIZE ≤ 2 ^ 52)
    (hapart : ∀ m' ∈ maps, Disjoint m'.pages m.pages) (howned : Disjoint m.pages (owned items)) :
    RemapInv L Z (m :: maps) items pt' := by
  have hother : ∀ a, ¬ Z (ptIndex a .l4) → pt'.entry a = pt.entry a := by
    intro a ha
    refine hmapped.frame a fun k hk heq => ha ?_
    rw [ptIndex_l4_of_path heq]
    exact (hin (page_mem_region hbound hk)).2
  refine ⟨h.wf, hpt, h.root_of_keeps hkeeps, fun va hva => ?_, h.ownedIn, fun m' hm' => ?_,
    List.pairwise_cons.mpr ⟨fun m' hm' => (hapart m' hm').symm, h.disjoint⟩, fun m' hm' => ?_,
    fun a ha hnot => ?_⟩
  · exact (ptResolve_congr (hother va (hZ.home va hva))).trans (h.home va hva)
  · rcases List.mem_cons.mp hm' with rfl | hm'
    · exact ⟨hoffset, hin, hbound, hhome, hframe, fun k hk a ha => hmapped.mapped k hk a ha⟩
    · have hok := h.mapsOk m' hm'
      refine { hok with mapped := fun k hk a ha => ?_ }
      rw [hmapped.frame a fun j hj =>
        hok.path_ne m.base_aligned hbound (hapart m' hm') hk hj ha]
      exact hok.mapped k hk a ha
  · rcases List.mem_cons.mp hm' with rfl | hm'
    · exact howned
    · exact h.mapsOwned m' hm'
  · rw [hmapped.frame a fun k hk heq => hnot m List.mem_cons_self
      ((mem_region_iff_path m.base_aligned hbound ha.1).mpr ⟨k, hk, heq⟩)]
    exact h.unmapped a ha fun m' hm' => hnot m' (List.mem_cons_of_mem _ hm')

/-- Cutting pages off the end of a region. -/
theorem RemapInv.cut (h : RemapInv L Z (m :: maps) items pt) (hZ : SlotsOk L Z)
    (hpt : PtInv (slotPaths Z) pt') (hkeeps : PtKeeps pt pt') {n : Nat} (hn : n ≤ m.npages)
    (hcleared : Cleared pt pt' m.base n m.npages) :
    RemapInv L Z ({ m with npages := n } :: maps) items pt' := by
  have hok := h.mapsOk m List.mem_cons_self
  have hsub : ({ m with npages := n } : Mapping).pages ⊆ m.pages := Mapping.pages_subset hn
  have hother : ∀ a, ¬ Z (ptIndex a .l4) → pt'.entry a = pt.entry a := by
    intro a ha
    refine hcleared.frame a fun k _ hk heq => ha ?_
    rw [ptIndex_l4_of_path heq]
    exact (hok.inVmem (page_mem_region hok.bound hk)).2
  obtain ⟨hapart, hdisjoint⟩ := List.pairwise_cons.mp h.disjoint
  refine ⟨h.wf, hpt, h.root_of_keeps hkeeps, fun va hva => ?_, h.ownedIn, fun m' hm' => ?_,
    List.pairwise_cons.mpr ⟨fun m' hm' => (hapart m' hm').mono_left hsub, hdisjoint⟩, fun m' hm' => ?_,
    fun a ha hnot => ?_⟩
  · exact (ptResolve_congr (hother va (hZ.home va hva))).trans (h.home va hva)
  · rcases List.mem_cons.mp hm' with rfl | hm'
    · have hle : n * PGSIZE ≤ m.npages * PGSIZE := Nat.mul_le_mul_right _ hn
      refine ⟨hok.offset, hsub.trans hok.inVmem, ?_, hok.home, ?_, fun k hk a ha => ?_⟩
      · have hbound := hok.bound
        change m.base + n * PGSIZE ≤ _
        omega
      · have hframe := hok.frame_lt
        change m.frame L + n * PGSIZE ≤ _
        omega
      · change k < n at hk
        rw [hcleared.frame a fun j hj hj' heq =>
          pagesDistinct_of_bound m.base_aligned hok.bound k j (by omega) hj' (ha.symm.trans heq)]
        exact hok.mapped k (by omega) a ha
    · have hok' := h.mapsOk m' (List.mem_cons_of_mem _ hm')
      refine { hok' with mapped := fun k hk a ha => ?_ }
      rw [hcleared.frame a fun j _ hj =>
        hok'.path_ne m.base_aligned hok.bound (hapart m' hm').symm hk hj ha]
      exact hok'.mapped k hk a ha
  · rcases List.mem_cons.mp hm' with rfl | hm'
    · exact (h.mapsOwned m List.mem_cons_self).mono_left hsub
    · exact h.mapsOwned m' (List.mem_cons_of_mem _ hm')
  · -- the address is in the part that was cut off, or was in no region before
    by_cases hcut : a ∈ m.pages
    · obtain ⟨k, hk, ha'⟩ := (mem_region_iff_path m.base_aligned hok.bound ha.1).mp hcut
      have hkn : n ≤ k := by
        by_contra hlt
        refine hnot _ List.mem_cons_self ?_
        have hbound : m.base + n * PGSIZE ≤ 2 ^ 48 :=
          le_trans (Nat.add_le_add_left (Nat.mul_le_mul_right _ hn) _) hok.bound
        exact (mem_region_iff_path m.base_aligned hbound ha.1).mpr ⟨k, by omega, ha'⟩
      exact hcleared.cleared k hkn hk a ha'
    · rw [hcleared.frame a fun k _ hk heq => hcut
        ((mem_region_iff_path m.base_aligned hok.bound ha.1).mpr ⟨k, hk, heq⟩)]
      refine h.unmapped a ha fun m' hm' => ?_
      rcases List.mem_cons.mp hm' with rfl | hm'
      · exact hcut
      · exact hnot m' (List.mem_cons_of_mem _ hm')

/-- A region without pages is none. -/
theorem RemapInv.drop (h : RemapInv L Z (m :: maps) items pt) (hm : m.npages = 0) :
    RemapInv L Z maps items pt := by
  have hempty : ∀ a, a ∉ m.pages := by
    intro a ha
    rw [Mapping.pages, hm, mem_region] at ha
    omega
  refine ⟨h.wf, h.tables, h.root, h.home, h.ownedIn, fun m' hm' => h.mapsOk m' (List.mem_cons_of_mem _ hm'),
    (List.pairwise_cons.mp h.disjoint).2, fun m' hm' => h.mapsOwned m' (List.mem_cons_of_mem _ hm'),
    fun a ha hnot => h.unmapped a ha fun m' hm' => ?_⟩
  rcases List.mem_cons.mp hm' with rfl | hm'
  · exact hempty a
  · exact hnot m' hm'

end RemapInv

end Dangless
