import Dangless.LibSpanList
import Dangless.VirtmemAlloc

/-! What the virtual page allocator is for: it owns a set of pages, hands out the lowest run of
consecutive pages that is long enough, and takes pages back. The list of spans is a canonical form of
that set, and each function of `virtmem_alloc.c` does to the list what its specification does to the
set. -/

namespace Dangless

/-- The addresses of `npages` pages from `p` on. -/
def region (p npages : Nat) : Set Nat := Set.Ico p (p + npages * PGSIZE)

theorem mem_region {p npages a : Nat} : a ∈ region p npages ↔ p ≤ a ∧ a < p + npages * PGSIZE :=
  Iff.rfl

def VpSpan.bounds (span : VpSpan) : Nat × Nat := (span.start, span.end_)

/-- The addresses of the pages the freelist owns. -/
def owned (items : List VpSpan) : Set Nat := SpanList.covers (items.map VpSpan.bounds)

/-- Non-empty page-aligned spans, strictly ascending, pairwise disjoint and never adjacent. -/
structure FreelistWf (items : List VpSpan) : Prop where
  separated : SpanList.Separated (items.map VpSpan.bounds)
  aligned : ∀ span ∈ items, span.start % PGSIZE = 0 ∧ span.end_ % PGSIZE = 0
  inWidth : ∀ span ∈ items, span.end_ < 2 ^ 64

/-- A run of `npages` consecutive pages of `pages` begins at `a`. -/
def RunAt (pages : Set Nat) (npages a : Nat) : Prop := a % PGSIZE = 0 ∧ region a npages ⊆ pages

/-- A range that may be given to the allocator. -/
structure Freeable (pages : Set Nat) (p npages : Nat) : Prop where
  aligned : p % PGSIZE = 0
  nonempty : 1 ≤ npages
  inWidth : p + npages * PGSIZE < 2 ^ 64
  disjoint : Disjoint (region p npages) pages

theorem freelistWf_nil : FreelistWf [] :=
  ⟨SpanList.separated_nil, by simp, by simp⟩

@[simp] theorem owned_nil : owned [] = ∅ := SpanList.covers_nil

theorem map_bounds_insert (before after : List VpSpan) (span : VpSpan) :
    (before ++ span :: after).map VpSpan.bounds =
      before.map VpSpan.bounds ++ span.bounds :: after.map VpSpan.bounds := by
  simp

theorem owned_insert (before after : List VpSpan) (span : VpSpan) :
    owned (before ++ span :: after) =
      owned before ∪ Set.Ico span.start span.end_ ∪ owned after := by
  rw [owned, map_bounds_insert, SpanList.covers_insert]
  rfl

theorem owned_cons (span : VpSpan) (after : List VpSpan) :
    owned (span :: after) = Set.Ico span.start span.end_ ∪ owned after :=
  SpanList.covers_cons _ _

theorem owned_append (before after : List VpSpan) :
    owned (before ++ after) = owned before ∪ owned after := by
  rw [owned, List.map_append, SpanList.covers_append]
  rfl

/-- A range on one side of every span is disjoint from the owned pages. -/
theorem disjoint_owned {items : List VpSpan} {p npages : Nat}
    (h : ∀ span ∈ items, span.end_ ≤ p ∨ p + npages * PGSIZE ≤ span.start) :
    Disjoint (region p npages) (owned items) := by
  rw [Set.disjoint_left]
  rintro a ⟨hlo, hhi⟩ ⟨b, hb, hblo, hbhi⟩
  obtain ⟨span, hspan, rfl⟩ := List.mem_map.mp hb
  rcases h span hspan with hle | hge
  · exact absurd (hbhi.trans_le (hle.trans hlo)) (lt_irrefl a)
  · exact absurd (hhi.trans_le (hge.trans hblo)) (lt_irrefl a)

namespace FreelistWf

variable {items before after : List VpSpan} {span : VpSpan}

theorem nonempty (h : FreelistWf items) (hspan : span ∈ items) : span.start < span.end_ :=
  h.separated.1 span.bounds (List.mem_map_of_mem hspan)

/-- A list around one span: the gaps on both sides are all there is to check. -/
theorem insert (hbefore : FreelistWf before) (hafter : FreelistWf after)
    (hspan : span.start < span.end_) (hstart : span.start % PGSIZE = 0)
    (hend : span.end_ % PGSIZE = 0) (hwidth : span.end_ < 2 ^ 64)
    (hleft : ∀ s ∈ before, s.end_ < span.start) (hright : ∀ s ∈ after, span.end_ < s.start) :
    FreelistWf (before ++ span :: after) where
  separated := by
    rw [map_bounds_insert, SpanList.separated_insert]
    refine ⟨hbefore.separated, hafter.separated, hspan, ?_, ?_⟩
    · intro b hb
      obtain ⟨s, hs, rfl⟩ := List.mem_map.mp hb
      exact hleft s hs
    · intro b hb
      obtain ⟨s, hs, rfl⟩ := List.mem_map.mp hb
      exact hright s hs
  aligned := by
    intro s hs
    rcases List.mem_append.mp hs with hs | hs
    · exact hbefore.aligned s hs
    rcases List.mem_cons.mp hs with rfl | hs
    · exact ⟨hstart, hend⟩
    · exact hafter.aligned s hs
  inWidth := by
    intro s hs
    rcases List.mem_append.mp hs with hs | hs
    · exact hbefore.inWidth s hs
    rcases List.mem_cons.mp hs with rfl | hs
    · exact hwidth
    · exact hafter.inWidth s hs

theorem of_append (h : FreelistWf (before ++ after)) : FreelistWf before ∧ FreelistWf after := by
  obtain ⟨hsep, haligned, hwidth⟩ := h
  rw [List.map_append, SpanList.separated_append] at hsep
  exact ⟨⟨hsep.1, fun s hs => haligned s (List.mem_append_left _ hs),
      fun s hs => hwidth s (List.mem_append_left _ hs)⟩,
    hsep.2.1, fun s hs => haligned s (List.mem_append_right _ hs),
      fun s hs => hwidth s (List.mem_append_right _ hs)⟩

theorem of_cons (h : FreelistWf (span :: after)) : FreelistWf after := by
  rw [← List.singleton_append] at h
  exact h.of_append.2

theorem gap (h : FreelistWf (before ++ after)) {s t : VpSpan} (hs : s ∈ before) (ht : t ∈ after) :
    s.end_ < t.start := by
  have hsep := h.separated
  rw [List.map_append, SpanList.separated_append] at hsep
  exact hsep.2.2 s.bounds (List.mem_map_of_mem hs) t.bounds (List.mem_map_of_mem ht)

theorem gap_head (h : FreelistWf (span :: after)) {t : VpSpan} (ht : t ∈ after) :
    span.end_ < t.start := by
  rw [← List.singleton_append] at h
  exact h.gap (List.mem_singleton.mpr rfl) ht

theorem gap_cons (h : FreelistWf (before ++ span :: after)) {t : VpSpan} (ht : t ∈ after) :
    span.end_ < t.start := by
  rw [← List.singleton_append, ← List.append_assoc] at h
  exact h.gap (List.mem_append_right _ (List.mem_singleton.mpr rfl)) ht

/-- Dropping one span. -/
theorem erase (h : FreelistWf (before ++ span :: after)) : FreelistWf (before ++ after) := by
  obtain ⟨hbefore, hcons⟩ := h.of_append
  have hafter : FreelistWf after := hcons.of_cons
  refine ⟨?_, ?_, ?_⟩
  · rw [List.map_append, SpanList.separated_append]
    refine ⟨hbefore.separated, hafter.separated, ?_⟩
    intro b hb c hc
    obtain ⟨s, hs, rfl⟩ := List.mem_map.mp hb
    obtain ⟨t, ht, rfl⟩ := List.mem_map.mp hc
    exact h.gap hs (List.mem_cons_of_mem _ ht)
  · intro s hs
    rcases List.mem_append.mp hs with hs | hs
    · exact hbefore.aligned s hs
    · exact hafter.aligned s hs
  · intro s hs
    rcases List.mem_append.mp hs with hs | hs
    · exact hbefore.inWidth s hs
    · exact hafter.inWidth s hs

/-- Full coalescing: a run of owned pages lies in one span. -/
theorem exists_span_of_run (h : FreelistWf items) {npages a : Nat} (hn : 1 ≤ npages)
    (hrun : RunAt (owned items) npages a) :
    ∃ s ∈ items, s.start ≤ a ∧ a + npages * PGSIZE ≤ s.end_ := by
  have hlt : a < a + npages * PGSIZE := by simp only [PGSIZE]; omega
  obtain ⟨b, hb, hlo, hhi⟩ := h.separated.exists_of_Ico_subset hlt hrun.2
  obtain ⟨s, hs, rfl⟩ := List.mem_map.mp hb
  exact ⟨s, hs, hlo, hhi⟩

end FreelistWf

/-- Everything `freelist_alloc` can do. -/
theorem freelistAlloc_cases (npages : Nat) (items : List VpSpan) :
    (freelistAlloc npages items = ⟨0, items, []⟩ ∧ ∀ span ∈ items, span.numPages < npages) ∨
    ∃ before span after, items = before ++ span :: after ∧
      (∀ s ∈ before, s.numPages < npages) ∧ npages ≤ span.numPages ∧
      ((u64 (span.start + npages * PGSIZE) = span.end_ ∧
          freelistAlloc npages items = ⟨span.start, before ++ after, [span.node]⟩) ∨
        (u64 (span.start + npages * PGSIZE) ≠ span.end_ ∧
          freelistAlloc npages items = ⟨span.start,
            before ++ { span with start := u64 (span.start + npages * PGSIZE) } :: after, []⟩)) := by
  induction items with
  | nil => exact Or.inl ⟨rfl, by simp⟩
  | cons head rest ih =>
      by_cases hhead : npages ≤ head.numPages
      · refine Or.inr ⟨[], head, rest, rfl, by simp, hhead, ?_⟩
        by_cases hempty : u64 (head.start + npages * PGSIZE) = head.end_
        · exact Or.inl ⟨hempty, by simp [freelistAlloc, hhead, VpSpan.empty, hempty]⟩
        · exact Or.inr ⟨hempty, by simp [freelistAlloc, hhead, VpSpan.empty, hempty]⟩
      · have hstep : freelistAlloc npages (head :: rest) =
            { freelistAlloc npages rest with items := head :: (freelistAlloc npages rest).items } := by
          rw [freelistAlloc, if_neg hhead]
        rw [hstep]
        rcases ih with ⟨heq, hall⟩ | ⟨before, span, after, rfl, hbefore, hspan, hres⟩
        · refine Or.inl ⟨by rw [heq], ?_⟩
          intro s hs
          rcases List.mem_cons.mp hs with rfl | hs
          · exact not_le.mp hhead
          · exact hall s hs
        · refine Or.inr ⟨head :: before, span, after, rfl, ?_, hspan, ?_⟩
          · intro s hs
            rcases List.mem_cons.mp hs with rfl | hs
            · exact not_le.mp hhead
            · exact hbefore s hs
          · rcases hres with ⟨hend, heq⟩ | ⟨hend, heq⟩
            · exact Or.inl ⟨hend, by rw [heq]; rfl⟩
            · exact Or.inr ⟨hend, by rw [heq]; rfl⟩

section Alloc

variable {items : List VpSpan} {npages : Nat}

theorem le_numPages_iff (npages : Nat) {span : VpSpan} (hstart : span.start % PGSIZE = 0)
    (hend : span.end_ % PGSIZE = 0) (hle : span.start ≤ span.end_) (hwidth : span.end_ < 2 ^ 64) :
    npages ≤ span.numPages ↔ span.start + npages * PGSIZE ≤ span.end_ := by
  simp only [VpSpan.numPages, spanPages, u64, PGSIZE] at *
  omega

/-- What is left of the list after an allocation: the span loses its lowest pages, or goes. -/
theorem freelistAlloc_spec (h : FreelistWf items) (hn : 1 ≤ npages) :
    (freelistAlloc npages items = ⟨0, items, []⟩ ∧ ∀ a, ¬ RunAt (owned items) npages a) ∨
    (IsLeast {a | RunAt (owned items) npages a} (freelistAlloc npages items).va ∧
      FreelistWf (freelistAlloc npages items).items ∧
      owned (freelistAlloc npages items).items =
        owned items \ region (freelistAlloc npages items).va npages) := by
  rcases freelistAlloc_cases npages items with ⟨heq, hall⟩ | ⟨before, span, after, rfl, hbefore, hspan, hres⟩
  · refine Or.inl ⟨heq, fun a hrun => ?_⟩
    obtain ⟨s, hs, hlo, hhi⟩ := h.exists_span_of_run hn hrun
    obtain ⟨hstart, hend⟩ := h.aligned s hs
    have hbig := (le_numPages_iff npages hstart hend (h.nonempty hs).le (h.inWidth s hs)).mpr (by omega)
    exact absurd (hall s hs) (not_lt.mpr hbig)
  · have hmem : span ∈ before ++ span :: after := by simp
    obtain ⟨hstart, hend⟩ := h.aligned span hmem
    have hfits := (le_numPages_iff npages hstart hend (h.nonempty hmem).le (h.inWidth span hmem)).mp hspan
    have hwidth := h.inWidth span hmem
    have hu : u64 (span.start + npages * PGSIZE) = span.start + npages * PGSIZE :=
      u64_of_lt (by omega)
    rw [hu] at hres
    have hva : (freelistAlloc npages (before ++ span :: after)).va = span.start := by
      rcases hres with ⟨_, heq⟩ | ⟨_, heq⟩ <;> rw [heq]
    have hlower : owned (before ++ span :: after) \ region span.start npages =
        owned before ∪ Set.Ico (span.start + npages * PGSIZE) span.end_ ∪ owned after := by
      have hsep := h.separated
      rw [map_bounds_insert] at hsep
      rw [owned, map_bounds_insert]
      exact hsep.covers_sdiff hfits (Nat.le_add_right _ _)
    refine Or.inr ⟨?_, ?_⟩
    · rw [hva]
      refine ⟨⟨hstart, ?_⟩, fun a hrun => ?_⟩
      · intro a ha
        rw [owned_insert]
        exact Or.inl (Or.inr ⟨ha.1, lt_of_lt_of_le ha.2 hfits⟩)
      · -- the span holding the run is large enough, so it is not before the first one that is
        obtain ⟨s, hs, hlo, hhi⟩ := h.exists_span_of_run hn hrun
        obtain ⟨hsstart, hsend⟩ := h.aligned s hs
        have hbig := (le_numPages_iff npages hsstart hsend (h.nonempty hs).le (h.inWidth s hs)).mpr (by omega)
        rcases List.mem_append.mp hs with hs | hs
        · exact absurd (hbefore s hs) (not_lt.mpr hbig)
        rcases List.mem_cons.mp hs with rfl | hs
        · exact hlo
        · exact ((h.nonempty hmem).trans (h.gap_cons hs)).le.trans hlo
    · obtain ⟨hbeforeWf, hcons⟩ := h.of_append
      have hafterWf : FreelistWf after := hcons.of_cons
      rcases hres with ⟨hempty, heq⟩ | ⟨hleft, heq⟩
      · rw [heq]
        refine ⟨h.erase, ?_⟩
        rw [hlower, hempty, Set.Ico_self, Set.union_empty, ← owned_append]
      · rw [heq]
        refine ⟨hbeforeWf.insert hafterWf ?_ ?_ hend hwidth ?_ ?_, ?_⟩
        · exact lt_of_le_of_ne hfits hleft
        · simp only [PGSIZE] at *
          omega
        · intro s hs
          exact (h.gap hs List.mem_cons_self).trans_le (Nat.le_add_right _ _)
        · exact fun s hs => h.gap_cons hs
        · rw [hlower, owned_insert]

end Alloc

/-! ### Giving a range back -/

section Free

variable {items before after : List VpSpan} {p npages node : Nat}

/-- The scan splits the list at the place of the range. -/
theorem freelistScan_spec (h : FreelistWf items) (hf : Freeable (owned items) p npages) :
    items = (freelistScan (p + npages * PGSIZE) items).1 ++ (freelistScan (p + npages * PGSIZE) items).2 ∧
    (∀ s ∈ (freelistScan (p + npages * PGSIZE) items).1, s.end_ ≤ p) ∧
    ∀ s ∈ (freelistScan (p + npages * PGSIZE) items).2, p + npages * PGSIZE ≤ s.start := by
  have hsplit : items = items.takeWhile (·.start < p + npages * PGSIZE) ++
      items.dropWhile (·.start < p + npages * PGSIZE) := List.takeWhile_append_dropWhile.symm
  have hpos : p < p + npages * PGSIZE := by
    have := hf.nonempty
    simp only [PGSIZE]
    omega
  refine ⟨hsplit, fun s hs => ?_, fun s hs => ?_⟩
  · have hlt : s.start < p + npages * PGSIZE := by simpa using List.mem_takeWhile_imp hs
    have hmem : s ∈ items := hsplit ▸ List.mem_append_left _ hs
    rcases SpanList.le_or_le_of_disjoint hf.disjoint (List.mem_map_of_mem hmem)
      (h.nonempty hmem) hpos with hle | hge
    · exact hle
    · exact absurd hlt (not_lt.mpr hge)
  · change s ∈ items.dropWhile (·.start < p + npages * PGSIZE) at hs
    cases hrest : items.dropWhile (·.start < p + npages * PGSIZE) with
    | nil => rw [hrest] at hs; simp at hs
    | cons head rest =>
        have hhead : p + npages * PGSIZE ≤ head.start := by
          have hne : items.dropWhile (·.start < p + npages * PGSIZE) ≠ [] := by rw [hrest]; simp
          have hnot := List.head_dropWhile_not _ hne
          simpa [hrest] using hnot
        rw [hrest] at hs hsplit
        rcases List.mem_cons.mp hs with rfl | hs
        · exact hhead
        · rw [hsplit] at h
          have hne : head.start < head.end_ := h.nonempty (by simp)
          exact hhead.trans (hne.trans (h.gap_cons hs)).le

theorem freelistFreePrev_spec {prev : VpSpan} (h : FreelistWf (before ++ prev :: after))
    (hprev : prev.end_ = p) (hp : p % PGSIZE = 0)
    (hwidth : p + npages * PGSIZE < 2 ^ 64) (hafter : ∀ s ∈ after, p + npages * PGSIZE ≤ s.start) :
    let r := freelistFreePrev (p + npages * PGSIZE) (before ++ [prev]) after
    r.result = 0 ∧ FreelistWf r.items ∧
      owned r.items = owned (before ++ prev :: after) ∪ region p npages := by
  have hmem : prev ∈ before ++ prev :: after := by simp
  have hpos := h.nonempty hmem
  obtain ⟨hstart, _⟩ := h.aligned prev hmem
  obtain ⟨hbefore, hcons⟩ := h.of_append
  have hend : (p + npages * PGSIZE) % PGSIZE = 0 := by
    simp only [PGSIZE] at *
    omega
  have hjoin : Set.Ico prev.start prev.end_ ∪ region p npages =
      Set.Ico prev.start (p + npages * PGSIZE) := by
    rw [region, hprev]
    exact Set.Ico_union_Ico_eq_Ico (hprev ▸ hpos.le) (Nat.le_add_right _ _)
  have hlt : prev.start < p + npages * PGSIZE := lt_of_lt_of_le (hprev ▸ hpos) (Nat.le_add_right _ _)
  have hleft : ∀ s ∈ before, s.end_ < prev.start := fun s hs => h.gap hs List.mem_cons_self
  cases after with
  | nil =>
      simp only [freelistFreePrev, List.getLast?_concat, List.dropLast_concat, true_and]
      refine ⟨hbefore.insert freelistWf_nil hlt hstart hend hwidth
        hleft (by simp), ?_⟩
      rw [owned_insert, owned_insert, owned_nil, Set.union_empty, Set.union_empty, Set.union_assoc, hjoin]
  | cons next rest =>
      have hnextMem : next ∈ before ++ prev :: next :: rest := by simp
      have hnext : p + npages * PGSIZE ≤ next.start := hafter next List.mem_cons_self
      have hrest := hcons.of_cons.of_cons
      by_cases hadj : p + npages * PGSIZE = next.start
      · simp only [freelistFreePrev, tryMergeSpans, List.getLast?_concat, List.dropLast_concat, hadj,
          ne_eq, not_true_eq_false, if_false, true_and]
        refine ⟨hbefore.insert hrest ?_ hstart (h.aligned next hnextMem).2 (h.inWidth next hnextMem)
          hleft
          (fun s hs => hcons.of_cons.gap_head hs), ?_⟩
        · exact hlt.trans_le (hnext.trans (h.nonempty hnextMem).le)
        · rw [owned_insert, owned_insert, owned_cons]
          have hjoin2 : Set.Ico prev.start (p + npages * PGSIZE) ∪ Set.Ico next.start next.end_ =
              Set.Ico prev.start next.end_ := by
            rw [hadj]
            exact Set.Ico_union_Ico_eq_Ico (hadj ▸ hlt.le) (h.nonempty hnextMem).le
          rw [← hjoin2, ← hjoin]
          ac_rfl
      · simp only [freelistFreePrev, tryMergeSpans, List.getLast?_concat, List.dropLast_concat, ne_eq,
          hadj, not_false_eq_true, if_true, true_and]
        refine ⟨hbefore.insert hcons.of_cons hlt hstart hend hwidth
          hleft ?_, ?_⟩
        · intro s hs
          rcases List.mem_cons.mp hs with rfl | hs
          · exact lt_of_le_of_ne hnext hadj
          · exact lt_of_le_of_lt (hnext.trans (h.nonempty hnextMem).le) (hcons.of_cons.gap_head hs)
        · rw [owned_insert, owned_insert, ← hjoin]
          ac_rfl

theorem freelistFreeNext_spec {next : VpSpan} (h : FreelistWf (before ++ next :: after))
    (hnext : next.start = p + npages * PGSIZE) (hne : 1 ≤ npages) (hp : p % PGSIZE = 0)
    (hbefore : ∀ s ∈ before, s.end_ < p) :
    let r := freelistFreeNext p before (next :: after)
    r.result = 0 ∧ FreelistWf r.items ∧
      owned r.items = owned (before ++ next :: after) ∪ region p npages := by
  have hmem : next ∈ before ++ next :: after := by simp
  have hpos := h.nonempty hmem
  obtain ⟨hbeforeWf, hcons⟩ := h.of_append
  have hitems : (freelistFreeNext p before (next :: after)) =
      ⟨0, before ++ { next with start := p } :: after, []⟩ := by
    rcases List.eq_nil_or_concat before with rfl | ⟨init, prev, rfl⟩
    · simp [freelistFreeNext]
    · have hgap : prev.end_ ≠ p := (hbefore prev (by simp)).ne
      simp [freelistFreeNext, tryMergeSpans, hgap]
  have hlt : p < next.end_ := by
    simp only [PGSIZE] at *
    omega
  have hjoin : Set.Ico next.start next.end_ ∪ region p npages = Set.Ico p next.end_ := by
    rw [region, hnext, Set.union_comm]
    exact Set.Ico_union_Ico_eq_Ico (Nat.le_add_right _ _) (hnext ▸ hpos.le)
  rw [hitems]
  refine ⟨rfl, hbeforeWf.insert hcons.of_cons hlt hp (h.aligned next hmem).2 (h.inWidth next hmem)
    hbefore (fun s hs => h.gap_cons hs), ?_⟩
  rw [owned_insert, owned_insert, ← hjoin]
  ac_rfl

theorem freelistFreeNew_spec (h : FreelistWf (before ++ after)) (hnode : node ≠ 0)
    (hf : Freeable (owned (before ++ after)) p npages) (hbefore : ∀ s ∈ before, s.end_ < p)
    (hafter : ∀ s ∈ after, p + npages * PGSIZE < s.start) :
    let r := freelistFreeNew node p (p + npages * PGSIZE) before after
    r.result = 0 ∧ FreelistWf r.items ∧
      owned r.items = owned (before ++ after) ∪ region p npages := by
  obtain ⟨hbeforeWf, hafterWf⟩ := h.of_append
  have hp := hf.aligned
  have hne := hf.nonempty
  rw [freelistFreeNew, if_neg hnode]
  refine ⟨rfl, hbeforeWf.insert hafterWf ?_ hp ?_ hf.inWidth hbefore hafter, ?_⟩
  · simp only [PGSIZE]
    omega
  · simp only [PGSIZE] at *
    omega
  · rw [owned_insert, owned_append]
    change _ ∪ region p npages ∪ _ = _
    ac_rfl

/-- A range given back is added to the owned pages, or there was no memory for its span and nothing
changed. -/
theorem freelistFree_spec (h : FreelistWf items) (hf : Freeable (owned items) p npages) :
    ((freelistFree items p npages node).result = 0 ∧
      FreelistWf (freelistFree items p npages node).items ∧
      owned (freelistFree items p npages node).items = owned items ∪ region p npages) ∨
    (freelistFree items p npages node = ⟨-1, items, []⟩ ∧ node = 0 ∧
      freelistFreeNeedsNode items p npages = true) := by
  obtain ⟨hsplit, hbefore, hafter⟩ := freelistScan_spec h hf
  have hoff : pgOffset p npages = p + npages * PGSIZE := pgOffset_eq hf.inWidth
  simp only [freelistFree, freelistFreeNeedsNode, hoff]
  generalize (freelistScan (p + npages * PGSIZE) items).1 = before at *
  generalize (freelistScan (p + npages * PGSIZE) items).2 = after at *
  subst hsplit
  by_cases hprev : prevTakes p before = true
  · rw [if_pos hprev]
    rcases List.eq_nil_or_concat before with rfl | ⟨init, prev, rfl⟩
    · simp [prevTakes] at hprev
    · have hend : prev.end_ = p := by simpa [prevTakes] using hprev
      rw [List.concat_eq_append] at *
      rw [List.append_assoc, List.singleton_append] at h ⊢
      exact Or.inl (freelistFreePrev_spec h hend hf.aligned hf.inWidth hafter)
  rw [if_neg hprev]
  have hgap : ∀ s ∈ before, s.end_ < p := by
    intro s hs
    rcases List.eq_nil_or_concat before with rfl | ⟨init, prev, rfl⟩
    · simp at hs
    · have hlast : prev.end_ ≠ p := by simpa [prevTakes] using hprev
      have hlt : prev.end_ < p := lt_of_le_of_ne (hbefore prev (by simp)) hlast
      rw [List.concat_eq_append] at *
      rcases List.mem_append.mp hs with hs | hs
      · rw [List.append_assoc, List.singleton_append] at h
        have hnonempty : prev.start < prev.end_ := h.nonempty (by simp)
        exact ((h.gap hs List.mem_cons_self).trans hnonempty).trans hlt
      · rw [List.mem_singleton] at hs
        exact hs ▸ hlt
  by_cases hnext : nextTakes (p + npages * PGSIZE) after = true
  · rw [if_pos hnext]
    cases after with
    | nil => simp [nextTakes] at hnext
    | cons next rest =>
        have hstart : next.start = p + npages * PGSIZE := by simpa [nextTakes] using hnext
        exact Or.inl (freelistFreeNext_spec h hstart hf.nonempty hf.aligned hgap)
  rw [if_neg hnext]
  by_cases hnode : node = 0
  · refine Or.inr ⟨?_, hnode, ?_⟩
    · rw [freelistFreeNew, if_pos hnode]
    · simp [hprev, hnext]
  · refine Or.inl (freelistFreeNew_spec h hnode hf hgap fun s hs => ?_)
    cases after with
    | nil => simp at hs
    | cons next rest =>
        have hstart : next.start ≠ p + npages * PGSIZE := by simpa [nextTakes] using hnext
        have hlt : p + npages * PGSIZE < next.start :=
          lt_of_le_of_ne (hafter next List.mem_cons_self) hstart.symm
        rcases List.mem_cons.mp hs with rfl | hs
        · exact hlt
        · have hnonempty : next.start < next.end_ := h.nonempty (by simp)
          exact hlt.trans (hnonempty.trans (h.gap_cons hs))

end Free

section Nodes

variable {items before after : List VpSpan} {p npages node start end_ : Nat}

/-- The addresses of the span objects of a list. -/
def nodes (items : List VpSpan) : List Nat := items.map VpSpan.node

/-- `freelist_alloc` frees exactly the objects it takes out of the list. -/
theorem freelistAlloc_nodes (npages : Nat) (items : List VpSpan) :
    ((freelistAlloc npages items).freed ++ nodes (freelistAlloc npages items).items).Perm
      (nodes items) := by
  induction items with
  | nil => exact List.Perm.refl _
  | cons span rest ih =>
      unfold freelistAlloc
      split_ifs with hlarge
      · dsimp only
        split_ifs <;> exact List.Perm.refl _
      · exact List.perm_middle.trans (ih.cons span.node)

theorem freelistFreePrev_nodes (hprev : prevTakes start before = true) :
    ((freelistFreePrev end_ before after).freed ++ nodes (freelistFreePrev end_ before after).items).Perm
      (nodes (before ++ after)) := by
  rcases List.eq_nil_or_concat before with rfl | ⟨init, prev, rfl⟩
  · simp [prevTakes] at hprev
  cases after with
  | nil => simp [freelistFreePrev, nodes]
  | cons next rest =>
      by_cases hadj : end_ = next.start
      · simp only [freelistFreePrev, tryMergeSpans, nodes, List.concat_eq_append,
          List.getLast?_concat, List.dropLast_concat, hadj, ne_eq, not_true_eq_false, if_false,
          List.map_append, List.map_cons, List.append_assoc, List.singleton_append]
        exact (List.perm_middle.symm.trans (List.Perm.append_left _ (List.Perm.swap _ _ _)))
      · simp [freelistFreePrev, tryMergeSpans, nodes, hadj]

theorem freelistFreeNext_nodes (hnext : nextTakes end_ after = true) :
    ((freelistFreeNext start before after).freed ++ nodes (freelistFreeNext start before after).items).Perm
      (nodes (before ++ after)) := by
  cases after with
  | nil => simp [nextTakes] at hnext
  | cons next rest =>
      rcases List.eq_nil_or_concat before with rfl | ⟨init, prev, rfl⟩
      · simp [freelistFreeNext, nodes]
      · by_cases hadj : prev.end_ = start
        · simp only [freelistFreeNext, tryMergeSpans, nodes, List.concat_eq_append,
            List.getLast?_concat, List.dropLast_concat, hadj, ne_eq, not_true_eq_false, if_false,
            List.map_append, List.map_cons, List.append_assoc, List.singleton_append]
          exact (List.perm_middle.symm.trans (List.Perm.append_left _ (List.Perm.swap _ _ _)))
        · simp [freelistFreeNext, tryMergeSpans, nodes, hadj]

theorem freelistScan_append (end_ : Nat) (items : List VpSpan) :
    (freelistScan end_ items).1 ++ (freelistScan end_ items).2 = items :=
  List.takeWhile_append_dropWhile

/-- Without a new object, `freelist_free` frees exactly the objects it takes out of the list. -/
theorem freelistFree_nodes (h : freelistFreeNeedsNode items p npages = false) :
    ((freelistFree items p npages node).freed ++ nodes (freelistFree items p npages node).items).Perm
      (nodes items) := by
  have hsplit := freelistScan_append (pgOffset p npages) items
  unfold freelistFreeNeedsNode at h
  unfold freelistFree
  dsimp only at h ⊢
  split_ifs with hprev hnext
  · exact (freelistFreePrev_nodes hprev).trans (List.Perm.of_eq (congrArg nodes hsplit))
  · exact (freelistFreeNext_nodes hnext).trans (List.Perm.of_eq (congrArg nodes hsplit))
  · simp [hprev, hnext] at h

/-- With a new object, it is the one that the list gains, if there was memory for it. -/
theorem freelistFree_nodes_new (node : Nat) (h : freelistFreeNeedsNode items p npages = true) :
    (freelistFree items p npages node).freed = [] ∧
      (node = 0 → (freelistFree items p npages node).items = items) ∧
      (node ≠ 0 → (nodes (freelistFree items p npages node).items).Perm (node :: nodes items)) := by
  have hsplit := freelistScan_append (pgOffset p npages) items
  unfold freelistFreeNeedsNode at h
  unfold freelistFree
  dsimp only at h ⊢
  simp only [Bool.and_eq_true, Bool.not_eq_true'] at h
  rw [h.1, h.2]
  unfold freelistFreeNew
  by_cases hnode : node = 0
  · simp [hnode, hsplit]
  · simp only [hnode, Bool.false_eq_true, if_false, ne_eq, not_false_eq_true, forall_const,
      false_implies, true_and]
    simp only [nodes, List.map_append, List.map_cons]
    refine List.perm_middle.trans ?_
    rw [← List.map_append, hsplit]

end Nodes

end Dangless
