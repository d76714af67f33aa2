import Dangless.VirtmemAllocRefine

/-! The freelist as a canonical form of the pages that were freed: the order in which they came back, and the
pieces in which they did, leave no trace in it. Address 0 may be freed here, and then the address that
`vp_alloc` returns does not tell a region from none. The last page of the space may be freed as well; the end of
its region is 0, before every other span. -/

namespace Dangless

variable {items : List VpSpan} {calls : List VpCall} {npages : Nat}

/-- The last page of the 64-bit space. -/
def LAST_PAGE : Nat := 2 ^ 64 - PGSIZE

/-- The addresses of a span by the words for its two ends. -/
def VpSpan.Holds (span : VpSpan) (a : Nat) : Prop :=
  a < 2 ^ 64 ∧ u64 (a + 2 ^ 64 - span.start) < span.numPages * PGSIZE

/-- The addresses of the pages of the freelist, also where a span ends with the space. -/
def held (items : List VpSpan) : Set Nat := {a | ∃ span ∈ items, span.Holds a}

theorem VpSpan.Holds.mem_Ico {span : VpSpan} {a : Nat} (h : span.Holds a) (hle : span.start ≤ span.end_)
    (hwidth : span.end_ < 2 ^ 64) : span.start ≤ a ∧ a < span.end_ := by
  obtain ⟨ha, hin⟩ := h
  simp only [numPages, spanPages, u64, PGSIZE] at *
  omega

/-- Where no span ends with the space, these are the addresses between the ends. -/
theorem FreelistWf.held_eq (h : FreelistWf items) : held items = owned items := by
  ext a
  constructor
  · rintro ⟨span, hspan, hholds⟩
    exact ⟨span.bounds, List.mem_map_of_mem hspan, hholds.mem_Ico (h.nonempty hspan).le (h.inWidth span hspan)⟩
  · rintro ⟨bounds, hbounds, hlo, hhi⟩
    obtain ⟨span, hspan, rfl⟩ := List.mem_map.mp hbounds
    obtain ⟨hstart, hend⟩ := h.aligned span hspan
    have hwidth := h.inWidth span hspan
    refine ⟨span, hspan, ?_⟩
    simp only [VpSpan.Holds, VpSpan.bounds, VpSpan.numPages, spanPages, u64, PGSIZE] at *
    omega

theorem FreelistWf.lastPage_notMem (h : FreelistWf items) : LAST_PAGE ∉ owned items := by
  rintro ⟨bounds, hbounds, hlo, hhi⟩
  obtain ⟨span, hspan, rfl⟩ := List.mem_map.mp hbounds
  obtain ⟨-, hend⟩ := h.aligned span hspan
  have hwidth := h.inWidth span hspan
  simp only [LAST_PAGE, VpSpan.bounds, PGSIZE] at *
  omega

theorem disjoint_held {p : Nat} (h : ∀ span ∈ items, span.start ≤ span.end_ ∧ span.end_ < 2 ^ 64 ∧
    (span.end_ ≤ p ∨ p + npages * PGSIZE ≤ span.start)) : Disjoint (region p npages) (held items) := by
  rw [Set.disjoint_left]
  rintro a ⟨hlo, hhi⟩ ⟨span, hspan, hholds⟩
  obtain ⟨hle, hwidth, hapart⟩ := h span hspan
  have hmem := hholds.mem_Ico hle hwidth
  omega

/-- The calls that the assertions of the code admit, with regions that are not owned already. `vp_free_region` is a
call of `vp_free`. -/
def VpCall.Admitted (items : List VpSpan) : VpCall → Prop
  | .alloc npages => 1 ≤ npages
  | .free p npages _ =>
      p % PGSIZE = 0 ∧ 1 ≤ npages ∧ p + npages * PGSIZE ≤ 2 ^ 64 ∧ Disjoint (region p npages) (held items)
  | .reset => True

/-- No region ends where the space does. -/
def VpCall.EndsBelow : VpCall → Prop
  | .alloc _ => True
  | .free p npages _ => p + npages * PGSIZE < 2 ^ 64
  | .reset => True

instance : (call : VpCall) → Decidable call.EndsBelow
  | .alloc _ => inferInstanceAs (Decidable True)
  | .free _ _ _ => inferInstanceAs (Decidable (_ < _))
  | .reset => inferInstanceAs (Decidable True)

def VpAnyStep (items : List VpSpan) (call : VpCall) (items' : List VpSpan) : Prop :=
  call.Admitted items ∧ items' = call.run items

theorem freelistFree_wf {p node : Nat} (h : FreelistWf items) (hf : Freeable (owned items) p npages) :
    FreelistWf (freelistFree items p npages node).items := by
  rcases freelistFree_spec h hf with ⟨-, hwf, -⟩ | ⟨heq, -, -⟩
  · exact hwf
  · rw [heq]
    exact h

theorem freelistAlloc_wf (h : FreelistWf items) (hn : 1 ≤ npages) :
    FreelistWf (freelistAlloc npages items).items := by
  rcases freelistAlloc_spec h hn with ⟨heq, -⟩ | ⟨-, hwf, -⟩
  · rw [heq]
    exact h
  · exact hwf

theorem vpAnyStep_wf (items : List VpSpan) (call : VpCall) (items' : List VpSpan) (h : FreelistWf items)
    (hbelow : call.EndsBelow) (hstep : VpAnyStep items call items') : FreelistWf items' := by
  obtain ⟨hadmitted, rfl⟩ := hstep
  cases call with
  | alloc npages => exact freelistAlloc_wf h hadmitted
  | free p npages node =>
      obtain ⟨haligned, hne, -, hapart⟩ := hadmitted
      rw [h.held_eq] at hapart
      exact freelistFree_wf h ⟨haligned, hne, hbelow, hapart⟩
  | reset => exact freelistWf_nil

theorem vpAnyRun_wf (hrun : Lts.Run VpAnyStep [] calls items) (hbelow : ∀ call ∈ calls, call.EndsBelow) :
    FreelistWf items :=
  hrun.invariant_of vpAnyStep_wf hbelow freelistWf_nil

/-- Where `vp_alloc(npages)` returns `NULL`, no page is taken, and no region is long enough. -/
def NullTakesNothing (npages : Nat) (items : List VpSpan) : Prop :=
  (freelistAlloc npages items).va = 0 →
    held (freelistAlloc npages items).items = held items ∧ ∀ a, ¬ RunAt (held items) npages a

/-- **In a run without regions that end where the space does, `NULL` is an answer of its own exactly where the pages
from address 0 on would not do.** -/
theorem nullTakesNothing_iff (hrun : Lts.Run VpAnyStep [] calls items) (hbelow : ∀ call ∈ calls, call.EndsBelow)
    (hn : 1 ≤ npages) : NullTakesNothing npages items ↔ ¬ RunAt (held items) npages 0 := by
  have hwf := vpAnyRun_wf hrun hbelow
  unfold NullTakesNothing
  rw [(freelistAlloc_wf hwf hn).held_eq, hwf.held_eq]
  rcases freelistAlloc_spec hwf hn with ⟨heq, hnone⟩ | ⟨hleast, -, -⟩
  · refine iff_of_true (fun _ => ?_) (hnone 0)
    rw [heq]
    exact ⟨rfl, hnone⟩
  · constructor
    · intro htakes hzero
      have hva : (freelistAlloc npages items).va = 0 := Nat.le_zero.mp (hleast.2 hzero)
      exact (htakes hva).2 0 hzero
    · intro hnot hva
      rw [hva] at hleast
      exact absurd hleast.1 hnot

/-- One page is freed at 4096, and one is asked for. -/
theorem nullTakesNothing_iff_page :
    NullTakesNothing 1 [⟨1, 4096, 8192⟩] ↔ ¬ RunAt (held [⟨1, 4096, 8192⟩]) 1 0 := by
  have hstep : VpAnyStep [] (.free 4096 1 1) [⟨1, 4096, 8192⟩] :=
    ⟨⟨by decide, by decide, by decide, disjoint_held (by decide)⟩, by decide⟩
  exact nullTakesNothing_iff (Lts.Run.single hstep) (by decide) (by decide)

/-- The last two pages of the space, after they have been freed one by one. -/
def lastPages : List VpSpan := [⟨2, LAST_PAGE, 0⟩, ⟨1, LAST_PAGE - PGSIZE, LAST_PAGE⟩]

/-- The pages from address 0 on are freed: `vp_alloc` takes them and returns `NULL`. The last two pages of the space
are freed, the lower one first: `vp_alloc` does not find that they are consecutive. -/
theorem nullTakesNothing_zero :
    (Lts.Run VpAnyStep [] [.free 0 2 1] [⟨1, 0, 8192⟩] ∧ ¬ NullTakesNothing 1 [⟨1, 0, 8192⟩]) ∧
    Lts.Run VpAnyStep [] [.free (LAST_PAGE - PGSIZE) 1 1, .free LAST_PAGE 1 2] lastPages ∧
      ¬ RunAt (held lastPages) 2 0 ∧ ¬ NullTakesNothing 2 lastPages := by
  constructor
  · have hstep : VpAnyStep [] (.free 0 2 1) [⟨1, 0, 8192⟩] :=
      ⟨⟨by decide, by decide, by decide, disjoint_held (by decide)⟩, by decide⟩
    refine ⟨Lts.Run.single hstep, fun htakes => ?_⟩
    refine (htakes (by decide)).2 0 ⟨by decide, fun a ha => ⟨⟨1, 0, 8192⟩, List.mem_cons_self, ?_⟩⟩
    simp only [mem_region, VpSpan.Holds, VpSpan.numPages, spanPages, u64, PGSIZE] at *
    omega
  · have hrun : Lts.Run VpAnyStep [] ([.free (LAST_PAGE - PGSIZE) 1 1] ++ [.free LAST_PAGE 1 2]) lastPages := by
      refine (Lts.Run.single ⟨⟨by decide, by decide, by decide, ?_⟩, rfl⟩).snoc
        ⟨⟨by decide, by decide, by decide, ?_⟩, by decide⟩
      · exact disjoint_held (by decide)
      · exact disjoint_held (by decide)
    refine ⟨hrun, fun hzero => ?_, fun htakes => ?_⟩
    · obtain ⟨span, hspan, hholds⟩ := hzero.2 (mem_region.mpr ⟨le_rfl, by decide⟩)
      simp only [lastPages, List.mem_cons, List.not_mem_nil, or_false] at hspan
      rcases hspan with rfl | rfl <;>
        simp only [VpSpan.Holds, VpSpan.numPages, spanPages, u64, LAST_PAGE, PGSIZE] at hholds <;> omega
    · refine (htakes (by decide)).2 (LAST_PAGE - PGSIZE) ⟨by decide, fun a ha => ?_⟩
      by_cases hlast : a < LAST_PAGE
      · refine ⟨⟨1, LAST_PAGE - PGSIZE, LAST_PAGE⟩, by simp [lastPages], ?_⟩
        simp only [mem_region, VpSpan.Holds, VpSpan.numPages, spanPages, u64, LAST_PAGE, PGSIZE] at *
        omega
      · refine ⟨⟨2, LAST_PAGE, 0⟩, by simp [lastPages], ?_⟩
        simp only [mem_region, VpSpan.Holds, VpSpan.numPages, spanPages, u64, LAST_PAGE, PGSIZE] at *
        omega

/-! ### Pages that are freed piece by piece -/

/-- A call of `vp_free`, with the object that `MALLOC(struct vp_span)` has for it. -/
structure Piece where
  p : Nat
  npages : Nat
  node : Nat

def Piece.pages (piece : Piece) : Set Nat := region piece.p piece.npages

/-- The pages of several pieces. -/
def piecesPages : List Piece → Set Nat
  | [] => ∅
  | piece :: pieces => piece.pages ∪ piecesPages pieces

/-- Pieces that pages are cut into, in the order in which they are freed, each with memory for a span object. -/
structure CutInto (pages : Set Nat) (pieces : List Piece) : Prop where
  aligned : ∀ piece ∈ pieces, piece.p % PGSIZE = 0
  nonempty : ∀ piece ∈ pieces, 1 ≤ piece.npages
  inSpace : ∀ piece ∈ pieces, piece.p + piece.npages * PGSIZE ≤ 2 ^ 64
  node : ∀ piece ∈ pieces, piece.node ≠ 0
  apart : pieces.Pairwise fun first second => Disjoint first.pages second.pages
  cover : piecesPages pieces = pages

theorem CutInto.tail {pages : Set Nat} {piece : Piece} {pieces : List Piece} (h : CutInto pages (piece :: pieces)) :
    CutInto (piecesPages pieces) pieces where
  aligned later hlater := h.aligned later (List.mem_cons_of_mem _ hlater)
  nonempty later hlater := h.nonempty later (List.mem_cons_of_mem _ hlater)
  inSpace later hlater := h.inSpace later (List.mem_cons_of_mem _ hlater)
  node later hlater := h.node later (List.mem_cons_of_mem _ hlater)
  apart := (List.pairwise_cons.mp h.apart).2
  cover := rfl

/-- Without the last page of the space, no piece ends with the space. -/
theorem lastPage_mem {piece : Piece} (haligned : piece.p % PGSIZE = 0) (hne : 1 ≤ piece.npages)
    (hspace : piece.p + piece.npages * PGSIZE ≤ 2 ^ 64) (hlast : LAST_PAGE ∉ piece.pages) :
    piece.p + piece.npages * PGSIZE < 2 ^ 64 := by
  by_contra hend
  apply hlast
  rw [Piece.pages, mem_region]
  simp only [LAST_PAGE, PGSIZE] at *
  omega

theorem disjoint_piecesPages {pages : Set Nat} {pieces : List Piece}
    (h : ∀ piece ∈ pieces, Disjoint pages piece.pages) : Disjoint pages (piecesPages pieces) := by
  induction pieces with
  | nil => exact Set.disjoint_empty _
  | cons piece pieces ih =>
      apply Set.disjoint_union_right.mpr
      exact ⟨h piece List.mem_cons_self, ih fun later hlater => h later (List.mem_cons_of_mem _ hlater)⟩

/-- The list that a call of `vp_free` for each piece leaves. -/
def freelistFreeAll : List VpSpan → List Piece → List VpSpan
  | items, [] => items
  | items, piece :: pieces => freelistFreeAll (freelistFree items piece.p piece.npages piece.node).items pieces

theorem freelistFreeAll_spec {pages : Set Nat} {pieces : List Piece} (h : FreelistWf items)
    (hcut : CutInto pages pieces) (hlast : LAST_PAGE ∉ pages) (hapart : Disjoint pages (owned items)) :
    FreelistWf (freelistFreeAll items pieces) ∧ owned (freelistFreeAll items pieces) = owned items ∪ pages := by
  obtain rfl := hcut.cover
  induction pieces generalizing items with
  | nil => exact ⟨h, (Set.union_empty _).symm⟩
  | cons piece pieces ih =>
      obtain ⟨hhead, hlater⟩ := Set.disjoint_union_left.mp hapart
      obtain ⟨hbetween, -⟩ := List.pairwise_cons.mp hcut.apart
      obtain ⟨hlastHead, hlastLater⟩ := not_or.mp hlast
      have haligned := hcut.aligned piece List.mem_cons_self
      have hne := hcut.nonempty piece List.mem_cons_self
      have hbelow := lastPage_mem haligned hne (hcut.inSpace piece List.mem_cons_self) hlastHead
      rcases freelistFree_spec h ⟨haligned, hne, hbelow, hhead⟩ with ⟨-, hwf, howned⟩ | ⟨-, hnone, -⟩
      · have hapart' : Disjoint (piecesPages pieces)
            (owned (freelistFree items piece.p piece.npages piece.node).items) := by
          rw [howned]
          exact Set.disjoint_union_right.mpr ⟨hlater, (disjoint_piecesPages hbetween).symm⟩
        obtain ⟨hwf', howned'⟩ := ih hwf hcut.tail hlastLater hapart'
        refine ⟨hwf', ?_⟩
        calc owned (freelistFreeAll (freelistFree items piece.p piece.npages piece.node).items pieces)
            = owned (freelistFree items piece.p piece.npages piece.node).items ∪ piecesPages pieces := howned'
          _ = owned items ∪ piece.pages ∪ piecesPages pieces := by rw [howned, Piece.pages]
          _ = owned items ∪ piecesPages (piece :: pieces) := Set.union_assoc _ _ _
      · exact absurd hnone (hcut.node piece List.mem_cons_self)

/-- A well-formed list is determined by the pages that it owns, but for the addresses of its objects. -/
theorem FreelistWf.ext {items' : List VpSpan} (h : FreelistWf items) (h' : FreelistWf items')
    (howned : owned items = owned items') : items.map VpSpan.bounds = items'.map VpSpan.bounds :=
  h.separated.ext h'.separated howned

/-- The list of spans does not depend on the order in which pages are freed, nor on the pieces. -/
def OrderIrrelevant (items : List VpSpan) (pages : Set Nat) : Prop :=
  ∀ pieces pieces', CutInto pages pieces → CutInto pages pieces' →
    (freelistFreeAll items pieces).map VpSpan.bounds = (freelistFreeAll items pieces').map VpSpan.bounds

/-- The spans that are left depend on the pages that are freed alone, neither on their order nor on the pieces, and
a region that was allocated can be put back in any pieces. -/
structure CanonicalFreelist (items : List VpSpan) : Prop where
  order : ∀ pages, Disjoint pages (held items) → LAST_PAGE ∉ pages → OrderIrrelevant items pages
  putBack : ∀ npages, 1 ≤ npages → (freelistAlloc npages items).va ≠ 0 →
    ∀ pieces, CutInto (region (freelistAlloc npages items).va npages) pieces →
      (freelistFreeAll (freelistAlloc npages items).items pieces).map VpSpan.bounds = items.map VpSpan.bounds

/-- **The freelist is a canonical form of the pages that were freed**, where the last page of the space is not one
of them. -/
theorem canonicalFreelist_of_run (hrun : Lts.Run VpAnyStep [] calls items)
    (hbelow : ∀ call ∈ calls, call.EndsBelow) : CanonicalFreelist items := by
  have hwf := vpAnyRun_wf hrun hbelow
  constructor
  · intro pages hapart hlast pieces pieces' hcut hcut'
    rw [hwf.held_eq] at hapart
    obtain ⟨hleft, howned⟩ := freelistFreeAll_spec hwf hcut hlast hapart
    obtain ⟨hright, howned'⟩ := freelistFreeAll_spec hwf hcut' hlast hapart
    apply hleft.ext hright
    rw [howned, howned']
  · intro npages hn hva pieces hcut
    rcases freelistAlloc_spec hwf hn with ⟨heq, -⟩ | ⟨hleast, hwf', htaken⟩
    · rw [heq] at hva
      exact absurd rfl hva
    · have hapart : Disjoint (region (freelistAlloc npages items).va npages)
          (owned (freelistAlloc npages items).items) := by
        rw [htaken]
        exact Set.disjoint_sdiff_right
      have hlast : LAST_PAGE ∉ region (freelistAlloc npages items).va npages := fun hmem =>
        hwf.lastPage_notMem (hleast.1.2 hmem)
      obtain ⟨hback, howned⟩ := freelistFreeAll_spec hwf' hcut hlast hapart
      apply hback.ext hwf
      rw [howned, htaken]
      exact Set.sdiff_union_of_subset hleast.1.2

/-- Two regions, then the one between them. -/
theorem canonicalFreelist_of_run_merge : CanonicalFreelist [⟨1, 4096, 28672⟩] := by
  have hrun : Lts.Run VpAnyStep [] ([.free 4096 2 1] ++ [.free 20480 2 2] ++ [.free 12288 2 3])
      [⟨1, 4096, 28672⟩] := by
    refine ((Lts.Run.single ⟨⟨by decide, by decide, by decide, ?_⟩, rfl⟩).snoc
      ⟨⟨by decide, by decide, by decide, ?_⟩, rfl⟩).snoc
      ⟨⟨by decide, by decide, by decide, ?_⟩, by decide⟩
    · exact disjoint_held (by decide)
    · exact disjoint_held (by decide)
    · exact disjoint_held (by decide)
  exact canonicalFreelist_of_run hrun (by decide)

def lowPiece : Piece := ⟨4096, 1, 1⟩

def lastPiece : Piece := ⟨LAST_PAGE, 1, 2⟩

/-- The page at 4096 and the last page of the space are freed, in both orders. -/
theorem canonicalFreelist_last : Disjoint (piecesPages [lowPiece, lastPiece]) (held []) ∧
    ¬ OrderIrrelevant [] (piecesPages [lowPiece, lastPiece]) := by
  have hapart : Disjoint lowPiece.pages lastPiece.pages := Set.disjoint_left.mpr fun a hlow hlast => by
    simp only [lowPiece, lastPiece, Piece.pages, mem_region, LAST_PAGE, PGSIZE] at hlow hlast
    omega
  have hcut : CutInto (piecesPages [lowPiece, lastPiece]) [lowPiece, lastPiece] :=
    ⟨by decide, by decide, by decide, by decide, by simpa using hapart, rfl⟩
  have hcut' : CutInto (piecesPages [lowPiece, lastPiece]) [lastPiece, lowPiece] := by
    refine ⟨by decide, by decide, by decide, by decide, by simpa using hapart.symm, ?_⟩
    simp only [piecesPages, Set.union_empty]
    exact Set.union_comm _ _
  refine ⟨Set.disjoint_left.mpr fun a _ hheld => ?_, fun hsame => ?_⟩
  · obtain ⟨span, hspan, -⟩ := hheld
    cases hspan
  · exact absurd (hsame _ _ hcut hcut') (by decide)

end Dangless
