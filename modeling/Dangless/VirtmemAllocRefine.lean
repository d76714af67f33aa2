import Dangless.LibRun
import Dangless.VirtmemAllocSpec

/-! Runs of the virtual page allocator from its initial state, and the abstract allocator over a set
of pages that they refine: lowest-address first fit. -/

namespace Dangless

namespace PageSet

/-- Allocation: the lowest run that is long enough is taken out, or there is none. -/
def Alloc (pages : Set Nat) (npages va : Nat) (pages' : Set Nat) : Prop :=
  (va ≠ 0 ∧ IsLeast {a | RunAt pages npages a} va ∧ pages' = pages \ region va npages) ∨
  (va = 0 ∧ pages' = pages ∧ ∀ a, ¬ RunAt pages npages a)

/-- Giving a range back: exactly its pages are added, or nothing happens. -/
def Free (pages : Set Nat) (p npages : Nat) (result : Int) (pages' : Set Nat) : Prop :=
  (result = 0 ∧ pages' = pages ∪ region p npages) ∨ (result = -1 ∧ pages' = pages)

end PageSet

/-! ### Runs of the code -/

/-- A call of `vp_alloc`, `vp_free` or `vp_reset`; a call of `vp_free` comes with the answer `node` of
`MALLOC(struct vp_span)`. -/
inductive VpCall where
  | alloc (npages : Nat)
  | free (p npages node : Nat)
  | reset
  deriving DecidableEq, Repr

/-- The list a call leaves. -/
def VpCall.run (items : List VpSpan) : VpCall → List VpSpan
  | .alloc npages => (freelistAlloc npages items).items
  | .free p npages node => (freelistFree items p npages node).items
  | .reset => (freelistReset items).1

/-- The calls a caller may make: at least one page, and only ranges that are page-aligned, do not
wrap, do not hold address 0 and are not owned already. -/
def VpCall.Legal (items : List VpSpan) : VpCall → Prop
  | .alloc npages => 1 ≤ npages
  | .free p npages _ => Freeable (owned items) p npages ∧ p ≠ 0
  | .reset => True

def VpStep (items : List VpSpan) (call : VpCall) (items' : List VpSpan) : Prop :=
  call.Legal items ∧ items' = call.run items

/-- What every reachable freelist satisfies. -/
structure VpInv (items : List VpSpan) : Prop where
  wf : FreelistWf items
  nonnull : 0 ∉ owned items

theorem vpInv_nil : VpInv [] := ⟨freelistWf_nil, by simp⟩

theorem zero_notMem_region {p npages : Nat} (hp : p ≠ 0) : 0 ∉ region p npages := by
  intro h
  exact hp (Nat.le_zero.mp h.1)

/-- Owned pages give non-null pointers, so `NULL` means that no run exists. -/
theorem vpAlloc_refines {items : List VpSpan} {npages : Nat} (h : VpInv items) (hn : 1 ≤ npages) :
    VpInv (freelistAlloc npages items).items ∧
    PageSet.Alloc (owned items) npages (freelistAlloc npages items).va
      (owned (freelistAlloc npages items).items) ∧
    ((freelistAlloc npages items).va = 0 → (freelistAlloc npages items).items = items) := by
  rcases freelistAlloc_spec h.wf hn with ⟨heq, hnone⟩ | ⟨hleast, hwf, howned⟩
  · rw [heq]
    exact ⟨h, Or.inr ⟨rfl, rfl, hnone⟩, fun _ => rfl⟩
  · have hva : (freelistAlloc npages items).va ≠ 0 := by
      intro hzero
      have hmem : (0 : Nat) ∈ region (freelistAlloc npages items).va npages := by
        rw [hzero, mem_region]
        simp only [PGSIZE]
        omega
      exact h.nonnull (hleast.1.2 hmem)
    refine ⟨⟨hwf, fun h0 => ?_⟩, Or.inl ⟨hva, hleast, howned⟩, fun hzero => absurd hzero hva⟩
    rw [howned] at h0
    exact h.nonnull h0.1

theorem vpFree_refines {items : List VpSpan} {p npages node : Nat} (h : VpInv items)
    (hf : Freeable (owned items) p npages) (hp : p ≠ 0) :
    VpInv (freelistFree items p npages node).items ∧
    PageSet.Free (owned items) p npages (freelistFree items p npages node).result
      (owned (freelistFree items p npages node).items) ∧
    ((freelistFree items p npages node).result = -1 →
      node = 0 ∧ (freelistFree items p npages node).items = items) := by
  rcases freelistFree_spec h.wf hf with ⟨hres, hwf, howned⟩ | ⟨heq, hnode, _⟩
  · refine ⟨⟨hwf, fun h0 => ?_⟩, Or.inl ⟨hres, howned⟩, fun hfail => ?_⟩
    · rw [howned] at h0
      exact h0.elim h.nonnull (zero_notMem_region hp)
    · rw [hres] at hfail
      exact absurd hfail (by decide)
  · rw [heq]
    exact ⟨h, Or.inr ⟨rfl, rfl⟩, fun _ => ⟨hnode, rfl⟩⟩

theorem vpStep_inv (items : List VpSpan) (call : VpCall) (items' : List VpSpan) (h : VpInv items)
    (hstep : VpStep items call items') : VpInv items' := by
  obtain ⟨hlegal, rfl⟩ := hstep
  cases call with
  | alloc npages => exact (vpAlloc_refines h hlegal).1
  | free p npages node => exact (vpFree_refines h hlegal.1 hlegal.2).1
  | reset => exact vpInv_nil

/-- **The freelist refines lowest-address first fit on a set of pages**, in every state a run of calls
reaches from the empty list. -/
theorem vpRun_refines {calls : List VpCall} {items : List VpSpan}
    (hrun : Lts.Run VpStep [] calls items) :
    ((∀ span ∈ items, span.start < span.end_ ∧ span.start % PGSIZE = 0 ∧ span.end_ % PGSIZE = 0) ∧
      items.Pairwise fun left right => left.end_ < right.start) ∧
    (∀ p npages node, Freeable (owned items) p npages → p ≠ 0 →
      PageSet.Free (owned items) p npages (freelistFree items p npages node).result
        (owned (freelistFree items p npages node).items) ∧
      ((freelistFree items p npages node).result = -1 →
        node = 0 ∧ (freelistFree items p npages node).items = items)) ∧
    ∀ npages, 1 ≤ npages →
      PageSet.Alloc (owned items) npages (freelistAlloc npages items).va
        (owned (freelistAlloc npages items).items) ∧
      ((freelistAlloc npages items).va = 0 ↔ ∀ a, ¬ RunAt (owned items) npages a) ∧
      ((freelistAlloc npages items).va = 0 → (freelistAlloc npages items).items = items) := by
  have h : VpInv items := hrun.invariant vpStep_inv vpInv_nil
  refine ⟨⟨fun span hspan => ?_, ?_⟩, fun p npages node hf hp => ?_, fun npages hn => ?_⟩
  · exact ⟨h.wf.nonempty hspan, h.wf.aligned span hspan⟩
  · exact List.pairwise_map.mp h.wf.separated.2
  · exact (vpFree_refines h hf hp).2
  · obtain ⟨_, halloc, hsame⟩ := vpAlloc_refines h hn
    refine ⟨halloc, ⟨fun hzero => ?_, fun hnone => ?_⟩, hsame⟩
    · rcases halloc with ⟨hne, _⟩ | ⟨_, _, hnone⟩
      · exact absurd hzero hne
      · exact hnone
    · rcases halloc with ⟨_, hleast, _⟩ | ⟨hzero, _⟩
      · exact absurd hleast.1 (hnone _)
      · exact hzero

/-- Two ranges, then the one between them: one span is left, and it holds a run of two pages. -/
theorem vpRun_refines_merge :
    (freelistAlloc 2 [⟨1, 4096, 28672⟩]).va = 4096 ∧
    ((freelistAlloc 2 [⟨1, 4096, 28672⟩]).va = 0 ↔
      ∀ a, ¬ RunAt (owned [⟨1, 4096, 28672⟩]) 2 a) := by
  have hrun : Lts.Run VpStep [] ([.free 4096 2 1] ++ [.free 20480 2 2] ++ [.free 12288 2 3])
      [⟨1, 4096, 28672⟩] := by
    refine ((Lts.Run.single ⟨⟨⟨by decide, by decide, by decide, ?_⟩, by decide⟩, rfl⟩).snoc
      ⟨⟨⟨by decide, by decide, by decide, ?_⟩, by decide⟩, rfl⟩).snoc
      ⟨⟨⟨by decide, by decide, by decide, ?_⟩, by decide⟩, by decide⟩
    · exact disjoint_owned (by decide)
    · exact disjoint_owned (by decide)
    · exact disjoint_owned (by decide)
  exact ⟨by decide, ((vpRun_refines hrun).2.2 2 (by decide)).2.1⟩

end Dangless
