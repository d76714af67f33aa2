import Dangless.PageTableOpsSpec
import Dangless.TemporalSafety

/-! The protocol in which the allocator changes the page tables: it maps regions that it has just taken from the
freelist, which hold no page that was ever invalidated, and invalidates regions that are mapped. Every call of a client
follows it, and the pages invalidated are those that the call releases. -/

namespace Dangless

variable {σ : Type} {A : SysAllocator σ} {L : DuneLayout} {C : SysContract A L}
  {Z : Fin PT_NUM_ENTRIES → Prop} {others : Set Nat} {maps : List Mapping} {blocks : List (Nat × Nat)}
  {w w' : World σ} {b u size : Nat} {m : Mapping} {H H' H'' : Set Nat} {s s' s'' : PtState}
  {ops more : List PtOp} {pa va p n a : Nat}

/-- A region may be mapped: it is in the memory that may be dedicated, nothing is mapped there, and none of its pages is
among those invalidated before. -/
structure CanMap (Z : Fin PT_NUM_ENTRIES → Prop) (s : PtState) (H : Set Nat) (pa va n : Nat) : Prop where
  inv : PtInv (slotPaths Z) s
  paAligned : pa % PGSIZE = 0
  vaAligned : va % PGSIZE = 0
  positive : 1 ≤ n
  inVmem : region va n ⊆ vmem Z
  unmapped : ∀ k, k < n → s.entry (pgOffset va k) = none
  fresh : Disjoint (region va n) H

/-- A region may be invalidated: all its pages are mapped. -/
structure CanInvalidate (Z : Fin PT_NUM_ENTRIES → Prop) (s : PtState) (p n : Nat) : Prop where
  inv : PtInv (slotPaths Z) s
  bound : roundDown p PGSIZE + n * PGSIZE ≤ 2 ^ 48
  inVmem : region (roundDown p PGSIZE) n ⊆ vmem Z
  mapped : ∀ k, k < n → ∃ w, s.entry (pgOffset (roundDown p PGSIZE) k) = some (.l1, w)

/-- The operations of a call that follows the protocol, where the pages invalidated so far are `H` before it and `H'`
after it. -/
inductive PtTrace (Z : Fin PT_NUM_ENTRIES → Prop) (s : PtState) (H : Set Nat) :
    List PtOp → PtState → Set Nat → Prop
  | nil : PtTrace Z s H [] s H
  | check {ops : List PtOp} {s' : PtState} {H' : Set Nat} (h : PtTrace Z s H ops s' H') :
      PtTrace Z s H (ops ++ [.check true]) s' H'
  | map {ops : List PtOp} {s' : PtState} {H' : Set Nat} {pa va n : Nat} (h : PtTrace Z s H ops s' H')
      (hmap : CanMap Z s' H' pa va n) :
      PtTrace Z s H (ops ++ ptMapRegionOps s' pa va (n * PGSIZE) vremapFlags)
        (ptMapRegion s' pa va (n * PGSIZE) vremapFlags).2 H'
  | invalidate {ops : List PtOp} {s' : PtState} {H' : Set Nat} {p n : Nat} (h : PtTrace Z s H ops s' H')
      (hinvalidate : CanInvalidate Z s' p n) :
      PtTrace Z s H (ops ++ virtualInvalidateOps s' p n) (virtualInvalidate s' p n)
        (H' ∪ region (roundDown p PGSIZE) n)

theorem PtTrace.trans (h : PtTrace Z s H ops s' H') (h' : PtTrace Z s' H' more s'' H'') :
    PtTrace Z s H (ops ++ more) s'' H'' := by
  induction h' with
  | nil => rwa [List.append_nil]
  | check _ ih =>
      rw [← List.append_assoc]
      exact ih.check
  | map _ hmap ih =>
      rw [← List.append_assoc]
      exact ih.map hmap
  | invalidate _ hinvalidate ih =>
      rw [← List.append_assoc]
      exact ih.invalidate hinvalidate

theorem PtTrace.checks {conditions : List Bool} (h : ∀ b ∈ conditions, b = true) :
    PtTrace Z s H (conditions.map .check) s H := by
  induction conditions with
  | nil => exact .nil
  | cons b conditions ih =>
      obtain ⟨rfl, hrest⟩ := List.forall_mem_cons.mp h
      exact (PtTrace.check .nil).trans (ih hrest)

/-- A call that starts with an assertion. -/
theorem PtTrace.cons (h : PtTrace Z s H ops s' H') : PtTrace Z s H (.check true :: ops) s' H' :=
  (PtTrace.check .nil).trans h

theorem CanMap.region (h : CanMap Z s H pa va n) : PtTrace Z s H (ptMapRegionOps s pa va (n * PGSIZE) vremapFlags)
    (ptMapRegion s pa va (n * PGSIZE) vremapFlags).2 H := PtTrace.nil.map h

theorem CanInvalidate.region (h : CanInvalidate Z s p n) : PtTrace Z s H (virtualInvalidateOps s p n)
    (virtualInvalidate s p n) (H ∪ Dangless.region (roundDown p PGSIZE) n) := PtTrace.nil.invalidate h

/-- The operations give the state after the call. -/
theorem PtTrace.apply (h : PtTrace Z s H ops s' H') : s.applyAll ops = s' := by
  induction h with
  | nil => rfl
  | check _ ih => rw [applyAll_append, ih]; rfl
  | map _ _ ih => rw [applyAll_append, ih, applyAll_ptMapRegionOps]
  | invalidate _ _ ih => rw [applyAll_append, ih, applyAll_virtualInvalidateOps]

theorem PtTrace.mono (h : PtTrace Z s H ops s' H') : H ⊆ H' := by
  induction h with
  | nil => exact subset_rfl
  | check _ ih => exact ih
  | map _ _ ih => exact ih
  | invalidate _ _ ih => exact ih.trans Set.subset_union_left

/-- The markers are on the pages that were invalidated, and on no others. -/
def Marks (Z : Fin PT_NUM_ENTRIES → Prop) (s : PtState) (H : Set Nat) : Prop := ∀ a ∈ vmem Z, s.Marked a ↔ a ∈ H

/-- A call that follows the protocol marks the pages that it invalidates, passes its assertions, and leaves no stale
translation. -/
theorem PtTrace.spec (h : PtTrace Z s H ops s' H') (hmarks : Marks Z s H) : OpsOk s ops ∧ Marks Z s' H' := by
  induction h with
  | nil => exact ⟨OpsOk.nil, hmarks⟩
  | check h ih =>
      obtain ⟨hok, hmarks'⟩ := ih
      have hcheck : ∀ t : PtState, OpsOk t [.check true] := fun t =>
        Plain.ok (s := t) ⟨SameView.refl t, by simp, trivial⟩
      exact ⟨hok.append (hcheck _), hmarks'⟩
  | map h hmap ih =>
      obtain ⟨hok, hmarks'⟩ := ih
      have hbound := region_bound hmap.positive hmap.inVmem
      have hpage : ∀ k, k < _ → pgOffset _ k ∈ region _ _ := fun k hk => page_mem_region hbound hk
      have hkeeps := ptMapRegion_keepsMarks hmap.inv vremapFlags_ok hmap.paAligned hmap.vaAligned
        (fun k hk => within_of_mem_vmem (hmap.inVmem (hpage k hk)))
        (pagesDistinct_of_bound hmap.vaAligned hbound) hmap.unmapped fun k hk hmarked =>
          Set.disjoint_left.mp hmap.fresh (hpage k hk) ((hmarks' _ (hmap.inVmem (hpage k hk))).mp hmarked)
      have hmarked := hkeeps.marked
      rw [applyAll_ptMapRegionOps] at hmarked
      refine ⟨hok.append (h.apply ▸ hkeeps.toOpsOk), fun a ha => (hmarked a).trans (hmarks' a ha)⟩
  | invalidate h hinvalidate ih =>
      obtain ⟨hok, hmarks'⟩ := ih
      have hbound := hinvalidate.bound
      obtain ⟨hinvalidated, hmarked⟩ := virtualInvalidate_ok hinvalidate.inv rfl
        (fun k hk => within_of_mem_vmem (hinvalidate.inVmem (page_mem_region hbound hk)))
        (pagesDistinct_of_bound (roundDown_aligned _) hbound) hinvalidate.mapped
      refine ⟨hok.append (h.apply ▸ hinvalidated), fun a ha => ?_⟩
      rw [hmarked a, hmarks' a ha, Set.mem_union, mem_region_iff_path (roundDown_aligned _) hbound ha.1]

end Dangless
