import Dangless.VirtmemAllocHeap

/-! The critical sections compute, in the memory of the `vp_span` objects, what the functions on lists of spans say: every
access and every assertion is in order, each body ends, and the objects that are left are those of the list. -/

namespace Dangless

open LinkedList

/-- The memory holds the list `items`. Besides its objects, those of `hand` are allocated, and no others. -/
structure HoldsSpans (s : SpanStore) (items : List VpSpan) (hand : List Nat) : Prop where
  linked : Linked s (nodes items)
  val : ∀ span ∈ items, s.val span.node = ⟨span.start, span.end_⟩
  live : ∀ a, s.live a = true ↔ a ∈ nodes items ∨ a ∈ hand
  apart : ∀ a ∈ hand, a ∉ nodes items
  null : s.live 0 = false

section Holds

variable {s t : SpanStore} {items before after : List VpSpan} {span : VpSpan} {hand : List Nat} {a : Nat}

theorem nodes_nil : nodes [] = [] := rfl

theorem nodes_append (before after : List VpSpan) : nodes (before ++ after) = nodes before ++ nodes after :=
  List.map_append

theorem nodes_cons (span : VpSpan) (after : List VpSpan) : nodes (span :: after) = span.node :: nodes after := rfl

theorem nodes_insert (before after : List VpSpan) (span : VpSpan) :
    nodes (before ++ span :: after) = nodes before ++ span.node :: nodes after := by
  rw [nodes_append, nodes_cons]

theorem mem_nodes (h : span ∈ items) : span.node ∈ nodes items := List.mem_map_of_mem h

namespace HoldsSpans

theorem live_of_mem (h : HoldsSpans s items hand) (hspan : span ∈ items) : s.live span.node = true :=
  (h.live _).mpr (Or.inl (mem_nodes hspan))

theorem loadSpan (h : HoldsSpans s items hand) (hspan : span ∈ items) :
    loadSpan s span.node = some ⟨span.start, span.end_⟩ := by
  rw [Dangless.loadSpan, if_pos (h.live_of_mem hspan), h.val span hspan]

theorem loadNext (h : HoldsSpans s (before ++ span :: after) hand) :
    loadPtr s (.next span.node) = some (front (nodes after) none) := by
  have hlive : s.live span.node = true := h.live_of_mem (by simp)
  have hlinked := h.linked
  rw [nodes_insert] at hlinked
  obtain ⟨-, -, hnext, -⟩ := hlinked.split
  rw [loadPtr_eq (p := .next span.node) hlive, Store.get_next, hnext]

/-- Other spans have other objects. -/
theorem node_ne (h : HoldsSpans s (before ++ span :: after) hand) {other : VpSpan} (hother : other ∈ before ++ after) :
    other.node ≠ span.node := by
  have hnodup := h.linked.nodup
  rw [nodes_insert, List.nodup_middle, ← nodes_append] at hnodup
  exact fun heq => (List.nodup_cons.mp hnodup).1 (heq ▸ mem_nodes hother)

/-- An assignment to the fields of a span. -/
theorem storeSpan (h : HoldsSpans s (before ++ span :: after) hand) (r : SpanRange) :
    ∃ t, storeSpan s span.node r = some t ∧
      HoldsSpans t (before ++ ⟨span.node, r.start, r.end_⟩ :: after) hand := by
  have hnodes : nodes (before ++ ⟨span.node, r.start, r.end_⟩ :: after) = nodes (before ++ span :: after) := by
    rw [nodes_insert, nodes_insert]
  refine ⟨s.setVal span.node r, if_pos (h.live_of_mem (by simp)), ?_, fun other hother => ?_, ?_, ?_, h.null⟩
  · rw [hnodes]
    exact h.linked.congr rfl rfl rfl fun _ _ => rfl
  · rw [Store.val_setVal]
    rcases List.mem_cons.mp (List.perm_middle.mem_iff.mp hother) with rfl | hother
    · rw [Function.update_self]
    · rw [Function.update_of_ne (h.node_ne hother)]
      exact h.val other (List.perm_middle.mem_iff.mpr (List.mem_cons_of_mem _ hother))
  · rw [hnodes]
    exact h.live
  · rw [hnodes]
    exact h.apart

/-- `LIST_REMOVE`: the object stays allocated. -/
theorem remove (h : HoldsSpans s (before ++ span :: after) []) :
    ∃ t, listRemove s span.node = some t ∧ HoldsSpans t (before ++ after) [span.node] := by
  have hlinked := h.linked
  rw [nodes_insert] at hlinked
  obtain ⟨t, ht, hlist, hdata⟩ := listRemove_spec hlinked
  refine ⟨t, ht, ?_, fun other hother => ?_, fun a => ?_, fun a ha hin => ?_, ?_⟩
  · rwa [nodes_append]
  · rw [hdata.val]
    exact h.val other (List.perm_middle.mem_iff.mpr (List.mem_cons_of_mem _ hother))
  · rw [hdata.live, h.live, nodes_insert, nodes_append]
    simp only [List.mem_append, List.mem_cons, List.not_mem_nil, or_false]
    tauto
  · rw [List.mem_singleton] at ha
    obtain ⟨other, hother, hnode⟩ := List.mem_map.mp hin
    exact h.node_ne hother (hnode.trans ha)
  · rw [hdata.live]
    exact h.null

/-- `FREE` of the object in hand. -/
theorem free (h : HoldsSpans s items [a]) : ∃ t, freeSpan s a = some t ∧ HoldsSpans t items [] := by
  have hnot : a ∉ nodes items := h.apart a List.mem_cons_self
  have hlive : s.live a = true := (h.live a).mpr (Or.inr List.mem_cons_self)
  refine ⟨s.setLive a false, if_pos hlive, h.linked.congr rfl rfl rfl fun b hb => ?_, h.val, fun b => ?_,
    fun b hb => absurd hb List.not_mem_nil, ?_⟩
  · have hne : b ≠ a := fun heq => hnot (heq ▸ hb)
    rw [Store.live_setLive, Function.update_of_ne hne]
  · rw [Store.live_setLive]
    by_cases hb : b = a
    · subst hb
      simp [hnot]
    · rw [Function.update_of_ne hb, h.live]
      simp [hb]
  · rw [Store.live_setLive]
    by_cases ha : a = 0
    · rw [ha, Function.update_self]
    · rw [Function.update_of_ne (Ne.symm ha)]
      exact h.null

/-- `MALLOC` of an object. -/
theorem malloc (h : HoldsSpans s items []) (hfresh : s.live a = false) (hne : a ≠ 0) :
    HoldsSpans (s.setLive a true) items [a] := by
  have hnot : a ∉ nodes items := fun hin => by
    rw [(h.live a).mpr (Or.inl hin)] at hfresh
    cases hfresh
  refine ⟨h.linked.congr rfl rfl rfl fun b hb => ?_, h.val, fun b => ?_, fun b hb => ?_, ?_⟩
  · have hne : b ≠ a := fun heq => hnot (heq ▸ hb)
    rw [Store.live_setLive, Function.update_of_ne hne]
  · rw [Store.live_setLive]
    by_cases hb : b = a
    · subst hb
      simp
    · rw [Function.update_of_ne hb, h.live]
      simp [hb]
  · rw [List.mem_singleton.mp hb]
    exact hnot
  · rw [Store.live_setLive, Function.update_of_ne hne.symm]
    exact h.null

/-- The fields of the object in hand are assigned. -/
theorem init (h : HoldsSpans s items [a]) (r : SpanRange) :
    ∃ t, Dangless.storeSpan s a r = some t ∧ HoldsSpans t items [a] ∧ t.val a = r := by
  have hnot : a ∉ nodes items := h.apart a List.mem_cons_self
  refine ⟨s.setVal a r, if_pos ((h.live a).mpr (Or.inr List.mem_cons_self)),
    ⟨h.linked.congr rfl rfl rfl fun _ _ => rfl, fun span hspan => ?_, h.live, h.apart, h.null⟩, ?_⟩
  · have hne : span.node ≠ a := fun heq => hnot (heq ▸ mem_nodes hspan)
    rw [Store.val_setVal, Function.update_of_ne hne]
    exact h.val span hspan
  · rw [Store.val_setVal, Function.update_self]

/-- The object in hand is linked into the list. -/
theorem insert (h : HoldsSpans s (before ++ after) [span.node]) (hval : s.val span.node = ⟨span.start, span.end_⟩)
    (hlinked : Linked t (nodes before ++ span.node :: nodes after)) (hdata : SameData s t) :
    HoldsSpans t (before ++ span :: after) [] := by
  refine ⟨by rwa [nodes_insert], fun other hother => ?_, fun a => ?_, fun a ha => absurd ha List.not_mem_nil, ?_⟩
  · rw [hdata.val]
    rcases List.mem_cons.mp (List.perm_middle.mem_iff.mp hother) with rfl | hother
    · exact hval
    · exact h.val other hother
  · rw [hdata.live, h.live, nodes_insert, nodes_append]
    simp only [List.mem_append, List.mem_cons, List.not_mem_nil, or_false]
    tauto
  · rw [hdata.live]
    exact h.null

theorem first (h : HoldsSpans s items hand) : s.first = front (nodes items) none := h.linked.first

end HoldsSpans

end Holds

/-! ### The invariant of the statements -/

/-- `freelist_free` from the place of the range on, between `before` and `after`. -/
def freelistFreeAt (node start end_ : Nat) (before after : List VpSpan) : VpFree :=
  if prevTakes start before then freelistFreePrev end_ before after
  else if nextTakes end_ after then freelistFreeNext start before after
  else freelistFreeNew node start end_ before after

/-- The node that a call of `MALLOC` may answer while the list is `items`. -/
def FreshNode (items : List VpSpan) (node : Nat) : Prop := node = 0 ∨ node ∉ nodes items

/-- The body of a critical section stands at a statement and will return an answer, with a list left, that `Target`
allows, after at most the given number of statements. -/
inductive AtPc (Target : VpAnswer → List VpSpan → Prop) : Nat → VpPc → SpanStore → Prop
  | done {s : SpanStore} {items : List VpSpan} {answer : VpAnswer} (h : HoldsSpans s items [])
      (htarget : Target answer items) : AtPc Target 0 (.done answer) s
  | allocFor {s : SpanStore} {before after : List VpSpan} {npages : Nat} (h : HoldsSpans s (before ++ after) [])
      (htarget : Target (.ptr (freelistAlloc npages after).va) (before ++ (freelistAlloc npages after).items)) :
      AtPc Target (after.length + 4) (.allocFor npages (front (nodes after) none)) s
  | allocTake {s : SpanStore} {before after : List VpSpan} {span : VpSpan} {npages : Nat}
      (h : HoldsSpans s (before ++ span :: after) []) (hlarge : npages ≤ span.numPages)
      (htarget : Target (.ptr (freelistAlloc npages (span :: after)).va)
        (before ++ (freelistAlloc npages (span :: after)).items)) :
      AtPc Target 3 (.allocTake npages span.node) s
  | allocEmpty {s : SpanStore} {before after : List VpSpan} {span : VpSpan} {va : Nat}
      (h : HoldsSpans s (before ++ span :: after) [])
      (htarget : Target (.ptr va) (before ++ if span.empty then after else span :: after)) :
      AtPc Target 2 (.allocEmpty span.node va) s
  | allocFree {s : SpanStore} {items : List VpSpan} {a va : Nat} (h : HoldsSpans s items [a])
      (htarget : Target (.ptr va) items) : AtPc Target 1 (.allocFree a va) s
  | freeFor {s : SpanStore} {before after : List VpSpan} {start end_ : Nat} (h : HoldsSpans s (before ++ after) [])
      (hbefore : ∀ span ∈ before, span.end_ ≤ start)
      (hafter : ∀ span ∈ after, span.start < end_ → span.end_ ≤ start)
      (htarget : ∀ node, FreshNode (before ++ after) node →
        Target (.code (freelistFreeAt node start end_ (before ++ (freelistScan end_ after).1)
            (freelistScan end_ after).2).result)
          (freelistFreeAt node start end_ (before ++ (freelistScan end_ after).1)
            (freelistScan end_ after).2).items) :
      AtPc Target (after.length + 8) (.freeFor start end_ (nodes before).getLast? (front (nodes after) none)) s
  | freePrev {s : SpanStore} {before after : List VpSpan} {start end_ : Nat} (h : HoldsSpans s (before ++ after) [])
      (hbefore : ∀ span ∈ before, span.end_ ≤ start) (hafter : ∀ span ∈ after.head?, end_ ≤ span.start)
      (htarget : ∀ node, FreshNode (before ++ after) node →
        Target (.code (freelistFreeAt node start end_ before after).result)
          (freelistFreeAt node start end_ before after).items) :
      AtPc Target 7 (.freePrev start end_ (nodes before).getLast? (front (nodes after) none)) s
  | freeNext {s : SpanStore} {before after : List VpSpan} {start end_ : Nat} (h : HoldsSpans s (before ++ after) [])
      (hbefore : ∀ span ∈ before, span.end_ ≤ start) (hprev : prevTakes start before = false)
      (htarget : ∀ node, FreshNode (before ++ after) node →
        Target (.code (freelistFreeAt node start end_ before after).result)
          (freelistFreeAt node start end_ before after).items) :
      AtPc Target 6 (.freeNext start end_ (nodes before).getLast? (front (nodes after) none)) s
  | freeMalloc {s : SpanStore} {before after : List VpSpan} {start end_ : Nat} (h : HoldsSpans s (before ++ after) [])
      (htarget : ∀ node, FreshNode (before ++ after) node →
        Target (.code (freelistFreeNew node start end_ before after).result)
          (freelistFreeNew node start end_ before after).items) :
      AtPc Target 5 (.freeMalloc start end_ (nodes before).getLast? (front (nodes after) none)) s
  | freeInit {s : SpanStore} {before after : List VpSpan} {start end_ a : Nat}
      (h : HoldsSpans s (before ++ after) [a]) (htarget : Target (.code 0) (before ++ ⟨a, start, end_⟩ :: after)) :
      AtPc Target 4 (.freeInit start end_ a (nodes before).getLast? (front (nodes after) none)) s
  | freeLink {s : SpanStore} {before after : List VpSpan} {span : VpSpan}
      (h : HoldsSpans s (before ++ after) [span.node]) (hval : s.val span.node = ⟨span.start, span.end_⟩)
      (htarget : Target (.code 0) (before ++ span :: after)) :
      AtPc Target 3 (.freeLink span.node (nodes before).getLast? (front (nodes after) none)) s
  | merge {s : SpanStore} {before after : List VpSpan} {left right : VpSpan}
      (h : HoldsSpans s (before ++ left :: right :: after) []) (hle : left.end_ ≤ right.start)
      (htarget : Target (.code 0) (before ++ match tryMergeSpans left right with
        | some merged => merged :: after
        | none => left :: right :: after)) :
      AtPc Target 2 (.merge left.node right.node) s
  | mergeFree {s : SpanStore} {items : List VpSpan} {a : Nat} (h : HoldsSpans s items [a])
      (htarget : Target (.code 0) items) : AtPc Target 1 (.mergeFree a) s
  | resetFor {s : SpanStore} {items : List VpSpan} (h : HoldsSpans s items []) (htarget : Target .unit []) :
      AtPc Target (2 * items.length + 1) (.resetFor (front (nodes items) none)) s
  | resetFree {s : SpanStore} {items : List VpSpan} {a : Nat} (h : HoldsSpans s items [a])
      (htarget : Target .unit []) : AtPc Target (2 * items.length + 2) (.resetFree a (front (nodes items) none)) s

  | start {s : SpanStore} {op : VpOp} {rank : Nat} {pc : VpPc}
      (hstep : ∀ node, vpMicro node s (.start op) = some (pc, s)) (h : AtPc Target rank pc s) :
      AtPc Target (rank + 1) (.start op) s

/-- A statement goes through, and leads to one that is nearer to the end. -/
def Advances (Target : VpAnswer → List VpSpan → Prop) (rank : Nat) (result : Option (VpPc × SpanStore)) : Prop :=
  ∃ pc s, result = some (pc, s) ∧ ∃ less < rank, AtPc Target less pc s

section Steps

variable {Target : VpAnswer → List VpSpan → Prop} {s : SpanStore} {items before after : List VpSpan} {span : VpSpan}
  {npages start end_ a va : Nat}

theorem freelistAlloc_skip (hsmall : ¬ npages ≤ span.numPages) (after : List VpSpan) :
    freelistAlloc npages (span :: after) =
      { freelistAlloc npages after with items := span :: (freelistAlloc npages after).items } := by
  rw [freelistAlloc, if_neg hsmall]

theorem freelistAlloc_take (hlarge : npages ≤ span.numPages) (after : List VpSpan) :
    (freelistAlloc npages (span :: after)).va = span.start ∧
      (freelistAlloc npages (span :: after)).items =
        if ({ span with start := u64 (span.start + npages * PGSIZE) } : VpSpan).empty then after
        else { span with start := u64 (span.start + npages * PGSIZE) } :: after := by
  rw [freelistAlloc, if_pos hlarge]
  dsimp only
  split_ifs <;> exact ⟨rfl, rfl⟩

theorem advances_allocFor (node : Nat) (h : HoldsSpans s (before ++ after) [])
    (htarget : Target (.ptr (freelistAlloc npages after).va) (before ++ (freelistAlloc npages after).items)) :
    Advances Target (after.length + 4) (vpMicro node s (.allocFor npages (front (nodes after) none))) := by
  cases after with
  | nil => exact ⟨.done (.ptr 0), s, rfl, 0, by omega, .done h htarget⟩
  | cons span after =>
      have hload := h.loadSpan (List.mem_append_right before List.mem_cons_self)
      rw [nodes_cons, front_cons]
      by_cases hlarge : npages ≤ span.numPages
      · refine ⟨.allocTake npages span.node, s, ?_, 3, by omega, .allocTake h hlarge htarget⟩
        simp only [vpMicro, hload, Option.bind_eq_bind, Option.bind_some]
        exact if_pos hlarge
      · refine ⟨.allocFor npages (front (nodes after) none), s, ?_, after.length + 4,
          by rw [List.length_cons]; omega, @AtPc.allocFor Target s (before ++ [span]) after npages ?_ ?_⟩
        · simp only [vpMicro, hload, h.loadNext, Option.bind_eq_bind, Option.bind_some]
          exact if_neg hlarge
        · rwa [← List.append_cons]
        · rw [freelistAlloc_skip hlarge] at htarget
          rwa [← List.append_cons]

theorem advances_allocTake (node : Nat) (h : HoldsSpans s (before ++ span :: after) [])
    (hlarge : npages ≤ span.numPages) (htarget : Target (.ptr (freelistAlloc npages (span :: after)).va)
      (before ++ (freelistAlloc npages (span :: after)).items)) :
    Advances Target 3 (vpMicro node s (.allocTake npages span.node)) := by
  have hload := h.loadSpan (List.mem_append_right before List.mem_cons_self)
  obtain ⟨t, ht, hspans⟩ := h.storeSpan ⟨u64 (span.start + npages * PGSIZE), span.end_⟩
  obtain ⟨hva, hitems⟩ := freelistAlloc_take hlarge after
  rw [hva, hitems] at htarget
  refine ⟨.allocEmpty span.node span.start, t, ?_, 2, by omega, @AtPc.allocEmpty Target t before after
    ⟨span.node, u64 (span.start + npages * PGSIZE), span.end_⟩ _ hspans htarget⟩
  simp only [vpMicro, hload, ht, Option.bind_eq_bind, Option.bind_some]
  rfl

theorem advances_allocEmpty (node : Nat) (h : HoldsSpans s (before ++ span :: after) [])
    (htarget : Target (.ptr va) (before ++ if span.empty then after else span :: after)) :
    Advances Target 2 (vpMicro node s (.allocEmpty span.node va)) := by
  have hload := h.loadSpan (List.mem_append_right before List.mem_cons_self)
  by_cases hempty : span.start = span.end_
  · obtain ⟨t, ht, hspans⟩ := h.remove
    rw [if_pos (by simpa [VpSpan.empty] using hempty)] at htarget
    refine ⟨.allocFree span.node va, t, ?_, 1, by omega, .allocFree hspans htarget⟩
    simp only [vpMicro, hload, ht, Option.bind_eq_bind, Option.bind_some]
    exact if_neg (not_not.mpr hempty)
  · rw [if_neg (by simpa [VpSpan.empty] using hempty)] at htarget
    refine ⟨.done (.ptr va), s, ?_, 0, by omega, .done h htarget⟩
    simp only [vpMicro, hload, Option.bind_eq_bind, Option.bind_some]
    exact if_pos hempty

theorem advances_allocFree (node : Nat) (h : HoldsSpans s items [a]) (htarget : Target (.ptr va) items) :
    Advances Target 1 (vpMicro node s (.allocFree a va)) := by
  obtain ⟨t, ht, hspans⟩ := h.free
  exact ⟨.done (.ptr va), t, by simp only [vpMicro, ht, Option.bind_eq_bind, Option.bind_some]; rfl, 0, by omega,
    .done hspans htarget⟩

/-- The place of a range in a list that is scanned from its first span that has not been passed yet. -/
theorem freelistScan_pass (hspan : span.start < end_) (after : List VpSpan) :
    freelistScan end_ (span :: after) = (span :: (freelistScan end_ after).1, (freelistScan end_ after).2) := by
  simp only [freelistScan, List.takeWhile_cons, List.dropWhile_cons, hspan, decide_true, if_true]

theorem freelistScan_stop (hafter : ∀ span ∈ after.head?, end_ ≤ span.start) :
    freelistScan end_ after = ([], after) := by
  cases after with
  | nil => rfl
  | cons span after =>
      have hspan : ¬ span.start < end_ := not_lt.mpr (hafter span rfl)
      simp only [freelistScan, List.takeWhile_cons, List.dropWhile_cons, hspan, decide_false, Bool.false_eq_true,
        if_false]

theorem getLast?_nodes_concat (before : List VpSpan) (span : VpSpan) :
    (nodes (before ++ [span])).getLast? = some span.node := by
  rw [nodes_append, nodes_cons, List.getLast?_append_of_ne_nil _ (List.cons_ne_nil _ _)]
  rfl

theorem advances_freeFor (node : Nat) (h : HoldsSpans s (before ++ after) [])
    (hbefore : ∀ span ∈ before, span.end_ ≤ start) (hafter : ∀ span ∈ after, span.start < end_ → span.end_ ≤ start)
    (htarget : ∀ node, FreshNode (before ++ after) node →
      Target (.code (freelistFreeAt node start end_ (before ++ (freelistScan end_ after).1)
          (freelistScan end_ after).2).result)
        (freelistFreeAt node start end_ (before ++ (freelistScan end_ after).1) (freelistScan end_ after).2).items) :
    Advances Target (after.length + 8)
      (vpMicro node s (.freeFor start end_ (nodes before).getLast? (front (nodes after) none))) := by
  have hstop : (∀ span ∈ after.head?, end_ ≤ span.start) →
      AtPc Target 7 (.freePrev start end_ (nodes before).getLast? (front (nodes after) none)) s := fun hhead => by
    rw [freelistScan_stop hhead, List.append_nil] at htarget
    exact .freePrev h hbefore hhead htarget
  cases after with
  | nil => exact ⟨_, s, rfl, 7, by omega, hstop fun span hspan => by cases hspan⟩
  | cons span after =>
      have hload := h.loadSpan (List.mem_append_right before List.mem_cons_self)
      rw [nodes_cons, front_cons]
      by_cases hend : end_ ≤ span.start
      · refine ⟨_, s, ?_, 7, by omega, hstop fun other hother => ?_⟩
        · simp only [vpMicro, hload, Option.bind_eq_bind, Option.bind_some]
          exact if_pos hend
        · cases hother
          exact hend
      · have hlt : span.start < end_ := not_le.mp hend
        refine ⟨.freeFor start end_ (nodes (before ++ [span])).getLast? (front (nodes after) none), s, ?_,
          after.length + 8, by rw [List.length_cons]; omega,
          @AtPc.freeFor Target s (before ++ [span]) after start end_ ?_ ?_ ?_ ?_⟩
        · simp only [vpMicro, hload, h.loadNext, Option.bind_eq_bind, Option.bind_some, getLast?_nodes_concat]
          exact if_neg hend
        · rwa [← List.append_cons]
        · intro other hother
          rcases List.mem_append.mp hother with hother | hother
          · exact hbefore other hother
          · rw [List.mem_singleton.mp hother]
            exact hafter span List.mem_cons_self hlt
        · exact fun other hother => hafter other (List.mem_cons_of_mem span hother)
        · rw [freelistScan_pass hlt] at htarget
          simpa only [← List.append_cons] using htarget

/-- What follows an assignment that made a span larger: the merge with the next span. -/
theorem advances_prevTaken {prev : VpSpan} (node : Nat) (h : HoldsSpans s (before ++ prev :: after) [])
    (hprev : prev.end_ = start) (hafter : ∀ span ∈ after.head?, end_ ≤ span.start)
    (htarget : Target (.code 0) (freelistFreePrev end_ (before ++ [prev]) after).items) :
    Advances Target 7
      (vpMicro node s (.freePrev start end_ (some prev.node) (front (nodes after) none))) := by
  have hload := h.loadSpan (List.mem_append_right before List.mem_cons_self)
  obtain ⟨t, ht, hspans⟩ := h.storeSpan ⟨prev.start, end_⟩
  have hequal : ¬ prev.end_ ≠ start := not_not.mpr hprev
  cases after with
  | nil =>
      refine ⟨.done (.code 0), t, ?_, 0, by omega, .done hspans ?_⟩
      · simp only [vpMicro, hload, ht, if_neg hequal, nodes_nil, front_nil, Option.bind_eq_bind,
          Option.bind_some]
        rfl
      · simpa [freelistFreePrev] using htarget
  | cons next after =>
      refine ⟨.merge prev.node next.node, t, ?_, 2, by omega,
        @AtPc.merge Target t before after ⟨prev.node, prev.start, end_⟩ next hspans (hafter next rfl) ?_⟩
      · simp only [vpMicro, hload, ht, if_neg hequal, nodes_cons, front_cons, Option.bind_eq_bind, Option.bind_some]
        rfl
      · simp only [freelistFreePrev, List.getLast?_concat, List.dropLast_concat] at htarget
        split at htarget <;> rename_i heq <;> simpa only [heq] using htarget

theorem prevTakes_concat (start : Nat) (before : List VpSpan) (prev : VpSpan) :
    prevTakes start (before ++ [prev]) = decide (prev.end_ = start) := by
  simp [prevTakes]

theorem freelistFreePrev_result (before after : List VpSpan) : (freelistFreePrev end_ before after).result = 0 := by
  unfold freelistFreePrev
  split
  · dsimp only
    split <;> rfl
  · rfl
  · rfl

theorem freelistFreeNext_result (before after : List VpSpan) : (freelistFreeNext start before after).result = 0 := by
  unfold freelistFreeNext
  split
  · dsimp only
    split <;> rfl
  · rfl
  · rfl

theorem freshNode_null (items : List VpSpan) : FreshNode items 0 := Or.inl rfl

theorem advances_freePrev (node : Nat) (h : HoldsSpans s (before ++ after) [])
    (hbefore : ∀ span ∈ before, span.end_ ≤ start) (hafter : ∀ span ∈ after.head?, end_ ≤ span.start)
    (htarget : ∀ node, FreshNode (before ++ after) node →
      Target (.code (freelistFreeAt node start end_ before after).result)
        (freelistFreeAt node start end_ before after).items) :
    Advances Target 7
      (vpMicro node s (.freePrev start end_ (nodes before).getLast? (front (nodes after) none))) := by
  rcases List.eq_nil_or_concat before with rfl | ⟨init, prev, rfl⟩
  · exact ⟨.freeNext start end_ (nodes []).getLast? (front (nodes after) none), s, rfl, 6, by omega,
      .freeNext h hbefore rfl htarget⟩
  · rw [List.concat_eq_append] at *
    have htakes := prevTakes_concat start init prev
    by_cases hprev : prev.end_ = start
    · rw [getLast?_nodes_concat]
      refine advances_prevTaken node (by rwa [List.append_cons]) hprev hafter ?_
      have htaken := htarget 0 (freshNode_null _)
      rwa [freelistFreeAt, htakes, if_pos (decide_eq_true hprev), freelistFreePrev_result] at htaken
    · have hload := h.loadSpan (List.mem_append_left after (List.mem_append_right init (List.mem_singleton_self prev)))
      refine ⟨.freeNext start end_ (nodes (init ++ [prev])).getLast? (front (nodes after) none), s, ?_, 6, by omega,
        .freeNext h hbefore (by rw [htakes, decide_eq_false hprev]) htarget⟩
      simp only [getLast?_nodes_concat, vpMicro, hload, Option.bind_eq_bind, Option.bind_some]
      exact if_pos hprev

theorem advances_freeNext (node : Nat) (h : HoldsSpans s (before ++ after) [])
    (hbefore : ∀ span ∈ before, span.end_ ≤ start) (hprev : prevTakes start before = false)
    (htarget : ∀ node, FreshNode (before ++ after) node →
      Target (.code (freelistFreeAt node start end_ before after).result)
        (freelistFreeAt node start end_ before after).items) :
    Advances Target 6
      (vpMicro node s (.freeNext start end_ (nodes before).getLast? (front (nodes after) none))) := by
  have hnot : ¬ prevTakes start before = true := by rw [hprev]; exact Bool.false_ne_true
  simp only [freelistFreeAt, if_neg hnot] at htarget
  cases after with
  | nil =>
      refine ⟨.freeMalloc start end_ (nodes before).getLast? none, s, rfl, 5, by omega,
        @AtPc.freeMalloc Target s before [] start end_ h fun node hnode => htarget node hnode⟩
  | cons next after =>
      have hload := h.loadSpan (List.mem_append_right before List.mem_cons_self)
      have htakes : nextTakes end_ (next :: after) = decide (next.start = end_) := rfl
      rw [htakes] at htarget
      by_cases hnext : next.start = end_
      · obtain ⟨t, ht, hspans⟩ := h.storeSpan ⟨start, next.end_⟩
        have hequal : ¬ next.start ≠ end_ := not_not.mpr hnext
        have htaken := htarget 0 (freshNode_null _)
        rw [if_pos (decide_eq_true hnext), freelistFreeNext_result] at htaken
        rcases List.eq_nil_or_concat before with rfl | ⟨init, prev, rfl⟩
        · refine ⟨.done (.code 0), t, ?_, 0, by omega, .done hspans htaken⟩
          simp only [nodes_cons, front_cons, vpMicro, hload, ht, if_neg hequal, Option.bind_eq_bind, Option.bind_some]
          rfl
        · rw [List.concat_eq_append] at *
          refine ⟨.merge prev.node next.node, t, ?_, 2, by omega,
            @AtPc.merge Target t init after prev ⟨next.node, start, next.end_⟩ ?_ ?_ ?_⟩
          · simp only [getLast?_nodes_concat, nodes_cons, front_cons, vpMicro, hload, ht, if_neg hequal,
              Option.bind_eq_bind, Option.bind_some]
            rfl
          · rwa [List.append_cons]
          · exact hbefore prev (List.mem_append_right init (List.mem_singleton_self prev))
          · simp only [freelistFreeNext, List.getLast?_concat, List.dropLast_concat] at htaken
            split at htaken <;> rename_i heq
            · simpa only [heq] using htaken
            · simpa only [heq, List.append_assoc, List.singleton_append] using htaken
      · refine ⟨.freeMalloc start end_ (nodes before).getLast? (front (nodes (next :: after)) none), s, ?_, 5, by omega,
          .freeMalloc h fun node hnode => ?_⟩
        · simp only [nodes_cons, front_cons, vpMicro, hload, Option.bind_eq_bind, Option.bind_some]
          exact if_pos hnext
        · have hnew := htarget node hnode
          rwa [if_neg (by rw [decide_eq_false hnext]; exact Bool.false_ne_true)] at hnew

theorem advances_freeMalloc {node : Nat} (hnode : MallocAnswer s node) (h : HoldsSpans s (before ++ after) [])
    (htarget : ∀ node, FreshNode (before ++ after) node →
      Target (.code (freelistFreeNew node start end_ before after).result)
        (freelistFreeNew node start end_ before after).items) :
    Advances Target 5
      (vpMicro node s (.freeMalloc start end_ (nodes before).getLast? (front (nodes after) none))) := by
  by_cases hnull : node = 0
  · have hfailed := htarget 0 (freshNode_null _)
    rw [freelistFreeNew, if_pos rfl] at hfailed
    exact ⟨.done (.code (-1)), s, if_pos hnull, 0, by omega, .done h hfailed⟩
  · have hfresh : s.live node = false := hnode.resolve_left hnull
    have hnot : node ∉ nodes (before ++ after) := fun hin => by
      rw [(h.live node).mpr (Or.inl hin)] at hfresh
      cases hfresh
    have hnew := htarget node (Or.inr hnot)
    rw [freelistFreeNew, if_neg hnull] at hnew
    exact ⟨.freeInit start end_ node (nodes before).getLast? (front (nodes after) none), s.setLive node true,
      if_neg hnull, 4, by omega, .freeInit (h.malloc hfresh hnull) hnew⟩

theorem advances_freeInit (node : Nat) (h : HoldsSpans s (before ++ after) [a])
    (htarget : Target (.code 0) (before ++ ⟨a, start, end_⟩ :: after)) : Advances Target 4
      (vpMicro node s (.freeInit start end_ a (nodes before).getLast? (front (nodes after) none))) := by
  obtain ⟨t, ht, hspans, hval⟩ := h.init ⟨start, end_⟩
  refine ⟨.freeLink a (nodes before).getLast? (front (nodes after) none), t, ?_, 3, by omega,
    @AtPc.freeLink Target t before after ⟨a, start, end_⟩ hspans hval htarget⟩
  simp only [vpMicro, ht, Option.bind_eq_bind, Option.bind_some]
  rfl

/-- `LIST_INSERT_AFTER`, `LIST_INSERT_BEFORE` or `LIST_INSERT_HEAD`, as there is a span before or after the place. -/
theorem advances_freeLink (node : Nat) (h : HoldsSpans s (before ++ after) [span.node])
    (hval : s.val span.node = ⟨span.start, span.end_⟩) (htarget : Target (.code 0) (before ++ span :: after)) :
    Advances Target 3 (vpMicro node s (.freeLink span.node (nodes before).getLast? (front (nodes after) none))) := by
  have hlive : s.live span.node = true := (h.live _).mpr (Or.inr List.mem_cons_self)
  have hnot : span.node ∉ nodes (before ++ after) := h.apart _ List.mem_cons_self
  have hlinked := h.linked
  rw [nodes_append] at hlinked hnot
  rcases List.eq_nil_or_concat before with rfl | ⟨init, prev, rfl⟩
  · cases after with
    | nil =>
        obtain ⟨t, ht, hlist, hdata⟩ := listInsertHead_spec hlinked hlive hnot
        refine ⟨.done (.code 0), t, ?_, 0, by omega, .done (h.insert hval hlist hdata) htarget⟩
        simp only [vpMicro, nodes_nil, front_nil, List.getLast?_nil, ht, Option.bind_eq_bind, Option.bind_some]
        rfl
    | cons next after =>
        obtain ⟨t, ht, hlist, hdata⟩ := listInsertBefore_spec hlinked hlive hnot
        refine ⟨.done (.code 0), t, ?_, 0, by omega, .done (h.insert hval hlist hdata) htarget⟩
        simp only [vpMicro, nodes_cons, front_cons, nodes_nil, List.getLast?_nil, ht, Option.bind_eq_bind,
          Option.bind_some]
        rfl
  · rw [List.concat_eq_append] at *
    rw [nodes_append init, nodes_cons, List.append_assoc, List.cons_append] at hlinked hnot
    obtain ⟨t, ht, hlist, hdata⟩ := listInsertAfter_spec hlinked hlive hnot
    refine ⟨.done (.code 0), t, ?_, 0, by omega, .done (h.insert hval ?_ hdata) htarget⟩
    · simp only [vpMicro, getLast?_nodes_concat, ht, Option.bind_eq_bind, Option.bind_some]
      rfl
    · rwa [nodes_append, nodes_cons, List.append_assoc, List.cons_append]

/-- `try_merge_spans`. -/
theorem advances_merge {left right : VpSpan} (node : Nat) (h : HoldsSpans s (before ++ left :: right :: after) [])
    (hle : left.end_ ≤ right.start) (htarget : Target (.code 0) (before ++ match tryMergeSpans left right with
      | some merged => merged :: after
      | none => left :: right :: after)) :
    Advances Target 2 (vpMicro node s (.merge left.node right.node)) := by
  have hleft := h.loadSpan (List.mem_append_right before List.mem_cons_self)
  have hright := h.loadSpan (List.mem_append_right before (List.mem_cons_of_mem left List.mem_cons_self))
  have hassert : ¬ ¬ left.end_ ≤ right.start := not_not.mpr hle
  by_cases hadjacent : left.end_ = right.start
  · have hequal : ¬ left.end_ ≠ right.start := not_not.mpr hadjacent
    obtain ⟨t, ht, hspans⟩ := h.storeSpan ⟨left.start, right.end_⟩
    rw [List.append_cons] at hspans
    obtain ⟨r, hr, hmerged⟩ := hspans.remove
    rw [← List.append_cons] at hmerged
    rw [tryMergeSpans, if_neg hequal] at htarget
    refine ⟨.mergeFree right.node, r, ?_, 1, by omega, .mergeFree hmerged htarget⟩
    simp only [vpMicro, hleft, hright, ht, hr, if_neg hassert, if_neg hequal, Option.bind_eq_bind, Option.bind_some]
    rfl
  · rw [tryMergeSpans, if_pos hadjacent] at htarget
    refine ⟨.done (.code 0), s, ?_, 0, by omega, .done h htarget⟩
    simp only [vpMicro, hleft, hright, if_neg hassert, Option.bind_eq_bind, Option.bind_some]
    exact if_pos hadjacent

theorem advances_mergeFree (node : Nat) (h : HoldsSpans s items [a]) (htarget : Target (.code 0) items) :
    Advances Target 1 (vpMicro node s (.mergeFree a)) := by
  obtain ⟨t, ht, hspans⟩ := h.free
  exact ⟨.done (.code 0), t, by simp only [vpMicro, ht, Option.bind_eq_bind, Option.bind_some]; rfl, 0, by omega,
    .done hspans htarget⟩

theorem advances_resetFor (node : Nat) (h : HoldsSpans s items []) (htarget : Target .unit []) :
    Advances Target (2 * items.length + 1) (vpMicro node s (.resetFor (front (nodes items) none))) := by
  cases items with
  | nil => exact ⟨.done .unit, s, rfl, 0, by omega, .done h htarget⟩
  | cons span items =>
      have hnext := @HoldsSpans.loadNext s [] items span [] h
      obtain ⟨t, ht, hspans⟩ := @HoldsSpans.remove s [] items span h
      refine ⟨.resetFree span.node (front (nodes items) none), t, ?_, 2 * items.length + 2,
        by rw [List.length_cons]; omega, .resetFree hspans htarget⟩
      simp only [vpMicro, nodes_cons, front_cons, hnext, ht, Option.bind_eq_bind, Option.bind_some]
      rfl

theorem advances_resetFree (node : Nat) (h : HoldsSpans s items [a]) (htarget : Target .unit []) :
    Advances Target (2 * items.length + 2) (vpMicro node s (.resetFree a (front (nodes items) none))) := by
  obtain ⟨t, ht, hspans⟩ := h.free
  exact ⟨.resetFor (front (nodes items) none), t,
    by simp only [vpMicro, ht, Option.bind_eq_bind, Option.bind_some]; rfl, 2 * items.length + 1, by omega,
    .resetFor hspans htarget⟩

/-- Each statement that is not the last one goes through. -/
theorem AtPc.advances {rank node : Nat} {pc : VpPc} (h : AtPc Target rank pc s) (hnode : MallocAnswer s node)
    (hmore : ∀ answer, pc ≠ .done answer) : Advances Target rank (vpMicro node s pc) := by
  cases h with
  | done => exact absurd rfl (hmore _)
  | allocFor h htarget => exact advances_allocFor node h htarget
  | allocTake h hlarge htarget => exact advances_allocTake node h hlarge htarget
  | allocEmpty h htarget => exact advances_allocEmpty node h htarget
  | allocFree h htarget => exact advances_allocFree node h htarget
  | freeFor h hbefore hafter htarget => exact advances_freeFor node h hbefore hafter htarget
  | freePrev h hbefore hafter htarget => exact advances_freePrev node h hbefore hafter htarget
  | freeNext h hbefore hprev htarget => exact advances_freeNext node h hbefore hprev htarget
  | freeMalloc h htarget => exact advances_freeMalloc hnode h htarget
  | freeInit h htarget => exact advances_freeInit node h htarget
  | freeLink h hval htarget => exact advances_freeLink node h hval htarget
  | merge h hle htarget => exact advances_merge node h hle htarget
  | mergeFree h htarget => exact advances_mergeFree node h htarget
  | resetFor h htarget => exact advances_resetFor node h htarget
  | resetFree h htarget => exact advances_resetFree node h htarget
  | start hstep h => exact ⟨_, s, hstep node, _, Nat.lt_succ_self _, h⟩

end Steps

/-- What a critical section answers, and the list that it leaves, in terms of the functions on lists. -/
def VpOp.Computes (items : List VpSpan) : VpOp → VpAnswer → List VpSpan → Prop
  | .alloc npages, answer, left =>
      answer = .ptr (freelistAlloc npages items).va ∧ left = (freelistAlloc npages items).items
  | .free p npages, answer, left => ∃ node, FreshNode items node ∧
      answer = .code (freelistFree items p npages node).result ∧ left = (freelistFree items p npages node).items
  | .reset, answer, left => answer = .unit ∧ left = (freelistReset items).1

/-- Only ranges that the list has no part of are given back. -/
def VpOp.Legal (items : List VpSpan) : VpOp → Prop
  | .alloc _ => True
  | .free p npages => Freeable (owned items) p npages
  | .reset => True

section Bodies

variable {s : SpanStore} {items : List VpSpan}

/-- The body of a critical section is at its first statement. -/
theorem atPc_start {op : VpOp} (h : HoldsSpans s items []) (hwf : FreelistWf items) (hlegal : op.Legal items) :
    ∃ rank, AtPc (op.Computes items) rank (.start op) s := by
  cases op with
  | alloc npages =>
      have hpc : AtPc _ _ (.allocFor npages (front (nodes items) none)) s :=
        @AtPc.allocFor ((VpOp.alloc npages).Computes items) s [] items npages h ⟨rfl, rfl⟩
      exact ⟨_, .start (fun node => by rw [vpMicro, h.first]) hpc⟩
  | free p npages =>
      have hend := pgOffset_eq hlegal.inWidth
      obtain ⟨hsplit, hbefore, hafter⟩ := freelistScan_spec hwf hlegal
      have hends : ∀ span ∈ items, span.start < pgOffset p npages → span.end_ ≤ p := fun span hspan hlt => by
        rw [hend] at hlt
        rw [hsplit] at hspan
        rcases List.mem_append.mp hspan with hin | hin
        · exact hbefore span hin
        · exact absurd hlt (not_lt.mpr (hafter span hin))
      have hpc : AtPc _ _ (.freeFor p (pgOffset p npages) none (front (nodes items) none)) s :=
        @AtPc.freeFor ((VpOp.free p npages).Computes items) s [] items p (pgOffset p npages) h
          (fun span hspan => by cases hspan) hends fun node hnode => ⟨node, hnode, rfl, rfl⟩
      refine ⟨_, .start (fun node => ?_) hpc⟩
      rw [vpMicro, if_neg (not_not.mpr hlegal.aligned), if_neg (Nat.one_le_iff_ne_zero.mp hlegal.nonempty), h.first]
  | reset =>
      have hpc : AtPc _ _ (.resetFor (front (nodes items) none)) s :=
        @AtPc.resetFor (VpOp.reset.Computes items) s items h ⟨rfl, rfl⟩
      exact ⟨_, .start (fun node => by rw [vpMicro, h.first]) hpc⟩

end Bodies

end Dangless
