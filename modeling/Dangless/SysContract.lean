import Dangless.VirtualRemap
import Dangless.VirtmemAllocSpec

/-! What the system allocator promises, and the accounting of its live blocks: those held on behalf of
somebody, those of the span objects, and others. -/

namespace Dangless

variable {σ : Type} {A : SysAllocator σ} {L : DuneLayout}

/-- The addresses that Dune maps in advance and at which the system allocator has its blocks: the low
4 GB without page 0, and the `mmap` region. -/
def DuneLayout.Home (L : DuneLayout) (va : Nat) : Prop :=
  (PGSIZE ≤ va ∧ va < 2 ^ 32) ∨ (L.mmapBase ≤ va ∧ va < L.mmapBase + GPA_MAP_SIZE)

/-- A block of `size` bytes at `b` lies in one of the two. -/
def DuneLayout.HomeBlock (L : DuneLayout) (b size : Nat) : Prop :=
  (PGSIZE ≤ b ∧ b < 2 ^ 32 ∧ b + size ≤ 2 ^ 32) ∨
  (L.mmapBase ≤ b ∧ b < L.mmapBase + GPA_MAP_SIZE ∧ b + size ≤ L.mmapBase + GPA_MAP_SIZE)

theorem DuneLayout.HomeBlock.home {b size : Nat} (h : L.HomeBlock b size) : L.Home b := by
  rcases h with ⟨h1, h2, -⟩ | ⟨h1, h2, -⟩
  · exact Or.inl ⟨h1, h2⟩
  · exact Or.inr ⟨h1, h2⟩

theorem DuneLayout.Home.ne_zero {b : Nat} (h : L.Home b) : b ≠ 0 := by
  have hlimit := L.physLimit_le
  simp only [DuneLayout.Home, PGSIZE, PHYS_LIMIT] at *
  omega

/-- What a call that asks for `n` bytes leaves: it fails and changes nothing, or there is a new live
block. -/
structure Obtains (A : SysAllocator σ) (live : σ → Set Nat) (s : σ) (n : Nat) (r : Nat × σ) : Prop where
  null : r.1 = 0 → live r.2 = live s
  fresh : r.1 ≠ 0 → r.1 ∉ live s
  live_eq : r.1 ≠ 0 → live r.2 = insert r.1 (live s)
  size : r.1 ≠ 0 → n ≤ A.mallocUsableSize r.1 r.2
  usable : ∀ b ∈ live s, A.mallocUsableSize b r.2 = A.mallocUsableSize b s

/-- What `realloc` of a live block `b` leaves: the block is moved or resized; or the answer is `NULL` and
nothing changes, or, with size 0, the block is released. -/
structure Reallocs (A : SysAllocator σ) (live : σ → Set Nat) (s : σ) (b n : Nat) (r : Nat × σ) :
    Prop where
  null : r.1 = 0 →
    (live r.2 = live s ∧ A.mallocUsableSize b r.2 = A.mallocUsableSize b s) ∨
    (n = 0 ∧ live r.2 = live s \ {b})
  fresh : r.1 ≠ 0 → r.1 = b ∨ r.1 ∉ live s
  live_eq : r.1 ≠ 0 → live r.2 = insert r.1 (live s \ {b})
  size : r.1 ≠ 0 → n ≤ A.mallocUsableSize r.1 r.2
  usable : ∀ c ∈ live s, c ≠ b → A.mallocUsableSize c r.2 = A.mallocUsableSize c s

/-- The contract of the system allocator. `live` are its live blocks, and `Ok` holds of its states
as long as it is used properly. -/
structure SysContract (A : SysAllocator σ) (L : DuneLayout) where
  Ok : σ → Prop
  live : σ → Set Nat
  home : ∀ s b, Ok s → b ∈ live s → L.HomeBlock b (A.mallocUsableSize b s)
  malloc : ∀ s n, Ok s → Ok (A.malloc n s).2 ∧ Obtains A live s n (A.malloc n s)
  calloc : ∀ s num size, Ok s → Ok (A.calloc num size s).2 ∧
    Obtains A live s (num * size) (A.calloc num size s)
  memalign : ∀ s align size, Ok s → Ok (A.memalign align size s).2 ∧
    Obtains A live s size (A.memalign align size s)
  reallocNull : ∀ s n, Ok s → Ok (A.realloc 0 n s).2 ∧ Obtains A live s n (A.realloc 0 n s)
  realloc : ∀ s b n, Ok s → b ∈ live s → Ok (A.realloc b n s).2 ∧
    Reallocs A live s b n (A.realloc b n s)
  free : ∀ s b, Ok s → b ∈ live s → Ok (A.free b s) ∧ live (A.free b s) = live s \ {b} ∧
    ∀ c ∈ live s, c ≠ b → A.mallocUsableSize c (A.free b s) = A.mallocUsableSize c s

/-- The system allocator is given `NULL` or one of its live blocks. -/
def Event.Own (live : σ → Set Nat) : Event σ → Prop
  | .sysrealloc p sys => p = 0 ∨ p ∈ live sys
  | .sysfree p sys => p ∈ live sys
  | .mallocUsableSize p sys => p ∈ live sys
  | .vpAlloc _ _ => True
  | .vpFree _ _ => True

/-- The accounting of live blocks: `blocks` are those held on behalf of somebody, with their usable
sizes, and `others` are neither these nor span objects. -/
structure SysInv (C : SysContract A L) (others : Set Nat) (blocks : List (Nat × Nat)) (w : World σ) :
    Prop where
  ok : C.Ok w.sys
  nodup : (blocks.map Prod.fst ++ nodes w.items).Nodup
  live_eq : C.live w.sys = others ∪ {b | b ∈ blocks.map Prod.fst ++ nodes w.items}
  apart : ∀ b ∈ blocks.map Prod.fst ++ nodes w.items, b ∉ others
  usable : ∀ x ∈ blocks, A.mallocUsableSize x.1 w.sys = x.2
  own : ∀ e ∈ w.trace, e.Own C.live

section

variable {C : SysContract A L} {others : Set Nat} {blocks blocks' : List (Nat × Nat)} {w w' : World σ}
  {b u : Nat}

theorem SysInv.mem_live (h : SysInv C others blocks w) {x : Nat × Nat} (hx : x ∈ blocks) :
    x.1 ∈ C.live w.sys := by
  rw [h.live_eq]
  exact Or.inr (List.mem_append_left _ (List.mem_map_of_mem hx))

theorem SysInv.homeBlock (h : SysInv C others blocks w) {x : Nat × Nat} (hx : x ∈ blocks) :
    L.HomeBlock x.1 x.2 := by
  rw [← h.usable x hx]
  exact C.home _ _ h.ok (h.mem_live hx)

/-- The accounting depends on the blocks and on the parts of the state it speaks of. -/
theorem SysInv.congr (h : SysInv C others blocks w) (hblocks : blocks'.Perm blocks)
    (hsys : w'.sys = w.sys) (hitems : w'.items = w.items) (hown : ∀ e ∈ w'.trace, e.Own C.live) :
    SysInv C others blocks' w' := by
  have hperm : (blocks'.map Prod.fst ++ nodes w'.items).Perm
      (blocks.map Prod.fst ++ nodes w.items) := by
    rw [hitems]
    exact (hblocks.map _).append_right _
  refine ⟨hsys ▸ h.ok, hperm.nodup_iff.mpr h.nodup, ?_, fun b hb => h.apart b (hperm.mem_iff.mp hb),
    fun x hx => hsys ▸ h.usable x (hblocks.mem_iff.mp hx), hown⟩
  rw [hsys, h.live_eq]
  simp only [hperm.mem_iff]

/-- Span objects that left the list, and new ones, count as held. -/
theorem SysInv.exchange {freed freed' : List (Nat × Nat)} (h : SysInv C others (freed ++ blocks) w)
    (hsys : w'.sys = w.sys) (htrace : w'.trace = w.trace)
    (hfreed : ∀ x ∈ freed', A.mallocUsableSize x.1 w.sys = x.2)
    (hperm : (freed'.map Prod.fst ++ nodes w'.items).Perm (freed.map Prod.fst ++ nodes w.items)) :
    SysInv C others (freed' ++ blocks) w' := by
  have hall : ((freed' ++ blocks).map Prod.fst ++ nodes w'.items).Perm
      ((freed ++ blocks).map Prod.fst ++ nodes w.items) := by
    have hmove : ∀ (l : List (Nat × Nat)) (n : List Nat), ((l ++ blocks).map Prod.fst ++ n).Perm
        (blocks.map Prod.fst ++ (l.map Prod.fst ++ n)) := by
      intro l n
      rw [List.map_append, List.append_assoc]
      exact (List.perm_append_comm_assoc _ _ _)
    exact (hmove _ _).trans ((hperm.append_left _).trans (hmove _ _).symm)
  refine ⟨hsys ▸ h.ok, hall.nodup_iff.mpr h.nodup, ?_, fun b hb => h.apart b (hall.mem_iff.mp hb),
    fun x hx => ?_, htrace ▸ h.own⟩
  · rw [hsys, h.live_eq]
    simp only [hall.mem_iff]
  · rw [hsys]
    rcases List.mem_append.mp hx with hx | hx
    · exact hfreed x hx
    · exact h.usable x (List.mem_append_right _ hx)

/-- A block that is given up is still live. -/
theorem SysInv.leak (h : SysInv C others ((b, u) :: blocks) w) : SysInv C (insert b others) blocks w := by
  have hnodup := List.nodup_cons.mp h.nodup
  refine ⟨h.ok, hnodup.2, ?_, fun c hc => ?_, fun x hx => h.usable x (List.mem_cons_of_mem _ hx), h.own⟩
  · rw [h.live_eq]
    ext c
    simp only [List.map_cons, List.cons_append, List.mem_cons, Set.mem_union, Set.mem_insert_iff,
      Set.mem_ofPred_eq]
    tauto
  · rintro (rfl | hother)
    · exact hnodup.1 hc
    · exact h.apart c (List.mem_cons_of_mem _ hc) hother

/-- A new block. -/
theorem SysInv.obtain {n : Nat} {r : Nat × σ} (h : SysInv C others blocks w) (hok : C.Ok r.2)
    (hr : Obtains A C.live w.sys n r) (hne : r.1 ≠ 0) (hsys : w'.sys = r.2)
    (hitems : w'.items = w.items) (hown : ∀ e ∈ w'.trace, e.Own C.live) :
    SysInv C others ((r.1, A.mallocUsableSize r.1 r.2) :: blocks) w' := by
  have hfresh := hr.fresh hne
  rw [h.live_eq] at hfresh
  refine ⟨hsys ▸ hok, ?_, ?_, fun c hc => ?_, fun x hx => ?_, hown⟩
  · rw [List.map_cons, List.cons_append, List.nodup_cons, hitems]
    exact ⟨fun hmem => hfresh (Or.inr hmem), h.nodup⟩
  · rw [hsys, hr.live_eq hne, h.live_eq, hitems]
    ext c
    simp only [List.map_cons, List.cons_append, List.mem_cons, Set.mem_union, Set.mem_insert_iff,
      Set.mem_ofPred_eq]
    tauto
  · rw [List.map_cons, List.cons_append, List.mem_cons, hitems] at hc
    rcases hc with rfl | hc
    · exact fun hother => hfresh (Or.inl hother)
    · exact h.apart c hc
  · rw [hsys]
    rcases List.mem_cons.mp hx with rfl | hx
    · rfl
    · rw [hr.usable _ (h.mem_live hx), h.usable x hx]

/-- A call that got nothing. -/
theorem SysInv.obtain_null {n : Nat} {r : Nat × σ} (h : SysInv C others blocks w) (hok : C.Ok r.2)
    (hr : Obtains A C.live w.sys n r) (hnull : r.1 = 0) (hsys : w'.sys = r.2)
    (hitems : w'.items = w.items) (hown : ∀ e ∈ w'.trace, e.Own C.live) :
    SysInv C others blocks w' := by
  refine ⟨hsys ▸ hok, hitems ▸ h.nodup, ?_, hitems ▸ h.apart, fun x hx => ?_, hown⟩
  · rw [hsys, hr.null hnull, h.live_eq, hitems]
  · rw [hsys, hr.usable _ (h.mem_live hx), h.usable x hx]

/-- A block goes. -/
theorem SysInv.release {sys : σ} (h : SysInv C others ((b, u) :: blocks) w) (hok : C.Ok sys)
    (hlive : C.live sys = C.live w.sys \ {b})
    (husable : ∀ c ∈ C.live w.sys, c ≠ b → A.mallocUsableSize c sys = A.mallocUsableSize c w.sys)
    (hsys : w'.sys = sys) (hitems : w'.items = w.items) (hown : ∀ e ∈ w'.trace, e.Own C.live) :
    SysInv C others blocks w' := by
  have hnodup := List.nodup_cons.mp h.nodup
  refine ⟨hsys ▸ hok, hitems ▸ hnodup.2, ?_, hitems ▸ fun c hc => h.apart c (List.mem_cons_of_mem _ hc),
    fun x hx => ?_, hown⟩
  · rw [hsys, hlive, h.live_eq, hitems]
    ext c
    have hapart := h.apart b List.mem_cons_self
    have hnotin := hnodup.1
    simp only [List.map_cons, List.cons_append, List.mem_cons, Set.mem_sdiff, Set.mem_union,
      Set.mem_singleton_iff, Set.mem_ofPred_eq]
    constructor
    · tauto
    · rintro (hc | hc)
      · exact ⟨Or.inl hc, fun heq => hapart (heq ▸ hc)⟩
      · exact ⟨Or.inr (Or.inr hc), fun heq => hnotin (heq ▸ hc)⟩
  · have hmem : x.1 ∈ blocks.map Prod.fst := List.mem_map_of_mem hx
    have hne : x.1 ≠ b := fun heq => hnodup.1 (List.mem_append_left _ (heq ▸ hmem))
    rw [hsys, husable _ (h.mem_live (List.mem_cons_of_mem _ hx)) hne,
      h.usable x (List.mem_cons_of_mem _ hx)]

theorem sysfree_inv (h : SysInv C others ((b, u) :: blocks) w) :
    SysInv C others blocks (sysfree A b w) := by
  have hlive := h.mem_live List.mem_cons_self
  obtain ⟨hok, hlive', husable⟩ := C.free _ _ h.ok hlive
  refine h.release hok hlive' husable rfl rfl fun e he => ?_
  rcases List.mem_cons.mp he with rfl | he
  · exact hlive
  · exact h.own e he

theorem freeNodes_inv {freed : List (Nat × Nat)} (h : SysInv C others (freed ++ blocks) w) :
    SysInv C others blocks (freeNodes A (freed.map Prod.fst) w) := by
  induction freed generalizing w with
  | nil => exact h
  | cons x freed ih => exact ih (sysfree_inv h)

/-- `sysrealloc` of a block: it fails, it releases the block, or the block is replaced. -/
theorem sysrealloc_inv {n : Nat} (h : SysInv C others ((b, u) :: blocks) w) {r : Nat × World σ}
    (hr : sysrealloc A b n w = r) :
    (r.1 = 0 ∧ SysInv C others ((b, u) :: blocks) r.2) ∨
    (r.1 = 0 ∧ n = 0 ∧ SysInv C others blocks r.2) ∨
    (r.1 ≠ 0 ∧ n ≤ A.mallocUsableSize r.1 r.2.sys ∧
      SysInv C others ((r.1, A.mallocUsableSize r.1 r.2.sys) :: blocks) r.2) := by
  obtain rfl := hr
  have hlive := h.mem_live List.mem_cons_self
  obtain ⟨hok, hre⟩ := C.realloc w.sys b n h.ok hlive
  have hown : ∀ e ∈ (sysrealloc A b n w).2.trace, e.Own C.live := by
    intro e he
    rcases List.mem_cons.mp he with rfl | he
    · exact Or.inr hlive
    · exact h.own e he
  have hrest : ∀ x ∈ blocks, A.mallocUsableSize x.1 (A.realloc b n w.sys).2 = x.2 := by
    intro x hx
    have hmem : x.1 ∈ blocks.map Prod.fst := List.mem_map_of_mem hx
    have hne : x.1 ≠ b := fun heq =>
      (List.nodup_cons.mp h.nodup).1 (List.mem_append_left _ (heq ▸ hmem))
    rw [hre.usable _ (h.mem_live (List.mem_cons_of_mem _ hx)) hne, h.usable x (List.mem_cons_of_mem _ hx)]
  by_cases hnull : (A.realloc b n w.sys).1 = 0
  · rcases hre.null hnull with ⟨hsame, hsize⟩ | ⟨hn, hgone⟩
    · refine Or.inl ⟨hnull, ⟨hok, h.nodup, ?_, h.apart, fun x hx => ?_, hown⟩⟩
      · exact hsame.trans h.live_eq
      · rcases List.mem_cons.mp hx with rfl | hx
        · exact hsize.trans (h.usable (b, u) List.mem_cons_self)
        · exact hrest x hx
    · exact Or.inr (Or.inl ⟨hnull, hn, h.release hok hgone hre.usable rfl rfl hown⟩)
  · -- the block is taken back and another one, or the same, is handed out
    have hnodup := List.nodup_cons.mp h.nodup
    have hfresh : (A.realloc b n w.sys).1 ∉ blocks.map Prod.fst ++ nodes w.items ∧
        (A.realloc b n w.sys).1 ∉ others := by
      rcases hre.fresh hnull with heq | hnew
      · rw [heq]
        exact ⟨hnodup.1, h.apart b List.mem_cons_self⟩
      · rw [h.live_eq] at hnew
        exact ⟨fun hmem => hnew (Or.inr (List.mem_cons_of_mem _ hmem)), fun hmem => hnew (Or.inl hmem)⟩
    refine Or.inr (Or.inr ⟨hnull, hre.size hnull, ⟨hok, ?_, ?_, fun c hc => ?_, fun x hx => ?_, hown⟩⟩)
    · exact List.nodup_cons.mpr ⟨hfresh.1, hnodup.2⟩
    · have hlive' := hre.live_eq hnull
      rw [h.live_eq] at hlive'
      refine hlive'.trans ?_
      ext c
      have hapart := h.apart b List.mem_cons_self
      have hnotin := hnodup.1
      simp only [List.map_cons, List.cons_append, List.mem_cons, Set.mem_sdiff, Set.mem_union,
        Set.mem_singleton_iff, Set.mem_ofPred_eq, Set.mem_insert_iff]
      constructor
      · tauto
      · rintro (hc | rfl | hc)
        · exact Or.inr ⟨Or.inl hc, fun heq => hapart (heq ▸ hc)⟩
        · exact Or.inl rfl
        · exact Or.inr ⟨Or.inr (Or.inr hc), fun heq => hnotin (heq ▸ hc)⟩
    · rcases List.mem_cons.mp hc with rfl | hc
      · exact hfresh.2
      · exact h.apart c (List.mem_cons_of_mem _ hc)
    · rcases List.mem_cons.mp hx with rfl | hx
      · rfl
      · exact hrest x hx

/-- A list that loses span objects, which are freed. -/
theorem freeNodes_sysInv {items' : List VpSpan} {freed : List Nat} (h : SysInv C others blocks w)
    (hperm : (freed ++ nodes items').Perm (nodes w.items)) :
    SysInv C others blocks (freeNodes A freed { w with items := items' }) := by
  have hmap : (freed.map fun node => (node, A.mallocUsableSize node w.sys)).map Prod.fst = freed := by
    simp [Function.comp_def]
  have hnone : SysInv C others ([] ++ blocks) w := h
  have hfreed : SysInv C others
      ((freed.map fun node => (node, A.mallocUsableSize node w.sys)) ++ blocks)
      { w with items := items' } := by
    refine hnone.exchange rfl rfl (by simp) ?_
    rw [hmap]
    exact hperm
  have hafter := freeNodes_inv hfreed
  rwa [hmap] at hafter

theorem SysInv.event {e : Event σ} (h : SysInv C others blocks w) (he : e.Own C.live) :
    SysInv C others blocks { w with trace := e :: w.trace } := by
  refine h.congr (List.Perm.refl _) rfl rfl fun e' he' => ?_
  rcases List.mem_cons.mp he' with rfl | he'
  · exact he
  · exact h.own e' he'

theorem vpAlloc_sysInv (npages : Nat) (h : SysInv C others blocks w) :
    SysInv C others blocks (vpAlloc A npages w).2 :=
  SysInv.event (freeNodes_sysInv h (freelistAlloc_nodes npages w.items)) trivial

theorem vpFree_sysInv (p npages : Nat) (h : SysInv C others blocks w) :
    SysInv C others blocks (vpFree A p npages w).2 := by
  unfold vpFree
  dsimp only
  cases hneeds : freelistFreeNeedsNode w.items p npages with
  | false =>
      simp only [Bool.false_eq_true, if_false]
      exact SysInv.event (freeNodes_sysInv h (freelistFree_nodes hneeds)) trivial
  | true =>
      simp only [if_true]
      obtain ⟨hok, hr⟩ := C.malloc w.sys VP_SPAN_SIZE h.ok
      obtain ⟨hfreed, hsame, hnew⟩ := freelistFree_nodes_new (sysmalloc A VP_SPAN_SIZE w).1 hneeds
      rw [hfreed]
      by_cases hnode : (sysmalloc A VP_SPAN_SIZE w).1 = 0
      · rw [hsame hnode]
        exact SysInv.event (h.obtain_null hok hr hnode rfl rfl h.own) trivial
      · have hobtained : SysInv C others ([(_, _)] ++ blocks) (sysmalloc A VP_SPAN_SIZE w).2 :=
          h.obtain hok hr hnode rfl rfl h.own
        have hlisted : SysInv C others ([] ++ blocks) { (sysmalloc A VP_SPAN_SIZE w).2 with
            items := (freelistFree w.items p npages (sysmalloc A VP_SPAN_SIZE w).1).items } :=
          hobtained.exchange rfl rfl (by simp) (hnew hnode)
        exact SysInv.event hlisted trivial

end

end Dangless
