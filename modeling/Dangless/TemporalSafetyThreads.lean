import Dangless.DanglessThreadsAlone
import Dangless.DanglessThreadsRuns
import Dangless.TemporalSafety

/-! Temporal safety for threads: what holds in every state that they reach, and what a thread does where no other thread
is in a call. -/

namespace Dangless

open Rely Ledger

variable {σ T : Type} {A : SysAllocator σ} {L : DuneLayout} {C : SysContract A L} {Z : Fin PT_NUM_ENTRIES → Prop}
  {ms ms' mc : Multiset Item} {s : SharedWorld σ} {w : World σ} {x y : Item} {hs : List Handle} {gone : List (Set Nat)}
  {k p a storage : Nat}

theorem Tokenless.add (h : Tokenless ms) (h' : Tokenless ms') : Tokenless (ms + ms') := by
  constructor
  · rw [Multiset.filterMap_add, h.list, h'.list, add_zero]
  · rw [Multiset.filterMap_add, h.dedicating, h'.dedicating, add_zero]

theorem Handle.tokenless (x : Handle) : Tokenless x.things := by
  rw [← add_zero x.things]
  by_cases hhome : x.ptr = x.block
  · rw [x.things_home hhome]
    exact tokenless_zero.cons rfl rfl
  · rw [x.things_region hhome]
    exact (tokenless_zero.cons rfl rfl).cons rfl rfl

/-- The client has neither locked the mutex nor come to dedicate virtual memory. -/
theorem MtClient.Has.tokenless {c : MtClient} (h : c.Has mc hs gone) : Tokenless mc := by
  have hheld : ∀ hs : List Handle, Tokenless (handleThings hs) := by
    intro hs
    induction hs with
    | nil => exact tokenless_zero
    | cons x hs ih =>
        rw [handleThings_cons]
        exact x.tokenless.add ih
  have hgone : ∀ gone : List (Set Nat), Tokenless (goneThings gone) := by
    intro gone
    induction gone with
    | nil => exact tokenless_zero
    | cons S gone ih =>
        rw [goneThings_cons]
        exact ih.cons rfl rfl
  rw [h.things]
  exact (hheld hs).add (hgone gone)

theorem MtInv.hasList (h : MtInv C Z (mc + ms) s) (hmc : Tokenless mc) (hlocked : s.locked = true) :
    ms.filterMap Item.list? ≠ 0 := by
  obtain ⟨others, maps, blocks, pages, gone, k, h⟩ := h
  have hlock := h.lock
  rw [Multiset.filterMap_add, hmc.list, zero_add, if_pos hlocked] at hlock
  rw [hlock]
  exact Multiset.singleton_ne_zero _

theorem MtInv.hasDedicating (h : MtInv C Z (mc + ms) s) (hmc : Tokenless mc) (hrunning : s.once = .running) :
    ms.filterMap Item.dedicating? ≠ 0 := by
  obtain ⟨others, maps, blocks, pages, gone, k, h⟩ := h
  have honce := h.once
  rw [Multiset.filterMap_add, hmc.dedicating, zero_add, if_pos hrunning] at honce
  rw [honce]
  exact Multiset.singleton_ne_zero _

/-- Where nobody else has a token, nothing makes a thread wait. -/
theorem MtInv.not_waits (h : MtInv C Z (ms + mc) s) (hmc : Tokenless mc) : ¬ (mtAccount C Z).waits ms s := by
  rw [add_comm] at h
  rintro ⟨hlist, hlocked | ⟨hrunning, hdedicating⟩⟩
  · exact h.hasList hmc hlocked hlist
  · exact h.hasDedicating hmc hrunning hdedicating

theorem page_eq_of_path {b : Nat} (h : ptPath a = ptPath b) (ha : a < 2 ^ 48) (hb : b < 2 ^ 48) : a / PGSIZE = b / PGSIZE := by
  rw [ptPath_eq_iff] at h
  simp only [PGSIZE] at *
  omega

/-- The pages that somebody has are whole pages of the virtual memory. -/
theorem MtInv.covers (h : MtInv C Z (x ::ₘ ms) s) : x.covers ⊆ vmem Z ∧
    ∀ a b, a / PGSIZE = b / PGSIZE → b ∈ x.covers → a ∈ x.covers := by
  obtain ⟨others, maps, blocks, pages, gone, k, h⟩ := h
  have hregion : ∀ {va n a b : Nat}, va % PGSIZE = 0 → a / PGSIZE = b / PGSIZE → b ∈ Dangless.region va n →
      a ∈ Dangless.region va n := by
    intro va n a b halign hab hb
    rw [mem_region_iff_page halign] at hb ⊢
    rw [hab]
    exact hb
  cases x with
  | region m =>
      obtain ⟨maps', hmaps, -⟩ := lists_region.mp h.lists
      have hok := h.layout.remap.mapsOk m (hmaps.mem_iff.mpr List.mem_cons_self)
      exact ⟨hok.inVmem, fun a b => hregion m.base_aligned⟩
  | pages va n =>
      obtain ⟨pages', hpages, -⟩ := lists_pages.mp h.lists
      obtain ⟨halign, -, hin, -⟩ := h.layout.taken _ (hpages.mem_iff.mpr List.mem_cons_self)
      exact ⟨hin, fun a b => hregion halign⟩
  | block | gone | list | dedicating | dedicated => exact ⟨Set.empty_subset _, fun a b _ hb => absurd hb (Set.notMem_empty b)⟩

/-- Nobody has the pages of another. -/
theorem MtInv.covers_disjoint (h : MtInv C Z (x ::ₘ y ::ₘ ms) s) : Disjoint x.covers y.covers := by
  obtain ⟨others, maps, blocks, pages, gone, k, h⟩ := h
  cases x with
  | region m =>
      obtain ⟨maps1, hmaps, hlists⟩ := lists_region.mp h.lists
      have hlayout := h.layout.perm hmaps.symm (List.Perm.refl _) (List.Perm.refl _)
      cases y with
      | region m' =>
          obtain ⟨maps2, hmaps', -⟩ := lists_region.mp hlists
          exact (List.pairwise_cons.mp hlayout.remap.disjoint).1 m' (hmaps'.mem_iff.mpr List.mem_cons_self)
      | pages va n =>
          obtain ⟨pages1, hpages, -⟩ := lists_pages.mp hlists
          exact hlayout.takenMaps (va, n) (hpages.mem_iff.mpr List.mem_cons_self) m List.mem_cons_self
      | block | gone | list | dedicating | dedicated => exact Set.disjoint_empty _
  | pages va n =>
      obtain ⟨pages1, hpages, hlists⟩ := lists_pages.mp h.lists
      have hlayout := h.layout.perm (List.Perm.refl _) hpages.symm (List.Perm.refl _)
      cases y with
      | region m =>
          obtain ⟨maps1, hmaps, -⟩ := lists_region.mp hlists
          exact (hlayout.takenMaps (va, n) List.mem_cons_self m (hmaps.mem_iff.mpr List.mem_cons_self)).symm
      | pages va' n' =>
          obtain ⟨pages2, hpages', -⟩ := lists_pages.mp hlists
          exact (List.pairwise_cons.mp hlayout.takenApart).1 (va', n') (hpages'.mem_iff.mpr List.mem_cons_self)
      | block | gone | list | dedicating | dedicated => exact Set.disjoint_empty _
  | block | gone | list | dedicating | dedicated => exact Set.empty_disjoint _

/-- Two threads in calls of the page tables, seen from what they have. -/
theorem WorksOn.apart {ms' : Multiset Item} {call call' : PtCall} (hZ : SlotsOk L Z) (h : WorksOn C Z ms (.tables call))
    (h' : WorksOn C Z ms' (.tables call')) (hinv : MtInv C Z (ms + (ms' + mc)) s) :
    Disjoint call.pages call'.pages ∨ (∃ p, call = .resolve p ∧ L.Home p) ∧ ∃ p', call' = .resolve p' ∧ L.Home p' := by
  -- an address that Dune maps is in nobody's pages
  have hhome : ∀ {x rest p a a'}, MtInv C Z (x ::ₘ rest) s → L.Home p → a' ∈ x.covers → ptPath a = ptPath p →
      ptPath a ≠ ptPath a' := by
    intro x rest p a a' hx hp ha' hap heq
    have hslot := (hx.covers.1 ha').2
    rw [← ptIndex_l4_of_path heq, ptIndex_l4_of_path hap] at hslot
    exact hZ.home p hp hslot
  rcases h with ⟨p, rfl, hp⟩ | ⟨⟨x, hx, hcall⟩, -⟩
  · rcases h' with ⟨p', rfl, hp'⟩ | ⟨⟨y, hy, hcall'⟩, -⟩
    · exact Or.inr ⟨⟨p, rfl, hp⟩, ⟨p', rfl, hp'⟩⟩
    · obtain ⟨rest, hrest⟩ := Multiset.exists_cons_of_mem hy
      rw [hrest, Multiset.cons_add, Multiset.add_cons] at hinv
      refine Or.inl (Set.disjoint_left.mpr fun a ha ha' => ?_)
      obtain ⟨a', hcovers, hpath⟩ := hcall' a ha'
      exact hhome hinv hp hcovers ha hpath
  · obtain ⟨rest, hrest⟩ := Multiset.exists_cons_of_mem hx
    rw [hrest, Multiset.cons_add] at hinv
    rcases h' with ⟨p', rfl, hp'⟩ | ⟨⟨y, hy, hcall'⟩, -⟩
    · refine Or.inl (Set.disjoint_left.mpr fun a ha ha' => ?_)
      obtain ⟨a', hcovers, hpath⟩ := hcall a ha
      exact hhome hinv hp' hcovers ha' hpath
    · obtain ⟨rest', hrest'⟩ := Multiset.exists_cons_of_mem hy
      rw [hrest', Multiset.cons_add, Multiset.add_cons] at hinv
      refine Or.inl (Set.disjoint_left.mpr fun a ha ha' => ?_)
      obtain ⟨b, hb, hab⟩ := hcall a ha
      obtain ⟨b', hb', hab'⟩ := hcall' a ha'
      have hpage := page_eq_of_path (hab.symm.trans hab') (hinv.covers.1 hb).1
        ((MtInv.covers (Multiset.cons_swap _ _ _ ▸ hinv)).1 hb').1
      have hmem := (MtInv.covers (Multiset.cons_swap _ _ _ ▸ hinv)).2 b b' hpage hb'
      exact Set.disjoint_left.mp hinv.covers_disjoint hb hmem

variable [DecidableEq T] {c : Ledger.Conf T (SharedWorld σ) ThreadVars ClientCall Nat (Set Nat) MtClient}
  {labels : List (Ledger.Label T ClientCall Nat)}

theorem MtInv.onceDone (h : MtInv C Z ms s) (l : ThreadVars) : OnceDone (s, l) := by
  obtain ⟨others, maps, blocks, pages, gone, k, h⟩ := h
  exact fun hdone => h.flag (h.done hdone)

/-- Where no thread is in a call, a call that a thread makes ends after some of its own statements, and it has done what
the function does. -/
theorem DuneStart.alone (h : DuneStart C w) (hrun : Lts.Run (MtStep C (FreeSlot w.pt) storage) (mtStart w) labels c)
    (hidle : ∀ t, c.phase t = .idle) {call : ClientCall} (hmay : c.client.may call) (t : T) {r : Nat} {w' : World σ}
    (hr : call.sequential A L storage (loadWorld (c.shared, idleVars)) = (r, w')) :
    ∃ n s', Lts.Run (MtStep C (FreeSlot w.pt) storage) c
        (.call t call :: List.replicate n (.statement t) ++ [.finish t call r])
        ⟨s', c.vars, (c.client.called call).returned A L call (regionOf A L c.shared.world call.pointer) r s', c.phase⟩ ∧
      loadWorld (s', idleVars) = w' := by
  obtain ⟨ρ, m, mc, hsim⟩ := h.mtSim hrun
  obtain rfl : m = 0 := by
    obtain ⟨S, -, hsum⟩ := hsim.total
    rw [← hsum]
    refine Finset.sum_eq_zero fun u _ => ?_
    have hu := hsim.phase u
    rw [hidle u] at hu
    exact hu.1
  have hvars : c.vars t = idleVars := by
    have ht := hsim.phase t
    rw [hidle t] at ht
    exact ht.2
  have hinv : MtInv C (FreeSlot w.pt) mc c.shared := by
    have hinv := hsim.inv
    rwa [add_zero] at hinv
  have hsound : (danglessService C (FreeSlot w.pt) storage).Sound := danglessService_sound h.slotsOk
  obtain ⟨m', mc', hmc, ⟨hs, gone, hhas⟩, -, hholds⟩ := hsound (F := 0) hsim.client hmay
    (show MtInv C (FreeSlot w.pt) (mc + 0) c.shared from (add_zero mc).symm ▸ hinv) rfl
  -- no other thread has a token, so the code comes to its end
  obtain ⟨r', s', m'', l', hcode, -, hpost, -⟩ := hholds.run (F := mc') (hmc ▸ hinv) fun _ _ hinv =>
    hinv.not_waits hhas.tokenless
  obtain rfl : l' = idleVars := hpost
  have hworld := (code_computes call _ _ _ (hinv.onceDone idleVars) hcode).trans hr
  obtain ⟨rfl, hloaded⟩ := Prod.mk.inj hworld
  obtain ⟨n, hn⟩ := Service.after_of_run hcode
  have hcall := Service.run_call (P := danglessService C (FreeSlot w.pt) storage) (hidle t) hmay (by rw [hvars]; exact hn)
  have hall := hcall.append (Lts.Run.single (Service.Step.finish (Function.update_self _ _ _)))
  refine ⟨n, s', ?_, hloaded⟩
  rw [← hvars, Function.update_eq_self, Function.update_idem, ← hidle t, Function.update_eq_self] at hall
  exact hall

/-- A process where two threads may run, and one has asked for 32 bytes. -/
theorem oneBlock_threads : ∃ labels s, Lts.Run (MtStep (T := Bool) (bumpContract duneLayout) (FreeSlot duneWorld.pt) 0)
      (mtStart duneWorld) labels ⟨s, fun _ => idleVars, ⟨[PHYS_LIMIT], ∅⟩, fun _ => .idle⟩ ∧
    loadWorld (s, idleVars) = oneBlock.world := by
  have hmay : (⟨[], ∅⟩ : MtClient).may (.malloc 32) := ⟨Or.inl rfl, trivial⟩
  have hr : (ClientCall.malloc 32).sequential bumpAllocator duneLayout 0 duneWorld = (PHYS_LIMIT, oneBlock.world) :=
    Prod.ext oneBlock_state.1 rfl
  have hstart : Lts.Run (MtStep (T := Bool) (bumpContract duneLayout) (FreeSlot duneWorld.pt) 0) (mtStart duneWorld) []
      (mtStart duneWorld) := .nil _
  obtain ⟨n, s, hrun, hloaded⟩ := duneWorld_start.alone hstart (fun _ => rfl) hmay true hr
  exact ⟨_, s, hrun, hloaded⟩

/-- The other thread has released them. -/
theorem oneFreed_threads : ∃ labels s, Lts.Run (MtStep (T := Bool) (bumpContract duneLayout) (FreeSlot duneWorld.pt) 0)
      (mtStart duneWorld) labels
      ⟨s, fun _ => idleVars, ⟨[], ∅ ∪ regionOf bumpAllocator duneLayout oneBlock.world PHYS_LIMIT⟩, fun _ => .idle⟩ ∧
    loadWorld (s, idleVars) = danglessFree bumpAllocator duneLayout PHYS_LIMIT oneBlock.world := by
  obtain ⟨labels, s, hrun, hloaded⟩ := oneBlock_threads
  have hmay : (⟨[PHYS_LIMIT], ∅⟩ : MtClient).may (.free PHYS_LIMIT) := ⟨Or.inr List.mem_cons_self, trivial⟩
  obtain ⟨n, s', hfree, hfreed⟩ := duneWorld_start.alone hrun (fun _ => rfl) hmay false rfl
  have hregion : regionOf bumpAllocator duneLayout s.world = regionOf bumpAllocator duneLayout oneBlock.world := by
    rw [← hloaded]
    rfl
  have hfree : Lts.Run (MtStep (bumpContract duneLayout) (FreeSlot duneWorld.pt) 0) _ _
    ⟨s', fun _ => idleVars, ⟨[], ∅ ∪ regionOf bumpAllocator duneLayout s.world PHYS_LIMIT⟩, fun _ => .idle⟩ := hfree
  rw [hregion] at hfree
  exact ⟨_, s', hrun.append hfree, hfreed.trans (congrArg (danglessFree bumpAllocator duneLayout PHYS_LIMIT) hloaded)⟩

/-- **Pointers are held exactly**, in every state that threads reach, whatever other calls are in the middle of. -/
theorem threads_heldExact (h : DuneStart C w) (hrun : Lts.Run (MtStep C (FreeSlot w.pt) storage) (mtStart w) labels c) :
    HeldExact C c.client.held c.shared.world := by
  obtain ⟨ρ, m, mc, hsim⟩ := h.mtSim hrun
  obtain ⟨hs, gone, hhas⟩ := hsim.client
  exact hhas.heldExact h.slotsOk hsim.inv

theorem threads_heldExact_malloc : ∃ s : SharedWorld BumpHeap, loadWorld (s, idleVars) = oneBlock.world ∧
    HeldExact (bumpContract duneLayout) [PHYS_LIMIT] s.world := by
  obtain ⟨labels, s, hrun, hloaded⟩ := oneBlock_threads
  exact ⟨s, hloaded, threads_heldExact duneWorld_start hrun⟩

theorem MtClient.Has.unheld {c : MtClient} (h : c.Has mc hs gone) (hZ : SlotsOk L Z) (hinv : MtInv C Z (mc + ms) s)
    (ha : a ∈ c.released) (hp : p ∈ c.held) : a ∉ regionOf A L s.world p := by
  obtain ⟨x, hx, rfl⟩ := List.mem_map.mp (h.held.mem_iff.mp hp)
  obtain ⟨rest, hhandle⟩ := h.handle hx hinv
  obtain ⟨-, -, -, -, hregion, -⟩ := hhandle.handle hZ (h.usable x hx)
  obtain ⟨S, hS, haS⟩ := h.released a ha
  obtain ⟨others, maps, blocks, pages, gone', k, hbooks⟩ := hinv
  have hlists := hbooks.lists
  rw [h.things, add_assoc] at hlists
  obtain ⟨maps', blocks', hmaps, -, hrest⟩ := lists_handleThings hlists
  have hmem : S ∈ gone' := by
    have hcoe : S ∈ (gone' : Multiset (Set Nat)) := by
      rw [hrest.gone, Multiset.filterMap_add]
      refine Multiset.mem_add.mpr (Or.inl ?_)
      exact (Multiset.mem_filterMap _ _).mpr ⟨.gone S, Multiset.mem_coe.mpr (List.mem_map.mpr ⟨S, hS, rfl⟩), rfl⟩
    exact Multiset.mem_coe.mp hcoe
  obtain ⟨-, -, hnot⟩ := hbooks.layout.goneOk S hmem a haS
  rw [hregion, Handle.pages]
  split_ifs with hhome
  · exact Set.notMem_empty a
  · refine fun hax => hnot (Or.inl (Or.inr ⟨x.mapping, hmaps.mem_iff.mpr (List.mem_append_left _ ?_), hax⟩))
    exact List.mem_map.mpr ⟨x, List.mem_filter.mpr ⟨hx, by simpa using hhome⟩, rfl⟩

/-- **Released memory stays unreachable**: in every state that threads reach, a page that a call has released is not
mapped, is not in the freelist, and is in the region of no pointer that is held. -/
theorem threads_released_gone (h : DuneStart C w)
    (hrun : Lts.Run (MtStep C (FreeSlot w.pt) storage) (mtStart w) labels c) (ha : a ∈ c.client.released) :
    ptResolve c.shared.world.pt a = 0 ∧ a ∉ owned c.shared.world.items ∧
      ∀ p ∈ c.client.held, a ∉ regionOf A L c.shared.world p := by
  obtain ⟨ρ, m, mc, hsim⟩ := h.mtSim hrun
  obtain ⟨hs, gone, hhas⟩ := hsim.client
  obtain ⟨S, hS, haS⟩ := hhas.released a ha
  have hinv : MtInv C (FreeSlot w.pt) (mc + m) c.shared := hsim.inv
  have hmem : Item.gone S ∈ mc + m := by
    rw [hhas.things]
    exact Multiset.mem_add.mpr (Or.inl (Multiset.mem_add.mpr (Or.inr (Multiset.mem_coe.mpr (List.mem_map.mpr ⟨S, hS, rfl⟩)))))
  obtain ⟨rest, hrest⟩ := Multiset.exists_cons_of_mem hmem
  obtain ⟨hnone, hnot⟩ := MtInv.invalidated (hrest ▸ hinv) haS
  exact ⟨hnone, hnot, fun p hp => hhas.unheld h.slotsOk hinv ha hp⟩

theorem threads_released_gone_free : ∃ s : SharedWorld BumpHeap,
    loadWorld (s, idleVars) = danglessFree bumpAllocator duneLayout PHYS_LIMIT oneBlock.world ∧
      ptResolve s.world.pt PHYS_LIMIT = 0 ∧ PHYS_LIMIT ∉ owned s.world.items := by
  obtain ⟨labels, s, hrun, hloaded⟩ := oneFreed_threads
  obtain ⟨hnone, hnot, -⟩ := threads_released_gone duneWorld_start hrun (Or.inr oneBlock_regionOf)
  exact ⟨s, hloaded, hnone, hnot⟩

/-- **No assertion fails and nothing is stuck**: while a thread is in a call, some thread takes a statement or ends
its call. -/
theorem threads_goOn (h : DuneStart C w) (hrun : Lts.Run (MtStep C (FreeSlot w.pt) storage) (mtStart w) labels c) {t : T}
    {call : ClientCall} {g : Set Nat} {prog : MtProg σ Nat} (hphase : c.phase t = .running call g prog) :
    prog ≠ .fail ∧ ∃ u c', MtStep C (FreeSlot w.pt) storage c (.statement u) c' ∨
      ∃ call r, MtStep C (FreeSlot w.pt) storage c (.finish u call r) c' := by
  obtain ⟨ρ, m, mc, hsim⟩ := h.mtSim hrun
  obtain ⟨hs, gone, hhas⟩ := hsim.client
  have hinv : MtInv C (FreeSlot w.pt) (mc + m) c.shared := hsim.inv
  refine ⟨?_, hsim.progress ?_ hphase⟩
  · rintro rfl
    exact hsim.safe hphase
  -- whoever has the token that a thread waits for need not wait
  rintro t ⟨-, hwait⟩
  cases hlocked : c.shared.locked with
  | true =>
      obtain ⟨items, hitems⟩ := Multiset.exists_mem_of_ne_zero (hinv.hasList hhas.tokenless hlocked)
      obtain ⟨x, hx, hlist⟩ := (Multiset.mem_filterMap _ _).mp hitems
      obtain ⟨u, hu⟩ := hsim.total.mem hx
      refine ⟨u, fun hzero => ?_, fun hnot => ?_⟩
      · rw [hzero] at hu
        exact Multiset.notMem_zero x hu
      · have hmem : items ∈ (ρ u).filterMap Item.list? := (Multiset.mem_filterMap _ _).mpr ⟨x, hu, hlist⟩
        rw [hnot.1] at hmem
        exact Multiset.notMem_zero items hmem
  | false =>
      obtain hrunning : c.shared.once = .running := by
        rcases hwait with hlock | ⟨hrunning, -⟩
        · rw [hlocked] at hlock
          cases hlock
        · exact hrunning
      obtain ⟨k, hk⟩ := Multiset.exists_mem_of_ne_zero (hinv.hasDedicating hhas.tokenless hrunning)
      obtain ⟨x, hx, hdedicating⟩ := (Multiset.mem_filterMap _ _).mp hk
      obtain ⟨u, hu⟩ := hsim.total.mem hx
      refine ⟨u, fun hzero => ?_, fun hnot => ?_⟩
      · rw [hzero] at hu
        exact Multiset.notMem_zero x hu
      · rcases hnot.2 with hlock | ⟨-, hnone⟩
        · rw [hlocked] at hlock
          cases hlock
        · have hmem : k ∈ (ρ u).filterMap Item.dedicating? := (Multiset.mem_filterMap _ _).mpr ⟨x, hu, hdedicating⟩
          rw [hnone] at hmem
          exact Multiset.notMem_zero k hmem

/-- Two threads in the middle of calls. -/
theorem threads_goOn_mallocs : ∃ c, Lts.Run (MtStep (bumpContract duneLayout) (FreeSlot duneWorld.pt) 0) (mtStart duneWorld)
      [.call true (.malloc 32), .call false (.malloc 32)] c ∧
    ∃ u c', MtStep (bumpContract duneLayout) (FreeSlot duneWorld.pt) 0 c (.statement u) c' ∨
      ∃ call r, MtStep (bumpContract duneLayout) (FreeSlot duneWorld.pt) 0 c (.finish u call r) c' := by
  have hmay : ∀ c : MtClient, c.may (.malloc 32) := fun c => ⟨Or.inl rfl, trivial⟩
  have hrun := (Lts.Run.single (Service.Step.call (P := danglessService (bumpContract duneLayout) (FreeSlot duneWorld.pt) 0)
    (c := mtStart duneWorld) (t := true) rfl (hmay _))).snoc (Service.Step.call (t := false) rfl (hmay _))
  exact ⟨_, hrun, (threads_goOn duneWorld_start hrun (t := true) rfl).2⟩

/-- Threads in the middle of work, each with what it has. -/
theorem DuneStart.worksOn (h : DuneStart C w)
    (hrun : Lts.Run (MtStep C (FreeSlot w.pt) storage) (mtStart w) labels c) : ∃ (ρ : T → Multiset Item) (m mc : Multiset Item),
    Total ρ m ∧ MtInv C (FreeSlot w.pt) (mc + m) c.shared ∧
      ∀ t work, (c.vars t).working = some work → WorksOn C (FreeSlot w.pt) (ρ t) work := by
  obtain ⟨ρ, m, mc, hsim⟩ := h.mtSim hrun
  have hidle : ∀ l, (danglessService C (FreeSlot w.pt) storage).idle l → (mtAccount C (FreeSlot w.pt)).own 0 l := by
    rintro _ rfl work hwork
    cases hwork
  exact ⟨ρ, m, mc, hsim.total, hsim.inv, fun t work ht => hsim.own hidle t work ht⟩

/-- The calls that two threads are in. -/
theorem DuneStart.callsApart (h : DuneStart C w)
    (hrun : Lts.Run (MtStep C (FreeSlot w.pt) storage) (mtStart w) labels c) {t u : T} (htu : t ≠ u) {call call' : PtCall}
    (ht : (c.vars t).working = some (.tables call)) (hu : (c.vars u).working = some (.tables call')) : Disjoint call.pages call'.pages ∨
      (∃ p, call = .resolve p ∧ L.Home p) ∧ ∃ p', call' = .resolve p' ∧ L.Home p' := by
  obtain ⟨ρ, m, mc, htotal, hinv, hworks⟩ := h.worksOn hrun
  obtain ⟨F, hF⟩ := htotal.pair htu
  rw [hF, add_left_comm, add_left_comm mc] at hinv
  exact WorksOn.apart h.slotsOk (hworks t _ ht) (hworks u _ hu) hinv

/-- **No two threads work on the same page**: where two threads are in calls of the page tables, the calls are about
different pages, or both look an address up. So each of them may take effect at once. -/
theorem threads_apart (h : DuneStart C w) (hrun : Lts.Run (MtStep C (FreeSlot w.pt) storage) (mtStart w) labels c) {t u : T}
    (htu : t ≠ u) {call call' : PtCall} (ht : (c.vars t).working = some (.tables call))
    (hu : (c.vars u).working = some (.tables call')) :
    Disjoint call.pages call'.pages ∨ (∃ p, call = .resolve p) ∧ ∃ p', call' = .resolve p' := by
  refine (h.callsApart hrun htu ht hu).imp_right ?_
  rintro ⟨⟨p, hp, -⟩, ⟨p', hp', -⟩⟩
  exact ⟨⟨p, hp⟩, ⟨p', hp'⟩⟩

/-- A thread that frees a pointer, when it looks the pointer up. -/
theorem free_resolves {s : SharedWorld σ} (storage : Nat) (hp : p ≠ 0) (hkernel : s.world.kernelMode = true) : ∃ next,
    Service.after 3 ((ClientCall.free p).code A L storage) (s, idleVars) =
      some (next, ({ s with world := { s.world with hookDepth := 1 } }, ⟨1, some (.tables (.resolve p))⟩)) := by
  obtain ⟨⟨sys, addr, populating, storageUsed, items, pt, autoDedicated, hookDepth, kernelMode, trace⟩, locked, once⟩ := s
  obtain rfl : kernelMode = true := hkernel
  show ∃ next, Service.after 3 (danglessFreeProg A L p >>= fun _ => pure 0) _ = _
  unfold danglessFreeProg
  rw [if_neg hp]
  exact ⟨_, rfl⟩

/-- Two blocks of 32 bytes are held. -/
theorem twoBlocks_threads : ∃ labels s, Lts.Run (MtStep (T := Bool) (bumpContract duneLayout) (FreeSlot duneWorld.pt) 0)
      (mtStart duneWorld) labels ⟨s, fun _ => idleVars, ⟨[PHYS_LIMIT + PGSIZE + 144, PHYS_LIMIT], ∅⟩, fun _ => .idle⟩ ∧
    s.world.kernelMode = true := by
  obtain ⟨labels, s, hrun, hloaded⟩ := oneBlock_threads
  have hmay : (⟨[PHYS_LIMIT], ∅⟩ : MtClient).may (.malloc 32) := ⟨Or.inl rfl, trivial⟩
  obtain ⟨hptr, hkernel⟩ : (danglessMalloc bumpAllocator duneLayout 32 oneBlock.world).1 = PHYS_LIMIT + PGSIZE + 144 ∧
      (danglessMalloc bumpAllocator duneLayout 32 oneBlock.world).2.kernelMode = true := by decide +kernel
  have hr : (ClientCall.malloc 32).sequential bumpAllocator duneLayout 0 (loadWorld (s, idleVars)) =
      (PHYS_LIMIT + PGSIZE + 144, (danglessMalloc bumpAllocator duneLayout 32 oneBlock.world).2) := by
    rw [hloaded, ← hptr]
    exact Prod.mk.eta.symm
  obtain ⟨n, s', hmalloc, hloaded'⟩ := duneWorld_start.alone hrun (fun _ => rfl) hmay true hr
  refine ⟨_, s', hrun.append hmalloc, ?_⟩
  rw [← hloaded'] at hkernel
  exact hkernel

/-- Two threads free the blocks, and both have come to look their pointers up. -/
theorem bothFrees_threads : ∃ c labels, Lts.Run (MtStep (bumpContract duneLayout) (FreeSlot duneWorld.pt) 0)
      (mtStart duneWorld) labels c ∧ (c.vars true).working = some (.tables (.resolve PHYS_LIMIT)) ∧
    (c.vars false).working = some (.tables (.resolve (PHYS_LIMIT + PGSIZE + 144))) := by
  obtain ⟨labels, s, hrun, hkernel⟩ := twoBlocks_threads
  -- one thread comes to look up its pointer, then the other
  obtain ⟨next, hnext⟩ := free_resolves (A := bumpAllocator) (L := duneLayout) 0 (by decide : PHYS_LIMIT ≠ 0) hkernel
  have hmay : (⟨[PHYS_LIMIT + PGSIZE + 144, PHYS_LIMIT], ∅⟩ : MtClient).may (.free PHYS_LIMIT) :=
    ⟨Or.inr (List.mem_cons_of_mem _ List.mem_cons_self), trivial⟩
  have hfirst := hrun.append (Service.run_call (t := true) rfl hmay hnext)
  obtain ⟨next', hnext'⟩ := free_resolves (A := bumpAllocator) (L := duneLayout) (p := PHYS_LIMIT + PGSIZE + 144)
    (s := { s with world := { s.world with hookDepth := 1 } }) 0 (by decide) hkernel
  have hmay' : (⟨[PHYS_LIMIT + PGSIZE + 144], ∅⟩ : MtClient).may (.free (PHYS_LIMIT + PGSIZE + 144)) :=
    ⟨Or.inr List.mem_cons_self, trivial⟩
  have hboth := hfirst.append (Service.run_call (t := false) rfl hmay' hnext')
  exact ⟨_, _, hboth, rfl, rfl⟩

theorem threads_apart_frees : ∃ c labels, Lts.Run (MtStep (bumpContract duneLayout) (FreeSlot duneWorld.pt) 0)
      (mtStart duneWorld) labels c ∧ (c.vars true).working = some (.tables (.resolve PHYS_LIMIT)) ∧
    (c.vars false).working = some (.tables (.resolve (PHYS_LIMIT + PGSIZE + 144))) ∧
    (Disjoint (PtCall.resolve PHYS_LIMIT).pages (PtCall.resolve (PHYS_LIMIT + PGSIZE + 144)).pages ∨
      (∃ p, PtCall.resolve PHYS_LIMIT = .resolve p) ∧
        ∃ p', PtCall.resolve (PHYS_LIMIT + PGSIZE + 144) = .resolve p') := by
  obtain ⟨c, labels, hrun, htrue, hfalse⟩ := bothFrees_threads
  exact ⟨c, labels, hrun, htrue, hfalse, threads_apart (t := true) (u := false) duneWorld_start hrun (by decide) htrue hfalse⟩

theorem MtInv.fresh (h : MtInv C Z ms s) : Fresh Z ∅ s.world.pt := by
  obtain ⟨others, maps, blocks, pages, gone, k, h⟩ := h
  exact h.layout.fresh.mono (Set.empty_subset _)

/-- While a thread works on the list, the mutex is locked and nobody else works on the list. -/
theorem DuneStart.listLocked (h : DuneStart C w) (hrun : Lts.Run (MtStep C (FreeSlot w.pt) storage) (mtStart w) labels c)
    {t : T} {op : VpOp} (ht : (c.vars t).working = some (.list op)) :
    c.shared.locked = true ∧ ∀ u op', (c.vars u).working = some (.list op') → u = t := by
  obtain ⟨ρ, m, mc, htotal, hinv, hworks⟩ := h.worksOn hrun
  obtain ⟨⟨items, hitems⟩, -⟩ := hworks t _ ht
  obtain ⟨rest, hrest⟩ := Multiset.exists_cons_of_mem hitems
  have hfirst : ∀ F, mc + m = ρ t + F → MtInv C (FreeSlot w.pt) (.list items ::ₘ (rest + F)) c.shared := by
    intro F hF
    rw [hF, hrest, Multiset.cons_add] at hinv
    exact hinv
  obtain ⟨F, hF, -⟩ := htotal.split t
  refine ⟨(hfirst (mc + F) (by rw [hF, add_left_comm])).locked.1, fun u op' hu => ?_⟩
  by_contra hut
  -- the list is in one place
  obtain ⟨⟨items', hitems'⟩, -⟩ := hworks u _ hu
  obtain ⟨F', hF'⟩ := htotal.pair (Ne.symm hut)
  have hnone := (hfirst (ρ u + (mc + F')) (by rw [hF', add_left_comm, add_left_comm mc])).locked.2.2
  have hmem : items' ∈ (rest + (ρ u + (mc + F'))).filterMap Item.list? :=
    (Multiset.mem_filterMap _ _).mpr ⟨.list items',
      Multiset.mem_add.mpr (Or.inr (Multiset.mem_add.mpr (Or.inl hitems'))), rfl⟩
  rw [hnone] at hmem
  exact Multiset.notMem_zero _ hmem

/-- **The work of `vp_alloc` and `vp_free` on the list may be taken statement by statement.** Where a thread has come to
it, the mutex is locked and no other thread has. From whatever linked objects the list consists of, with any answers of
`MALLOC`, the statements of `freelist_alloc` or `freelist_free` come to an end, touch no object that is not allocated, fail
no assertion, and do what the work does in one step. -/
theorem threads_listWork (h : DuneStart C w) (hrun : Lts.Run (MtStep C (FreeSlot w.pt) storage) (mtStart w) labels c)
    {t : T} {op : VpOp} (ht : (c.vars t).working = some (.list op)) {objects : SpanStore}
    (hobjects : HoldsSpans objects c.shared.world.items []) :
    (c.shared.locked = true ∧ ∀ u op', (c.vars u).working = some (.list op') → u = t) ∧
    ∃ n, ∀ statements x, Lts.Run vpBody.Alone (vpBody.start op, objects) statements x →
      statements.length ≤ n ∧ ¬ vpBody.fault x.1 x.2 ∧ (vpBody.answer x.1 = none → ∃ y, vpBody.Alone x () y) ∧
        ∀ answer, vpBody.answer x.1 = some answer →
          ∃ left, HoldsSpans x.2 left [] ∧ op.Computes c.shared.world.items answer left := by
  refine ⟨h.listLocked hrun ht, ?_⟩
  obtain ⟨ρ, m, mc, htotal, hinv, hworks⟩ := h.worksOn hrun
  obtain ⟨-, hlegal⟩ := hworks t _ ht
  obtain ⟨F, hF, -⟩ := htotal.split t
  rw [hF, add_left_comm] at hinv
  exact vpBody_implements.alone hobjects (hlegal _ _ hinv)

/-- The first `malloc` of a process, when it has locked the freelist and has come to `freelist_alloc`. -/
theorem malloc_listWork : ∃ next s l, Service.after 6 ((ClientCall.malloc 32).code bumpAllocator duneLayout 0)
      ((⟨duneWorld, false, .init⟩ : SharedWorld BumpHeap), idleVars) = some (next, (s, l)) ∧
    l.working = some (.list (.alloc 1)) ∧ s.world.items = [] := by
  have hafter : ((Service.after 6 ((ClientCall.malloc 32).code bumpAllocator duneLayout 0)
      ((⟨duneWorld, false, .init⟩ : SharedWorld BumpHeap), idleVars)).map fun r => (r.2.2.working, r.2.1.world.items)) =
        some (some (.list (.alloc 1)), []) := by decide +kernel
  obtain ⟨⟨next, s, l⟩, hsome, hstate⟩ := Option.map_eq_some_iff.mp hafter
  obtain ⟨hworking, hitems⟩ := Prod.mk.inj hstate
  exact ⟨next, s, l, hsome, hworking, hitems⟩

theorem threads_listWork_malloc : ∃ c labels, Lts.Run (MtStep (bumpContract duneLayout) (FreeSlot duneWorld.pt) 0)
      (mtStart duneWorld) labels c ∧
    (c.shared.locked = true ∧ ∀ u op, (c.vars u).working = some (.list op) → u = true) ∧
    ∃ n, ∀ statements x, Lts.Run vpBody.Alone (vpBody.start (.alloc 1), noSpans) statements x →
      statements.length ≤ n ∧ ¬ vpBody.fault x.1 x.2 ∧ (vpBody.answer x.1 = none → ∃ y, vpBody.Alone x () y) ∧
        ∀ answer, vpBody.answer x.1 = some answer →
          ∃ left, HoldsSpans x.2 left [] ∧ (VpOp.alloc 1).Computes c.shared.world.items answer left := by
  obtain ⟨next, s, l, hafter, hworking, hitems⟩ := malloc_listWork
  have hmay : (⟨[], ∅⟩ : MtClient).may (.malloc 32) := ⟨Or.inl rfl, trivial⟩
  have hrun := Service.run_call (P := danglessService (bumpContract duneLayout) (FreeSlot duneWorld.pt) 0)
    (c := mtStart duneWorld) (t := true) rfl hmay hafter
  have hobjects : HoldsSpans noSpans s.world.items [] := hitems ▸ holdsSpans_noSpans
  exact ⟨_, _, hrun, threads_listWork (t := true) duneWorld_start hrun hworking hobjects⟩

/-- Calls one after another, as the functions of `dangless_malloc.c` are without threads. -/
inductive OneByOne (C : SysContract A L) (storage : Nat) :
    World σ × MtClient → T × ClientCall × Nat → World σ × MtClient → Prop
  | call {w w' : World σ} {c : MtClient} {t : T} {call : ClientCall} {r : Nat} (hmay : c.may call)
      (hr : call.sequential A L storage w = (r, w')) : OneByOne C storage (w, c) (t, call, r)
        (w', (c.called call).returned A L call (regionOf A L w call.pointer) r ⟨w', false, .done⟩)

/-- **Threads that take turns do what the functions do**: from where no thread is in a call, however threads came there,
calls that are made one after another by whatever threads all end, with the answers that the functions of
`dangless_malloc.c` give without threads, and leave the state that these leave. -/
theorem threads_oneByOne (h : DuneStart C w) (hrun : Lts.Run (MtStep C (FreeSlot w.pt) storage) (mtStart w) labels c)
    (hidle : ∀ t, c.phase t = .idle) {calls : List (T × ClientCall × Nat)} {x : World σ × MtClient}
    (hcalls : Lts.Run (OneByOne C storage) (loadWorld (c.shared, idleVars), c.client) calls x) :
    ∃ labels' c', Lts.Run (MtStep C (FreeSlot w.pt) storage) c labels' c' ∧
      labels'.filter Ledger.Label.seen =
        calls.flatMap (fun call => [.call call.1 call.2.1, .finish call.1 call.2.1 call.2.2]) ∧
      (loadWorld (c'.shared, idleVars), c'.client) = x ∧ ∀ t, c'.phase t = .idle := by
  generalize hstart : (loadWorld (c.shared, idleVars), c.client) = x₀ at hcalls
  induction hcalls with
  | nil => exact ⟨[], c, .nil c, rfl, hstart, hidle⟩
  | snoc _ hstep ih =>
      obtain ⟨labels', c', hrun', hseen, hstate, hidle'⟩ := ih
      cases hstep with
      | @call _ w' _ t call r hmay hr =>
          obtain ⟨rfl, rfl⟩ := Prod.mk.inj hstate
          obtain ⟨n, s', hcall, hloaded⟩ := h.alone (hrun.append hrun') hidle' hmay t hr
          refine ⟨_, _, hrun'.append hcall, ?_, ?_, hidle'⟩
          · rw [List.filter_append, hseen, List.flatMap_append, List.flatMap_singleton]
            rw [List.filter_append, List.filter_cons_of_pos rfl, Ledger.filter_seen_statements]
            rfl
          · rw [← hloaded]
            cases call <;> rfl

/-- One thread allocates, and the other releases. -/
theorem threads_oneByOne_free : ∃ labels' c', Lts.Run (MtStep (T := Bool) (bumpContract duneLayout) (FreeSlot duneWorld.pt) 0)
      (mtStart duneWorld) labels' c' ∧
    labels'.filter Ledger.Label.seen = [.call true (.malloc 32), .finish true (.malloc 32) PHYS_LIMIT,
      .call false (.free PHYS_LIMIT), .finish false (.free PHYS_LIMIT) 0] ∧
    loadWorld (c'.shared, idleVars) = danglessFree bumpAllocator duneLayout PHYS_LIMIT oneBlock.world := by
  have hmalloc : OneByOne (bumpContract duneLayout) 0 (duneWorld, ⟨[], ∅⟩) (true, .malloc 32, PHYS_LIMIT)
      (oneBlock.world, ⟨[PHYS_LIMIT], ∅⟩) := .call ⟨Or.inl rfl, trivial⟩ (Prod.ext oneBlock_state.1 rfl)
  have hfree : OneByOne (bumpContract duneLayout) 0 (oneBlock.world, ⟨[PHYS_LIMIT], ∅⟩) (false, .free PHYS_LIMIT, 0)
      (danglessFree bumpAllocator duneLayout PHYS_LIMIT oneBlock.world, _) := .call ⟨Or.inr List.mem_cons_self, trivial⟩ rfl
  have hstart : Lts.Run (MtStep (T := Bool) (bumpContract duneLayout) (FreeSlot duneWorld.pt) 0) (mtStart duneWorld) []
      (mtStart duneWorld) := .nil _
  obtain ⟨labels', c', hrun, hseen, hstate, -⟩ := threads_oneByOne duneWorld_start hstart (fun _ => rfl)
    ((Lts.Run.single hmalloc).snoc hfree)
  exact ⟨labels', c', hrun, hseen, (Prod.mk.inj hstate).1⟩

end Dangless
