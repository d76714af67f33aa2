import Dangless.AutoDedicate
import Dangless.DanglessThreads

/-! A thread that runs alone does what the functions of `dangless_malloc.c` do: the programs of the threads are those
functions, taken apart into statements. -/

namespace Dangless

open Rely Rely.Prog

variable {σ R R' : Type} {A : SysAllocator σ} {L : DuneLayout} {p q : MtProg σ R} {k : R → MtProg σ R'}
  {f f' : World σ → R × World σ} {g : R → World σ → R' × World σ} {s s' : SharedWorld σ × ThreadVars}
  {ptr size va n storage : Nat}

theorem run_bind_some {r : R'} (h : (p >>= k).run s = some (r, s')) :
    ∃ a s₁, p.run s = some (a, s₁) ∧ (k a).run s₁ = some (r, s') := by
  rw [run_bind, Option.bind_eq_some_iff] at h
  obtain ⟨⟨a, s₁⟩, hp, hk⟩ := h
  exact ⟨a, s₁, hp, hk⟩

/-- A program that does a function of the model, unless an assertion fails, and leaves the mutex and
`g_auto_dedicate_once` as they are. -/
def Computes (p : MtProg σ R) (f : World σ → R × World σ) : Prop :=
  ∀ s r s', p.run s = some (r, s') → (r, loadWorld s') = f (loadWorld s) ∧ s'.1.locked = s.1.locked ∧ s'.1.once = s.1.once

theorem Computes.congr (h : Computes p f) (hf : f = f') : Computes p f' := hf ▸ h

theorem computes_pure (r : R) : Computes (σ := σ) (pure r) fun w => (r, w) := by
  intro s r' s' h
  obtain ⟨rfl, rfl⟩ := Prod.mk.inj (Option.some.inj h)
  exact ⟨rfl, rfl, rfl⟩

theorem Computes.bind (hp : Computes p f) (hk : ∀ r, Computes (k r) (g r)) :
    Computes (p >>= k) fun w => g (f w).1 (f w).2 := by
  intro s r s' h
  obtain ⟨a, s₁, hp', hk'⟩ := run_bind_some h
  obtain ⟨hworld, hlocked, honce⟩ := hp s a s₁ hp'
  obtain ⟨hworld', hlocked', honce'⟩ := hk a s₁ r s' hk'
  refine ⟨?_, hlocked'.trans hlocked, honce'.trans honce⟩
  show _ = g (f (loadWorld s)).1 (f (loadWorld s)).2
  rw [hworld', ← hworld]

theorem Computes.ite {c : Prop} [Decidable c] (hp : Computes p f) (hq : Computes q f') :
    Computes (if c then p else q) fun w => if c then f w else f' w := by
  split_ifs
  · exact hp
  · exact hq

theorem computes_callWorld (f : World σ → R × World σ) : Computes (callWorld f) f := by
  intro s r s' h
  obtain ⟨rfl, rfl⟩ := Prod.mk.inj (Option.some.inj h)
  exact ⟨rfl, rfl, rfl⟩

theorem computes_readWorld (f : World σ → R) : Computes (readWorld f) fun w => (f w, w) := by
  intro s r s' h
  obtain ⟨rfl, rfl⟩ := Prod.mk.inj (Option.some.inj h)
  exact ⟨rfl, rfl, rfl⟩

theorem computes_check (condition : Bool) : Computes (σ := σ) (Prog.check condition) fun w => ((), w) := by
  cases condition with
  | true => exact computes_pure ()
  | false =>
      intro s r s' h
      cases h

theorem computes_assertWorld (f : World σ → Bool) : Computes (assertWorld f) fun w => ((), w) :=
  (computes_readWorld f).bind fun _ => computes_check _

theorem computes_work (work : Work) (f : World σ → R × World σ) : Computes (workProg work f) f := by
  intro s r s' h
  obtain ⟨rfl, rfl⟩ := Prod.mk.inj (Option.some.inj h)
  exact ⟨rfl, rfl, rfl⟩

theorem computes_freeNodesProg (nodes : List Nat) :
    Computes (freeNodesProg A nodes) fun w => ((), freeNodes A nodes w) := by
  induction nodes with
  | nil => exact computes_pure ()
  | cons node nodes ih => exact (computes_callWorld _).bind fun _ => ih

/-- A program that does a function of the model with the mutex locked, and then unlocks it. -/
def Unlocks (p : MtProg σ R) (f : World σ → R × World σ) : Prop :=
  ∀ s r s', p.run s = some (r, s') → (r, loadWorld s') = f (loadWorld s) ∧ s'.1.locked = false ∧ s'.1.once = s.1.once

theorem Computes.unlocks (hp : Computes p f) (hk : ∀ r, Unlocks (k r) (g r)) :
    Unlocks (p >>= k) fun w => g (f w).1 (f w).2 := by
  intro s r s' h
  obtain ⟨a, s₁, hp', hk'⟩ := run_bind_some h
  obtain ⟨hworld, -, honce⟩ := hp s a s₁ hp'
  obtain ⟨hworld', hlocked, honce'⟩ := hk a s₁ r s' hk'
  refine ⟨?_, hlocked, honce'.trans honce⟩
  show _ = g (f (loadWorld s)).1 (f (loadWorld s)).2
  rw [hworld', ← hworld]

theorem unlocks_freelistUnlock (r : R) : Unlocks (σ := σ) (do freelistUnlock; return r) fun w => (r, w) := by
  intro s r' s' h
  obtain ⟨rfl, rfl⟩ := Prod.mk.inj (Option.some.inj h)
  exact ⟨rfl, rfl, rfl⟩

/-- A section under the mutex. -/
theorem Unlocks.section (h : Unlocks p f) : Computes (do freelistLock; p) f := by
  intro s r s' hrun
  obtain ⟨_, s₁, hlock, hrest⟩ := run_bind_some hrun
  have hguard : s.1.locked = false ∧ s₁ = ({ s.1 with locked := true }, s.2) := by
    rw [freelistLock, await, Prog.run] at hlock
    split_ifs at hlock with hfree
    obtain ⟨-, rfl⟩ := Prod.mk.inj (Option.some.inj hlock)
    exact ⟨by simpa using hfree, rfl⟩
  obtain ⟨hfree, rfl⟩ := hguard
  obtain ⟨hworld, hlocked, honce⟩ := h _ _ _ hrest
  exact ⟨hworld, hlocked.trans hfree.symm, honce⟩

theorem computes_vpAllocProg (npages : Nat) : Computes (vpAllocProg A npages) (vpAlloc A npages) :=
  Unlocks.section <| (computes_work (.list (.alloc npages)) fun w : World σ =>
      (freelistAlloc npages w.items, { w with items := (freelistAlloc npages w.items).items })).unlocks fun r =>
    (computes_freeNodesProg (A := A) r.freed).unlocks fun _ =>
      (computes_callWorld fun w => ((), { w with trace := .vpAlloc r.va npages :: w.trace })).unlocks fun _ =>
        unlocks_freelistUnlock r.va

theorem computes_spanNodeProg (needsNode : Bool) : Computes (spanNodeProg A needsNode) fun w =>
    if needsNode then sysmalloc A VP_SPAN_SIZE w else (0, w) := by
  cases needsNode with
  | true => exact computes_callWorld _
  | false => exact computes_pure 0

theorem computes_vpFreeProg (va npages : Nat) : Computes (vpFreeProg A va npages) (vpFree A va npages) := by
  have hbody := Unlocks.section <| (computes_readWorld fun w : World σ => freelistFreeNeedsNode w.items va npages).unlocks
    fun needsNode => (computes_spanNodeProg (A := A) needsNode).unlocks fun node =>
      (computes_work (.list (.free va npages)) fun w =>
        (freelistFree w.items va npages node, { w with items := (freelistFree w.items va npages node).items })).unlocks
        fun r => (computes_freeNodesProg (A := A) r.freed).unlocks fun _ =>
          (computes_callWorld fun w => ((), { w with trace := .vpFree va npages :: w.trace })).unlocks
            fun _ => unlocks_freelistUnlock r.result
  refine hbody.congr (funext fun w => ?_)
  unfold vpFree
  dsimp only
  cases freelistFreeNeedsNode w.items va npages with
  | true => rfl
  | false => rfl

theorem computes_ptMapRegionCall (pa va npages : Nat) : Computes (ptMapRegionCall (σ := σ) pa va npages) fun w =>
    ((ptMapRegion w.pt pa va (npages * PGSIZE) (PTE_W ||| PTE_NX)).1,
      { w with pt := (ptMapRegion w.pt pa va (npages * PGSIZE) (PTE_W ||| PTE_NX)).2 }) := computes_work _ _

/-- What `vremap_map` returns, as the programs have it. -/
def VremapMap.toPair (r : VremapMap σ) : (Int × Nat) × World σ := ((r.result, r.remappedPtr), r.world)

theorem computes_vremapMapAtProg (ptr npages va : Nat) : Computes (vremapMapAtProg A L ptr npages va) fun w =>
    (vremapMapAt A L ptr npages va w).toPair := by
  have hbody := (computes_assertWorld fun w : World σ => (vremapMapAtChecks npages va w).all PtOp.passes).bind fun _ =>
    (computes_ptMapRegionCall (roundDown (L.duneVaToPa ptr) PGSIZE) va npages).bind fun result =>
      Computes.ite (c := result < 0)
        ((computes_vpFreeProg (A := A) va npages).bind fun _ => computes_pure ((EVREM_VIRT_MAP, 0) : Int × Nat))
        (computes_pure (VREM_OK, va + getPageOffset ptr .l1))
  refine hbody.congr (funext fun w => ?_)
  unfold vremapMapAt VremapMap.toPair
  dsimp only
  split_ifs <;> rfl

theorem computes_vremapMapProg (ptr size : Nat) : Computes (vremapMapProg A L ptr size) fun w =>
    (vremapMap A L ptr size w).toPair := by
  have hbody := (computes_assertWorld fun w : World σ => (vremapMapChecks L ptr size w).all PtOp.passes).bind fun _ =>
    (computes_vpAllocProg (A := A) (numSpannedPages ptr size)).bind fun va =>
      Computes.ite (c := va = 0) (computes_pure ((EVREM_NO_VM, 0) : Int × Nat))
        (computes_vremapMapAtProg (A := A) (L := L) ptr (numSpannedPages ptr size) va)
  refine hbody.congr (funext fun w => ?_)
  unfold vremapMap VremapMap.toPair
  dsimp only
  split_ifs <;> rfl

theorem computes_autoDedicateLoopProg (n : Nat) : Computes (autoDedicateLoopProg A n) fun w => ((), autoDedicateLoop A w n) := by
  induction n with
  | zero => exact computes_pure ()
  | succ n ih =>
      have hbody := ih.bind fun _ => (computes_readWorld fun w : World σ => w.pt.mem (w.pt.cr3 + 8 * n)).bind fun word =>
        Computes.ite (c := word ≠ 0) (computes_pure ()) ((computes_vpFreeProg (A := A) (n * 2 ^ ptLevelShift .l4)
          (u64 ((n + 1) * 2 ^ ptLevelShift .l4 + 2 ^ 64 - n * 2 ^ ptLevelShift .l4) / PGSIZE)).bind fun _ => computes_pure ())
      refine hbody.congr (funext fun w => ?_)
      rw [autoDedicateLoop]
      dsimp only
      split_ifs <;> rfl

/-- `auto_dedicate_vmem`, with any number of turns of its loop. -/
theorem computes_dedicateTurns (n : Nat) :
    Computes (do autoDedicateLoopProg A n; callWorld fun w => ((), { w with autoDedicated := true })) fun w =>
      ((), { autoDedicateLoop A w n with autoDedicated := true }) :=
  (computes_autoDedicateLoopProg n).bind fun _ => computes_callWorld fun w => ((), { w with autoDedicated := true })

theorem computes_autoDedicateProg : Computes (autoDedicateProg A) fun w => ((), autoDedicateVmem A w) := by
  unfold autoDedicateProg autoDedicateVmem
  generalize PT_NUM_ENTRIES = n
  exact computes_dedicateTurns n

/-- What `g_auto_dedicate_once` says of `g_auto_dedicate_happened`. -/
def OnceDone (s : SharedWorld σ × ThreadVars) : Prop := s.1.once = .done → s.1.world.autoDedicated = true

/-- A program that does a function of the model where `auto_dedicate_vmem` may have to run first. -/
def ComputesOnce (p : MtProg σ R) (f : World σ → R × World σ) : Prop :=
  ∀ s r s', OnceDone s → p.run s = some (r, s') → (r, loadWorld s') = f (loadWorld s)

theorem Computes.computesOnce (h : Computes p f) : ComputesOnce p f := fun s r s' _ hrun => (h s r s' hrun).1

theorem ComputesOnce.congr (h : ComputesOnce p f) (hf : f = f') : ComputesOnce p f' := hf ▸ h

/-- `g_auto_dedicate_happened` stays as it is. -/
def KeepsDedicated (f : World σ → R × World σ) : Prop := ∀ w, (f w).2.autoDedicated = w.autoDedicated

theorem Computes.andThen (hp : Computes p f) (hkeep : KeepsDedicated f) (hk : ∀ r, ComputesOnce (k r) (g r)) :
    ComputesOnce (p >>= k) fun w => g (f w).1 (f w).2 := by
  intro s r s' hdone h
  obtain ⟨a, s₁, hp', hk'⟩ := run_bind_some h
  obtain ⟨hworld, -, honce⟩ := hp s a s₁ hp'
  have hauto : s₁.1.world.autoDedicated = s.1.world.autoDedicated :=
    (congrArg (fun r : R × World σ => r.2.autoDedicated) hworld).trans (hkeep _)
  have hdone' : OnceDone s₁ := fun h => hauto.trans (hdone (honce ▸ h))
  show _ = g (f (loadWorld s)).1 (f (loadWorld s)).2
  rw [hk a s₁ r s' hdone' hk', ← hworld]

theorem ComputesOnce.bind (hp : ComputesOnce p f) (hk : ∀ r, Computes (k r) (g r)) :
    ComputesOnce (p >>= k) fun w => g (f w).1 (f w).2 := by
  intro s r s' hdone h
  obtain ⟨a, s₁, hp', hk'⟩ := run_bind_some h
  show _ = g (f (loadWorld s)).1 (f (loadWorld s)).2
  rw [(hk a s₁ r s' hk').1, ← hp s a s₁ hdone hp']

theorem ComputesOnce.ite {c : Prop} [Decidable c] (hp : ComputesOnce p f) (hq : ComputesOnce q f') :
    ComputesOnce (if c then p else q) fun w => if c then f w else f' w := by
  split_ifs
  · exact hp
  · exact hq

/-- Where virtual memory was not dedicated, `pthread_once` dedicates it. -/
theorem pthreadOnce_run {u : Unit} (hdone : OnceDone s) (hnot : s.1.world.autoDedicated = false)
    (hrun : (pthreadOnce A).run s = some (u, s')) : loadWorld s' = autoDedicateVmem A (loadWorld s) := by
  obtain ⟨first, s₁, hstep, hrest⟩ := run_bind_some hrun
  cases honce : s.1.once with
  | running => simp [Prog.run, honce] at hstep
  | done => exact absurd (hdone honce) (by simp [hnot])
  | init =>
      have hfirst : some (true, (({ s.1 with once := .running }, s.2) : SharedWorld σ × ThreadVars)) = some (first, s₁) := by
        simpa [Prog.run, honce] using hstep
      obtain ⟨rfl, rfl⟩ := Prod.mk.inj (Option.some.inj hfirst)
      obtain ⟨_, s₂, hdedicate, hfinish⟩ := run_bind_some hrest
      obtain ⟨-, rfl⟩ := Prod.mk.inj (Option.some.inj hfinish)
      exact congrArg Prod.snd (computes_autoDedicateProg _ _ _ hdedicate).1

/-- The last turn of the loop at `retry`. -/
theorem vremapRetryProg_last {r : Int × Nat} (hrun : (vremapRetryProg A L ptr size 1).run s = some (r, s')) :
    (r, loadWorld s') = (vremapMap A L ptr size (loadWorld s)).toPair := by
  obtain ⟨r₁, s₁, hmap, hrest⟩ := run_bind_some hrun
  have hworld : (r₁, loadWorld s₁) = (vremapMap A L ptr size (loadWorld s)).toPair :=
    (computes_vremapMapProg ptr size _ _ _ hmap).1
  rw [← hworld]
  split_ifs at hrest
  · obtain ⟨happened, s₂, hread, hrest⟩ := run_bind_some hrest
    obtain ⟨rfl, rfl⟩ := Prod.mk.inj (Option.some.inj hread)
    split_ifs at hrest
    · obtain ⟨rfl, rfl⟩ := Prod.mk.inj (Option.some.inj hrest)
      rfl
    · obtain ⟨_, s₃, -, hfail⟩ := run_bind_some hrest
      cases hfail
  · obtain ⟨rfl, rfl⟩ := Prod.mk.inj (Option.some.inj hrest)
    rfl

theorem vremapRetryProg_computes (ptr size : Nat) : ComputesOnce (vremapRetryProg A L ptr size 2) fun w =>
    (vremapRetry A L ptr size w).toPair := by
  intro s r s' hdone hrun
  obtain ⟨r₁, s₁, hmap, hrest⟩ := run_bind_some hrun
  obtain ⟨hworld, -, honce⟩ := computes_vremapMapProg ptr size _ _ _ hmap
  have hresult : (vremapMap A L ptr size (loadWorld s)).result = r₁.1 :=
    (congrArg (fun r : (Int × Nat) × World σ => r.1.1) hworld).symm
  have hafter : (vremapMap A L ptr size (loadWorld s)).world = loadWorld s₁ :=
    (congrArg (fun r : (Int × Nat) × World σ => r.2) hworld).symm
  have hauto : s₁.1.world.autoDedicated = s.1.world.autoDedicated :=
    (congrArg World.autoDedicated hafter).symm.trans (vremapMap_autoDedicated ..)
  have hretry : vremapRetry A L ptr size (loadWorld s) =
      if r₁.1 = EVREM_NO_VM ∧ !(loadWorld s₁).autoDedicated then vremapMap A L ptr size (autoDedicateVmem A (loadWorld s₁))
      else vremapMap A L ptr size (loadWorld s) := by
    unfold vremapRetry
    rw [← hresult, ← hafter]
  show _ = (vremapRetry A L ptr size (loadWorld s)).toPair
  rw [hretry]
  split_ifs at hrest with hnoVm
  · obtain ⟨happened, s₂, hread, hrest⟩ := run_bind_some hrest
    obtain ⟨rfl, rfl⟩ := Prod.mk.inj (Option.some.inj hread)
    split_ifs at hrest with hhappened
    · obtain ⟨rfl, rfl⟩ := Prod.mk.inj (Option.some.inj hrest)
      rw [if_neg (by simp [hhappened])]
      exact hworld
    · obtain ⟨_, s₃, honceRun, hlast⟩ := run_bind_some hrest
      have hnot : (loadWorld s₁).autoDedicated = false := Bool.eq_false_iff.mpr hhappened
      rw [if_pos ⟨hnoVm, by simp [hnot]⟩, ← pthreadOnce_run (fun h => hauto.trans (hdone (honce ▸ h))) hnot honceRun]
      exact vremapRetryProg_last hlast
  · obtain ⟨rfl, rfl⟩ := Prod.mk.inj (Option.some.inj hrest)
    rw [if_neg fun h => hnoVm h.1]
    exact hworld

theorem doVremapProg_computes (p size : Nat) : ComputesOnce (doVremapProg A L p size) (doVremap A L p size) := by
  have hbody := ((computes_pure 0).computesOnce (σ := σ)).ite (c := p = 0 ∨ size = 0) <|
    (computes_callWorld (sysmallocUsableSize A p)).andThen (fun _ => rfl) fun actualSize =>
      (vremapRetryProg_computes (A := A) (L := L) p actualSize).bind fun r =>
        Computes.ite (c := r.1 < 0) (computes_pure p) (computes_pure r.2)
  refine hbody.congr (funext fun w => ?_)
  unfold doVremap VremapMap.toPair
  by_cases hnull : p = 0 ∨ size = 0
  · rw [if_pos hnull]
  · rw [if_neg hnull]

theorem computes_hookEnterProg : Computes (σ := σ) hookEnterProg fun w =>
    ((hookEnter w).isSome, (hookEnter w).getD w) := computes_callWorld _

theorem keepsDedicated_hookEnter : KeepsDedicated (σ := σ) fun w => ((hookEnter w).isSome, (hookEnter w).getD w) := by
  intro w
  dsimp only
  unfold hookEnter
  split_ifs <;> rfl

theorem computes_hookExitProg : Computes (σ := σ) hookExitProg fun w => ((), hookExit w) :=
  (computes_assertWorld fun w : World σ => 0 < w.hookDepth).bind fun _ => computes_callWorld fun w => ((), hookExit w)

theorem hookVremapProg_computes (p size : Nat) : ComputesOnce (hookVremapProg A L p size) (hookVremap A L p size) :=
  (doVremapProg_computes p size).bind fun r => computes_hookExitProg.bind fun _ => computes_pure r

/-- An allocating entry point, after the call of the system allocator. -/
theorem hookedVremap_computes (p size : Nat) :
    ComputesOnce (do let entered ← hookEnterProg; if entered then hookVremapProg A L p size else return p) fun w =>
      match hookEnter w with
      | none => (p, w)
      | some w => hookVremap A L p size w := by
  have hbody := (computes_hookEnterProg (σ := σ)).andThen keepsDedicated_hookEnter fun entered =>
    (hookVremapProg_computes (A := A) (L := L) p size).ite (c := entered = true) (computes_pure p).computesOnce
  refine hbody.congr (funext fun w => ?_)
  cases hookEnter w <;> rfl

theorem danglessMallocProg_computes (size : Nat) : ComputesOnce (danglessMallocProg A L size) (danglessMalloc A L size) :=
  (computes_callWorld (sysmalloc A size)).andThen (fun _ => rfl) fun p => hookedVremap_computes p size

theorem danglessCallocProg_computes (storage num size : Nat) :
    ComputesOnce (danglessCallocProg A L storage num size) (danglessCalloc A L storage num size) := by
  have hkeep : KeepsDedicated (syscalloc A storage num size) := by
    intro w
    unfold syscalloc
    split_ifs <;> rfl
  exact (computes_callWorld (syscalloc A storage num size)).andThen hkeep fun p => hookedVremap_computes p (u64 (num * size))

theorem computes_vremapResolveProg (p : Nat) :
    Computes (σ := σ) (vremapResolveProg L p) fun w => (vremapResolve L w.pt p, w) :=
  (computes_assertWorld World.kernelMode).bind fun _ => computes_work (.tables (.resolve p)) fun w => (vremapResolve L w.pt p, w)

theorem computes_virtualInvalidateCall (p npages : Nat) : Computes (σ := σ) (virtualInvalidateCall p npages) fun w =>
    ((), { w with pt := virtualInvalidate w.pt p npages }) := computes_work _ _

theorem computes_sysfreeProg (p : Nat) : Computes (sysfreeProg A p) fun w => ((), sysfree A p w) := computes_callWorld _

theorem computes_danglessFreeHookedProg (p : Nat) :
    Computes (danglessFreeHookedProg A L p) fun w => ((), danglessFreeHooked A L p w) := by
  have hbody := (computes_vremapResolveProg (σ := σ) (L := L) p).bind fun resolved =>
    Computes.ite (c := resolved.1 = VREM_OK)
      ((computes_callWorld (sysmallocSpannedPages A (resolved.2.getD p))).bind fun npages =>
        (computes_virtualInvalidateCall p npages).bind fun _ =>
          computes_sysfreeProg (A := A) (resolved.2.getD p))
      (computes_sysfreeProg (A := A) (resolved.2.getD p))
  refine hbody.congr (funext fun w => ?_)
  unfold danglessFreeHooked
  dsimp only
  split_ifs <;> rfl

theorem computes_danglessFreeProg (p : Nat) : Computes (danglessFreeProg A L p) fun w => ((), danglessFree A L p w) := by
  have hbody := Computes.ite (c := p = 0) (computes_pure (σ := σ) ()) <|
    computes_hookEnterProg.bind fun entered => Computes.ite (c := entered = true)
      ((computes_danglessFreeHookedProg (A := A) (L := L) p).bind fun _ => computes_hookExitProg)
      (computes_sysfreeProg (A := A) p)
  refine hbody.congr (funext fun w => ?_)
  unfold danglessFree
  by_cases hnull : p = 0
  · rw [if_pos hnull, if_pos hnull]
  · rw [if_neg hnull, if_neg hnull]
    cases hookEnter w <;> rfl

theorem danglessReallocNewProg_computes (p originalPtr oldNpages newp newSize : Nat) :
    ComputesOnce (danglessReallocNewProg A L p originalPtr oldNpages newp newSize)
      (danglessReallocNew A L p originalPtr oldNpages newp newSize) := by
  have hcut : ∀ from_ npages, Computes (σ := σ) (do virtualInvalidateCall from_ npages; return p) fun w =>
      (p, { w with pt := virtualInvalidate w.pt from_ npages }) := fun from_ npages =>
    (computes_virtualInvalidateCall from_ npages).bind fun _ => computes_pure p
  have hmoved : ComputesOnce (do virtualInvalidateCall p oldNpages; doVremapProg A L newp newSize) fun w =>
      doVremap A L newp newSize { w with pt := virtualInvalidate w.pt p oldNpages } :=
    (computes_virtualInvalidateCall p oldNpages).andThen (fun _ => rfl) fun _ => doVremapProg_computes newp newSize
  have hbody := (computes_callWorld (sysmallocUsableSize A newp)).andThen (fun _ => rfl) fun actualNewSize =>
    (computes_check (σ := σ) (decide (newSize ≤ actualNewSize))).andThen (fun _ => rfl) fun _ =>
      ((computes_pure p).computesOnce (σ := σ)).ite
        (c := newp = originalPtr ∧ numSpannedPages newp actualNewSize = oldNpages) <|
        (hcut (roundUp (u64 (p + actualNewSize)) PGSIZE) (oldNpages - numSpannedPages newp actualNewSize)).computesOnce.ite
          (c := newp = originalPtr ∧ numSpannedPages newp actualNewSize < oldNpages) hmoved
  exact hbody.congr (funext fun w => rfl)

theorem danglessReallocRemappedProg_computes (p originalPtr newSize : Nat) :
    ComputesOnce (danglessReallocRemappedProg A L p originalPtr newSize)
      (danglessReallocRemapped A L p originalPtr newSize) := by
  have hbody := (computes_callWorld (sysmallocUsableSize A originalPtr)).andThen (fun _ => rfl) fun actualOldSize =>
    (computes_callWorld (sysrealloc A originalPtr newSize)).andThen (fun _ => rfl) fun newp =>
      ((computes_pure 0).computesOnce (σ := σ)).ite (c := newp = 0)
        (danglessReallocNewProg_computes (A := A) (L := L) p originalPtr (numSpannedPages originalPtr actualOldSize)
          newp newSize)
  exact hbody.congr (funext fun w => rfl)

theorem danglessReallocPlainProg_computes (p newSize : Nat) : ComputesOnce (danglessReallocPlainProg A L p newSize) fun w =>
    doVremap A L (sysrealloc A p newSize w).1 newSize (sysrealloc A p newSize w).2 :=
  (computes_callWorld (sysrealloc A p newSize)).andThen (fun _ => rfl) fun newp => doVremapProg_computes newp newSize

theorem danglessReallocHookedProg_computes (p newSize : Nat) :
    ComputesOnce (danglessReallocHookedProg A L p newSize) (danglessReallocHooked A L p newSize) := by
  have hbody := (danglessReallocPlainProg_computes (A := A) (L := L) p newSize).ite (c := p = 0) <|
    (computes_vremapResolveProg (L := L) p).andThen (fun _ => rfl) fun resolved =>
      (danglessReallocRemappedProg_computes (A := A) (L := L) p (resolved.2.getD p) newSize).ite
        (c := resolved.1 = VREM_OK) (danglessReallocPlainProg_computes (A := A) (L := L) p newSize)
  refine hbody.congr (funext fun w => ?_)
  unfold danglessReallocHooked
  dsimp only
  split_ifs <;> simp_all

theorem danglessReallocProg_computes (p newSize : Nat) :
    ComputesOnce (danglessReallocProg A L p newSize) (danglessRealloc A L p newSize) := by
  have hbody := (computes_hookEnterProg (σ := σ)).andThen keepsDedicated_hookEnter fun entered =>
    ((danglessReallocHookedProg_computes (A := A) (L := L) p newSize).bind fun r =>
      computes_hookExitProg.bind fun _ => computes_pure r).ite (c := entered = true)
      (computes_callWorld (sysrealloc A p newSize)).computesOnce
  refine hbody.congr (funext fun w => ?_)
  unfold danglessRealloc
  cases hookEnter w <;> rfl

/-- What a call does where nothing else runs. -/
def ClientCall.sequential (call : ClientCall) (A : SysAllocator σ) (L : DuneLayout) (storage : Nat) (w : World σ) :
    Nat × World σ :=
  match call with
  | .malloc size => danglessMalloc A L size w
  | .calloc num size => danglessCalloc A L storage num size w
  | .realloc p newSize => danglessRealloc A L p newSize w
  | .free p => (0, danglessFree A L p w)

theorem code_computes (call : ClientCall) :
    ComputesOnce (call.code A L storage) (call.sequential A L storage) := by
  cases call with
  | malloc size => exact danglessMallocProg_computes size
  | calloc num size => exact danglessCallocProg_computes storage num size
  | realloc p newSize => exact danglessReallocProg_computes p newSize
  | free p => exact ((computes_danglessFreeProg p).bind fun _ => computes_pure 0).computesOnce

end Dangless
