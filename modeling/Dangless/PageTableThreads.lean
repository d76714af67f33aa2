import Dangless.LibRely
import Dangless.PageTableOpsSpec

/-! The functions of `virtmem.c` and `virtual_invalidate` statement by statement, for threads that share the page tables.
Every load and every store of an entry is a statement of its own, also where the source reads an entry twice. Only
`pt_map_page` takes `g_pt_mapping_mutex`: walks, `pt_unmap_page` and `virtual_invalidate` run beside it. -/

namespace Dangless

open Rely

/-- The page tables, and the thread that holds `g_pt_mapping_mutex`. -/
structure PtShared (T : Type) where
  pt : PtState
  owner : Option T

variable {T : Type}

abbrev PtProg (T R : Type) := Prog (PtShared T) R

def rcr3 : PtProg T Nat := .read fun s => s.pt.cr3

/-- `*ppte`. -/
def loadPte (ppte : Nat) : PtProg T Nat := .read fun s => s.pt.mem ppte

/-- `*ppte = word`. -/
def storePte (ppte word : Nat) : PtProg T Unit := .modify fun s => { s with pt := s.pt.write ppte word }

def tlbFlushOneProg (va : Nat) : PtProg T Unit := .modify fun s => { s with pt := s.pt.tlbFlushOne va }

/-- `pp_zalloc_one`, which is only called by the thread that holds the mutex. -/
def ppZallocOneProg : PtProg T Nat :=
  .fetch (fun s => (ppZallocOne s.pt).1) fun s => { s with pt := (ppZallocOne s.pt).2 }

def mutexLock (t : T) : PtProg T Unit := .await (fun s => s.owner.isNone) fun s => { s with owner := some t }

def mutexUnlock : PtProg T Unit := .modify fun s => { s with owner := none }

/-- The condition of `WALK_LEVEL(LVL)`, which reads the entry once or twice. -/
def walkStopsProg (requestedLevel level : PtLevel) (ppte : Nat) : PtProg T Bool := do
  let word ← loadPte ppte
  if !flagIsSet word PTE_V then return true
  else if level = .l1 then return requestedLevel == level
  else
    let word ← loadPte ppte
    return flagIsSet word PTE_PS || requestedLevel == level

/-- `WALK_LEVEL(LVL)`. -/
def walkLevelProg (va : Nat) (requestedLevel level : PtLevel) (paddr : Nat)
    (next : Nat → PtProg T (PtLevel × Nat)) : PtProg T (PtLevel × Nat) := do
  let ppte := paddr + 8 * ptLevelOffset va level
  let stops ← walkStopsProg requestedLevel level ppte
  if stops then return (level, ppte)
  else
    let word ← loadPte ppte
    next (word &&& PTE_FRAME)

/-- `pt_walk`. -/
def ptWalkProg (va : Nat) (requestedLevel : PtLevel) : PtProg T (PtLevel × Nat) := do
  let cr3 ← rcr3
  walkLevelProg va requestedLevel .l4 cr3 fun paddr =>
  walkLevelProg va requestedLevel .l3 paddr fun paddr =>
  walkLevelProg va requestedLevel .l2 paddr fun paddr =>
  walkLevelProg va requestedLevel .l1 paddr fun _ => return (.l1, paddr + 8 * ptLevelOffset va .l1)

/-- The frame of a large page in `pt_resolve_page`, after `ASSERT0(FLAG_ISSET(*ppte, PTE_PS))`. -/
def largeFrameProg (ppte mask : Nat) : PtProg T Nat := do
  let word ← loadPte ppte
  Prog.check (flagIsSet word PTE_PS)
  let word ← loadPte ppte
  return word &&& mask

/-- `pt_resolve_page`. -/
def ptResolvePageProg (va : Nat) : PtProg T (Nat × PtLevel) := do
  let stop ← ptWalkProg va .l1
  let word ← loadPte stop.2
  if !flagIsSet word PTE_V then return (0, stop.1)
  else
    match stop.1 with
    | .l1 => do
        let word ← loadPte stop.2
        return (word &&& PTE_FRAME_4K, .l1)
    | .l2 => do return (← largeFrameProg stop.2 PTE_FRAME_2M, .l2)
    | .l3 => do return (← largeFrameProg stop.2 PTE_FRAME_1G, .l3)
    -- `UNREACHABLE`
    | .l4 => .fail

/-- `pt_resolve`. -/
def ptResolveProg (va : Nat) : PtProg T Nat := do
  let page ← ptResolvePageProg va
  return if page.1 = 0 then 0 else u64 (page.1 + getPageOffset va page.2)

/-- `pt_map_page_create_level`, with nothing for the result -1. -/
def ptMapPageCreateLevelProg (ppte va : Nat) (level : PtLevel) (flags : Nat) : PtProg T (Option Nat) := do
  let ptpa ← ppZallocOneProg
  if ptpa = 0 then return none
  else
    storePte ppte (ptpa ||| flags ||| PTE_V)
    return some (ptpa + 8 * ptLevelOffset va level)

/-- `CREATE_LEVEL`, for one level after the other. -/
def ptMapPageCreateLevelsProg (ppte va flags : Nat) : List PtLevel → PtProg T (Option Nat)
  | [] => return some ppte
  | level :: levels => do
      match ← ptMapPageCreateLevelProg ppte va level flags with
      | none => return none
      | some ppte => ptMapPageCreateLevelsProg ppte va flags levels

def tlbFlushOneIf (condition : Bool) (va : Nat) : PtProg T Unit :=
  if condition then tlbFlushOneProg va else return

/-- `pt_map_page`, from where the entry is there. -/
def ptMapPageStoreProg (ppte pa va flags : Nat) : PtProg T Int := do
  let word ← loadPte ppte
  tlbFlushOneIf (flagIsSet word PTE_V) va
  storePte ppte (pa ||| flags ||| PTE_V)
  mutexUnlock
  return 0

/-- `fail_cleanup`. -/
def ptMapPageFailProg : PtProg T Int := do
  mutexUnlock
  return -1

/-- `pt_map_page`. -/
def ptMapPageProg (t : T) (pa va flags : Nat) : PtProg T Int := do
  Prog.check (pa % PGSIZE = 0)
  Prog.check (va % PGSIZE = 0)
  mutexLock t
  let stop ← ptWalkProg va .l1
  let word ← loadPte stop.2
  Prog.check (!flagIsSet word PTE_V)
  match ← ptMapPageCreateLevelsProg stop.2 va flags (levelsBelow stop.1) with
  | none => ptMapPageFailProg
  | some ppte => ptMapPageStoreProg ppte pa va flags

/-- `pt_unmap_page`. -/
def ptUnmapPageProg (va : Nat) (onLevel : PtLevel) : PtProg T Int := do
  let stop ← ptWalkProg va onLevel
  if stop.1 ≠ onLevel then return -1
  else
    let oldPte ← loadPte stop.2
    storePte stop.2 0
    tlbFlushOneIf (flagIsSet oldPte PTE_V) va
    return 0

/-- The first `n` turns of the loop of `pt_map_region`: the turn that failed, if one did. -/
def ptMapRegionLoopProg (t : T) (pa va flags : Nat) : Nat → PtProg T (Option Nat)
  | 0 => return none
  | n + 1 => do
      match ← ptMapRegionLoopProg t pa va flags n with
      | some failed => return some failed
      | none =>
          let result ← ptMapPageProg t (pgOffset pa n) (pgOffset va n) flags
          return if result < 0 then some n else none

/-- The first `n` turns of the loop after `fail_unmap`. -/
def ptUnmapRegionLoopProg (va : Nat) : Nat → PtProg T Unit
  | 0 => return
  | n + 1 => do
      ptUnmapRegionLoopProg va n
      let _ ← ptUnmapPageProg (pgOffset va n) .l1
      return

/-- `pt_map_region`. -/
def ptMapRegionProg (t : T) (pa va size flags : Nat) : PtProg T Int := do
  Prog.check (pa % PGSIZE = 0)
  Prog.check (va % PGSIZE = 0)
  Prog.check (size % PGSIZE = 0)
  match ← ptMapRegionLoopProg t pa va flags ((size + PGSIZE - 1) / PGSIZE) with
  | none => return 0
  | some failed =>
      ptUnmapRegionLoopProg va failed
      return -1

/-- The turns of the inner loop. -/
def virtualInvalidatePtesProg (ppage ppte : Nat) : Nat → PtProg T Unit
  | 0 => return
  | n + 1 => do
      virtualInvalidatePtesProg ppage ppte n
      storePte (ppte + 8 * n) PTE_INVALIDATED
      tlbFlushOneProg (pgOffset ppage n)

/-- The loop, for at most `fuel` turns. -/
def virtualInvalidateLoopProg (p npages pageOffset : Nat) : Nat → PtProg T Unit
  | 0 => return
  | fuel + 1 =>
      if pageOffset < npages then do
        let ppage := pgOffset p pageOffset
        let stop ← ptWalkProg ppage .l1
        Prog.check (stop.1 = .l1)
        let word ← loadPte stop.2
        Prog.check (flagIsSet word PTE_V)
        let nptes := min (PT_NUM_ENTRIES - ptLevelOffset ppage .l1) (npages - pageOffset)
        virtualInvalidatePtesProg ppage stop.2 nptes
        virtualInvalidateLoopProg p npages (pageOffset + nptes) fuel
      else return

/-- `virtual_invalidate`. -/
def virtualInvalidateProg (p npages : Nat) : PtProg T Unit :=
  virtualInvalidateLoopProg (roundDown p PGSIZE) npages 0 npages

open Rely.Prog

variable {s : PtState} {t : T} {owner : Option T} {pa va flags ppte n : Nat} {level : PtLevel}

theorem run_walkLevelProg {requestedLevel : PtLevel} {paddr : Nat} {next : Nat → PtProg T (PtLevel × Nat)}
    {next' : Nat → PtLevel × Nat} (hnext : ∀ paddr, (next paddr).run ⟨s, owner⟩ = some (next' paddr, ⟨s, owner⟩)) :
    (walkLevelProg va requestedLevel level paddr next).run ⟨s, owner⟩ =
      some (walkLevel s va requestedLevel level paddr next', ⟨s, owner⟩) := by
  have hstops : ∀ ppte, (walkStopsProg (T := T) requestedLevel level ppte).run ⟨s, owner⟩ =
      some (!flagIsSet (s.mem ppte) PTE_V || (level != .l1 && flagIsSet (s.mem ppte) PTE_PS) || requestedLevel == level,
        ⟨s, owner⟩) := by
    intro ppte
    unfold walkStopsProg loadPte
    rw [run_bind_of (run_read _ _)]
    dsimp only
    cases flagIsSet (s.mem ppte) PTE_V with
    | false => rfl
    | true =>
        by_cases hlevel : level = .l1
        · subst hlevel
          rfl
        · have hbne : (level != .l1) = true := by simpa using hlevel
          simp [hlevel, hbne, run_bind]
  unfold walkLevelProg walkLevel
  dsimp only
  rw [run_bind_of (hstops _)]
  split_ifs with hstop
  · rfl
  · unfold loadPte
    rw [run_bind_of (run_read _ _)]
    exact hnext _

theorem run_ptWalkProg {requestedLevel : PtLevel} : (ptWalkProg va requestedLevel).run (⟨s, owner⟩ : PtShared T) =
    some (ptWalk s va requestedLevel, ⟨s, owner⟩) := by
  unfold ptWalkProg ptWalk rcr3
  rw [run_bind_of (run_read _ _)]
  exact run_walkLevelProg fun _ => run_walkLevelProg fun _ => run_walkLevelProg fun _ => run_walkLevelProg fun _ => rfl

/-- What creating levels leaves, as the result of a program. -/
def createdResult (owner : Option T) : Except PtState (PtState × Nat) → Option Nat × PtShared T
  | .error s => (none, ⟨s, owner⟩)
  | .ok (s, ppte) => (some ppte, ⟨s, owner⟩)

theorem run_ptMapPageCreateLevelProg : (ptMapPageCreateLevelProg ppte va level flags).run (⟨s, owner⟩ : PtShared T) =
    some (createdResult owner (ptMapPageCreateLevel s ppte va level flags)) := by
  unfold ptMapPageCreateLevelProg ptMapPageCreateLevel
  have hzalloc : ppZallocOneProg.run (⟨s, owner⟩ : PtShared T) = some ((ppZallocOne s).1, ⟨(ppZallocOne s).2, owner⟩) := rfl
  rw [run_bind_of hzalloc]
  dsimp only
  split_ifs
  · rfl
  · rfl

theorem run_ptMapPageCreateLevelsProg (levels : List PtLevel) (hlevels : levelsBelow level = levels) :
    (ptMapPageCreateLevelsProg ppte va flags levels).run (⟨s, owner⟩ : PtShared T) =
      some (createdResult owner (ptMapPageCreateLevels s ppte va flags level)) := by
  induction levels generalizing s ppte level with
  | nil =>
      cases level with
      | l1 => rfl
      | l2 | l3 | l4 => cases hlevels
  | cons lower levels ih =>
      have hlevel : level ≠ .l1 := by
        rintro rfl
        cases hlevels
      obtain ⟨lower', hlower⟩ := levelsBelow_cons hlevel
      obtain ⟨rfl, rfl⟩ := List.cons.inj (hlevels.symm.trans hlower)
      rw [ptMapPageCreateLevels_eq s ppte va flags hlower, ptMapPageCreateLevelsProg,
        run_bind_of run_ptMapPageCreateLevelProg]
      cases ptMapPageCreateLevel s ppte va lower flags with
      | error s' => rfl
      | ok created => exact ih rfl

/-- No assertion among the operations fails. -/
def Checked (ops : List PtOp) : Prop := ∀ b, .check b ∈ ops → b = true

theorem checked_append {ops more : List PtOp} : Checked (ops ++ more) ↔ Checked ops ∧ Checked more := by
  constructor
  · intro h
    exact ⟨fun b hb => h b (List.mem_append_left _ hb), fun b hb => h b (List.mem_append_right _ hb)⟩
  · rintro ⟨hops, hmore⟩ b hb
    exact (List.mem_append.mp hb).elim (hops b) (hmore b)

theorem checked_cons {b : Bool} {ops : List PtOp} : Checked (.check b :: ops) ↔ b = true ∧ Checked ops := by
  constructor
  · intro h
    exact ⟨h b List.mem_cons_self, fun c hc => h c (List.mem_cons_of_mem _ hc)⟩
  · rintro ⟨rfl, hops⟩ c hc
    rcases List.mem_cons.mp hc with heq | hc
    · cases heq
      rfl
    · exact hops c hc

/-- `pt_map_page`, if its assertions hold. -/
theorem run_ptMapPageProg (hchecks : Checked (ptMapPageOps s pa va flags)) :
    (ptMapPageProg t pa va flags).run ⟨s, none⟩ =
      some ((ptMapPage s pa va flags).1, ⟨(ptMapPage s pa va flags).2, none⟩) := by
  have hlock : (mutexLock t).run (⟨s, none⟩ : PtShared T) = some ((), ⟨s, some t⟩) := run_await rfl
  have hassertions : Checked [.check (pa % PGSIZE = 0), .check (va % PGSIZE = 0),
      .check (!flagIsSet (s.mem (ptWalk s va .l1).2) PTE_V)] := (checked_append.mp (checked_append.mp hchecks).1).1
  obtain ⟨hpa, hrest⟩ := checked_cons.mp hassertions
  obtain ⟨hva, hrest⟩ := checked_cons.mp hrest
  have hinvalid : (!flagIsSet (s.mem (ptWalk s va .l1).2) PTE_V) = true := (checked_cons.mp hrest).1
  unfold ptMapPageProg ptMapPage
  rw [run_bind_of (run_check hpa _), run_bind_of (run_check hva _), run_bind_of hlock, run_bind_of run_ptWalkProg]
  unfold loadPte
  rw [run_bind_of (run_read _ _), run_bind_of (run_check hinvalid _),
    run_bind_of (run_ptMapPageCreateLevelsProg _ rfl)]
  dsimp only
  cases ptMapPageCreateLevels s (ptWalk s va .l1).2 va flags (ptWalk s va .l1).1 with
  | error s' => rfl
  | ok created =>
      obtain ⟨s', ppte⟩ := created
      show (ptMapPageStoreProg ppte pa va flags).run (⟨s', some t⟩ : PtShared T) = _
      unfold ptMapPageStoreProg loadPte tlbFlushOneIf
      rw [run_bind_of (run_read _ _)]
      dsimp only
      split_ifs
      · rfl
      · rfl

theorem run_ptUnmapPageProg {onLevel : PtLevel} : (ptUnmapPageProg va onLevel).run (⟨s, owner⟩ : PtShared T) =
    some ((ptUnmapPage s va onLevel).1, ⟨(ptUnmapPage s va onLevel).2, owner⟩) := by
  unfold ptUnmapPageProg ptUnmapPage
  rw [run_bind_of run_ptWalkProg]
  dsimp only
  split_ifs with hlevel hvalid
  · rfl
  · unfold loadPte
    rw [run_bind_of (run_read _ _), tlbFlushOneIf, if_pos hvalid]
    rfl
  · unfold loadPte
    rw [run_bind_of (run_read _ _), tlbFlushOneIf, if_neg hvalid]
    rfl

theorem run_ptUnmapRegionLoopProg : (ptUnmapRegionLoopProg va n).run (⟨s, owner⟩ : PtShared T) =
    some ((), ⟨ptUnmapRegionLoop s va n, owner⟩) := by
  induction n with
  | zero => rfl
  | succ n ih =>
      rw [ptUnmapRegionLoopProg, run_bind_of ih, run_bind_of run_ptUnmapPageProg]
      rfl

theorem run_virtualInvalidatePtesProg : (virtualInvalidatePtesProg va ppte n).run (⟨s, owner⟩ : PtShared T) =
    some ((), ⟨virtualInvalidatePtes s va ppte n, owner⟩) := by
  induction n with
  | zero => rfl
  | succ n ih =>
      rw [virtualInvalidatePtesProg, run_bind_of ih]
      rfl

theorem run_ptMapRegionLoopProg (hchecks : Checked (ptMapRegionLoopOps s pa va flags n)) :
    (ptMapRegionLoopProg t pa va flags n).run ⟨s, none⟩ = some (
      match ptMapRegionLoop s pa va flags n with
      | .ok s' => (none, ⟨s', none⟩)
      | .error (failed, s') => (some failed, ⟨s', none⟩)) := by
  induction n with
  | zero => rfl
  | succ n ih =>
      obtain ⟨hbefore, hpage⟩ := checked_append.mp hchecks
      rw [ptMapRegionLoopProg, run_bind_of (ih hbefore), ptMapRegionLoop_succ]
      cases hloop : ptMapRegionLoop s pa va flags n with
      | error e => rfl
      | ok s' =>
          rw [hloop] at hpage
          show ((ptMapPageProg t (pgOffset pa n) (pgOffset va n) flags) >>= _).run (⟨s', none⟩ : PtShared T) = _
          rw [run_bind_of (run_ptMapPageProg hpage)]
          dsimp only
          split_ifs
          · rfl
          · rfl

/-- `pt_map_region`, if its assertions hold. -/
theorem run_ptMapRegionProg {size : Nat} (hchecks : Checked (ptMapRegionOps s pa va size flags)) :
    (ptMapRegionProg t pa va size flags).run ⟨s, none⟩ =
      some ((ptMapRegion s pa va size flags).1, ⟨(ptMapRegion s pa va size flags).2, none⟩) := by
  obtain ⟨hbefore, -⟩ := checked_append.mp hchecks
  obtain ⟨hassertions, hloop⟩ := checked_append.mp hbefore
  obtain ⟨hpa, hrest⟩ := checked_cons.mp hassertions
  obtain ⟨hva, hrest⟩ := checked_cons.mp hrest
  obtain ⟨hsize, -⟩ := checked_cons.mp hrest
  unfold ptMapRegionProg ptMapRegion
  rw [run_bind_of (run_check hpa _), run_bind_of (run_check hva _), run_bind_of (run_check hsize _),
    run_bind_of (run_ptMapRegionLoopProg hloop)]
  cases ptMapRegionLoop s pa va flags ((size + PGSIZE - 1) / PGSIZE) with
  | ok s' => rfl
  | error e =>
      dsimp only
      rw [run_bind_of run_ptUnmapRegionLoopProg]
      rfl

theorem run_virtualInvalidateLoopProg {p pageOffset fuel : Nat}
    (hchecks : Checked (virtualInvalidateLoopOps s p n pageOffset fuel)) :
    (virtualInvalidateLoopProg p n pageOffset fuel).run (⟨s, owner⟩ : PtShared T) =
      some ((), ⟨virtualInvalidateLoop s p n pageOffset fuel, owner⟩) := by
  induction fuel generalizing s pageOffset with
  | zero => rfl
  | succ fuel ih =>
      unfold virtualInvalidateLoopProg virtualInvalidateLoop
      unfold virtualInvalidateLoopOps at hchecks
      split_ifs at hchecks ⊢ with hmore
      · obtain ⟨hbefore, hrest⟩ := checked_append.mp hchecks
        have hassertions : Checked [.check ((ptWalk s (pgOffset p pageOffset) .l1).1 = .l1),
            .check (flagIsSet (s.mem (ptWalk s (pgOffset p pageOffset) .l1).2) PTE_V)] := (checked_append.mp hbefore).1
        obtain ⟨hlevel, hpresent⟩ := checked_cons.mp hassertions
        have hpresent := (checked_cons.mp hpresent).1
        dsimp only
        rw [run_bind_of run_ptWalkProg, run_bind_of (run_check hlevel _)]
        unfold loadPte
        rw [run_bind_of (run_read _ _), run_bind_of (run_check hpresent _), run_bind_of run_virtualInvalidatePtesProg]
        exact ih hrest
      · rfl

/-- `virtual_invalidate`, if its assertions hold. -/
theorem run_virtualInvalidateProg {p : Nat} (hchecks : Checked (virtualInvalidateOps s p n)) :
    (virtualInvalidateProg p n).run (⟨s, owner⟩ : PtShared T) = some ((), ⟨virtualInvalidate s p n, owner⟩) :=
  run_virtualInvalidateLoopProg hchecks

/-- A large page at which a walk has stopped is marked as one. -/
theorem large_of_stop (hvalid : flagIsSet (s.mem (ptWalk s va .l1).2) PTE_V = true) (hlevel : (ptWalk s va .l1).1 ≠ .l1) :
    flagIsSet (s.mem (ptWalk s va .l1).2) PTE_PS = true := by
  have hstop := pteChild_eq_none.mp ((ptWalk_atLevel s va).noChild hlevel)
  rwa [hvalid] at hstop

/-- `pt_resolve`, unless the top-level entry claims to be a page. -/
theorem run_ptResolveProg (hroot : flagIsSet (s.mem (ptWalk s va .l1).2) PTE_V = true → (ptWalk s va .l1).1 ≠ .l4) :
    (ptResolveProg va).run (⟨s, owner⟩ : PtShared T) = some (ptResolve s va, ⟨s, owner⟩) := by
  have hpage : (ptResolvePageProg va).run (⟨s, owner⟩ : PtShared T) = some (ptResolvePage s va, ⟨s, owner⟩) := by
    have hlarge := @large_of_stop s va
    unfold ptResolvePageProg ptResolvePage
    rw [run_bind_of run_ptWalkProg]
    generalize ptWalk s va .l1 = stop at hroot hlarge ⊢
    obtain ⟨level, ppte⟩ := stop
    dsimp only at hroot hlarge ⊢
    unfold loadPte
    rw [run_bind_of (run_read _ _)]
    dsimp only
    cases hvalid : flagIsSet (s.mem ppte) PTE_V with
    | false => rfl
    | true =>
        cases level with
        | l1 => rfl
        | l2 | l3 =>
            have hframe : ∀ mask, (largeFrameProg ppte mask).run (⟨s, owner⟩ : PtShared T) =
                some (s.mem ppte &&& mask, ⟨s, owner⟩) := by
              intro mask
              unfold largeFrameProg loadPte
              rw [run_bind_of (run_read _ _), run_bind_of (run_check (hlarge hvalid (by decide)) _)]
              rfl
            exact run_bind_of (hframe _)
        | l4 => exact absurd rfl (hroot hvalid)
  unfold ptResolveProg ptResolve
  rw [run_bind_of hpage]
  rfl

end Dangless
