import Dangless.Client

/-! Runs of a process from the moment the library is loaded: `populate_addrs` with the calls that `dlsym` makes,
the switch to kernel mode, and calls that come while the hook of another call is running. An entry point that
cannot enter its hook passes the call through to the system allocator. -/

namespace Dangless

variable {σ : Type} {A : SysAllocator σ} {L : DuneLayout} {C : SysContract A L} {w : World σ}
  {storage : Nat}

/-- What an entry point that has entered its hook still has to do. -/
inductive RunningHook where
  /-- `HOOK_RETURN(do_vremap(p, size))` in `dangless_malloc` and `dangless_calloc`. -/
  | vremap (p size : Nat)
  | free (p : Nat)
  | realloc (p newSize : Nat)
  /-- `HOOK_EXIT`. The caller will hold the pointers of `answer`. -/
  | exit (answer : List Nat)

/-- The process: its state, the pointers that the client holds, and the hook that runs. Hooks are not nested. -/
structure Process (σ : Type) where
  world : World σ
  held : List Nat
  running : Option RunningHook

/-- The steps: a call of the client, the two steps of a running hook, those of `populate_addrs`, and the switch of
rings. -/
inductive ProcessEvent where
  | call (call : ClientCall)
  | hookBody
  | hookExit
  | populate
  | handleSym (sym : SysSym)
  | populated
  | enterKernelMode

/-- The symbol before `sym` in `populate_addrs` is set. -/
def NextSym (w : World σ) : SysSym → Prop
  | .malloc => True
  | .calloc => w.addr .malloc = true
  | .realloc => w.addr .calloc = true
  | .memalign => w.addr .realloc = true
  | .free => w.addr .memalign = true

/-- The pointers that the caller of `realloc(p, n)` is left with, where `b` is the block behind `p`. `NULL` takes `p`
away, unless the library's `realloc` has failed. -/
inductive ReallocLeaves (C : SysContract A L) (p b n : Nat) (sys : σ) (answer : Nat) : List Nat → Prop
  | block (hanswer : answer ≠ 0) : ReallocLeaves C p b n sys answer [answer]
  | failed (hanswer : answer = 0) (hnull : (A.realloc b n sys).1 = 0) (hlive : b ∈ C.live (A.realloc b n sys).2) :
      ReallocLeaves C p b n sys answer [p]
  | gone (hanswer : answer = 0)
      (hgone : ¬ ((A.realloc b n sys).1 = 0 ∧ b ∈ C.live (A.realloc b n sys).2)) :
      ReallocLeaves C p b n sys answer []

/-- The calls of a client that only frees and reallocates what it holds. A call needs the address of the function
that it ends up in; `dlsym` may call `calloc` before that address is set. -/
inductive ProcessStep (C : SysContract A L) (storage : Nat) : Process σ → ProcessEvent → Process σ → Prop
  | malloc {s : Process σ} {size : Nat} (haddr : s.world.addr .malloc = true) (hpass : hookEnter s.world = none) :
      ProcessStep C storage s (.call (.malloc size))
        ⟨(danglessMalloc A L size s.world).2, gain (danglessMalloc A L size s.world).1 s.held, s.running⟩
  | mallocHook {s : Process σ} {size : Nat} {w : World σ} (haddr : s.world.addr .malloc = true)
      (henter : hookEnter (sysmalloc A size s.world).2 = some w) :
      ProcessStep C storage s (.call (.malloc size))
        ⟨w, s.held, some (.vremap (sysmalloc A size s.world).1 size)⟩
  | calloc {s : Process σ} {num size : Nat}
      (haddr : s.world.addr .calloc = true ∨ (s.world.populating = true ∧ s.world.storageUsed = false))
      (hpass : hookEnter s.world = none) : ProcessStep C storage s (.call (.calloc num size))
        ⟨(danglessCalloc A L storage num size s.world).2,
          gain (danglessCalloc A L storage num size s.world).1 s.held, s.running⟩
  | callocHook {s : Process σ} {num size : Nat} {w : World σ}
      (haddr : s.world.addr .calloc = true ∨ (s.world.populating = true ∧ s.world.storageUsed = false))
      (henter : hookEnter (syscalloc A storage num size s.world).2 = some w) :
      ProcessStep C storage s (.call (.calloc num size))
        ⟨w, s.held, some (.vremap (syscalloc A storage num size s.world).1 (u64 (num * size)))⟩
  | realloc {s : Process σ} {p n : Nat} {left : List Nat} (haddr : s.world.addr .realloc = true)
      (hpass : hookEnter s.world = none) (hp : p = 0 ∨ p ∈ s.held)
      (hleft : ReallocLeaves C p p n s.world.sys (danglessRealloc A L p n s.world).1 left) :
      ProcessStep C storage s (.call (.realloc p n))
        ⟨(danglessRealloc A L p n s.world).2, left ++ s.held.erase p, s.running⟩
  | reallocHook {s : Process σ} {p n : Nat} {w : World σ} (haddr : s.world.addr .realloc = true)
      (henter : hookEnter s.world = some w) (hp : p = 0 ∨ p ∈ s.held) :
      ProcessStep C storage s (.call (.realloc p n)) ⟨w, s.held.erase p, some (.realloc p n)⟩
  | freeNull {s : Process σ} : ProcessStep C storage s (.call (.free 0)) s
  | free {s : Process σ} {p : Nat} (haddr : s.world.addr .free = true) (hpass : hookEnter s.world = none)
      (hne : p ≠ 0) (hp : p ∈ s.held) : ProcessStep C storage s (.call (.free p))
        ⟨danglessFree A L p s.world, s.held.erase p, s.running⟩
  | freeHook {s : Process σ} {p : Nat} {w : World σ} (haddr : s.world.addr .free = true)
      (henter : hookEnter s.world = some w) (hne : p ≠ 0) (hp : p ∈ s.held) :
      ProcessStep C storage s (.call (.free p)) ⟨w, s.held.erase p, some (.free p)⟩
  | vremapBody {s : Process σ} {p size : Nat} (hrunning : s.running = some (.vremap p size)) :
      ProcessStep C storage s .hookBody ⟨(doVremap A L p size s.world).2, s.held,
        some (.exit (gain (doVremap A L p size s.world).1 []))⟩
  | freeBody {s : Process σ} {p : Nat} (hrunning : s.running = some (.free p)) :
      ProcessStep C storage s .hookBody ⟨danglessFreeHooked A L p s.world, s.held, some (.exit [])⟩
  | reallocBody {s : Process σ} {p n : Nat} {left : List Nat} (hrunning : s.running = some (.realloc p n))
      (hleft : ReallocLeaves C p (originalPtr L s.world.pt p) n s.world.sys
        (danglessReallocHooked A L p n s.world).1 left) :
      ProcessStep C storage s .hookBody ⟨(danglessReallocHooked A L p n s.world).2, s.held, some (.exit left)⟩
  | exit {s : Process σ} {answer : List Nat} (hrunning : s.running = some (.exit answer)) :
      ProcessStep C storage s .hookExit ⟨hookExit s.world, answer ++ s.held, none⟩
  | populate {s : Process σ} (hnot : s.world.populating = false) (hfirst : s.world.addr .malloc = false) :
      ProcessStep C storage s .populate ⟨{ s.world with populating := true }, s.held, s.running⟩
  | handleSym {s : Process σ} {sym : SysSym} (hpopulating : s.world.populating = true)
      (hnext : NextSym s.world sym) : ProcessStep C storage s (.handleSym sym)
        ⟨{ s.world with addr := Function.update s.world.addr sym true }, s.held, s.running⟩
  | populated {s : Process σ} (hpopulating : s.world.populating = true) (hall : ∀ sym, s.world.addr sym = true) :
      ProcessStep C storage s .populated ⟨{ s.world with populating := false }, s.held, s.running⟩
  | enterKernelMode {s : Process σ} : ProcessStep C storage s .enterKernelMode
      ⟨{ s.world with kernelMode := true }, s.held, s.running⟩

/-- `populate_addrs` finds all functions. -/
theorem populateAddrs_run {s : Process σ} (hpopulating : s.world.populating = true) :
    Lts.Run (ProcessStep C storage) s
      [.handleSym .malloc, .handleSym .calloc, .handleSym .realloc, .handleSym .memalign, .handleSym .free, .populated]
      ⟨{ s.world with addr := fun _ => true, populating := false }, s.held, s.running⟩ := by
  have hmalloc : Lts.Run (ProcessStep C storage) s [.handleSym .malloc] _ :=
    Lts.Run.single (.handleSym hpopulating trivial)
  have hcalloc := hmalloc.snoc (show ProcessStep C storage _ (.handleSym .calloc) _ from .handleSym hpopulating rfl)
  have hrealloc := hcalloc.snoc (show ProcessStep C storage _ (.handleSym .realloc) _ from .handleSym hpopulating rfl)
  have hmemalign := hrealloc.snoc
    (show ProcessStep C storage _ (.handleSym .memalign) _ from .handleSym hpopulating rfl)
  have hfree := hmemalign.snoc (show ProcessStep C storage _ (.handleSym .free) _ from .handleSym hpopulating rfl)
  have hall : ∀ sym, Function.update (Function.update (Function.update (Function.update
      (Function.update s.world.addr .malloc true) .calloc true) .realloc true) .memalign true) .free true sym =
        true := by
    intro sym
    cases sym <;> rfl
  have hpopulated := hfree.snoc (.populated hpopulating hall)
  dsimp only at hpopulated
  rw [funext hall] at hpopulated
  exact hpopulated

/-- A process that loads the library. The tables are those that Dune has set up by the time kernel mode is entered;
nothing reads or writes them before. -/
structure ProcessStart (C : SysContract A L) (w : World σ) : Prop where
  sys : C.Ok w.sys
  items : w.items = []
  hookDepth : w.hookDepth = 0
  trace : w.trace = []
  tables : PtInv (slotPaths (FreeSlot w.pt)) w.pt
  home : ∀ va, L.Home va → ptResolve w.pt va = L.duneVaToPa va

/-- The three steps of a call that enters its hook. -/
theorem ProcessStep.run {s s1 s2 s3 : Process σ} {call : ClientCall} (henter : ProcessStep C storage s (.call call) s1)
    (hbody : ProcessStep C storage s1 .hookBody s2) (hexit : ProcessStep C storage s2 .hookExit s3) :
    Lts.Run (ProcessStep C storage) s [.call call, .hookBody, .hookExit] s3 :=
  ((Lts.Run.single henter).snoc hbody).snoc hexit

theorem gain_append (p : Nat) (held : List Nat) : gain p [] ++ held = gain p held := by
  unfold gain
  split_ifs <;> rfl

theorem malloc_run (hready : Ready w) (haddr : w.addr .malloc = true) (size : Nat) (held : List Nat) :
    Lts.Run (ProcessStep C storage) ⟨w, held, none⟩ [.call (.malloc size), .hookBody, .hookExit]
      ⟨(danglessMalloc A L size w).2, gain (danglessMalloc A L size w).1 held, none⟩ := by
  have hentered : Ready (sysmalloc A size w).2 := hready.of_modes rfl
  have henter : ProcessStep C storage ⟨w, held, none⟩ (.call (.malloc size)) _ :=
    .mallocHook haddr hentered.hookEnter
  rw [danglessMalloc_eq hready, ← gain_append]
  exact henter.run (.vremapBody rfl) (.exit rfl)

/-- `NULL` is no block. -/
theorem SysContract.null_notMem {sys : σ} (hok : C.Ok sys) : 0 ∉ C.live sys :=
  fun hlive => (C.home _ _ hok hlive).home.ne_zero rfl

/-- With `NULL`, `realloc` leaves its answer. -/
theorem ReallocLeaves.of_null {sys : σ} (hok : C.Ok sys) (n answer : Nat) :
    ReallocLeaves C 0 0 n sys answer (gain answer []) := by
  by_cases hanswer : answer = 0
  · rw [hanswer, gain_zero]
    apply ReallocLeaves.gone rfl
    exact fun hfailed => C.null_notMem (C.reallocNull sys n hok).1 hfailed.2
  · rw [gain_of_ne hanswer]
    exact .block hanswer

/-- In kernel mode, with no hook running, the steps of a call come to what the entry point does. -/
theorem ClientStep.runs {c c' : Client σ} {call : ClientCall} (hok : C.Ok c.world.sys)
    (hready : Ready c.world) (haddr : ∀ sym, c.world.addr sym = true) (hzero : 0 ∉ c.held)
    (hstep : ClientStep C storage c call c') :
    ∃ events held, Lts.Run (ProcessStep C storage) ⟨c.world, c.held, none⟩ events ⟨c'.world, held, none⟩ ∧
      held.Perm c'.held := by
  have hrealloc : ∀ p n left, p = 0 ∨ p ∈ c.held →
      ReallocLeaves C p (originalPtr L c.world.pt p) n c.world.sys (danglessRealloc A L p n c.world).1 left →
      Lts.Run (ProcessStep C storage) ⟨c.world, c.held, none⟩ [.call (.realloc p n), .hookBody, .hookExit]
        ⟨(danglessRealloc A L p n c.world).2, left ++ c.held.erase p, none⟩ := by
    intro p n left hp hleft
    have henter : ProcessStep C storage ⟨c.world, c.held, none⟩ (.call (.realloc p n)) _ :=
      .reallocHook (haddr .realloc) hready.hookEnter hp
    rw [danglessRealloc_eq hready] at hleft ⊢
    exact henter.run (.reallocBody rfl hleft) (.exit rfl)
  cases hstep with
  | malloc size => exact ⟨_, _, malloc_run hready (haddr .malloc) size c.held, List.Perm.refl _⟩
  | calloc num size =>
      have hcall : syscalloc A storage num size c.world = _ := syscalloc_eq hready.addr num size
      have hentered : Ready (syscalloc A storage num size c.world).2 := by
        rw [hcall]
        exact hready.of_modes rfl
      have henter : ProcessStep C storage ⟨c.world, c.held, none⟩ (.call (.calloc num size)) _ :=
        .callocHook (Or.inl hready.addr) hentered.hookEnter
      rw [hcall] at henter
      rw [danglessCalloc_eq hready]
      refine ⟨_, _, henter.run (.vremapBody rfl) (.exit rfl), ?_⟩
      rw [gain_append]
      exact List.Perm.refl _
  | reallocNull n =>
      have hleft := ReallocLeaves.of_null hok n (danglessRealloc A L 0 n c.world).1
      refine ⟨_, _, hrealloc 0 n _ (Or.inl rfl) hleft, ?_⟩
      rw [gain_append, List.erase_of_not_mem hzero]
  | realloc p n hp hr => exact ⟨_, _, hrealloc p n _ (Or.inr hp) (.block hr), List.Perm.refl _⟩
  | reallocFailed p n hp hr hfailed =>
      exact ⟨_, _, hrealloc p n _ (Or.inr hp) (.failed hr hfailed.1 hfailed.2), (List.perm_cons_erase hp).symm⟩
  | reallocReleased p n hp hr hfailed =>
      exact ⟨_, _, hrealloc p n _ (Or.inr hp) (.gone hr hfailed), List.Perm.refl _⟩
  | freeNull => exact ⟨_, _, Lts.Run.single .freeNull, List.Perm.refl _⟩
  | free p hp =>
      have hne : p ≠ 0 := fun heq => hzero (heq ▸ hp)
      have henter : ProcessStep C storage ⟨c.world, c.held, none⟩ (.call (.free p)) _ :=
        .freeHook (haddr .free) hready.hookEnter hne hp
      rw [danglessFree_eq hready hne]
      exact ⟨_, _, henter.run (.freeBody rfl) (.exit rfl), List.Perm.refl _⟩

end Dangless
