import Dangless.TemporalSafety

/-! `dangless_posix_memalign`. The symbol it calls is the C library's `memalign`, which takes the address of
the result for an alignment and the alignment for a size. What it answers is read as an error number: an
address becomes an error, and `NULL` a success. -/

namespace Dangless

variable {σ : Type} {A : SysAllocator σ} {L : DuneLayout} {C : SysContract A L}
  {w : World σ} {pp align size old p b : Nat}

/-- The block that a pointer of the program stands for. -/
def PointsTo (L : DuneLayout) (pt : PtState) (p b : Nat) : Prop := p ≠ 0 ∧ originalPtr L pt p = b

/-- What `posix_memalign` promises of its result, of `*pp` and of the state: success hands out a new block at
the alignment, and failure leaves `*pp` as it was. -/
def PosixMemalignContract (C : SysContract A L) (w : World σ) (align size old : Nat)
    (r : Nat × Nat × World σ) : Prop :=
  (r.1 = 0 ∧ r.2.1 % align = 0 ∧ ∃ b, PointsTo L r.2.2.pt r.2.1 b ∧ b ∉ C.live w.sys ∧
      b ∈ C.live r.2.2.sys ∧ size ≤ A.mallocUsableSize b r.2.2.sys) ∨
    (r.1 ≠ 0 ∧ r.2.1 = old)

/-- A pointer that the program holds and that is the block itself, in a state that some run has reached. -/
def HeldBlock (C : SysContract A L) (w : World σ) (p : Nat) : Prop :=
  ∃ w0 storage calls c, DuneStart C w0 ∧ Lts.Run (ClientStep C storage) ⟨w0, [], []⟩ calls c ∧
    (∀ call ∈ calls, call.Sized) ∧ c.world = w ∧ p ∈ c.held ∧
    vremapResolve L w.pt p = (VREM_NOT_REMAPPED, some p)

/-- An address with a nonzero low half is returned as an error. -/
theorem danglessPosixMemalign_error (h : (A.memalign pp align w.sys).1 % 2 ^ 32 ≠ 0) (size old : Nat) :
    (danglessPosixMemalign A L pp align size old w).1 ≠ 0 ∧
      (danglessPosixMemalign A L pp align size old w).2.1 = old := by
  have hexit : danglessPosixMemalign A L pp align size old w =
      ((A.memalign pp align w.sys).1 % 2 ^ 32, old, (sysmemalign A pp align w).2) := if_pos h
  rw [hexit]
  exact ⟨h, rfl⟩

/-- Otherwise `*pp` is remapped as if it held a block, or left alone where the hook is not entered. -/
theorem danglessPosixMemalign_success (h : (A.memalign pp align w.sys).1 % 2 ^ 32 = 0) (size old : Nat) :
    danglessPosixMemalign A L pp align size old w =
      match hookEnter (sysmemalign A pp align w).2 with
      | none => (0, old, (sysmemalign A pp align w).2)
      | some w1 => (0, hookVremap A L old size w1) := by
  have hresult : (sysmemalign A pp align w).1 = 0 := h
  unfold danglessPosixMemalign
  dsimp only
  rw [if_neg (fun hne => hne hresult)]
  cases hookEnter (sysmemalign A pp align w).2 with
  | none => exact Prod.ext hresult rfl
  | some w1 => rfl

/-- `NULL` stays `NULL`. -/
theorem danglessPosixMemalign_null_stays (h : (A.memalign pp align w.sys).1 % 2 ^ 32 = 0) (size : Nat) :
    (danglessPosixMemalign A L pp align size 0 w).2.1 = 0 := by
  rw [danglessPosixMemalign_success h]
  cases hookEnter (sysmemalign A pp align w).2 with
  | none => rfl
  | some w1 =>
      dsimp only
      rw [hookVremap, doVremap, if_pos (Or.inl rfl)]

section Held

variable {Z : Fin PT_NUM_ENTRIES → Prop} {others : Set Nat} {maps : List Mapping}
  {blocks : List (Nat × Nat)} {u : Nat} {r : Nat × World σ}

/-- What `do_vremap` answers for a block stands for that block. -/
theorem Remapped.pointsTo (hZ : SlotsOk L Z)
    (hb : (b, u) ∈ blocks) (hu : 0 < u) (h : Remapped C Z others maps blocks w b u size r)
    {a : Nat} (ha : PointsTo L r.2.pt r.1 a) : a = b := by
  obtain ⟨hne, rfl⟩ := ha
  cases h with
  | zero _ hr =>
      rw [hr] at hne
      exact absurd rfl hne
  | fallback _ hr hsound' _ =>
      have hhome := (hsound'.sys.homeBlock hb).home
      rw [originalPtr, if_neg hne, hr, hsound'.remap.vremapResolve_home hhome]
      rfl
  | region _ hsound' _ =>
      have hresolve := (hsound'.resolve hZ List.mem_cons_self hb ⟨rfl, rfl⟩ hu).2
      rw [originalPtr, if_neg hne, hresolve]
      rfl

/-- The state after `memalign`. -/
theorem Sound.memalign (h : Sound C Z others maps blocks w) (pp align depth : Nat) :
    ∃ blocks', blocks ⊆ blocks' ∧ Sound C Z others maps blocks'
      { w with sys := (A.memalign pp align w.sys).2, hookDepth := depth } := by
  obtain ⟨hok, hr⟩ := C.memalign w.sys pp align h.sys.ok
  by_cases hnull : (A.memalign pp align w.sys).1 = 0
  · refine ⟨blocks, List.Subset.refl _, ⟨⟨?_, h.remap⟩, h.undedicated⟩⟩
    exact h.sys.obtain_null hok hr hnull rfl rfl h.sys.own
  · have hsys := h.sys.obtain hok hr hnull (rfl : ({ w with sys := _, hookDepth := depth } : World σ).sys = _)
      rfl h.sys.own
    exact ⟨_, List.subset_cons_self _ _, ⟨⟨hsys, h.remap⟩, h.undedicated⟩⟩

end Held

/-- A pointer that the program holds already is handed out once more. -/
theorem HeldBlock.notFresh (hheld : HeldBlock C w old) (h : (A.memalign pp align w.sys).1 % 2 ^ 32 = 0)
    (hpoints : PointsTo L (danglessPosixMemalign A L pp align size old w).2.2.pt
      (danglessPosixMemalign A L pp align size old w).2.1 b) : b ∈ C.live w.sys := by
  obtain ⟨w0, storage, calls, c, hstart, hrun, hsized, rfl, hp, hresolve⟩ := hheld
  have hZ := hstart.slotsOk
  obtain ⟨others', hs', stale', hinv, -, -⟩ := hstart.inv.run hZ hrun (Or.inr hsized)
  obtain ⟨x, hs0, rfl, hx⟩ := hinv.picked hZ hp
  have hhome : x.ptr = x.block := by
    rcases (hx.accounted.resolve hZ).2.2 with ⟨-, hremapped, -⟩ | ⟨hhome, -, -⟩
    · have hcode := (Prod.mk.inj (hremapped.symm.trans hresolve)).1
      exact absurd hcode (show VREM_OK ≠ VREM_NOT_REMAPPED by decide)
    · exact hhome
  have husable := hx.accounted.usable x List.mem_cons_self
  have hsound := hx.accounted.sound
  obtain ⟨blocks', hsub, hsound1⟩ := hsound.memalign pp align 1
  have hb : (x.block, x.usable) ∈ blocks' := hsub List.mem_cons_self
  have hready : Ready (sysmemalign A pp align c.world).2 := hinv.ready.of_modes rfl
  have hremapped := doVremap_remapped_of_pos hZ hsound1 hb fun _ : size ≠ 0 => husable
  rw [danglessPosixMemalign_success h, hready.hookEnter, hhome] at hpoints
  have hblock := hremapped.pointsTo hZ hb husable hpoints
  rw [hblock]
  exact hsound.sys.mem_live List.mem_cons_self

/-- **`dangless_posix_memalign` keeps its contract exactly where it fails**: where `memalign` answers an address
whose low half is not 0, for whatever `*pp` holds; where `*pp` holds `NULL` or a block of the program, nowhere
else. -/
theorem danglessPosixMemalign_contract_iff (C : SysContract A L) (w : World σ) (pp align size : Nat) :
    (∀ old, (A.memalign pp align w.sys).1 % 2 ^ 32 ≠ 0 →
      PosixMemalignContract C w align size old (danglessPosixMemalign A L pp align size old w)) ∧
    ∀ old, old = 0 ∨ HeldBlock C w old →
      (PosixMemalignContract C w align size old (danglessPosixMemalign A L pp align size old w) ↔
        (A.memalign pp align w.sys).1 % 2 ^ 32 ≠ 0) := by
  have herror : ∀ old, (A.memalign pp align w.sys).1 % 2 ^ 32 ≠ 0 →
      PosixMemalignContract C w align size old (danglessPosixMemalign A L pp align size old w) :=
    fun old h => Or.inr (danglessPosixMemalign_error h size old)
  refine ⟨herror, fun old hold => ⟨fun hcontract hzero => ?_, herror old⟩⟩
  rcases hcontract with ⟨-, -, b, hpoints, hfresh, -⟩ | ⟨hne, -⟩
  · rcases hold with rfl | hheld
    · exact hpoints.1 (danglessPosixMemalign_null_stays hzero size)
    · exact hfresh (hheld.notFresh hzero hpoints)
  · apply hne
    rw [danglessPosixMemalign_success hzero]
    cases hookEnter (sysmemalign A pp align w).2 <;> rfl

theorem danglessPosixMemalign_contract_iff_heap :
    PosixMemalignContract (bumpContract duneLayout) duneWorld 64 100 0
      (danglessPosixMemalign bumpAllocator duneLayout (2 * PGSIZE) 64 100 0 duneWorld) := by
  have haddress : (bumpAllocator.memalign (2 * PGSIZE) 64 duneWorld.sys).1 = 2 * PGSIZE := rfl
  have hiff := danglessPosixMemalign_contract_iff (bumpContract duneLayout) duneWorld (2 * PGSIZE) 64 100
  apply (hiff.2 0 (Or.inl rfl)).mpr
  rw [haddress]
  decide

/-- With `&p` on the stack, `memalign` has no memory at such an alignment, and the call succeeds with `NULL`. -/
theorem danglessPosixMemalign_broken :
    danglessPosixMemalign bumpAllocator duneLayout 0x7fffffffe000 64 100 0 duneWorld = (0, 0, duneWorld) ∧
      ¬ PosixMemalignContract (bumpContract duneLayout) duneWorld 64 100 0
        (danglessPosixMemalign bumpAllocator duneLayout 0x7fffffffe000 64 100 0 duneWorld) := by
  have hexit : danglessPosixMemalign bumpAllocator duneLayout 0x7fffffffe000 64 100 0 duneWorld =
      (0, 0, duneWorld) := rfl
  refine ⟨hexit, ?_⟩
  rw [hexit]
  rintro (⟨-, -, b, hpoints, -⟩ | ⟨hne, -⟩)
  · exact hpoints.1 rfl
  · exact hne rfl

end Dangless
