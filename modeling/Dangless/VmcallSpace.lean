import Dangless.DuneTables
import Dangless.RemapInv
import Dangless.VirtmemMmu
import Dangless.VmcallFixup

/-! What `fixup_ptr` makes of a pointer in an address space that Dune has laid out. The two fast paths agree
with the walk of the page tables, and the result is not rewritten a second time. It is the canonical address
of the same byte, except for values whose low 48 bits, which are all that `pt_walk` looks at, are those of a
stack address. -/

namespace Dangless

variable {L : DuneLayout} {pt : PtState} {v c pa : Nat}

/-- The addresses that Dune maps to those of `dune_va_to_pa`, where it maps them. -/
def DuneLayout.Own (L : DuneLayout) (va : Nat) : Prop :=
  va < PHYS_LIMIT - GPA_STACK_SIZE - GPA_MAP_SIZE ∨ L.Home va ∨ isTriviallyNotRemapped L va

/-- What is mapped under Dune: its own addresses, and outside its regions pages of what it maps in advance. -/
def DuneSpace (L : DuneLayout) (pt : PtState) : Prop :=
  ∀ va, va < 2 ^ 48 → ptResolve pt va ≠ 0 →
    (L.Own va ∧ ptResolve pt va = L.duneVaToPa va) ∨
    (PGSIZE ≤ va ∧ (va < L.mmapBase ∨ L.stackBase + GPA_STACK_SIZE ≤ va) ∧
      ∃ b, L.Home b ∧ ptResolve pt b = L.duneVaToPa b ∧ ptResolve pt va = L.duneVaToPa b)

/-- An address that is mapped, but not to where Dune maps it. -/
def IsRemapped (L : DuneLayout) (pt : PtState) (v : Nat) : Prop :=
  Paging.Canonical v ∧ ptResolve pt v ≠ 0 ∧ L.duneVaToPa v ≠ ptResolve pt v

def IsInvalid (pt : PtState) (v : Nat) : Prop := ¬ Paging.Canonical v ∨ ptResolve pt v = 0

/-- A value that is no address and that `vremap_resolve` takes for a remapped one. -/
def IsGhost (L : DuneLayout) (pt : PtState) (v : Nat) : Prop :=
  ¬ Paging.Canonical v ∧ (vremapResolve L pt v).1 = VREM_OK

instance (L : DuneLayout) (pt : PtState) (v : Nat) : Decidable (IsGhost L pt v) :=
  inferInstanceAs (Decidable (_ ∧ _))

/-- What `fixup_ptr` leaves in a slot that holds `v`. -/
def canonicalPtr (L : DuneLayout) (pt : PtState) (v : Nat) : Nat :=
  if v < PGSIZE then v
  else if isTriviallyNotRemapped L v then v
  else if (vremapResolve L pt v).1 = VREM_OK then (vremapResolve L pt v).2.getD v else v

/-- `*is_valid`. -/
def isValidPtr (L : DuneLayout) (pt : PtState) (v : Nat) : Bool :=
  if v < PGSIZE then false
  else if isTriviallyNotRemapped L v then true else (vremapResolve L pt v).1 != EVREM_NO_PHYS_BACK

/-- `pt_resolve` looks at 48 bits. -/
theorem ptResolve_mod (pt : PtState) (v : Nat) : ptResolve pt (v % 2 ^ 48) = ptResolve pt v := by
  have hpath : ptPath (v % 2 ^ 48) = ptPath v := by
    rw [ptPath_eq_iff]
    simp only [PGSIZE]
    omega
  have hindex : ∀ level, ptIndex (v % 2 ^ 48) level = ptIndex v level := by
    simp only [ptPath, List.cons.injEq] at hpath
    intro level
    cases level
    · exact hpath.2.2.2.1
    · exact hpath.2.2.1
    · exact hpath.2.1
    · exact hpath.1
  have hwalk : ptWalk pt (v % 2 ^ 48) .l1 = ptWalk pt v .l1 := by
    rw [ptWalk_full, ptWalk_full, PtState.lookup, PtState.lookup, hindex, hindex, hindex, hindex]
  have hoffset : ∀ level, getPageOffset (v % 2 ^ 48) level = getPageOffset v level := by
    intro level
    rw [getPageOffset_eq, getPageOffset_eq]
    cases level <;> simp only [PtLevel.below, PtLevel.toNat, Paging.pageBits] <;> omega
  rw [ptResolve_eq_entry, ptResolve_eq_entry, hwalk]
  unfold ptResolveEntry
  rw [hoffset]

theorem vremapResolve_ok (h : (vremapResolve L pt v).1 = VREM_OK) : ptResolve pt v ≠ 0 ∧
    L.duneVaToPa v ≠ ptResolve pt v ∧
      vremapResolve L pt v = (VREM_OK, some (ptPaddr2vaddr L (ptResolve pt v))) := by
  unfold vremapResolve at h ⊢
  dsimp only at h ⊢
  split_ifs at h ⊢ with hnone hsame
  · exact absurd h (show EVREM_NO_PHYS_BACK ≠ VREM_OK by decide)
  · exact absurd h (show VREM_NOT_REMAPPED ≠ VREM_OK by decide)
  · exact ⟨hnone, hsame, rfl⟩

theorem vremapResolve_unmapped (h : ptResolve pt v = 0) :
    vremapResolve L pt v = (EVREM_NO_PHYS_BACK, none) := if_pos h

theorem vremapResolve_self (hpa : ptResolve pt v ≠ 0) (hsame : L.duneVaToPa v = ptResolve pt v) :
    vremapResolve L pt v = (VREM_NOT_REMAPPED, some v) := by
  unfold vremapResolve
  dsimp only
  rw [if_neg hpa, if_pos hsame]

theorem vremapResolve_ok_iff :
    (vremapResolve L pt v).1 = VREM_OK ↔ ptResolve pt v ≠ 0 ∧ L.duneVaToPa v ≠ ptResolve pt v := by
  constructor
  · intro h
    exact ⟨(vremapResolve_ok h).1, (vremapResolve_ok h).2.1⟩
  · rintro ⟨hpa, hne⟩
    unfold vremapResolve
    dsimp only
    rw [if_neg hpa, if_neg hne]

theorem isRemapped_iff :
    IsRemapped L pt v ↔ Paging.Canonical v ∧ (vremapResolve L pt v).1 = VREM_OK := by
  rw [vremapResolve_ok_iff]
  rfl

theorem mmapBase_pa (L : DuneLayout) :
    L.duneVaToPa L.mmapBase = PHYS_LIMIT - GPA_STACK_SIZE - GPA_MAP_SIZE := by
  have hmmap := L.mmapEnd_le
  rw [L.mmap L.mmapBase le_rfl (by simp only [GPA_MAP_SIZE] at hmmap; omega)]
  omega

theorem ptPaddr2vaddr_low (h : pa < PHYS_LIMIT - GPA_STACK_SIZE - GPA_MAP_SIZE) :
    ptPaddr2vaddr L pa = pa := by
  unfold ptPaddr2vaddr
  rw [mmapBase_pa, if_neg (by omega)]

/-- The reverse of `dune_va_to_pa`, where the stack is taken for part of the `mmap` region. -/
theorem ptPaddr2vaddr_stack (h : isTriviallyNotRemapped L v) :
    ptPaddr2vaddr L (L.duneVaToPa v) = v - L.stackBase + L.mmapBase + GPA_MAP_SIZE := by
  obtain ⟨hlo, hhi⟩ := h
  have hlimit := L.physLimit_le
  have hmmap := L.mmapEnd_le
  have hstack := L.stackEnd_le
  have hpa : L.duneVaToPa v = v - L.stackBase + (PHYS_LIMIT - GPA_STACK_SIZE) := by
    rw [L.stack v hlo (by simp only [GPA_STACK_SIZE] at *; omega)]
    apply u64_of_lt
    simp only [GPA_STACK_SIZE, PHYS_LIMIT] at *
    omega
  unfold ptPaddr2vaddr
  rw [mmapBase_pa, hpa, if_pos (by omega)]
  simp only [u64, PHYS_LIMIT, GPA_STACK_SIZE, GPA_MAP_SIZE] at *
  omega

/-- A value beyond 48 bits whose low bits are those of a mapped stack address. -/
def StackAlias (L : DuneLayout) (pt : PtState) (v : Nat) : Prop :=
  ¬ Paging.Canonical v ∧ isTriviallyNotRemapped L (v % 2 ^ 48) ∧ ptResolve pt v ≠ 0

/-- What `vremap_resolve` makes of a pointer that it takes for a remapped one. -/
structure ResolvesTo (L : DuneLayout) (pt : PtState) (v c : Nat) : Prop where
  resolve : vremapResolve L pt v = (VREM_OK, some c)
  ne : c ≠ v
  ne_zero : c ≠ 0
  lt : c < 2 ^ 47
  canonical : (vremapResolve L pt c = (VREM_NOT_REMAPPED, some c) ∧ ptResolve pt c = ptResolve pt v) ∨
    (StackAlias L pt v ∧ c = v % 2 ^ 48 - L.stackBase + L.mmapBase + GPA_MAP_SIZE)

theorem DuneLayout.Home.lt {b : Nat} (h : L.Home b) : b < 2 ^ 47 := by
  have hmmap := L.mmapEnd_le
  have hend := L.stackEnd_le
  rcases h with ⟨-, hhi⟩ | ⟨-, hhi⟩
  · omega
  · simp only [GPA_STACK_SIZE, GPA_MAP_SIZE] at *
    omega

/-- A value that resolves to an address of the home regions. -/
theorem resolvesTo_home {b : Nat} (hb : L.Home b) (hself : ptResolve pt b = L.duneVaToPa b)
    (hv : ptResolve pt v = L.duneVaToPa b) (hok : (vremapResolve L pt v).1 = VREM_OK) :
    ResolvesTo L pt v b := by
  obtain ⟨-, hne, hresolve⟩ := vremapResolve_ok hok
  refine ⟨?_, ?_, hb.ne_zero, hb.lt, Or.inl ⟨vremapResolve_of_home hb hself, hself.trans hv.symm⟩⟩
  · rw [hresolve, hv, ptPaddr2vaddr_home hb]
  · rintro rfl
    exact hne hself.symm

theorem DuneSpace.resolvesTo (h : DuneSpace L pt) (hok : (vremapResolve L pt v).1 = VREM_OK) :
    ∃ c, ResolvesTo L pt v c := by
  obtain ⟨hpa, hne, hresolve⟩ := vremapResolve_ok hok
  have hlimit := L.physLimit_le
  have hmmap := L.mmapEnd_le
  have hend := L.stackEnd_le
  have hmod := ptResolve_mod pt v
  rcases h (v % 2 ^ 48) (Nat.mod_lt _ (by decide)) (hmod ▸ hpa) with ⟨hown, hsame⟩ | ⟨-, -, b, hb, hself, hsame⟩
  · -- the low bits are those of an address of Dune's own, the others are not all 0
    rw [hmod] at hsame
    have hhigh : 2 ^ 48 ≤ v := by
      by_contra hlt
      rw [Nat.mod_eq_of_lt (Nat.not_le.mp hlt)] at hsame
      exact hne hsame.symm
    rcases hown with hlow | hhome | hstack
    · have hidentity : L.duneVaToPa (v % 2 ^ 48) = v % 2 ^ 48 := by
        apply L.identity
        simp only [PHYS_LIMIT] at *
        omega
      have hphysical : ptResolve pt (v % 2 ^ 48) = v % 2 ^ 48 := by rw [hmod, hsame, hidentity]
      refine ⟨v % 2 ^ 48, ?_, by omega, ?_, ?_, Or.inl ⟨vremapResolve_self ?_ ?_, hmod⟩⟩
      · rw [hresolve, hsame, hidentity, ptPaddr2vaddr_low hlow]
      · rwa [← hphysical, hmod]
      · simp only [PHYS_LIMIT] at *
        omega
      · rwa [hmod]
      · rw [hidentity, hphysical]
    · exact ⟨_, resolvesTo_home hhome (hmod.trans hsame) hsame hok⟩
    · refine ⟨_, ⟨by rw [hresolve, hsame, ptPaddr2vaddr_stack hstack], ?_, ?_, ?_, Or.inr ⟨⟨?_, hstack, hpa⟩, rfl⟩⟩⟩ <;>
        obtain ⟨hlo, hhi⟩ := hstack <;>
        simp only [Paging.Canonical, PHYS_LIMIT, GPA_STACK_SIZE, GPA_MAP_SIZE] at * <;> omega
  · rw [hmod] at hsame
    exact ⟨b, resolvesTo_home hb hself hsame hok⟩

/-- The fast paths agree with the walk. -/
theorem DuneSpace.not_trivial (h : DuneSpace L pt) (hok : (vremapResolve L pt v).1 = VREM_OK) :
    PGSIZE ≤ v ∧ ¬ isTriviallyNotRemapped L v := by
  obtain ⟨hpa, hne, -⟩ := vremapResolve_ok hok
  have hend := L.stackEnd_le
  have hmmap := L.mmapEnd_le
  constructor
  · by_contra hlow
    simp only [PGSIZE] at hlow
    rcases h v (by omega) hpa with ⟨-, hsame⟩ | ⟨hge, -⟩
    · exact hne hsame.symm
    · simp only [PGSIZE] at hge
      omega
  · rintro ⟨hlo, hhi⟩
    rcases h v (by simp only [GPA_STACK_SIZE] at *; omega) hpa with ⟨-, hsame⟩ | ⟨-, hout, -⟩
    · exact hne hsame.symm
    · simp only [GPA_MAP_SIZE] at *
      omega

theorem canonicalPtr_of_not_ok (h : (vremapResolve L pt v).1 ≠ VREM_OK) : canonicalPtr L pt v = v := by
  unfold canonicalPtr
  split_ifs <;> rfl

theorem canonicalPtr_of_stack (h : isTriviallyNotRemapped L v) : canonicalPtr L pt v = v := by
  unfold canonicalPtr
  split_ifs <;> rfl

theorem DuneSpace.canonicalPtr_eq (h : DuneSpace L pt) (hc : ResolvesTo L pt v c) : canonicalPtr L pt v = c := by
  have hok : (vremapResolve L pt v).1 = VREM_OK := by rw [hc.resolve]
  obtain ⟨hlow, hstack⟩ := h.not_trivial hok
  rw [canonicalPtr, if_neg (Nat.not_lt.mpr hlow), if_neg hstack, if_pos hok, hc.resolve]
  rfl

/-- `fixup_ptr` rewrites exactly what `vremap_resolve` takes for remapped. -/
theorem DuneSpace.canonicalPtr_eq_self_iff (h : DuneSpace L pt) :
    canonicalPtr L pt v = v ↔ (vremapResolve L pt v).1 ≠ VREM_OK := by
  constructor
  · intro hself hok
    obtain ⟨c, hc⟩ := h.resolvesTo hok
    exact hc.ne ((h.canonicalPtr_eq hc).symm.trans hself)
  · exact canonicalPtr_of_not_ok

/-- Nothing is mapped where the stack would be if it were part of the `mmap` region, but for the stack. -/
theorem DuneSpace.resolve_gap (h : DuneSpace L pt) (hlo : L.mmapBase + GPA_MAP_SIZE ≤ c)
    (hhi : c < L.mmapBase + GPA_MAP_SIZE + GPA_STACK_SIZE) (hstack : ¬ isTriviallyNotRemapped L c) :
    ptResolve pt c = 0 := by
  have hlimit := L.physLimit_le
  have hmmap := L.mmapEnd_le
  have hend := L.stackEnd_le
  by_contra hne
  rcases h c (by simp only [GPA_STACK_SIZE, GPA_MAP_SIZE] at *; omega) hne with ⟨hown, -⟩ | ⟨-, hout, -⟩
  · rcases hown with hlow | (⟨-, hlow⟩ | ⟨-, hlow⟩) | hown
    · simp only [PHYS_LIMIT] at *
      omega
    · simp only [PHYS_LIMIT] at *
      omega
    · omega
    · exact hstack hown
  · simp only [GPA_STACK_SIZE, GPA_MAP_SIZE] at *
    omega

/-- **`fixup_ptr` settles**: what it leaves in a slot it leaves alone the next time. -/
theorem DuneSpace.canonicalPtr_idem (h : DuneSpace L pt) (v : Nat) :
    canonicalPtr L pt (canonicalPtr L pt v) = canonicalPtr L pt v := by
  by_cases hok : (vremapResolve L pt v).1 = VREM_OK
  · obtain ⟨c, hc⟩ := h.resolvesTo hok
    rw [h.canonicalPtr_eq hc]
    rcases hc.canonical with ⟨hself, -⟩ | ⟨⟨-, ⟨hlo, hhi⟩, -⟩, heq⟩
    · apply canonicalPtr_of_not_ok
      rw [hself]
      exact show VREM_NOT_REMAPPED ≠ VREM_OK by decide
    · by_cases hstack : isTriviallyNotRemapped L c
      · exact canonicalPtr_of_stack hstack
      · apply canonicalPtr_of_not_ok
        rw [vremapResolve_unmapped (h.resolve_gap (by omega) (by omega) hstack)]
        exact show EVREM_NO_PHYS_BACK ≠ VREM_OK by decide
  · rw [canonicalPtr_of_not_ok hok, canonicalPtr_of_not_ok hok]

theorem DuneSpace.canonicalPtr_eq_zero_iff (h : DuneSpace L pt) : canonicalPtr L pt v = 0 ↔ v = 0 := by
  by_cases hok : (vremapResolve L pt v).1 = VREM_OK
  · obtain ⟨c, hc⟩ := h.resolvesTo hok
    have hlow := (h.not_trivial hok).1
    rw [h.canonicalPtr_eq hc]
    exact iff_of_false hc.ne_zero (by simp only [PGSIZE] at hlow; omega)
  · rw [canonicalPtr_of_not_ok hok]

/-- **A remapped pointer is rewritten to the canonical address of the same byte.** -/
theorem DuneSpace.canonicalPtr_remapped (h : DuneSpace L pt) (hv : IsRemapped L pt v) :
    (vremapResolve L pt (canonicalPtr L pt v)).1 = VREM_NOT_REMAPPED ∧
      ptResolve pt (canonicalPtr L pt v) = ptResolve pt v := by
  obtain ⟨hcanonical, hok⟩ := isRemapped_iff.mp hv
  obtain ⟨c, hc⟩ := h.resolvesTo hok
  rw [h.canonicalPtr_eq hc]
  rcases hc.canonical with ⟨hself, hsame⟩ | ⟨⟨hnot, -⟩, -⟩
  · exact ⟨by rw [hself], hsame⟩
  · exact absurd hcanonical hnot

/-- Only remapped pointers and ghosts are rewritten. -/
theorem isGhost_of_rewritten (hv : ¬ IsRemapped L pt v)
    (hne : canonicalPtr L pt v ≠ v) : IsGhost L pt v := by
  have hok : (vremapResolve L pt v).1 = VREM_OK := by
    by_contra hnot
    exact hne (canonicalPtr_of_not_ok hnot)
  exact ⟨fun hcanonical => hv (isRemapped_iff.mpr ⟨hcanonical, hok⟩), hok⟩

/-- Memory for six tables under an empty root. -/
def aliasTables : PtState := ⟨4096, fun _ => 0, [8192, 12288, 16384, 20480, 24576, 28672], []⟩

def ALIAS_PAGE : Nat := 0x10000

/-- The page at `ALIAS_PAGE`, mapped to itself. -/
def aliasHome : PtState := (ptMapRegion aliasTables ALIAS_PAGE ALIAS_PAGE PGSIZE PTE_W).2

/-- This page is also mapped at 512 GB. -/
def aliasSpace : PtState := (ptMapRegion aliasHome ALIAS_PAGE PHYS_LIMIT PGSIZE PTE_W).2

theorem aliasTables_entry (a : Nat) : aliasTables.entry a = none := by
  rw [PtState.entry_eq]
  exact if_neg (by simp [aliasTables, flagIsSet])

theorem aliasHome_maps :
    (∀ o, o < PGSIZE → ptResolve aliasHome (ALIAS_PAGE + o) = ALIAS_PAGE + o) ∧
    (∀ a, (∀ o, o < PGSIZE → a % VIRTMEM_END ≠ (ALIAS_PAGE + o) % VIRTMEM_END) →
      aliasHome.entry a = none ∧ ptResolve aliasHome a = 0) ∧
    PtInv (fun _ => True) aliasHome := by
  have hinv : PtInv (fun _ => True) aliasTables :=
    PtInv.of_empty (by decide) (fun _ => rfl) (by decide) (by decide)
  have hmap : (ptMapRegion aliasTables ALIAS_PAGE ALIAS_PAGE PGSIZE PTE_W).1 = 0 := by decide +kernel
  obtain ⟨hresolve, hothers, hhome⟩ := ptMapRegion_maps hinv (by decide) (by decide) (by decide) (by decide)
    (by decide) (by decide) (by decide) ⟨by decide, by decide⟩ (fun o _ => aliasTables_entry _) hmap
  refine ⟨hresolve, fun a ha => ?_, hhome⟩
  obtain ⟨hentry, hzero⟩ := hothers a ha
  exact ⟨hentry.trans (aliasTables_entry a), hzero.trans (ptResolve_of_entry_none (aliasTables_entry a))⟩

/-- What is mapped. -/
theorem aliasSpace_resolve :
    (∀ o, o < PGSIZE → ptResolve aliasSpace (PHYS_LIMIT + o) = ALIAS_PAGE + o) ∧
    (∀ o, o < PGSIZE → ptResolve aliasSpace (ALIAS_PAGE + o) = ALIAS_PAGE + o) ∧
    ∀ a, a < 2 ^ 48 → a / PGSIZE ≠ PHYS_LIMIT / PGSIZE → a / PGSIZE ≠ ALIAS_PAGE / PGSIZE →
      ptResolve aliasSpace a = 0 := by
  obtain ⟨hhome, hothers, hinv⟩ := aliasHome_maps
  have hunmapped : ∀ o, o < PGSIZE → aliasHome.entry (PHYS_LIMIT + o) = none := by
    intro o ho
    refine (hothers _ fun o' ho' => ?_).1
    simp only [PHYS_LIMIT, ALIAS_PAGE, VIRTMEM_END, PGSIZE] at *
    omega
  have hmap : (ptMapRegion aliasHome ALIAS_PAGE PHYS_LIMIT PGSIZE PTE_W).1 = 0 := by decide +kernel
  obtain ⟨hresolve, hkeep, -⟩ := ptMapRegion_maps hinv (by decide) (by decide) (by decide) (by decide)
    (by decide) (by decide) (by decide) ⟨by decide, by decide⟩ hunmapped hmap
  refine ⟨hresolve, fun o ho => ?_, fun a ha hremapped hpage => ?_⟩
  · refine (hkeep _ fun o' ho' => ?_).2.trans (hhome o ho)
    simp only [PHYS_LIMIT, ALIAS_PAGE, VIRTMEM_END, PGSIZE] at *
    omega
  · refine (hkeep a fun o ho => ?_).2.trans (hothers a fun o ho => ?_).2 <;>
      simp only [PHYS_LIMIT, ALIAS_PAGE, VIRTMEM_END, PGSIZE] at * <;> omega

theorem aliasSpace_dune : DuneSpace duneLayout aliasSpace := by
  obtain ⟨hremapped, hhome, hothers⟩ := aliasSpace_resolve
  have hlow : ∀ o, o < PGSIZE → duneLayout.Home (ALIAS_PAGE + o) ∧
      duneLayout.duneVaToPa (ALIAS_PAGE + o) = ALIAS_PAGE + o := by
    intro o ho
    refine ⟨Or.inl ⟨?_, ?_⟩, duneLayout.identity _ ?_⟩ <;>
      simp only [ALIAS_PAGE, PGSIZE, duneLayout, DUNE_MMAP_BASE] at * <;> omega
  intro va hva hne
  by_cases hpage : va / PGSIZE = ALIAS_PAGE / PGSIZE
  · obtain ⟨o, ho, rfl⟩ : ∃ o, o < PGSIZE ∧ va = ALIAS_PAGE + o :=
      ⟨va - ALIAS_PAGE, by simp only [ALIAS_PAGE, PGSIZE] at *; omega,
        by simp only [ALIAS_PAGE, PGSIZE] at *; omega⟩
    exact Or.inl ⟨Or.inr (Or.inl (hlow o ho).1), (hhome o ho).trans (hlow o ho).2.symm⟩
  by_cases hregion : va / PGSIZE = PHYS_LIMIT / PGSIZE
  · obtain ⟨o, ho, rfl⟩ : ∃ o, o < PGSIZE ∧ va = PHYS_LIMIT + o :=
      ⟨va - PHYS_LIMIT, by simp only [PHYS_LIMIT, PGSIZE] at *; omega,
        by simp only [PHYS_LIMIT, PGSIZE] at *; omega⟩
    refine Or.inr ⟨?_, Or.inl ?_, ALIAS_PAGE + o, (hlow o ho).1, ?_, ?_⟩
    · simp only [PHYS_LIMIT, PGSIZE]
      omega
    · simp only [PHYS_LIMIT, PGSIZE, duneLayout, DUNE_MMAP_BASE] at *
      omega
    · exact (hhome o ho).trans (hlow o ho).2.symm
    · exact (hremapped o ho).trans (hlow o ho).2.symm
  · exact absurd (hothers va hva hregion hpage) hne

end Dangless
