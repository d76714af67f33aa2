import Dangless.VirtmemMmu

/-! Pages as they are mapped: the walks of all addresses of a page reach its entry, and they resolve to consecutive
physical addresses. -/

namespace Dangless

open TableTree

variable {s : PtState} {va a word : Nat} {level : PtLevel}

/-- `pte_mapped_size`. -/
def pteMappedSize (level : PtLevel) : Nat := 2 ^ ptLevelShift level

theorem pteMappedSize_pos (level : PtLevel) : 0 < pteMappedSize level := Nat.two_pow_pos _

/-- Two addresses in one page have the same indices down to the level of its entry. -/
theorem path_of_page (hpage : a / pteMappedSize level = va / pteMappedSize level) :
    ptPrefix a level = ptPrefix va level ∧ ptIndex a level = ptIndex va level := by
  cases level <;>
    simp only [ptPrefix, ptIndex, List.cons.injEq, Fin.mk.injEq, ptLevelOffset_eq, pteMappedSize, ptLevelShift,
      PGSHIFT, PtLevel.toNat, PT_BITS_PER_LEVEL, and_true, true_and] at * <;> omega

/-- The walk of an address is determined by the entry that it reaches. -/
theorem AtLevel.walk {ppte : Nat} (h : AtLevel s va level ppte) : ptWalk s va .l1 = (level, ppte) := by
  obtain ⟨⟨t, ht, rfl⟩, hchild⟩ := h
  rw [ptWalk_full]
  cases level with
  | l1 =>
      have hlookup : s.lookup va = (0, pteSlot t (ptIndex va .l1)) := lookup_full ht rfl
      rw [hlookup]
      rfl
  | l2 =>
      have hlookup : s.lookup va = (1, pteSlot t (ptIndex va .l2)) := lookup_through ht (hchild (by decide)) rfl
      rw [hlookup]
      rfl
  | l3 =>
      have hlookup : s.lookup va = (2, pteSlot t (ptIndex va .l3)) := lookup_through ht (hchild (by decide)) rfl
      rw [hlookup]
      rfl
  | l4 =>
      have hlookup : s.lookup va = (3, pteSlot t (ptIndex va .l4)) := lookup_through ht (hchild (by decide)) rfl
      rw [hlookup]
      rfl

theorem PtState.entry_eq_some : s.entry va = some (level, word) ↔
    (ptWalk s va .l1).1 = level ∧ s.mem (ptWalk s va .l1).2 = word ∧ flagIsSet word PTE_V = true := by
  unfold PtState.entry
  dsimp only
  constructor
  · intro h
    split_ifs at h with hv
    obtain ⟨rfl, rfl⟩ := Prod.mk.inj (Option.some.inj h)
    exact ⟨rfl, rfl, hv⟩
  · rintro ⟨rfl, rfl, hv⟩
    exact if_pos hv

/-- The addresses of a page have its entry. -/
theorem entry_of_page (h : s.entry va = some (level, word))
    (hpage : a / pteMappedSize level = va / pteMappedSize level) : s.entry a = some (level, word) := by
  obtain ⟨rfl, rfl, hv⟩ := PtState.entry_eq_some.mp h
  obtain ⟨htables, hindex⟩ := path_of_page hpage
  obtain ⟨⟨t, ht, hppte⟩, hchild⟩ := ptWalk_atLevel s va
  have hat : AtLevel s a (ptWalk s va .l1).1 (ptWalk s va .l1).2 :=
    ⟨⟨t, by rw [htables, ht], by rw [hindex, ← hppte]⟩, hchild⟩
  have hwalk := hat.walk
  refine PtState.entry_eq_some.mpr ⟨by rw [hwalk], by rw [hwalk], hv⟩

theorem ptResolvePage_of_entry (h : s.entry va = some (level, word)) :
    ptResolvePage s va = (ptEntryPage word level, level) := by
  obtain ⟨rfl, rfl, hv⟩ := PtState.entry_eq_some.mp h
  unfold ptResolvePage
  dsimp only
  rw [hv]
  cases (ptWalk s va .l1).1 <;> rfl

theorem ptResolvePage_of_entry_none (h : s.entry va = none) : (ptResolvePage s va).1 = 0 := by
  unfold ptResolvePage
  dsimp only
  rw [PtState.entry_eq_none.mp h]
  rfl

theorem getPageOffset_eq_mod (a : Nat) (level : PtLevel) : getPageOffset a level = a % pteMappedSize level :=
  Nat.and_two_pow_sub_one_eq_mod _ _

/-- The frame of a page is aligned to its size, within the width of physical addresses. -/
theorem ptEntryPage_frame (word : Nat) (level : PtLevel) :
    ptEntryPage word level % pteMappedSize level = 0 ∧ ptEntryPage word level + pteMappedSize level ≤ 2 ^ 52 := by
  cases level with
  | l1 =>
      have hframe := frame_lt word (show 12 ≤ 52 by decide)
      rw [ptEntryPage, frame_4k]
      exact ⟨Nat.mul_mod_left _ _, hframe⟩
  | l2 =>
      have hframe := frame_lt word (show 21 ≤ 52 by decide)
      rw [ptEntryPage, frame_2m]
      exact ⟨Nat.mul_mod_left _ _, hframe⟩
  | l3 =>
      have hframe := frame_lt word (show 30 ≤ 52 by decide)
      rw [ptEntryPage, frame_1g]
      exact ⟨Nat.mul_mod_left _ _, hframe⟩
  | l4 => exact ⟨rfl, show 0 + pteMappedSize .l4 ≤ 2 ^ 52 by decide⟩

/-- An address resolves to its place in the page, where the frame is not 0. -/
theorem ptResolve_of_entry (h : s.entry va = some (level, word)) (hframe : ptEntryPage word level ≠ 0) :
    ptResolve s va = ptEntryPage word level + va % pteMappedSize level := by
  have hlt := (ptEntryPage_frame word level).2
  have hoffset : va % pteMappedSize level < pteMappedSize level := Nat.mod_lt _ (pteMappedSize_pos level)
  unfold ptResolve
  rw [ptResolvePage_of_entry h]
  dsimp only
  rw [if_neg hframe, getPageOffset_eq_mod]
  exact u64_of_lt (by omega)

theorem ptResolve_of_frame_zero (h : s.entry va = some (level, word)) (hframe : ptEntryPage word level = 0) :
    ptResolve s va = 0 := by
  unfold ptResolve
  rw [ptResolvePage_of_entry h]
  exact if_pos hframe

theorem ptResolve_bounds (hne : ptResolve s va ≠ 0) : PGSIZE ≤ ptResolve s va ∧ ptResolve s va < 2 ^ 52 := by
  cases hentry : s.entry va with
  | none => exact absurd (ptResolve_of_entry_none hentry) hne
  | some entry =>
      obtain ⟨level, word⟩ := entry
      have hframe : ptEntryPage word level ≠ 0 := fun hzero => hne (ptResolve_of_frame_zero hentry hzero)
      have hoffset : va % pteMappedSize level < pteMappedSize level := Nat.mod_lt _ (pteMappedSize_pos level)
      obtain ⟨halign, hlt⟩ := ptEntryPage_frame word level
      rw [ptResolve_of_entry hentry hframe]
      refine ⟨?_, by omega⟩
      cases level <;>
        simp only [pteMappedSize, ptLevelShift, PGSHIFT, PtLevel.toNat, PT_BITS_PER_LEVEL, PGSIZE] at * <;> omega

/-- Where the first byte of a 4K page resolves, the others do, to the bytes behind it. -/
theorem ptResolve_add {k : Nat} (halign : va % PGSIZE = 0) (hk : k < PGSIZE) (hne : ptResolve s va ≠ 0) :
    ptResolve s (va + k) = ptResolve s va + k := by
  have hpath : ptPath (va + k) = ptPath va := by
    rw [ptPath_eq_iff]
    simp only [PGSIZE] at *
    omega
  cases hentry : s.entry va with
  | none => exact absurd (ptResolve_of_entry_none hentry) hne
  | some entry =>
      obtain ⟨level, word⟩ := entry
      have hframe : ptEntryPage word level ≠ 0 := fun hzero => hne (ptResolve_of_frame_zero hentry hzero)
      have hoffset : (va + k) % pteMappedSize level = va % pteMappedSize level + k := by
        cases level <;> simp only [pteMappedSize, ptLevelShift, PGSHIFT, PtLevel.toNat, PT_BITS_PER_LEVEL, PGSIZE] at * <;>
          omega
      rw [ptResolve_of_entry ((entry_of_path s hpath).trans hentry) hframe, ptResolve_of_entry hentry hframe, hoffset,
        Nat.add_assoc]

end Dangless
