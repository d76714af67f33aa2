import Dangless.DumpMappings
import Dangless.VirtmemPages

/-! The addresses that the scan of `dump_mappings` visits. The step is the size of the last page that was seen, so the
addresses stay aligned to it; and a scan that comes to the end of the 64-bit addresses starts again at 0, for ever. -/

namespace Dangless

variable {s : PtState} {st st' r : DumpState} {level level' : PtLevel} {a b va vaEnd word fuel : Nat}

theorem size_dvd_of_le (h : pteMappedSize level ≤ pteMappedSize level') :
    pteMappedSize level ∣ pteMappedSize level' :=
  Nat.pow_dvd_pow 2 ((Nat.pow_le_pow_iff_right (by decide)).mp h)

theorem size_dvd_width (level : PtLevel) : pteMappedSize level ∣ 2 ^ 64 := by
  refine Nat.pow_dvd_pow 2 ?_
  cases level <;> decide

/-- The next multiple is a page away. -/
theorem add_le_of_dvd {z x y : Nat} (hx : z ∣ x) (hy : z ∣ y) (hlt : x < y) : x + z ≤ y := by
  have hle := Nat.le_of_dvd (by omega) (Nat.dvd_sub hy hx)
  omega

theorem div_eq_of_page {z : Nat} (hva : z ∣ va) (hlo : va ≤ b) (hhi : b < va + z) : b / z = va / z := by
  obtain ⟨k, rfl⟩ := hva
  have hz : 0 < z := by omega
  rw [Nat.mul_div_cancel_left k hz]
  refine Nat.div_eq_of_lt_le ?_ ?_ <;> rw [Nat.mul_comm]
  · exact hlo
  · rw [Nat.mul_succ]
    exact hhi

/-- The addresses of the page that begins at `va`. -/
theorem entry_in_page (h : s.entry va = some (level, word)) (hva : pteMappedSize level ∣ va) (hlo : va ≤ b)
    (hhi : b < va + pteMappedSize level) : s.entry b = some (level, word) :=
  entry_of_page h (div_eq_of_page hva hlo hhi)

/-- The first address of the page of an address. -/
theorem exists_pageStart (h : s.entry va = some (level, word)) : ∃ base, pteMappedSize level ∣ base ∧ base ≤ va ∧
    va < base + pteMappedSize level ∧ s.entry base = some (level, word) := by
  have hmod := Nat.div_add_mod va (pteMappedSize level)
  have hlt := Nat.mod_lt va (pteMappedSize_pos level)
  rw [Nat.mul_comm] at hmod
  refine ⟨va / pteMappedSize level * pteMappedSize level, Nat.dvd_mul_left _ _, by omega, by omega, ?_⟩
  exact entry_of_page h (Nat.mul_div_cancel _ (pteMappedSize_pos level))

theorem ptResolvePageOut_of_none (h : s.entry va = none) (pageLevel : Option PtLevel) :
    ptResolvePageOut s va pageLevel = some (0, pageLevel) := by
  unfold ptResolvePageOut
  dsimp only
  rw [PtState.entry_eq_none.mp h]
  rfl

theorem ptResolvePageOut_of_entry (h : s.entry va = some (level, word)) (pageLevel : Option PtLevel) :
    ptResolvePageOut s va pageLevel = if level = .l4 then none else some (ptEntryPage word level, some level) := by
  obtain ⟨rfl, rfl, hv⟩ := PtState.entry_eq_some.mp h
  unfold ptResolvePageOut
  dsimp only
  rw [hv]
  cases (ptWalk s va .l1).1 <;> rfl

/-- The branches neither read nor write these variables. -/
theorem dumpMapped_with (level : PtLevel) (pa : Nat) (st : DumpState) (seen : Option PtLevel) (resolved : List Nat) :
    dumpMapped level pa { st with level := seen, resolved := resolved } =
      { dumpMapped level pa st with va := st.va, level := seen, resolved := resolved } := by
  simp only [dumpMapped, DumpState.endUnmapped, DumpState.begin, DumpState.endIdentity, DumpState.print]
  split_ifs <;> rfl

theorem dumpUnmapped_with (st : DumpState) (seen : Option PtLevel) (resolved : List Nat) :
    dumpUnmapped { st with level := seen, resolved := resolved } =
      { dumpUnmapped st with va := st.va, level := seen, resolved := resolved } := by
  simp only [dumpUnmapped, DumpState.endMapped, DumpState.begin, DumpState.print]
  split_ifs <;> rfl

/-- What a turn leaves: of the printing branch `printed`, the region that is open, and what has been printed. -/
def DumpState.after (st printed : DumpState) (level : PtLevel) : DumpState :=
  { printed with
    va := u64 (st.va + pteMappedSize level)
    level := some level
    resolved := st.resolved ++ [st.va] }

/-- A mapped page, whose frame is not 0. -/
theorem dumpTurn_mapped (h : s.entry st.va = some (level, word)) (hframe : ptEntryPage word level ≠ 0) :
    dumpTurn s st = .ok (st.after (dumpMapped level (ptEntryPage word level) st) level) := by
  have hlevel : level ≠ .l4 := by
    rintro rfl
    exact hframe rfl
  unfold dumpTurn
  rw [ptResolvePageOut_of_entry h, if_neg hlevel]
  dsimp only
  rw [if_pos hframe, Nat.one_shiftLeft, dumpMapped_with]
  rfl

theorem dumpTurn_unmapped (h : s.entry st.va = none) (hlevel : st.level = some level) :
    dumpTurn s st = .ok (st.after (dumpUnmapped st) level) := by
  unfold dumpTurn
  rw [ptResolvePageOut_of_none h, hlevel]
  dsimp only
  rw [if_neg (by simp), Nat.one_shiftLeft, dumpUnmapped_with]
  rfl

theorem dumpTurn_uninitialised (h : s.entry st.va = none) (hlevel : st.level = none) :
    dumpTurn s st = .error .uninitialised := by
  unfold dumpTurn
  rw [ptResolvePageOut_of_none h, hlevel]

/-- The level of the page at `va`, or else that of the page that was seen last. -/
def SeenLevel (s : PtState) (st : DumpState) (level : PtLevel) : Prop :=
  (∃ word, s.entry st.va = some (level, word)) ∨ (s.entry st.va = none ∧ st.level = some level)

/-- The two branches of a turn. -/
theorem dumpTurn_branch (h : dumpTurn s st = .ok st') : ∃ level pa, SeenLevel s st level ∧
    st' = st.after (if pa ≠ 0 then dumpMapped level pa st else dumpUnmapped st) level := by
  cases hentry : s.entry st.va with
  | none =>
      cases hlevel : st.level with
      | none =>
          rw [dumpTurn_uninitialised hentry hlevel] at h
          nomatch h
      | some level =>
          rw [dumpTurn_unmapped hentry hlevel] at h
          refine ⟨level, 0, Or.inr ⟨hentry, hlevel⟩, ?_⟩
          rw [← Except.ok.inj h, if_neg (by simp)]
  | some entry =>
      obtain ⟨level, word⟩ := entry
      refine ⟨level, ptEntryPage word level, Or.inl ⟨word, hentry⟩, ?_⟩
      unfold dumpTurn at h
      rw [ptResolvePageOut_of_entry hentry] at h
      split_ifs at h with hlevel
      dsimp only at h
      rw [← Except.ok.inj h, Nat.one_shiftLeft, dumpMapped_with, dumpUnmapped_with]
      split_ifs <;> rfl

/-- What a turn does, whatever it prints. -/
theorem dumpTurn_ok (h : dumpTurn s st = .ok st') : ∃ level, SeenLevel s st level ∧ st'.level = some level ∧
    st'.va = u64 (st.va + pteMappedSize level) ∧ st'.resolved = st.resolved ++ [st.va] := by
  obtain ⟨level, pa, hseen, rfl⟩ := dumpTurn_branch h
  exact ⟨level, hseen, rfl, rfl, rfl⟩

/-- The invariant rule. -/
theorem dumpLoop_invariant {I : DumpState → Prop}
    (hstep : ∀ st st', I st → st.va < vaEnd → dumpTurn s st = .ok st' → I st')
    (h : dumpLoop s vaEnd fuel st = .ok r) (hst : I st) :
    ∃ last, I last ∧ vaEnd ≤ last.va ∧ r = dumpFinal vaEnd last := by
  induction fuel generalizing st with
  | zero => nomatch h
  | succ fuel ih =>
      unfold dumpLoop at h
      split_ifs at h with hlt
      · cases hturn : dumpTurn s st with
        | error e =>
            rw [hturn] at h
            nomatch h
        | ok st' =>
            rw [hturn] at h
            exact ih h (hstep st st' hst hlt hturn)
      · exact ⟨st, hst, Nat.le_of_not_lt hlt, (Except.ok.inj h).symm⟩

/-- The scan has come from `p`, where no page lies across, to `st.va` in steps of a page of `level`, and has found
nothing. -/
structure Scan (s : PtState) (st : DumpState) (level : PtLevel) (p : Nat) : Prop where
  seen : st.level = some level
  start : pteMappedSize level ∣ p
  here : pteMappedSize level ∣ st.va
  le : p ≤ st.va
  hole : ∀ b, p ≤ b → b < st.va → pteMappedSize level ∣ b → s.entry b = none
  boundary : ∀ level' word, s.entry p = some (level', word) → pteMappedSize level' ∣ p

variable {p : Nat}

theorem Scan.zero (hlevel : st.level = some level) (hva : st.va = 0) : Scan s st level 0 where
  seen := hlevel
  start := Nat.dvd_zero _
  here := by
    rw [hva]
    exact Nat.dvd_zero _
  le := Nat.zero_le _
  hole b _ hlt _ := absurd hlt (by omega)
  boundary _ _ _ := Nat.dvd_zero _

/-- No page lies across the end of a page. -/
theorem boundary_of_page (h : s.entry a = some (level, word)) (ha : pteMappedSize level ∣ a) {word' : Nat}
    (hp : s.entry (a + pteMappedSize level) = some (level', word')) :
    pteMappedSize level' ∣ a + pteMappedSize level := by
  have hend : pteMappedSize level ∣ a + pteMappedSize level := Nat.dvd_add_self_right.mpr ha
  rcases Nat.le_total (pteMappedSize level') (pteMappedSize level) with hle | hle
  · exact (size_dvd_of_le hle).trans hend
  · obtain ⟨base, hbase, hbaseLe, hbaseEnd, hbaseEntry⟩ := exists_pageStart hp
    rcases Nat.eq_or_lt_of_le hbaseLe with heq | hlt
    · rw [← heq]
      exact hbase
    · -- a larger page that begins before the end contains `a`
      have hstep := add_le_of_dvd ((size_dvd_of_le hle).trans hbase) hend hlt
      have hentry := entry_in_page hbaseEntry hbase (by omega : base ≤ a) (by omega)
      rw [h] at hentry
      obtain ⟨rfl, -⟩ := Prod.mk.inj (Option.some.inj hentry)
      exact hend

/-- A scan meets a page at its first address. -/
theorem Scan.aligned (h : Scan s st level p) (hentry : s.entry st.va = some (level', word)) :
    pteMappedSize level' ∣ st.va := by
  rcases Nat.le_total (pteMappedSize level') (pteMappedSize level) with hle | hle
  · exact (size_dvd_of_le hle).trans h.here
  · obtain ⟨base, hbase, hbaseLe, hbaseEnd, hbaseEntry⟩ := exists_pageStart hentry
    rcases Nat.lt_or_ge base p with hbefore | hbehind
    · -- it would lie across `p`
      have hp := h.le
      have hpEntry := entry_in_page hbaseEntry hbase hbefore.le (by omega)
      have hstep := add_le_of_dvd hbase (h.boundary _ _ hpEntry) hbefore
      omega
    · rcases Nat.eq_or_lt_of_le hbaseLe with heq | hlt
      · rw [← heq]
        exact hbase
      · have hnone := h.hole base hbehind hlt ((size_dvd_of_le hle).trans hbase)
        rw [hnone] at hbaseEntry
        nomatch hbaseEntry

theorem Scan.seen_dvd (h : Scan s st level p) (hseen : SeenLevel s st level') : pteMappedSize level' ∣ st.va := by
  rcases hseen with ⟨word, hentry⟩ | ⟨-, hlevel⟩
  · exact h.aligned hentry
  · rw [h.seen] at hlevel
    obtain rfl := Option.some.inj hlevel
    exact h.here

theorem Scan.le_width (h : Scan s st level p) (hseen : SeenLevel s st level') (hva : st.va < 2 ^ 64) :
    st.va + pteMappedSize level' ≤ 2 ^ 64 :=
  add_le_of_dvd (h.seen_dvd hseen) (size_dvd_width level') hva

/-- Behind a page the scan goes on from its end. -/
theorem Scan.of_page (hentry : s.entry a = some (level, word)) (ha : pteMappedSize level ∣ a)
    (hlevel : st.level = some level) (hva : st.va = a + pteMappedSize level) :
    Scan s st level (a + pteMappedSize level) where
  seen := hlevel
  start := Nat.dvd_add_self_right.mpr ha
  here := by
    rw [hva]
    exact Nat.dvd_add_self_right.mpr ha
  le := hva.ge
  hole b hlo hhi _ := absurd hhi (by omega)
  boundary _ _ hp := boundary_of_page hentry ha hp

/-- In a hole the scan goes on. -/
theorem Scan.of_hole (h : Scan s st level p) (hnone : s.entry st.va = none) (hlevel : st'.level = some level)
    (hva : st'.va = st.va + pteMappedSize level) : Scan s st' level p where
  seen := hlevel
  start := h.start
  here := by
    rw [hva]
    exact Nat.dvd_add_self_right.mpr h.here
  le := by
    rw [hva]
    exact h.le.trans (Nat.le_add_right _ _)
  hole b hlo hhi hdvd := by
    rcases Nat.lt_trichotomy b st.va with hlt | heq | hgt
    · exact h.hole b hlo hlt hdvd
    · rw [heq]
      exact hnone
    · have hstep := add_le_of_dvd h.here hdvd hgt
      omega
  boundary := h.boundary

theorem Scan.turn (h : Scan s st level p) (hva : st.va < 2 ^ 64) (hturn : dumpTurn s st = .ok st') :
    ∃ level', SeenLevel s st level' ∧ (∃ p', Scan s st' level' p') ∧
      ((st.va + pteMappedSize level' < 2 ^ 64 ∧ st'.va = st.va + pteMappedSize level') ∨
        (st.va + pteMappedSize level' = 2 ^ 64 ∧ st'.va = 0)) := by
  obtain ⟨level', hseen, hlevel', hva', -⟩ := dumpTurn_ok hturn
  refine ⟨level', hseen, ?_⟩
  rcases Nat.eq_or_lt_of_le (h.le_width hseen hva) with heq | hlt
  · rw [heq] at hva'
    exact ⟨⟨0, Scan.zero hlevel' hva'⟩, Or.inr ⟨heq, hva'⟩⟩
  · rw [u64_of_lt hlt] at hva'
    refine ⟨?_, Or.inl ⟨hlt, hva'⟩⟩
    rcases hseen with ⟨word, hentry⟩ | ⟨hnone, hlevel⟩
    · exact ⟨_, Scan.of_page hentry (h.aligned hentry) hlevel' hva'⟩
    · rw [h.seen] at hlevel
      obtain rfl := Option.some.inj hlevel
      exact ⟨p, h.of_hole hnone hlevel' hva'⟩

/-- A page, and nothing from its end to the end of all addresses, in steps of its size. -/
structure LastPage (s : PtState) (level : PtLevel) (a : Nat) : Prop where
  entry : ∃ word, s.entry a = some (level, word)
  dvd : pteMappedSize level ∣ a
  lt : a < 2 ^ 64
  hole : ∀ b, a < b → b < 2 ^ 64 → pteMappedSize level ∣ b → s.entry b = none

/-- The scan is at the last place or before it; and behind the last page its step is not shorter than that page. -/
def Trapped (s : PtState) (level : PtLevel) (a : Nat) (st : DumpState) : Prop :=
  st.va + pteMappedSize level ≤ 2 ^ 64 ∧
    ∃ level' p, Scan s st level' p ∧ (a < st.va → pteMappedSize level ≤ pteMappedSize level')

/-- A step does not pass the last page, or it is as long as that page. -/
theorem Scan.step_last (hlast : LastPage s level a) (h : Scan s st level' p) (hva : st.va < 2 ^ 64)
    (hbehind : a < st.va → pteMappedSize level ≤ pteMappedSize level') {seen : PtLevel}
    (hseen : SeenLevel s st seen) :
    pteMappedSize level ≤ pteMappedSize seen ∨ st.va + pteMappedSize seen ≤ a := by
  rcases Nat.lt_trichotomy st.va a with hlt | heq | hgt
  · rcases Nat.le_total (pteMappedSize level) (pteMappedSize seen) with hle | hle
    · exact Or.inl hle
    · exact Or.inr (add_le_of_dvd (h.seen_dvd hseen) ((size_dvd_of_le hle).trans hlast.dvd) hlt)
  · obtain ⟨word, hentry⟩ := hlast.entry
    rw [← heq] at hentry
    rcases hseen with ⟨word', hentry'⟩ | ⟨hnone, -⟩
    · rw [hentry] at hentry'
      obtain ⟨rfl, -⟩ := Prod.mk.inj (Option.some.inj hentry')
      exact Or.inl (le_refl _)
    · rw [hentry] at hnone
      nomatch hnone
  · have hle := hbehind hgt
    have hnone := hlast.hole st.va hgt hva ((size_dvd_of_le hle).trans h.here)
    rcases hseen with ⟨word', hentry'⟩ | ⟨-, hlevel⟩
    · rw [hnone] at hentry'
      nomatch hentry'
    · rw [h.seen] at hlevel
      obtain rfl := Option.some.inj hlevel
      exact Or.inl hle

theorem Trapped.turn (hlast : LastPage s level a) (h : Trapped s level a st) (hturn : dumpTurn s st = .ok st') :
    Trapped s level a st' := by
  obtain ⟨hle, level', p, hscan, hbehind⟩ := h
  have hpos := pteMappedSize_pos level
  have hva : st.va < 2 ^ 64 := by omega
  obtain ⟨seen, hseen, ⟨p', hscan'⟩, ⟨hlt, hva'⟩ | ⟨-, hva'⟩⟩ := hscan.turn hva hturn
  · rcases hscan.step_last hlast hva hbehind hseen with hsize | hbefore
    · have hdvd := (size_dvd_of_le hsize).trans hscan'.here
      exact ⟨add_le_of_dvd hdvd (size_dvd_width level) (by omega), seen, p', hscan', fun _ => hsize⟩
    · have hfit := add_le_of_dvd hlast.dvd (size_dvd_width level) hlast.lt
      exact ⟨by omega, seen, p', hscan', fun hgt => absurd hgt (by omega)⟩
  · have hfit := add_le_of_dvd (Nat.dvd_zero _) (size_dvd_width level) (by decide)
    exact ⟨by omega, seen, p', hscan', fun hgt => absurd hgt (by omega)⟩

/-- A scan that starts again at 0. -/
theorem trapped_zero (hlevel : st.level = some level') (hva : st.va = 0) : Trapped s level a st := by
  have hsize := Nat.le_of_dvd (by decide) (size_dvd_width level)
  refine ⟨?_, level', 0, Scan.zero hlevel hva, fun hgt => absurd hgt ?_⟩ <;> rw [hva]
  · rw [Nat.zero_add]
    exact hsize
  · exact Nat.not_lt_zero _

/-- A scan for which the last place lies in the range does not end. -/
theorem Trapped.never (hlast : LastPage s level a) (hend : 2 ^ 64 < vaEnd + pteMappedSize level)
    (h : Trapped s level a st) : dumpLoop s vaEnd fuel st ≠ .ok r := by
  intro hok
  obtain ⟨last, htrapped, hle, -⟩ :=
    dumpLoop_invariant (fun st st' h _ hturn => Trapped.turn hlast h hturn) hok h
  have hplace := htrapped.1
  omega

/-- The scan has seen a page last at `a`, and nothing behind it. -/
structure Seen (s : PtState) (st : DumpState) (level : PtLevel) (a : Nat) : Prop where
  entry : ∃ word, s.entry a = some (level, word)
  dvd : pteMappedSize level ∣ a
  scan : Scan s st level (a + pteMappedSize level)

/-- The next page that has been seen last. -/
def SeenNext (s : PtState) (st : DumpState) (level : PtLevel) (a : Nat) (level' : PtLevel) (a' : Nat) : Prop :=
  ((∃ word, s.entry st.va = some (level', word)) ∧ a' = st.va) ∨
    (s.entry st.va = none ∧ level' = level ∧ a' = a)

/-- A page that ends where all addresses end. -/
theorem lastPage_of_end (hentry : s.entry a = some (level, word)) (ha : pteMappedSize level ∣ a)
    (hend : a + pteMappedSize level = 2 ^ 64) : LastPage s level a := by
  have hpos := pteMappedSize_pos level
  refine ⟨⟨word, hentry⟩, ha, by omega, fun b hlt hwidth hb => ?_⟩
  have hstep := add_le_of_dvd ha hb hlt
  omega

/-- A page that ends where all addresses end, or behind which nothing is found from there to that end. -/
theorem Seen.lastPage (h : Seen s st level a) (hva : st.va < 2 ^ 64) {level' : PtLevel} {a' : Nat}
    (hnext : SeenNext s st level a level' a') (hend : st.va + pteMappedSize level' = 2 ^ 64) :
    LastPage s level' a' := by
  rcases hnext with ⟨⟨word, hentry⟩, rfl⟩ | ⟨hnone, rfl, rfl⟩
  · exact lastPage_of_end hentry (h.scan.aligned hentry) hend
  · have hle := h.scan.le
    refine ⟨h.entry, h.dvd, by omega, fun b hlt hwidth hb => ?_⟩
    have hbehind := add_le_of_dvd h.dvd hb hlt
    rcases Nat.lt_trichotomy b st.va with hbefore | heq | hafter
    · exact h.scan.hole b hbehind hbefore hb
    · rw [heq]
      exact hnone
    · have hstep := add_le_of_dvd h.scan.here hb hafter
      omega

theorem Seen.next (h : Seen s st level a) {level' : PtLevel} {a' : Nat} (hnext : SeenNext s st level a level' a')
    (hlevel : st'.level = some level') (hva : st'.va = st.va + pteMappedSize level') : Seen s st' level' a' := by
  rcases hnext with ⟨⟨word, hentry⟩, rfl⟩ | ⟨hnone, rfl, rfl⟩
  · have hdvd := h.scan.aligned hentry
    exact ⟨⟨word, hentry⟩, hdvd, Scan.of_page hentry hdvd hlevel hva⟩
  · exact ⟨h.entry, h.dvd, h.scan.of_hole hnone hlevel hva⟩

/-- A turn of a scan that ends goes upwards. -/
theorem Seen.turn (h : Seen s st level a) (hlt : st.va < vaEnd) (hend : vaEnd < 2 ^ 64)
    (hturn : dumpTurn s st = .ok st') (hok : dumpLoop s vaEnd fuel st' = .ok r) :
    ∃ level' a', SeenNext s st level a level' a' ∧ st.va + pteMappedSize level' < 2 ^ 64 ∧
      st'.level = some level' ∧ st'.va = st.va + pteMappedSize level' := by
  have hva : st.va < 2 ^ 64 := by omega
  obtain ⟨level', hseen, hlevel', hva', -⟩ := dumpTurn_ok hturn
  obtain ⟨a', hnext⟩ : ∃ a', SeenNext s st level a level' a' := by
    rcases hseen with hentry | ⟨hnone, hlevel⟩
    · exact ⟨st.va, Or.inl ⟨hentry, rfl⟩⟩
    · rw [h.scan.seen] at hlevel
      exact ⟨a, Or.inr ⟨hnone, (Option.some.inj hlevel).symm, rfl⟩⟩
  rcases Nat.eq_or_lt_of_le (h.scan.le_width hseen hva) with heq | hfit
  · have hzero : st'.va = 0 := by
      rw [hva', heq]
      rfl
    exact absurd hok ((trapped_zero hlevel' hzero).never (h.lastPage hva hnext heq) (by omega))
  · rw [u64_of_lt hfit] at hva'
    exact ⟨level', a', hnext, hfit, hlevel', hva'⟩

/-- The run of a scan that ends. -/
inductive Ascends (s : PtState) (vaEnd : Nat) : DumpState → DumpState → Prop
  | done {st : DumpState} : vaEnd ≤ st.va → Ascends s vaEnd st (dumpFinal vaEnd st)
  | turn {st st' r : DumpState} {level level' : PtLevel} {a a' : Nat} : Seen s st level a → st.va < vaEnd →
      dumpTurn s st = .ok st' → SeenNext s st level a level' a' → st.va + pteMappedSize level' < 2 ^ 64 →
      st'.level = some level' → st'.va = st.va + pteMappedSize level' → Ascends s vaEnd st' r → Ascends s vaEnd st r

theorem Seen.ascends (h : Seen s st level a) (hend : vaEnd < 2 ^ 64) (hok : dumpLoop s vaEnd fuel st = .ok r) :
    Ascends s vaEnd st r := by
  induction fuel generalizing st level a with
  | zero => nomatch hok
  | succ fuel ih =>
      unfold dumpLoop at hok
      split_ifs at hok with hlt
      · cases hturn : dumpTurn s st with
        | error e =>
            rw [hturn] at hok
            nomatch hok
        | ok st' =>
            rw [hturn] at hok
            obtain ⟨level', a', hnext, hfit, hlevel, hva⟩ := h.turn hlt hend hturn hok
            exact Ascends.turn h hlt hturn hnext hfit hlevel hva (ih (h.next hnext hlevel hva) hok)
      · rw [← Except.ok.inj hok]
        exact Ascends.done (Nat.le_of_not_lt hlt)

end Dangless
