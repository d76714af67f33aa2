import Dangless.DumpMappingsSpec

/-! `dump_mappings` is right exactly on the ranges that are `Dumpable`: a turn keeps a scan right, or prints a line that
is wrong or opens a region that will be, and such a line stays. -/

namespace Dangless

variable {s : PtState} {st st' r : DumpState} {level level' : PtLevel} {vaStart vaEnd a b v fuel word : Nat}

/-- The region that is open. -/
inductive Pending (s : PtState) (vaStart vaEnd : Nat) (st : DumpState) : Prop
  | initial (hmapped : st.mapped = false) (hidentity : st.identity = false) (hstart : st.start = 0)
      (hva : st.va = vaStart)
  | unmapped (hmapped : st.mapped = false) (hidentity : st.identity = false) (hstart : st.start ≠ 0)
      (hregion : ∀ a, st.start ≤ a → a < st.va → a < vaEnd → s.entry a = none)
  | identity (hmapped : st.mapped = true) (hidentity : st.identity = true) (hstart : st.start ≠ 0)
      (hregion : ∀ a, st.start ≤ a → a < st.va → ptResolve s a = a)
  | other (hmapped : st.mapped = true) (hidentity : st.identity = false)
      (hregion : st.start ≠ 0 → ∃ a, st.start ≤ a ∧ a < st.va ∧ a < vaEnd ∧ NonIdentity s a)

/-- A region is open that begins with pages which are not identity-mapped. -/
def Stuck (st : DumpState) : Prop := st.mapped = true ∧ st.identity = false ∧ st.start ≠ 0

/-- The scan is right up to `st.va`: its lines are, and every page before is reported or in the region that is open. -/
structure RightSoFar (s : PtState) (vaStart vaEnd : Nat) (st : DumpState) : Prop where
  start_le : st.start ≤ st.va
  before : ∀ va ∈ st.resolved, va < st.va
  right : ∀ line ∈ st.out, line.Right s
  examined : ∀ a level word, vaStart ≤ a → a < st.va → a < vaEnd → s.entry a = some (level, word) →
    ∃ va ∈ st.resolved, va / pteMappedSize level = a / pteMappedSize level
  reported : ∀ a level word, vaStart ≤ a → a < st.va → a < vaEnd → s.entry a = some (level, word) →
    (∃ line ∈ st.out, a ∈ line.identityRegion) ∨ HasLine st.out a level word ∨
      (st.mapped = true ∧ st.identity = true ∧ st.start ≤ a)
  pending : Pending s vaStart vaEnd st

theorem RightSoFar.stuck (h : RightSoFar s vaStart vaEnd st) (hstuck : Stuck st) :
    ∃ a, st.start ≤ a ∧ a < st.va ∧ a < vaEnd ∧ NonIdentity s a := by
  obtain ⟨hmapped, hidentity, hstart⟩ := hstuck
  rcases h.pending with ⟨hflag, -, -, -⟩ | ⟨hflag, -, -, -⟩ | ⟨-, hflag, -, -⟩ | ⟨-, -, hregion⟩
  · exact absurd (hflag.symm.trans hmapped) Bool.false_ne_true
  · exact absurd (hflag.symm.trans hmapped) Bool.false_ne_true
  · exact absurd (hidentity.symm.trans hflag) Bool.false_ne_true
  · exact hregion hstart

/-- A turn that prints right lines, closes an identity-mapped region or goes on with it, and reports the page at
`st.va`, where there is one. -/
theorem RightSoFar.step {new : List DumpLine} {size : Nat} (h : RightSoFar s vaStart vaEnd st) (hsize : 0 < size)
    (hva : st'.va = st.va + size) (hresolved : st'.resolved = st.resolved ++ [st.va]) (hstart : st'.start ≤ st.va)
    (hout : st'.out = st.out ++ new) (hnew : ∀ line ∈ new, line.Right s)
    (hopen : st.mapped = true → st.identity = true →
      (st'.mapped = true ∧ st'.identity = true ∧ st'.start = st.start) ∨ .identity st.start st.va ∈ new)
    (hpage : ∀ a level word, st.va ≤ a → a < st.va + size → a < vaEnd → s.entry a = some (level, word) →
      st.va / pteMappedSize level = a / pteMappedSize level ∧
        (HasLine new a level word ∨ (st'.mapped = true ∧ st'.identity = true)))
    (hpending : Pending s vaStart vaEnd st') : RightSoFar s vaStart vaEnd st' where
  start_le := by omega
  before va hmem := by
    rw [hresolved] at hmem
    rcases List.mem_append.mp hmem with hold | hnow
    · have hlt := h.before va hold
      omega
    · have heq := List.mem_singleton.mp hnow
      omega
  right line hline := by
    rw [hout] at hline
    rcases List.mem_append.mp hline with hold | hline
    · exact h.right line hold
    · exact hnew line hline
  examined a level word hlo hhi hend hentry := by
    rw [hresolved]
    rcases Nat.lt_or_ge a st.va with hbefore | hhere
    · obtain ⟨va, hmem, hsame⟩ := h.examined a level word hlo hbefore hend hentry
      exact ⟨va, List.mem_append_left _ hmem, hsame⟩
    · have hsame := (hpage a level word hhere (by omega) hend hentry).1
      exact ⟨st.va, List.mem_append_right _ (List.mem_singleton.mpr rfl), hsame⟩
  reported a level word hlo hhi hend hentry := by
    rw [hout]
    rcases Nat.lt_or_ge a st.va with hbefore | hhere
    · rcases h.reported a level word hlo hbefore hend hentry with ⟨line, hline, hin⟩ | hline | ⟨hmapped, hidentity, hle⟩
      · exact Or.inl ⟨line, List.mem_append_left _ hline, hin⟩
      · exact Or.inr (Or.inl (List.mem_append_left _ hline))
      · rcases hopen hmapped hidentity with ⟨hmapped', hidentity', hsame⟩ | hclosed
        · exact Or.inr (Or.inr ⟨hmapped', hidentity', hsame ▸ hle⟩)
        · exact Or.inl ⟨_, List.mem_append_right _ hclosed, hle, hbefore⟩
    · rcases (hpage a level word hhere (by omega) hend hentry).2 with hline | ⟨hmapped, hidentity⟩
      · exact Or.inr (Or.inl (List.mem_append_right _ hline))
      · exact Or.inr (Or.inr ⟨hmapped, hidentity, hstart.trans hhere⟩)
  pending := hpending

theorem right_unmapped {x y : Nat} (h : ∀ a, x ≤ a → a < y → s.entry a = none) :
    DumpLine.Right s (.unmapped x y) ∧ DumpLine.Right s (.finalUnmapped x y) := by
  constructor <;>
    exact ⟨fun a ha => h a ha.1 ha.2, fun _ ha => absurd ha (Set.notMem_empty _), fun _ _ _ heq => nomatch heq⟩

theorem right_identity {x y : Nat} (h : ∀ a, x ≤ a → a < y → ptResolve s a = a) :
    DumpLine.Right s (.identity x y) ∧ DumpLine.Right s (.finalIdentity x y) := by
  constructor <;>
    exact ⟨fun _ ha => absurd ha (Set.notMem_empty _), fun a ha => h a ha.1 ha.2, fun _ _ _ heq => nomatch heq⟩

/-- The addresses of a page resolve in their order. -/
theorem page_resolve (h : s.entry a = some (level, word)) (ha : pteMappedSize level ∣ a)
    (hframe : ptEntryPage word level ≠ 0) (hlo : a ≤ b) (hhi : b < a + pteMappedSize level) :
    ptResolve s b = ptEntryPage word level + (b - a) := by
  have hoffset : b % pteMappedSize level = b - a := by
    obtain ⟨k, rfl⟩ := ha
    have hb : b = (b - pteMappedSize level * k) + pteMappedSize level * k := by omega
    rw [hb, Nat.add_mul_mod_self_left, Nat.mod_eq_of_lt (by omega)]
    omega
  rw [ptResolve_of_entry (entry_in_page h ha hlo hhi) hframe, hoffset]

theorem page_other (h : s.entry a = some (level, word)) (ha : pteMappedSize level ∣ a)
    (hframe : ptEntryPage word level ≠ 0) (hlo : a ≤ b) (hhi : b < a + pteMappedSize level) :
    NonIdentity s b ↔ ptEntryPage word level ≠ a := by
  have hresolve := page_resolve h ha hframe hlo hhi
  constructor
  · intro hother heq
    refine hother.2 ?_
    omega
  · intro hne
    refine ⟨?_, by omega⟩
    rw [entry_in_page h ha hlo hhi]
    exact Option.some_ne_none _

theorem right_nonIdentity (h : s.entry a = some (level, word)) (ha : pteMappedSize level ∣ a)
    (hframe : ptEntryPage word level ≠ 0) (hne : ptEntryPage word level ≠ a) :
    DumpLine.Right s (.nonIdentity level a (ptEntryPage word level)) := by
  refine ⟨fun _ ha => absurd ha (Set.notMem_empty _), fun _ ha => absurd ha (Set.notMem_empty _), ?_⟩
  rintro _ _ _ ⟨⟩
  have hresolve := page_resolve h ha hframe (le_refl a) (Nat.lt_add_of_pos_right (pteMappedSize_pos level))
  exact ⟨⟨word, h⟩, by omega, hne⟩

theorem hasLine_of_page {new : List DumpLine} (ha : pteMappedSize level ∣ a) (hlo : a ≤ b)
    (hhi : b < a + pteMappedSize level) (hmem : .nonIdentity level a (ptEntryPage word level) ∈ new) :
    HasLine new b level word := by
  unfold HasLine
  rw [div_eq_of_page ha hlo hhi, Nat.div_mul_cancel ha]
  exact hmem

/-- What a turn on a mapped page leaves open. -/
theorem RightSoFar.mapped_open (h : RightSoFar s vaStart vaEnd st) (pa : Nat) :
    (dumpMapped level pa st).mapped = true ∧ (dumpMapped level pa st).identity = decide (pa = st.va) ∧
      ((dumpMapped level pa st).start = 0 ↔ st.va = 0) ∧ (dumpMapped level pa st).start ≤ st.va := by
  have hle := h.start_le
  rcases h.pending with ⟨hmapped, hidentity, -, -⟩ | ⟨hmapped, hidentity, -, -⟩ | ⟨hmapped, hidentity, hstart, -⟩ |
    ⟨hmapped, hidentity, -⟩
  · rw [dumpMapped_begin level pa hmapped hidentity]
    exact ⟨rfl, rfl, Iff.rfl, le_refl _⟩
  · rw [dumpMapped_begin level pa hmapped hidentity]
    exact ⟨rfl, rfl, Iff.rfl, le_refl _⟩
  · rw [dumpMapped_identity level pa hmapped hidentity hstart]
    refine ⟨hmapped, rfl, ?_, hle⟩
    dsimp only
    omega
  · rw [dumpMapped_other level pa hmapped hidentity]
    dsimp only
    refine ⟨hmapped, rfl, ?_, ?_⟩ <;> split_ifs <;> omega

/-- The page at `st.va`, which the next turn looks at. -/
structure NextPage (s : PtState) (vaEnd : Nat) (st : DumpState) (level : PtLevel) (word : Nat) : Prop where
  lt : st.va < vaEnd
  entry : s.entry st.va = some (level, word)
  dvd : pteMappedSize level ∣ st.va
  frame : ptEntryPage word level ≠ 0
  fit : st.va + pteMappedSize level < 2 ^ 64

theorem NextPage.va (hp : NextPage s vaEnd st level word) (printed : DumpState) :
    (st.after printed level).va = st.va + pteMappedSize level := u64_of_lt hp.fit

/-- The page is reported, or in the region that is open. -/
theorem RightSoFar.mapped_reports {new : List DumpLine} (h : RightSoFar s vaStart vaEnd st)
    (hp : NextPage s vaEnd st level word) (hnew : ptEntryPage word level ≠ st.va →
      .nonIdentity level st.va (ptEntryPage word level) ∈ new) (a : Nat) (level' : PtLevel) (word' : Nat)
    (hlo : st.va ≤ a) (hhi : a < st.va + pteMappedSize level) (hentry : s.entry a = some (level', word')) :
    st.va / pteMappedSize level' = a / pteMappedSize level' ∧ (HasLine new a level' word' ∨
      ((st.after (dumpMapped level (ptEntryPage word level) st) level).mapped = true ∧
        (st.after (dumpMapped level (ptEntryPage word level) st) level).identity = true)) := by
  obtain ⟨hmapped, hidentity, -⟩ := @RightSoFar.mapped_open _ _ level _ _ h (ptEntryPage word level)
  rw [entry_in_page hp.entry hp.dvd hlo hhi] at hentry
  obtain ⟨rfl, rfl⟩ := Prod.mk.inj (Option.some.inj hentry)
  refine ⟨(div_eq_of_page hp.dvd hlo hhi).symm, ?_⟩
  by_cases hsame : ptEntryPage word level = st.va
  · exact Or.inr ⟨hmapped, hidentity.trans (decide_eq_true hsame)⟩
  · exact Or.inl (hasLine_of_page hp.dvd hlo hhi (hnew hsame))

/-- The region that is open after the turn. -/
theorem RightSoFar.mapped_pending (h : RightSoFar s vaStart vaEnd st) (hp : NextPage s vaEnd st level word)
    (hregion : ptEntryPage word level = st.va → ∀ a, (dumpMapped level (ptEntryPage word level) st).start ≤ a →
      a < st.va → ptResolve s a = a) :
    Pending s vaStart vaEnd (st.after (dumpMapped level (ptEntryPage word level) st) level) := by
  have hpos := pteMappedSize_pos level
  have hva := hp.va (dumpMapped level (ptEntryPage word level) st)
  obtain ⟨hmapped, hidentity, hzero, hstart⟩ := @RightSoFar.mapped_open _ _ level _ _ h (ptEntryPage word level)
  by_cases hsame : ptEntryPage word level = st.va
  · refine .identity hmapped (hidentity.trans (decide_eq_true hsame)) ?_ fun a hlo hhi => ?_
    · exact fun heq => hp.frame (hsame.trans (hzero.mp heq))
    · rw [hva] at hhi
      rcases Nat.lt_or_ge a st.va with hbefore | hhere
      · exact hregion hsame a hlo hbefore
      · rw [page_resolve hp.entry hp.dvd hp.frame hhere hhi]
        omega
  · refine .other hmapped (hidentity.trans (decide_eq_false hsame)) fun _ => ?_
    refine ⟨st.va, hstart, by rw [hva]; omega, hp.lt, ?_⟩
    exact (page_other hp.entry hp.dvd hp.frame (le_refl _) (by omega)).mpr hsame

/-- A page that begins a region. -/
theorem RightSoFar.mapped_begins (h : RightSoFar s vaStart vaEnd st) (hp : NextPage s vaEnd st level word)
    (hmapped : st.mapped = false) (hidentity : st.identity = false)
    (hregion : st.start ≠ 0 → ∀ a, st.start ≤ a → a < st.va → a < vaEnd → s.entry a = none) :
    RightSoFar s vaStart vaEnd (st.after (dumpMapped level (ptEntryPage word level) st) level) := by
  have heq := dumpMapped_begin level (ptEntryPage word level) hmapped hidentity
  have hout : (dumpMapped level (ptEntryPage word level) st).out = st.out ++
      ((if st.start = 0 then [] else [.unmapped st.start st.va]) ++
        (if ptEntryPage word level = st.va then [] else [.nonIdentity level st.va (ptEntryPage word level)])) := by
    rw [heq, List.append_assoc]
  obtain ⟨-, -, -, hstart⟩ := @RightSoFar.mapped_open _ _ level _ _ h (ptEntryPage word level)
  refine h.step (pteMappedSize_pos level) (hp.va _) rfl hstart hout (fun line hline => ?_) (fun htrue => ?_)
    (fun a level' word' hlo hhi _ => h.mapped_reports hp (fun hne => ?_) a level' word' hlo hhi)
    (h.mapped_pending hp fun _ a hlo hhi => ?_)
  · rcases List.mem_append.mp hline with hline | hline
    · split_ifs at hline with hzero
      · exact absurd hline List.not_mem_nil
      · rw [List.mem_singleton.mp hline]
        exact (right_unmapped fun a hlo hhi => hregion hzero a hlo hhi (hhi.trans hp.lt)).1
    · split_ifs at hline with hsame
      · exact absurd hline List.not_mem_nil
      · rw [List.mem_singleton.mp hline]
        exact right_nonIdentity hp.entry hp.dvd hp.frame hsame
  · rw [hmapped] at htrue
    nomatch htrue
  · rw [if_neg hne]
    exact List.mem_append_right _ (List.mem_singleton.mpr rfl)
  · rw [heq] at hlo
    exact absurd hhi (Nat.not_lt.mpr hlo)

/-- A page behind identity-mapped ones. -/
theorem RightSoFar.mapped_goesOn (h : RightSoFar s vaStart vaEnd st) (hp : NextPage s vaEnd st level word)
    (hmapped : st.mapped = true) (hidentity : st.identity = true) (hstart0 : st.start ≠ 0)
    (hregion : ∀ a, st.start ≤ a → a < st.va → ptResolve s a = a) :
    RightSoFar s vaStart vaEnd (st.after (dumpMapped level (ptEntryPage word level) st) level) := by
  have heq := dumpMapped_identity level (ptEntryPage word level) hmapped hidentity hstart0
  obtain ⟨hmapped', hidentity', -, hstart⟩ := @RightSoFar.mapped_open _ _ level _ _ h (ptEntryPage word level)
  refine h.step (pteMappedSize_pos level) (hp.va _) rfl hstart (congrArg DumpState.out heq) (fun line hline => ?_)
    (fun _ _ => ?_) (fun a level' word' hlo hhi _ => h.mapped_reports hp (fun hne => ?_) a level' word' hlo hhi)
    (h.mapped_pending hp fun _ a hlo hhi => ?_)
  · split_ifs at hline with hsame
    · exact absurd hline List.not_mem_nil
    · rcases List.mem_cons.mp hline with rfl | hline
      · exact (right_identity hregion).1
      · rw [List.mem_singleton.mp hline]
        exact right_nonIdentity hp.entry hp.dvd hp.frame hsame
  · by_cases hsame : ptEntryPage word level = st.va
    · have hsameStart : (dumpMapped level (ptEntryPage word level) st).start = st.start := by rw [heq]
      exact Or.inl ⟨hmapped', hidentity'.trans (decide_eq_true hsame), hsameStart⟩
    · rw [if_neg hsame]
      exact Or.inr List.mem_cons_self
  · rw [if_neg hne]
    exact List.mem_cons_of_mem _ (List.mem_singleton.mpr rfl)
  · rw [heq] at hlo
    exact hregion a hlo hhi

/-- A turn on a mapped page keeps a scan right, unless the page is identity-mapped behind one that is not. -/
theorem RightSoFar.mapped_right (h : RightSoFar s vaStart vaEnd st) (hp : NextPage s vaEnd st level word)
    (hstuck : Stuck st → ptEntryPage word level ≠ st.va) :
    RightSoFar s vaStart vaEnd (st.after (dumpMapped level (ptEntryPage word level) st) level) := by
  rcases h.pending with ⟨hmapped, hidentity, hzero, -⟩ | ⟨hmapped, hidentity, -, hregion⟩ |
    ⟨hmapped, hidentity, hstart, hregion⟩ | ⟨hmapped, hidentity, -⟩
  · exact h.mapped_begins hp hmapped hidentity fun hstart => absurd hzero hstart
  · exact h.mapped_begins hp hmapped hidentity fun _ => hregion
  · exact h.mapped_goesOn hp hmapped hidentity hstart hregion
  · have heq := dumpMapped_other level (ptEntryPage word level) hmapped hidentity
    obtain ⟨-, -, -, hstart⟩ := @RightSoFar.mapped_open _ _ level _ _ h (ptEntryPage word level)
    refine h.step (pteMappedSize_pos level) (hp.va _) rfl hstart (congrArg DumpState.out heq) (fun line hline => ?_)
      (fun _ htrue => ?_) (fun a level' word' hlo hhi _ => h.mapped_reports hp (fun hne => ?_) a level' word' hlo hhi)
      (h.mapped_pending hp fun hsame a hlo hhi => ?_)
    · split_ifs at hline with hsame
      · exact absurd hline List.not_mem_nil
      · rw [List.mem_singleton.mp hline]
        exact right_nonIdentity hp.entry hp.dvd hp.frame hsame
    · rw [hidentity] at htrue
      nomatch htrue
    · rw [if_neg hne]
      exact List.mem_singleton.mpr rfl
    · -- no region is open
      have hzero : st.start = 0 := by
        by_contra hopen
        exact hstuck ⟨hmapped, hidentity, hopen⟩ hsame
      rw [heq] at hlo
      dsimp only at hlo
      rw [if_pos hzero] at hlo
      exact absurd hhi (Nat.not_lt.mpr hlo)

/-- A turn on an unmapped address keeps a scan right, unless it steps over a page or the page before it is not
identity-mapped. -/
theorem RightSoFar.unmapped (h : RightSoFar s vaStart vaEnd st) (hva0 : st.va ≠ 0)
    (hnone : ∀ a, st.va ≤ a → a < st.va + pteMappedSize level → a < vaEnd → s.entry a = none) (hstuck : ¬ Stuck st)
    (hfit : st.va + pteMappedSize level < 2 ^ 64) :
    RightSoFar s vaStart vaEnd (st.after (dumpUnmapped st) level) := by
  have hpos := pteMappedSize_pos level
  have hva : (st.after (dumpUnmapped st) level).va = st.va + pteMappedSize level := u64_of_lt hfit
  have hle := h.start_le
  have hpage : ∀ (new : List DumpLine) (a : Nat) (level' : PtLevel) (word' : Nat), st.va ≤ a →
      a < st.va + pteMappedSize level → a < vaEnd → s.entry a = some (level', word') →
      st.va / pteMappedSize level' = a / pteMappedSize level' ∧ (HasLine new a level' word' ∨
        ((st.after (dumpUnmapped st) level).mapped = true ∧
          (st.after (dumpUnmapped st) level).identity = true)) := by
    intro new a level' word' hlo hhi hend hentry
    rw [hnone a hlo hhi hend] at hentry
    nomatch hentry
  have hbegin : st.mapped = false ∨ st.identity = false → st.start = 0 →
      RightSoFar s vaStart vaEnd (st.after (dumpUnmapped st) level) := by
    intro hflag hzero
    have heq := dumpUnmapped_other hflag
    have hstart' : (dumpUnmapped st).start = st.va := by
      rw [heq]
      exact if_pos hzero
    have hout : (dumpUnmapped st).out = st.out ++ [] := by rw [heq, List.append_nil]
    refine h.step hpos hva rfl hstart'.le hout ?_ ?_ (hpage []) ?_
    · exact fun line hline => absurd hline List.not_mem_nil
    · intro hmapped hidentity
      rcases hflag with hflag | hflag
      · rw [hflag] at hmapped
        nomatch hmapped
      · rw [hflag] at hidentity
        nomatch hidentity
    · refine .unmapped (congrArg DumpState.mapped heq) (congrArg DumpState.identity heq) ?_ fun a hlo hhi hend => ?_
      · exact fun heq' => hva0 (hstart'.symm.trans heq')
      · exact hnone a (hstart' ▸ hlo) (hva ▸ hhi) hend
  rcases h.pending with ⟨hmapped, -, hzero, -⟩ | ⟨hmapped, hidentity, hstart, hregion⟩ |
    ⟨hmapped, hidentity, hstart, hregion⟩ | ⟨hmapped, hidentity, -⟩
  · exact hbegin (Or.inl hmapped) hzero
  · have heq := dumpUnmapped_other (Or.inl hmapped)
    have hstart' : (dumpUnmapped st).start = st.start := by
      rw [heq]
      exact if_neg hstart
    have hout : (dumpUnmapped st).out = st.out ++ [] := by rw [heq, List.append_nil]
    refine h.step hpos hva rfl (hstart'.trans_le hle) hout ?_ ?_ (hpage []) ?_
    · exact fun line hline => absurd hline List.not_mem_nil
    · intro htrue
      rw [hmapped] at htrue
      nomatch htrue
    · refine .unmapped (congrArg DumpState.mapped heq) (congrArg DumpState.identity heq) ?_ fun a hlo hhi hend => ?_
      · exact fun heq' => hstart (hstart'.symm.trans heq')
      · rcases Nat.lt_or_ge a st.va with hbefore | hhere
        · exact hregion a (hstart' ▸ hlo) hbefore hend
        · exact hnone a hhere (hva ▸ hhi) hend
  · have heq := dumpUnmapped_identity hmapped hidentity hstart
    have hstart' : (dumpUnmapped st).start = st.va := congrArg DumpState.start heq
    have hout : (dumpUnmapped st).out = st.out ++ [.identity st.start st.va] := congrArg DumpState.out heq
    refine h.step hpos hva rfl hstart'.le hout ?_ ?_ (hpage _) ?_
    · intro line hline
      rw [List.mem_singleton.mp hline]
      exact (right_identity hregion).1
    · exact fun _ _ => Or.inr (List.mem_singleton.mpr rfl)
    · refine .unmapped (congrArg DumpState.mapped heq) (congrArg DumpState.identity heq) ?_ fun a hlo hhi hend => ?_
      · exact fun heq' => hva0 (hstart'.symm.trans heq')
      · exact hnone a (hstart' ▸ hlo) (hva ▸ hhi) hend
  · refine hbegin (Or.inr hidentity) ?_
    by_contra hstart
    exact hstuck ⟨hmapped, hidentity, hstart⟩

/-- The first page from `v` on is aligned to pages of `level`. -/
def GapOk (s : PtState) (level : PtLevel) (v vaEnd : Nat) : Prop :=
  ∀ b, v ≤ b → b < vaEnd → s.entry b ≠ none → (∀ c, v ≤ c → c < b → s.entry c = none) → pteMappedSize level ∣ b

/-- From `v` on there are only pages that are not identity-mapped. -/
def OtherFrom (s : PtState) (v vaEnd : Nat) : Prop := ∀ b, v ≤ b → b < vaEnd → NonIdentity s b

theorem pageEnd_eq (hv : pteMappedSize level ∣ v) (hlo : v ≤ a) (hhi : a < v + pteMappedSize level) :
    pageEnd level a = v + pteMappedSize level := by
  rw [pageEnd, div_eq_of_page hv hlo hhi, Nat.succ_mul, Nat.div_mul_cancel hv]

theorem Tidy.mono (h : Tidy s v vaEnd) (hle : v ≤ b) : Tidy s b vaEnd where
  other a b' level word hlo := h.other a b' level word (hle.trans hlo)
  gap a b' level word hlo := h.gap a b' level word (hle.trans hlo)
  top a level word hlo := h.top a level word (hle.trans hlo)

theorem tidy_page (hentry : s.entry v = some (level, word)) (hv : pteMappedSize level ∣ v)
    (hframe : ptEntryPage word level ≠ 0) (hend : v < vaEnd) :
    Tidy s v vaEnd ↔ (NonIdentity s v → v ≠ 0 → OtherFrom s (v + pteMappedSize level) vaEnd) ∧
      GapOk s level (v + pteMappedSize level) vaEnd ∧ v + pteMappedSize level < 2 ^ 64 ∧
      Tidy s (v + pteMappedSize level) vaEnd := by
  have hpos := pteMappedSize_pos level
  have hpageEnd := @pageEnd_eq _ _ _ hv (le_refl v) (by omega)
  constructor
  · intro h
    refine ⟨fun hother hne b hlo hhi => ?_, fun b hlo hhi hb hnone => ?_, ?_, h.mono (Nat.le_add_right _ _)⟩
    · exact h.other v b level word (le_refl v) (by omega) hhi hentry hother.2 (Nat.le_of_dvd (by omega) hv)
    · exact h.gap v b level word (le_refl v) hentry (hpageEnd ▸ hlo) hhi hb (hpageEnd ▸ hnone)
    · rw [← hpageEnd]
      exact h.top v level word (le_refl v) hend hentry
  · rintro ⟨hother, hgap, hfit, h⟩
    refine ⟨fun a b level' word' hlo hle hhi ha hne hsize => ?_,
      fun a b level' word' hlo ha hle hhi hb hnone => ?_, fun a level' word' hlo hhi ha => ?_⟩
    · rcases Nat.lt_or_ge a (v + pteMappedSize level) with hin | hbehind
      · rw [entry_in_page hentry hv hlo hin] at ha
        obtain ⟨rfl, rfl⟩ := Prod.mk.inj (Option.some.inj ha)
        have hsame : ∀ c, v ≤ c → c < v + pteMappedSize level → (NonIdentity s c ↔ NonIdentity s v) :=
          fun c hlo' hhi' => (page_other hentry hv hframe hlo' hhi').trans
            (page_other hentry hv hframe (le_refl v) (by omega)).symm
        have hotherA : NonIdentity s a := by
          refine ⟨?_, hne⟩
          rw [entry_in_page hentry hv hlo hin]
          exact Option.some_ne_none _
        have hotherV := (hsame a hlo hin).mp hotherA
        rcases Nat.lt_or_ge b (v + pteMappedSize level) with hbIn | hbBehind
        · exact (hsame b (hlo.trans hle) hbIn).mpr hotherV
        · exact hother hotherV (by omega) b hbBehind hhi
      · exact h.other a b level' word' hbehind hle hhi ha hne hsize
    · rcases Nat.lt_or_ge a (v + pteMappedSize level) with hin | hbehind
      · rw [entry_in_page hentry hv hlo hin] at ha
        obtain ⟨rfl, rfl⟩ := Prod.mk.inj (Option.some.inj ha)
        rw [pageEnd_eq hv hlo hin] at hle hnone
        exact hgap b hle hhi hb hnone
      · exact h.gap a b level' word' hbehind ha hle hhi hb hnone
    · rcases Nat.lt_or_ge a (v + pteMappedSize level) with hin | hbehind
      · rw [entry_in_page hentry hv hlo hin] at ha
        obtain ⟨rfl, rfl⟩ := Prod.mk.inj (Option.some.inj ha)
        rw [pageEnd_eq hv hlo hin]
        exact hfit
      · exact h.top a level' word' hbehind hhi ha

theorem lt_pageEnd (level : PtLevel) (a : Nat) : a < pageEnd level a := by
  have hmod := Nat.div_add_mod a (pteMappedSize level)
  have hlt := Nat.mod_lt a (pteMappedSize_pos level)
  rw [Nat.mul_comm] at hmod
  rw [pageEnd, Nat.succ_mul]
  omega

/-- Where nothing is mapped, the condition goes on from the next place. -/
theorem tidy_hole (hnone : ∀ a, v ≤ a → a < b → a < vaEnd → s.entry a = none) (h : Tidy s b vaEnd) :
    Tidy s v vaEnd := by
  have hbehind : ∀ a level word, v ≤ a → a < vaEnd → s.entry a = some (level, word) → b ≤ a := by
    intro a level word hlo hhi ha
    by_contra hlt
    rw [hnone a hlo (Nat.lt_of_not_le hlt) hhi] at ha
    nomatch ha
  refine ⟨fun a c level word hlo hle hhi ha => ?_, fun a c level word hlo ha hle hhi => ?_,
    fun a level word hlo hhi ha => ?_⟩
  · exact h.other a c level word (hbehind a level word hlo (by omega) ha) hle hhi ha
  · have hlt := lt_pageEnd level a
    exact h.gap a c level word (hbehind a level word hlo (by omega) ha) ha hle hhi
  · exact h.top a level word (hbehind a level word hlo hhi ha) hhi ha

theorem gapOk_hole (hnone : ∀ a, v ≤ a → a < b → a < vaEnd → s.entry a = none) (hle : v ≤ b) :
    GapOk s level v vaEnd ↔ GapOk s level b vaEnd := by
  constructor
  · intro h c hlo hhi hc hbefore
    refine h c (hle.trans hlo) hhi hc fun d hlo' hlt => ?_
    rcases Nat.lt_or_ge d b with hin | hbehind
    · exact hnone d hlo' hin (by omega)
    · exact hbefore d hbehind hlt
  · intro h c hlo hhi hc hbefore
    rcases Nat.lt_or_ge c b with hin | hbehind
    · exact absurd (hnone c hlo hin hhi) hc
    · exact h c hbehind hhi hc fun d hlo' hlt => hbefore d (hle.trans hlo') hlt

/-- A step in a gap passes no page. -/
theorem GapOk.clear (h : GapOk s level v vaEnd) (hv : pteMappedSize level ∣ v) (hnone : s.entry v = none) :
    ∀ a, v ≤ a → a < v + pteMappedSize level → a < vaEnd → s.entry a = none := by
  intro a
  induction a using Nat.strong_induction_on with
  | _ a ih =>
      intro hlo hhi hend
      by_contra ha
      have hdvd := h a hlo hend ha fun c hlo' hlt => ih c hlt hlo' (by omega) (by omega)
      rcases Nat.eq_or_lt_of_le hlo with rfl | hlt
      · exact ha hnone
      · have hstep := add_le_of_dvd hv hdvd hlt
        omega

/-! ### A scan whose output is right -/

/-- The region that begins with a page which is not identity-mapped is never an identity-mapped one. -/
theorem Ascends.stuck_identity (hscan : RightSoFar s vaStart vaEnd st) (hstuck : Stuck st)
    (hfit : st.va + pteMappedSize level < 2 ^ 64)
    (hrun : Ascends s vaEnd (st.after (dumpMapped level st.va st) level) r) : ¬ ∀ line ∈ r.out, line.Right s := by
  intro hright
  obtain ⟨n, hlo, hhi, hend, hother⟩ := hscan.stuck hstuck
  obtain ⟨hmapped, hidentity, hstart⟩ := hstuck
  have hva : n < (st.after (dumpMapped level st.va st) level).va := by
    change n < u64 (st.va + pteMappedSize level)
    rw [u64_of_lt hfit]
    omega
  rw [dumpMapped_other level _ hmapped hidentity] at hrun hva
  obtain ⟨line, hline, hin⟩ : ∃ line ∈ r.out, n ∈ line.identityRegion := by
    refine hrun.prints_identity hmapped ?_ ?_ ?_ hva hend
    · simp [DumpState.after]
    · simp [DumpState.after, hstart]
    · simpa [DumpState.after, hstart] using hlo
  exact hother.2 ((hright line hline).identity n hin)

/-- Nor is it an unmapped one. -/
theorem Ascends.stuck_unmapped (hscan : RightSoFar s vaStart vaEnd st) (hstuck : Stuck st)
    (hfit : st.va + pteMappedSize level < 2 ^ 64)
    (hrun : Ascends s vaEnd (st.after (dumpUnmapped st) level) r) : ¬ ∀ line ∈ r.out, line.Right s := by
  intro hright
  obtain ⟨n, hlo, hhi, hend, hother⟩ := hscan.stuck hstuck
  obtain ⟨-, hidentity, hstart⟩ := hstuck
  have hva : n < (st.after (dumpUnmapped st) level).va := by
    change n < u64 (st.va + pteMappedSize level)
    rw [u64_of_lt hfit]
    omega
  rw [dumpUnmapped_other (Or.inr hidentity)] at hrun hva
  obtain ⟨line, hline, hin⟩ : ∃ line ∈ r.out, n ∈ line.unmappedRegion := by
    refine hrun.prints_unmapped rfl rfl ?_ ?_ hva hend
    · simp [DumpState.after, hstart]
    · simpa [DumpState.after, hstart] using hlo
  exact hother.1 ((hright line hline).unmapped n hin)

/-- A scan that has examined every page has stepped over none. -/
theorem Ascends.clear (hscan : RightSoFar s vaStart vaEnd st) (hle : vaStart ≤ st.va)
    (hresolved : st'.resolved = st.resolved ++ [st.va]) (hva : st'.va = st.va + pteMappedSize level)
    (hdvd : pteMappedSize level ∣ st.va) (hnone : s.entry st.va = none) (hrun : Ascends s vaEnd st' r)
    (hcorrect : DumpCorrect s vaStart vaEnd r) :
    ∀ a, st.va ≤ a → a < st.va + pteMappedSize level → a < vaEnd → s.entry a = none := by
  intro a hlo hhi hend
  cases hentry : s.entry a with
  | none => rfl
  | some entry =>
      exfalso
      obtain ⟨level', word⟩ := entry
      obtain ⟨x, hx, hsame⟩ := hcorrect.examined a level' word (hle.trans hlo) hend hentry
      obtain ⟨base, hbaseDvd, hbaseLe, hbaseEnd, hbaseEntry⟩ := exists_pageStart hentry
      have hxBase : x / pteMappedSize level' = base / pteMappedSize level' :=
        hsame.trans (div_eq_of_page hbaseDvd hbaseLe hbaseEnd)
      obtain ⟨hxLe, hxEnd⟩ : base ≤ x ∧ x < base + pteMappedSize level' := by
        have hmod := Nat.div_add_mod x (pteMappedSize level')
        have hlt := Nat.mod_lt x (pteMappedSize_pos level')
        rw [hxBase, Nat.mul_div_cancel' hbaseDvd] at hmod
        omega
      -- the page does not contain `st.va`
      have hout : ¬ (base ≤ st.va ∧ st.va < base + pteMappedSize level') := by
        rintro ⟨hbelow, habove⟩
        rw [entry_in_page hbaseEntry hbaseDvd hbelow habove] at hnone
        nomatch hnone
      rcases hrun.resolved x hx with hold | hnew
      · rw [hresolved] at hold
        have hxle : x ≤ st.va := by
          rcases List.mem_append.mp hold with hold | hold
          · exact (hscan.before x hold).le
          · exact (List.mem_singleton.mp hold).le
        exact hout ⟨by omega, by omega⟩
      · rw [hva] at hnew
        rcases Nat.le_total (pteMappedSize level) (pteMappedSize level') with hsize | hsize
        · refine hout ⟨?_, by omega⟩
          by_contra hgt
          have hstep := add_le_of_dvd hdvd ((size_dvd_of_le hsize).trans hbaseDvd) (Nat.lt_of_not_le hgt)
          omega
        · have hstep := add_le_of_dvd hbaseDvd ((size_dvd_of_le hsize).trans (Nat.dvd_add_self_right.mpr hdvd))
            (by omega : base < st.va + pteMappedSize level)
          omega

theorem gapOk_page (hv : pteMappedSize level ∣ v) (hentry : s.entry v ≠ none) : GapOk s level v vaEnd := by
  intro b hlo _ _ hnone
  rcases Nat.eq_or_lt_of_le hlo with rfl | hlt
  · exact hv
  · exact absurd (hnone v (le_refl v) hlt) hentry

theorem otherFrom_page (hentry : s.entry v = some (level, word)) (hv : pteMappedSize level ∣ v)
    (hframe : ptEntryPage word level ≠ 0) (hne : ptEntryPage word level ≠ v)
    (h : OtherFrom s (v + pteMappedSize level) vaEnd) : OtherFrom s v vaEnd := by
  intro b hlo hhi
  rcases Nat.lt_or_ge b (v + pteMappedSize level) with hin | hbehind
  · exact (page_other hentry hv hframe hlo hin).mpr hne
  · exact h b hbehind hhi

theorem tidy_end (hle : vaEnd ≤ v) : Tidy s v vaEnd := by
  refine ⟨fun a b level word hlo hab hhi => ?_, fun a b level word hlo ha hab hhi => ?_,
    fun a level word hlo hhi => ?_⟩
  · exact absurd hhi (by omega)
  · have hlt := lt_pageEnd level a
    exact absurd hhi (by omega)
  · exact absurd hhi (by omega)

/-- Where the scan ends and its output is right, the rest of the range is as it has to be. -/
theorem Ascends.tidy (hrun : Ascends s vaEnd st r) (hscan : RightSoFar s vaStart vaEnd st) (hle : vaStart ≤ st.va)
    (hframes : ∀ a level word, vaStart ≤ a → a < vaEnd → s.entry a = some (level, word) → ptEntryPage word level ≠ 0)
    (hcorrect : DumpCorrect s vaStart vaEnd r) :
    Tidy s st.va vaEnd ∧ (∀ level, st.level = some level → GapOk s level st.va vaEnd) ∧
      (Stuck st → OtherFrom s st.va vaEnd) := by
  induction hrun with
  | done hdone =>
      exact ⟨tidy_end hdone, fun _ _ b hlo hhi => absurd hhi (by omega), fun _ b hlo hhi => absurd hhi (by omega)⟩
  | @turn st st' r level level' a a' hseen hlt hturn hnext hfit hlevel hva hrun ih =>
      have hle' : vaStart ≤ st'.va := by omega
      rcases hnext with ⟨⟨word, hentry⟩, -⟩ | ⟨hnone, rfl, -⟩
      · have hdvd := hseen.scan.aligned hentry
        have hframe := hframes st.va level' word hle hlt hentry
        obtain rfl : st.after (dumpMapped level' (ptEntryPage word level') st) level' = st' :=
          Except.ok.inj ((dumpTurn_mapped hentry hframe).symm.trans hturn)
        have hstuck : Stuck st → ptEntryPage word level' ≠ st.va := by
          intro hstuck heq
          rw [heq] at hrun
          exact hrun.stuck_identity hscan hstuck hfit hcorrect.right
        obtain ⟨htidy, hgap, hother⟩ := ih (hscan.mapped_right ⟨hlt, hentry, hdvd, hframe, hfit⟩ hstuck) hle' hcorrect
        obtain ⟨hmapped, hidentity, hzero, -⟩ := @RightSoFar.mapped_open _ _ level' _ _ hscan (ptEntryPage word level')
        have hpage : NonIdentity s st.va ↔ ptEntryPage word level' ≠ st.va :=
          page_other hentry hdvd hframe (le_refl _) (Nat.lt_add_of_pos_right (pteMappedSize_pos level'))
        have hbehind : NonIdentity s st.va → st.va ≠ 0 → OtherFrom s (st.va + pteMappedSize level') vaEnd := by
          intro hnon hne
          rw [← hva]
          exact hother ⟨hmapped, hidentity.trans (decide_eq_false (hpage.mp hnon)), fun heq => hne (hzero.mp heq)⟩
        rw [hva] at htidy
        refine ⟨(tidy_page hentry hdvd hframe hlt).mpr ⟨hbehind, hva ▸ hgap level' hlevel, hfit, htidy⟩,
          fun level hstale => ?_, fun hst => ?_⟩
        · obtain rfl := Option.some.inj (hseen.scan.seen.symm.trans hstale)
          refine gapOk_page hseen.scan.here ?_
          rw [hentry]
          exact Option.some_ne_none _
        · have hstart := hscan.start_le
          have hne := hstuck hst
          have hva0 : st.va ≠ 0 := by
            intro hzero
            rw [hzero] at hstart
            exact hst.2.2 (Nat.le_zero.mp hstart)
          exact otherFrom_page hentry hdvd hframe hne (hbehind (hpage.mpr hne) hva0)
      · have hdvd := hseen.scan.here
        obtain rfl : st.after (dumpUnmapped st) level' = st' :=
          Except.ok.inj ((dumpTurn_unmapped hnone hseen.scan.seen).symm.trans hturn)
        have hclear := hrun.clear hscan hle rfl hva hdvd hnone hcorrect
        have hstuck : ¬ Stuck st := fun hst => hrun.stuck_unmapped hscan hst hfit hcorrect.right
        have hva0 : st.va ≠ 0 := by
          have hpos := pteMappedSize_pos level'
          have hbehind := hseen.scan.le
          omega
        obtain ⟨htidy, hgap, -⟩ := ih (hscan.unmapped hva0 hclear hstuck hfit) hle' hcorrect
        rw [hva] at htidy
        refine ⟨tidy_hole hclear htidy, fun level hstale => ?_, fun hst => absurd hst hstuck⟩
        obtain rfl := Option.some.inj (hseen.scan.seen.symm.trans hstale)
        exact (gapOk_hole hclear (Nat.le_add_right _ _)).mpr (hva ▸ hgap level' hlevel)

/-- What is open when the scan ends is printed. -/
theorem RightSoFar.done (h : RightSoFar s vaStart vaEnd st) (hend : vaEnd ≤ st.va) :
    DumpCorrect s vaStart vaEnd (dumpFinal vaEnd st) := by
  obtain ⟨new, hout, hright, hclosed⟩ : ∃ new, (dumpFinal vaEnd st).out = st.out ++ new ∧
      (∀ line ∈ new, line.Right s) ∧
      (st.mapped = true → st.identity = true → .finalIdentity st.start vaEnd ∈ new) := by
    rcases h.pending with ⟨hmapped, -, hzero, -⟩ | ⟨hmapped, -, hstart, hregion⟩ |
      ⟨hmapped, hidentity, hstart, hregion⟩ | ⟨hmapped, hidentity, -⟩
    · exact ⟨[], by simp [dumpFinal, hzero], by simp, by simp [hmapped]⟩
    · refine ⟨[.finalUnmapped st.start vaEnd], by simp [dumpFinal, DumpState.print, hstart, hmapped], ?_,
        by simp [hmapped]⟩
      intro line hline
      rw [List.mem_singleton.mp hline]
      exact (right_unmapped fun a hlo hhi => hregion a hlo (by omega) hhi).2
    · refine ⟨[.finalIdentity st.start vaEnd], by simp [dumpFinal, DumpState.print, hstart, hmapped, hidentity], ?_,
        fun _ _ => List.mem_singleton.mpr rfl⟩
      intro line hline
      rw [List.mem_singleton.mp hline]
      exact (right_identity fun a hlo hhi => hregion a hlo (by omega)).2
    · refine ⟨[], ?_, by simp, by simp [hidentity]⟩
      by_cases hstart : st.start = 0 <;> simp [dumpFinal, hstart, hmapped, hidentity]
  refine ⟨fun line hline => ?_, fun a level word hlo hhi hentry => ?_, fun a level word hlo hhi hentry => ?_⟩
  · rw [hout] at hline
    rcases List.mem_append.mp hline with hold | hnew
    · exact h.right line hold
    · exact hright line hnew
  · rw [dumpFinal_resolved]
    exact h.examined a level word hlo (by omega) hhi hentry
  · rw [hout]
    rcases h.reported a level word hlo (by omega) hhi hentry with ⟨line, hline, hin⟩ | hline | ⟨hmapped, hidentity, hle⟩
    · exact Or.inl ⟨line, List.mem_append_left _ hline, hin⟩
    · exact Or.inr (List.mem_append_left _ hline)
    · exact Or.inl ⟨_, List.mem_append_right _ (hclosed hmapped hidentity), hle, hhi⟩

/-- In a hole the scan does not come to the end of the 64-bit addresses: the tables are walked for 48 bits only, so
the page before the hole would come again, unless it lies too high to be identity-mapped. -/
theorem Seen.fits (h : Seen s st level a) (hnone : s.entry st.va = none) (hva : st.va < 2 ^ 64)
    (hlast : NonIdentity s a → a ≠ 0 → False) : st.va + pteMappedSize level < 2 ^ 64 := by
  refine Nat.lt_of_le_of_ne (h.scan.le_width (Or.inr ⟨hnone, h.scan.seen⟩) hva) fun heq => ?_
  have hsize : pteMappedSize level ≤ 2 ^ 39 := by
    cases level <;> decide
  have hturn : pteMappedSize level ∣ 2 ^ 48 := by
    refine Nat.pow_dvd_pow 2 ?_
    cases level <;> decide
  obtain ⟨word, hentry⟩ := h.entry
  have hpath : ptPath (a + 2 ^ 48) = ptPath a := by
    rw [ptPath_eq_iff]
    simp only [PGSIZE]
    omega
  have hagain : s.entry (a + 2 ^ 48) = some (level, word) := (entry_of_path s hpath).trans hentry
  have hhigh : st.va < a + 2 ^ 48 := by
    by_contra hle
    rcases Nat.eq_or_lt_of_le (Nat.le_of_not_lt hle) with heq' | hlt
    · rw [← heq', hagain] at hnone
      exact Option.some_ne_none _ hnone
    · have hin := h.scan.hole (a + 2 ^ 48) (by omega) hlt (Nat.dvd_add h.dvd hturn)
      rw [hagain] at hin
      exact Option.some_ne_none _ hin
  refine hlast ⟨?_, fun hself => ?_⟩ (by omega)
  · rw [hentry]
    exact Option.some_ne_none _
  · have hbounds := @ptResolve_bounds s a (by omega)
    omega

/-- From such a place the scan ends, and what it prints is right. -/
theorem dumpLoop_correct (hend : vaEnd < 2 ^ 64)
    (hframes : ∀ a level word, vaStart ≤ a → a < vaEnd → s.entry a = some (level, word) → ptEntryPage word level ≠ 0)
    (hseen : Seen s st level a) (hscan : RightSoFar s vaStart vaEnd st) (hle : vaStart ≤ st.va)
    (htidy : Tidy s st.va vaEnd) (hgap : GapOk s level st.va vaEnd) (hstuck : Stuck st → OtherFrom s st.va vaEnd)
    (hlast : NonIdentity s a → a ≠ 0 → OtherFrom s st.va vaEnd) :
    ∃ fuel r, dumpLoop s vaEnd fuel st = .ok r ∧ DumpCorrect s vaStart vaEnd r := by
  induction hleft : vaEnd - st.va using Nat.strong_induction_on generalizing st level a with
  | _ left ih =>
      rcases Nat.lt_or_ge st.va vaEnd with hlt | hdone
      · have hnext : ∀ {st' level' a'}, dumpTurn s st = .ok st' → st'.va = st.va + pteMappedSize level' →
            Seen s st' level' a' → RightSoFar s vaStart vaEnd st' → Tidy s st'.va vaEnd → GapOk s level' st'.va vaEnd →
            (Stuck st' → OtherFrom s st'.va vaEnd) → (NonIdentity s a' → a' ≠ 0 → OtherFrom s st'.va vaEnd) →
            ∃ fuel r, dumpLoop s vaEnd fuel st = .ok r ∧ DumpCorrect s vaStart vaEnd r := by
          intro st' level' a' hturn hva hseen' hscan' htidy' hgap' hstuck' hlast'
          have hpos := pteMappedSize_pos level'
          obtain ⟨fuel, r, hok, hcorrect⟩ :=
            ih (vaEnd - st'.va) (by omega) hseen' hscan' (by omega) htidy' hgap' hstuck' hlast' rfl
          refine ⟨fuel + 1, r, ?_, hcorrect⟩
          unfold dumpLoop
          rw [if_pos hlt, hturn]
          exact hok
        cases hentry : s.entry st.va with
        | some entry =>
            obtain ⟨level', word⟩ := entry
            have hdvd := hseen.scan.aligned hentry
            have hframe := hframes st.va level' word hle hlt hentry
            obtain ⟨hother, hgap', hfit, htidy'⟩ := (tidy_page hentry hdvd hframe hlt).mp htidy
            have hva : (st.after (dumpMapped level' (ptEntryPage word level') st) level').va =
                st.va + pteMappedSize level' := u64_of_lt hfit
            have hpage : NonIdentity s st.va ↔ ptEntryPage word level' ≠ st.va :=
              page_other hentry hdvd hframe (le_refl _) (Nat.lt_add_of_pos_right (pteMappedSize_pos level'))
            obtain ⟨-, hidentity, hzero, -⟩ := @RightSoFar.mapped_open _ _ level' _ _ hscan (ptEntryPage word level')
            have hstuck' : Stuck st → ptEntryPage word level' ≠ st.va := fun hst =>
              hpage.mp (hstuck hst st.va (le_refl _) hlt)
            refine hnext (dumpTurn_mapped hentry hframe) hva (hseen.next (Or.inl ⟨⟨word, hentry⟩, rfl⟩) rfl hva)
              (hscan.mapped_right ⟨hlt, hentry, hdvd, hframe, hfit⟩ hstuck') ?_ ?_ (fun hst => ?_) (fun hnon hne => ?_) <;>
              rw [hva]
            · exact htidy'
            · exact hgap'
            · have hne : ptEntryPage word level' ≠ st.va := of_decide_eq_false (hidentity.symm.trans hst.2.1)
              exact hother (hpage.mpr hne) fun heq => hst.2.2 (hzero.mpr heq)
            · exact hother hnon hne
        | none =>
            have hnot : ¬ OtherFrom s st.va vaEnd := fun hall => (hall st.va (le_refl _) hlt).1 hentry
            have hfit := hseen.fits hentry (by omega) fun hnon hne => hnot (hlast hnon hne)
            have hva : (st.after (dumpUnmapped st) level).va = st.va + pteMappedSize level := u64_of_lt hfit
            have hclear := hgap.clear hseen.scan.here hentry
            have hva0 : st.va ≠ 0 := by
              have hpos := pteMappedSize_pos level
              have hbehind := hseen.scan.le
              omega
            refine hnext (dumpTurn_unmapped hentry hseen.scan.seen) hva
              (hseen.next (Or.inr ⟨hentry, rfl, rfl⟩) rfl hva)
              (hscan.unmapped hva0 hclear (fun hst => hnot (hstuck hst)) hfit) ?_ ?_ (fun hst => ?_)
              (fun hnon hne => absurd (hlast hnon hne) hnot)
            · rw [hva]
              exact htidy.mono (Nat.le_add_right _ _)
            · rw [hva]
              exact (gapOk_hole hclear (Nat.le_add_right _ _)).mp hgap
            · exact absurd ((dumpUnmapped_mapped st).symm.trans hst.1) Bool.false_ne_true
      · refine ⟨1, _, ?_, hscan.done hdone⟩
        unfold dumpLoop
        exact if_neg (Nat.not_lt.mpr hdone)

theorem RightSoFar.init (s : PtState) (vaStart vaEnd : Nat) :
    RightSoFar s vaStart vaEnd ⟨vaStart, none, false, false, 0, [], []⟩ where
  start_le := Nat.zero_le _
  before _ hmem := absurd hmem List.not_mem_nil
  right _ hmem := absurd hmem List.not_mem_nil
  examined _ _ _ hlo hhi := absurd hhi (Nat.not_lt.mpr hlo)
  reported _ _ _ hlo hhi := absurd hhi (Nat.not_lt.mpr hlo)
  pending := .initial rfl rfl rfl rfl

theorem dumpsCorrectly_empty (hle : vaEnd ≤ vaStart) : DumpsCorrectly s vaStart vaEnd := by
  refine ⟨1, _, ?_, (RightSoFar.init s vaStart vaEnd).done hle⟩
  unfold dumpMappings dumpLoop
  exact if_neg (Nat.not_lt.mpr hle)

/-- The state behind the first page. -/
def dumpFirst (level : PtLevel) (word vaStart : Nat) : DumpState :=
  DumpState.after ⟨vaStart, none, false, false, 0, [], []⟩
    (dumpMapped level (ptEntryPage word level) ⟨vaStart, none, false, false, 0, [], []⟩) level

theorem dumpFirst_va (hfit : vaStart + pteMappedSize level < 2 ^ 64) :
    (dumpFirst level word vaStart).va = vaStart + pteMappedSize level := u64_of_lt hfit

theorem dumpFirst_seen (hentry : s.entry vaStart = some (level, word)) (hdvd : pteMappedSize level ∣ vaStart)
    (hfit : vaStart + pteMappedSize level < 2 ^ 64) : Seen s (dumpFirst level word vaStart) level vaStart :=
  ⟨⟨word, hentry⟩, hdvd, Scan.of_page hentry hdvd rfl (dumpFirst_va hfit)⟩

theorem dumpFirst_rightSoFar (hlt : vaStart < vaEnd) (hentry : s.entry vaStart = some (level, word))
    (hdvd : pteMappedSize level ∣ vaStart) (hframe : ptEntryPage word level ≠ 0)
    (hfit : vaStart + pteMappedSize level < 2 ^ 64) :
    RightSoFar s vaStart vaEnd (dumpFirst level word vaStart) ∧
      (Stuck (dumpFirst level word vaStart) ↔ NonIdentity s vaStart ∧ vaStart ≠ 0) := by
  have hscan := RightSoFar.init s vaStart vaEnd
  have hstuck : ¬ Stuck ⟨vaStart, none, false, false, 0, [], []⟩ := fun hst => Bool.false_ne_true hst.1
  refine ⟨hscan.mapped_right ⟨hlt, hentry, hdvd, hframe, hfit⟩ fun hst => absurd hst hstuck, ?_⟩
  obtain ⟨hmapped, hidentity, hzero, -⟩ := @RightSoFar.mapped_open _ _ level _ _ hscan (ptEntryPage word level)
  have hpage : NonIdentity s vaStart ↔ ptEntryPage word level ≠ vaStart :=
    page_other hentry hdvd hframe (le_refl _) (Nat.lt_add_of_pos_right (pteMappedSize_pos level))
  rw [hpage]
  constructor
  · rintro ⟨-, hflag, hstart⟩
    exact ⟨of_decide_eq_false (hidentity.symm.trans hflag), fun heq => hstart (hzero.mpr heq)⟩
  · rintro ⟨hne, hne0⟩
    exact ⟨hmapped, hidentity.trans (decide_eq_false hne), fun heq => hne0 (hzero.mp heq)⟩

theorem Dumpable.dumpsCorrectly (h : Dumpable s vaStart vaEnd) (hlt : vaStart < vaEnd) (hend : vaEnd < 2 ^ 64) :
    DumpsCorrectly s vaStart vaEnd := by
  obtain ⟨level, word, hentry, hdvd⟩ := h.first
  have hframe := h.frames vaStart level word (le_refl _) hlt hentry
  obtain ⟨hother, hgap, hfit, htidy⟩ := (tidy_page hentry hdvd hframe hlt).mp h.tidy
  obtain ⟨hscan, hstuck⟩ := dumpFirst_rightSoFar hlt hentry hdvd hframe hfit
  have hva := @dumpFirst_va level vaStart word hfit
  obtain ⟨fuel, r, hok, hcorrect⟩ := dumpLoop_correct hend h.frames (dumpFirst_seen hentry hdvd hfit) hscan
    (by omega) (hva ▸ htidy) (hva ▸ hgap) (fun hst => by rw [hva]; exact hother (hstuck.mp hst).1 (hstuck.mp hst).2)
    (fun hnon hne => by rw [hva]; exact hother hnon hne)
  refine ⟨fuel + 1, r, ?_, hcorrect⟩
  have hturn : dumpTurn s ⟨vaStart, none, false, false, 0, [], []⟩ = .ok (dumpFirst level word vaStart) :=
    dumpTurn_mapped hentry hframe
  unfold dumpMappings dumpLoop
  rw [if_pos hlt, hturn]
  exact hok

/-- A page with the frame 0 is not in the output. -/
theorem DumpCorrect.frames (hend : vaEnd % PGSIZE = 0)
    (hok : dumpMappings s fuel vaStart vaEnd = .ok r) (h : DumpCorrect s vaStart vaEnd r) :
    ∀ a level word, vaStart ≤ a → a < vaEnd → s.entry a = some (level, word) → ptEntryPage word level ≠ 0 := by
  have hframes := dumpLoop_frames hok fun _ _ _ hmem => absurd hmem List.not_mem_nil
  -- an address other than 0 in the page
  have hnonzero : ∀ a level word, a ≠ 0 → vaStart ≤ a → a < vaEnd → s.entry a = some (level, word) →
      ptEntryPage word level ≠ 0 := by
    intro a level word hne hlo hhi hentry hzero
    rcases h.reported a level word hlo hhi hentry with ⟨line, hline, hin⟩ | hline
    · have hself := (h.right line hline).identity a hin
      rw [ptResolve_of_frame_zero hentry hzero] at hself
      exact hne hself.symm
    · exact hframes _ _ _ hline hzero
  intro a level word hlo hhi hentry
  by_cases hzero : a = 0
  · subst hzero
    have hsize : 1 < pteMappedSize level := by
      cases level <;> decide
    have hone : s.entry 1 = some (level, word) :=
      entry_in_page hentry (Nat.dvd_zero _) (Nat.zero_le 1) (by omega)
    refine hnonzero 1 level word Nat.one_ne_zero (by omega) ?_ hone
    simp only [PGSIZE] at hend
    omega
  · exact hnonzero a level word hzero hlo hhi hentry

/-- A range that starts inside a page is printed with the start of its frame. -/
theorem dumpFirst_dvd (hentry : s.entry vaStart = some (level, word)) (hframe : ptEntryPage word level ≠ 0)
    (hloop : dumpLoop s vaEnd fuel (dumpFirst level word vaStart) = .ok r) (hright : ∀ line ∈ r.out, line.Right s) :
    pteMappedSize level ∣ vaStart := by
  apply Nat.dvd_of_mod_eq_zero
  by_cases hself : ptEntryPage word level = vaStart
  · rw [← hself]
    exact (ptEntryPage_frame word level).1
  · have hline : .nonIdentity level vaStart (ptEntryPage word level) ∈ (dumpFirst level word vaStart).out := by
      rw [dumpFirst, DumpState.after, dumpMapped_begin level _ rfl rfl]
      simp [hself]
    obtain ⟨-, hresolve, -⟩ := (hright _ (dumpLoop_prints hloop hline)).nonIdentity level vaStart _ rfl
    rw [ptResolve_of_entry hentry hframe] at hresolve
    omega

theorem DumpsCorrectly.dumpable (h : DumpsCorrectly s vaStart vaEnd) (hlt : vaStart < vaEnd) (hend : vaEnd < 2 ^ 64)
    (halign : vaEnd % PGSIZE = 0) : Dumpable s vaStart vaEnd := by
  obtain ⟨fuel, r, hok, hcorrect⟩ := h
  have hframes := hcorrect.frames halign hok
  cases fuel with
  | zero => cases hok
  | succ fuel =>
      unfold dumpMappings dumpLoop at hok
      rw [if_pos hlt] at hok
      cases hentry : s.entry vaStart with
      | none =>
          rw [@dumpTurn_uninitialised s ⟨vaStart, none, false, false, 0, [], []⟩ hentry rfl] at hok
          cases hok
      | some entry =>
          obtain ⟨level, word⟩ := entry
          have hframe := hframes vaStart level word (le_refl _) hlt hentry
          have hturn : dumpTurn s ⟨vaStart, none, false, false, 0, [], []⟩ = .ok (dumpFirst level word vaStart) :=
            dumpTurn_mapped hentry hframe
          rw [hturn] at hok
          have hloop : dumpLoop s vaEnd fuel (dumpFirst level word vaStart) = .ok r := hok
          have hdvd := dumpFirst_dvd hentry hframe hloop hcorrect.right
          have hfit : vaStart + pteMappedSize level < 2 ^ 64 := by
            refine Nat.lt_of_le_of_ne (add_le_of_dvd hdvd (size_dvd_width level) (by omega)) fun heq => ?_
            have hzero : (dumpFirst level word vaStart).va = 0 := by
              change u64 (vaStart + pteMappedSize level) = 0
              rw [heq]
              rfl
            exact (trapped_zero rfl hzero).never (lastPage_of_end hentry hdvd heq) (by omega) hloop
          obtain ⟨hscan, hstuck⟩ := dumpFirst_rightSoFar hlt hentry hdvd hframe hfit
          have hva := @dumpFirst_va level vaStart word hfit
          have hrun := (dumpFirst_seen hentry hdvd hfit).ascends hend hloop
          obtain ⟨htidy, hgap, hother⟩ := hrun.tidy hscan (by omega) hframes hcorrect
          rw [hva] at htidy hother
          refine ⟨⟨level, word, hentry, hdvd⟩, hframes, (tidy_page hentry hdvd hframe hlt).mpr
            ⟨fun hnon hne => hother (hstuck.mpr ⟨hnon, hne⟩), hva ▸ hgap level rfl, hfit, htidy⟩⟩

/-- **`dump_mappings` terminates with a right output exactly on empty ranges and on those that are `Dumpable`.** -/
theorem dumpMappings_correct_iff (halign : vaEnd % PGSIZE = 0) (hend : vaEnd < 2 ^ 64) :
    DumpsCorrectly s vaStart vaEnd ↔ vaEnd ≤ vaStart ∨ Dumpable s vaStart vaEnd := by
  constructor
  · intro h
    rcases Nat.lt_or_ge vaStart vaEnd with hlt | hle
    · exact Or.inr (h.dumpable hlt hend halign)
    · exact Or.inl hle
  · intro h
    rcases Nat.lt_or_ge vaStart vaEnd with hlt | hle
    · exact (h.resolve_left (Nat.not_le.mpr hlt)).dumpsCorrectly hlt hend
    · exact dumpsCorrectly_empty hle

/-- A page at 0x40000000, mapped to 0x5000, and nothing else. -/
def oneOtherPage : PtState := (ptMapRegion emptyTables 0x5000 0x40000000 4096 PTE_W).2

theorem oneOtherPage_entry {a : Nat} (hlo : 0x40000000 ≤ a) (hhi : a < 0x40001000) :
    oneOtherPage.entry a = some (.l1, 0x5003) := by
  have hentry : oneOtherPage.entry 0x40000000 = some (.l1, 0x5003) := by decide +kernel
  exact entry_in_page hentry (by decide) hlo hhi

/-- A page at 0x40000000, mapped to itself, a hole, and a page that is mapped to 0x5000. -/
def mixedPages : PtState :=
  (ptMapRegion (ptMapRegion emptyTables 0x40000000 0x40000000 4096 PTE_W).2 0x5000 0x40002000 4096 PTE_W).2

theorem mixedPages_entry {a : Nat} (hlo : 0x40000000 ≤ a) (hhi : a < 0x40003000) : mixedPages.entry a =
    if a < 0x40001000 then some (.l1, 0x40000003) else if a < 0x40002000 then none else some (.l1, 0x5003) := by
  have hentries : mixedPages.entry 0x40000000 = some (.l1, 0x40000003) ∧ mixedPages.entry 0x40001000 = none ∧
      mixedPages.entry 0x40002000 = some (.l1, 0x5003) := by decide +kernel
  obtain ⟨hidentity, hhole, hother⟩ := hentries
  split_ifs with hfirst hsecond
  · exact entry_in_page hidentity (by decide) hlo hfirst
  · rw [← hhole]
    apply entry_of_path
    rw [ptPath_eq_iff]
    simp only [PGSIZE]
    omega
  · exact entry_in_page hother (by decide) (Nat.not_lt.mp hsecond) hhi

theorem mixedPages_entry_some {a word : Nat} {level : PtLevel} (hlo : 0x40000000 ≤ a) (hhi : a < 0x40003000)
    (hentry : mixedPages.entry a = some (level, word)) : level = .l1 ∧
      ((a < 0x40001000 ∧ word = 0x40000003) ∨ (0x40002000 ≤ a ∧ word = 0x5003)) := by
  rw [mixedPages_entry hlo hhi] at hentry
  split_ifs at hentry with hfirst hsecond
  · obtain ⟨rfl, rfl⟩ := Prod.mk.inj (Option.some.inj hentry)
    exact ⟨rfl, Or.inl ⟨hfirst, rfl⟩⟩
  · obtain ⟨rfl, rfl⟩ := Prod.mk.inj (Option.some.inj hentry)
    exact ⟨rfl, Or.inr ⟨Nat.not_lt.mp hsecond, rfl⟩⟩

theorem mixedPages_tidy : Tidy mixedPages 0x40000000 0x40003000 where
  other a b level word hlo hle hhi hentry hresolve _ := by
    have hself : mixedPages.entry 0x40000000 = some (.l1, 0x40000003) :=
      mixedPages_entry (le_refl _) (by decide)
    have hlast : mixedPages.entry 0x40002000 = some (.l1, 0x5003) :=
      mixedPages_entry (by decide) (by decide)
    obtain ⟨-, ⟨hfirst, -⟩ | ⟨hthird, -⟩⟩ := mixedPages_entry_some hlo (by omega) hentry
    · have hother := (page_other hself (by decide) (by decide) hlo hfirst).mp
        ⟨by rw [hentry]; exact Option.some_ne_none _, hresolve⟩
      exact absurd (by decide) hother
    · exact (page_other hlast (by decide) (by decide) (hthird.trans hle) hhi).mpr (by decide)
  gap a b level word hlo hentry hle hhi hsome hhole := by
    have hlt := lt_pageEnd level a
    have hhi' : a < 0x40003000 := by omega
    obtain ⟨rfl, ⟨hfirst, -⟩ | ⟨hthird, -⟩⟩ := mixedPages_entry_some hlo hhi' hentry
    · have hend : pageEnd .l1 a = 0x40001000 :=
        (pageEnd_eq (v := 0x40000000) (by decide) hlo (hfirst.trans_eq (by decide))).trans (by decide)
      rw [hend] at hle hhole
      have hb : 0x40002000 ≤ b := by
        by_contra hbefore
        apply hsome
        rw [mixedPages_entry (by omega) (by omega), if_neg (Nat.not_lt.mpr hle), if_pos (by omega)]
      rcases Nat.eq_or_lt_of_le hb with rfl | hbehind
      · decide
      · have hnone := hhole 0x40002000 (by decide) hbehind
        rw [mixedPages_entry (by decide) (by decide)] at hnone
        cases hnone
    · have hend : pageEnd .l1 a = 0x40003000 :=
        (pageEnd_eq (v := 0x40002000) (by decide) hthird (hhi'.trans_eq (by decide))).trans (by decide)
      rw [hend] at hle
      exact absurd hhi (Nat.not_lt.mpr hle)
  top a level word hlo hhi hentry := by
    obtain ⟨rfl, -⟩ := mixedPages_entry_some hlo hhi hentry
    change (a / 4096 + 1) * 4096 < 2 ^ 64
    omega

/-- The range with pages of both kinds and a hole in between. -/
theorem dumpMappings_correct_mixed : DumpsCorrectly mixedPages 0x40000000 0x40003000 := by
  refine (dumpMappings_correct_iff (by decide) (by decide)).mpr (Or.inr ⟨⟨.l1, 0x40000003, ?_, by decide⟩, ?_,
    mixedPages_tidy⟩)
  · exact mixedPages_entry (le_refl _) (by decide)
  · intro a level word hlo hhi hentry
    obtain ⟨rfl, ⟨-, rfl⟩ | ⟨-, rfl⟩⟩ := mixedPages_entry_some hlo hhi hentry <;> decide

/-- The hole behind that page: the region that is called unmapped begins with the page. -/
theorem dumpMappings_correct_not : ¬ DumpsCorrectly oneOtherPage 0x40000000 0x40002000 := by
  intro h
  have htidy := (h.dumpable (by decide) (by decide) (by decide)).tidy
  have hentry := oneOtherPage_entry (le_refl _) (by decide)
  have hother := htidy.other 0x40000000 0x40001000 .l1 0x5003 (by decide) (by decide) (by decide) hentry
    (by decide +kernel) (by decide)
  exact hother.1 (by decide +kernel)

end Dangless
