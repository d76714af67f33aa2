import Dangless.LibRegions
import Dangless.VirtmemChartLayout
import Dangless.VirtmemMmu
import Mathlib.Tactic.Ring

/-! The chart of the address space against the walk of each page. The regions cover the space, and the chart takes
the frame of a large page with the mask of a small one, so that it agrees with the walk exactly if no large page
has a bit set under its frame. -/

namespace Dangless

open TableTree Regions

variable {s : PtState} {regions : VirtmemRegions} {a level table i word : Nat}

/-- The length of what an entry of a level maps. -/
def mappedLength (level : Nat) : Nat := 2 ^ (PGSHIFT + level * PT_BITS_PER_LEVEL)

/-- The index of an address in a table of a level, counted from 0. -/
def levelIndex (a level : Nat) : Fin PT_NUM_ENTRIES :=
  ⟨a / mappedLength level % PT_NUM_ENTRIES, Nat.mod_lt _ (by decide)⟩

def pathBelow (a : Nat) : Nat → List (Fin PT_NUM_ENTRIES)
  | 0 => []
  | level + 1 => levelIndex a level :: pathBelow a level

/-- The entry at which the walk of an address from a table on stops, with its level. -/
def tableLeaf (s : PtState) (a level table : Nat) : Nat × Nat :=
  lookup pteSlot pteChild s.mem table (levelIndex a level) (pathBelow a level)

theorem pathBelow_length (a level : Nat) : (pathBelow a level).length = level := by
  induction level with
  | zero => rfl
  | succ level ih => rw [pathBelow, List.length_cons, ih]

theorem lookup_eq_tableLeaf (s : PtState) (a : Nat) : s.lookup a = tableLeaf s a 3 s.cr3 := by
  have hindex : ∀ level, ptIndex a level = levelIndex a level.below := by
    intro level
    apply Fin.ext
    change ptLevelOffset a level = _
    rw [ptLevelOffset_eq]
    cases level <;> rfl
  unfold PtState.lookup tableLeaf
  simp only [pathBelow, hindex]
  rfl

/-- The walk stops at an entry that refers to no table. -/
theorem tableLeaf_stops (hword : s.mem (pteSlot table (levelIndex a level)) = word)
    (hstop : level = 0 ∨ pteChild word = none) :
    tableLeaf s a level table = (level, pteSlot table (levelIndex a level)) := by
  unfold tableLeaf
  cases level with
  | zero => rfl
  | succ level =>
      have hnone := hstop.resolve_left (Nat.succ_ne_zero level)
      rw [pathBelow, lookup_cons, hword, hnone, pathBelow_length]

theorem tableLeaf_follows {t : Nat} (hword : s.mem (pteSlot table (levelIndex a (level + 1))) = word)
    (hchild : pteChild word = some t) : tableLeaf s a (level + 1) table = tableLeaf s a level t := by
  unfold tableLeaf
  rw [pathBelow, lookup_cons, hword, hchild]

theorem mappedLength_succ (level : Nat) : mappedLength (level + 1) = PT_NUM_ENTRIES * mappedLength level := by
  unfold mappedLength
  rw [Nat.add_mul, Nat.one_mul, ← Nat.add_assoc, Nat.pow_add, Nat.mul_comm]
  rfl

theorem mappedLength_pos (level : Nat) : 0 < mappedLength level := Nat.two_pow_pos _

theorem mappedLength_pages (level : Nat) : mappedLength level % PGSIZE = 0 := by
  unfold mappedLength
  rw [Nat.pow_add]
  exact Nat.mul_mod_right _ _

/-- The addresses of the turn `i` of the loop over a table have the index `i`. -/
theorem levelIndex_eq {base : Nat} (hbase : mappedLength (level + 1) ∣ base) (hi : i < PT_NUM_ENTRIES)
    (hlo : base + i * mappedLength level ≤ a) (hhi : a < base + i * mappedLength level + mappedLength level) :
    levelIndex a level = ⟨i, hi⟩ := by
  obtain ⟨k, rfl⟩ := hbase
  apply Fin.ext
  have hquot : a / mappedLength level = PT_NUM_ENTRIES * k + i := by
    rw [mappedLength_succ] at hlo hhi
    apply Nat.div_eq_of_lt_le
    · calc (PT_NUM_ENTRIES * k + i) * mappedLength level
          = PT_NUM_ENTRIES * mappedLength level * k + i * mappedLength level := by ring
        _ ≤ a := hlo
    · calc a < PT_NUM_ENTRIES * mappedLength level * k + i * mappedLength level + mappedLength level := hhi
        _ = (PT_NUM_ENTRIES * k + i + 1) * mappedLength level := by ring
  change a / mappedLength level % PT_NUM_ENTRIES = i
  rw [hquot, Nat.mul_add_mod, Nat.mod_eq_of_lt hi]

/-- The region agrees with the leaf of an address that lies in it, with the frame as the chart reads it. -/
def ChartedAs (s : PtState) (leaf : Nat × Nat) (a : Nat) (r : VirtmemRegion) : Prop :=
  if flagIsSet r.mappedFlags PTE_V then s.mem leaf.2 &&& CHART_FLAGS = r.mappedFlags ∧
    (s.mem leaf.2 &&& PTE_FRAME) + a % mappedLength leaf.1 = r.paStart + (a - r.vaStart)
  else flagIsSet (s.mem leaf.2) PTE_V = false

/-- `va_start + length` of the last region. -/
def VirtmemRegions.finish (regions : VirtmemRegions) : Nat := regions.current.vaStart + regions.current.length

/-- The regions so far. The first one may be empty. -/
structure ChartInv (s : PtState) (regions : VirtmemRegions) : Prop where
  consecutive : Consecutive VirtmemRegion.vaStart VirtmemRegion.length 0 regions.toList regions.finish
  nonempty : ∀ r ∈ regions.toList.tail, 0 < r.length
  pages : ∀ r ∈ regions.toList, r.length % PGSIZE = 0
  charted : ∀ r ∈ regions.toList, ∀ a, Holds VirtmemRegion.vaStart VirtmemRegion.length r a →
    ChartedAs s (s.lookup a) a r

theorem ChartInv.start (s : PtState) : ChartInv s ⟨[], virtmemRegionAlloc⟩ := by
  refine ⟨⟨rfl, rfl⟩, nofun, ?_, ?_⟩
  · intro r hr
    obtain rfl := List.mem_singleton.mp hr
    rfl
  · rintro r hr a ⟨-, hlt⟩
    obtain rfl := List.mem_singleton.mp hr
    exact absurd hlt (Nat.not_lt_zero a)

theorem ChartInv.grow {length : Nat} (h : ChartInv s regions) (hlength : length % PGSIZE = 0)
    (hcharted : ∀ a, regions.finish ≤ a → a < regions.finish + length →
      ChartedAs s (s.lookup a) a regions.current) : ChartInv s (virtmemRegionGrow regions length) := by
  have hcurrent : ∀ r ∈ (virtmemRegionGrow regions length).toList, r ∈ regions.before ∨
      r = { regions.current with length := regions.current.length + length } := by
    intro r hr
    rcases List.mem_append.mp hr with hr | hr
    · exact Or.inl hr
    · exact Or.inr (List.mem_singleton.mp hr)
  refine ⟨?_, ?_, ?_, ?_⟩
  · exact h.consecutive.grow rfl
  · intro r hr
    unfold virtmemRegionGrow VirtmemRegions.toList at hr
    cases hbefore : regions.before with
    | nil =>
        rw [hbefore] at hr
        cases hr
    | cons first before =>
        have hold := h.nonempty
        unfold VirtmemRegions.toList at hold
        rw [hbefore] at hr hold
        rcases List.mem_append.mp hr with hr | hr
        · exact hold r (List.mem_append_left _ hr)
        · obtain rfl := List.mem_singleton.mp hr
          exact Nat.add_pos_left (hold regions.current (List.mem_append_right _ List.mem_cons_self)) length
  · intro r hr
    rcases hcurrent r hr with hr | rfl
    · exact h.pages r (List.mem_append_left _ hr)
    · have hold := h.pages regions.current (List.mem_append_right _ List.mem_cons_self)
      simp only [PGSIZE] at hold hlength ⊢
      omega
  · intro r hr a ha
    rcases hcurrent r hr with hr | rfl
    · exact h.charted r (List.mem_append_left _ hr) a ha
    · -- what is said of an address does not depend on the length
      by_cases hin : a < regions.finish
      · exact h.charted regions.current (List.mem_append_right _ List.mem_cons_self) a ⟨ha.1, hin⟩
      · apply hcharted a (Nat.le_of_not_lt hin)
        have hhi := ha.2
        simp only [VirtmemRegions.finish] at hhi ⊢
        omega

theorem ChartInv.next {length pa flags : Nat} (h : ChartInv s regions) (hlength : length % PGSIZE = 0)
    (hpos : 0 < length) (hcharted : ∀ a, regions.finish ≤ a → a < regions.finish + length →
      ChartedAs s (s.lookup a) a ⟨regions.finish, pa, length, flags⟩) :
    ChartInv s (virtmemRegionAddNext regions pa length flags) := by
  have hnew : ∀ r ∈ (virtmemRegionAddNext regions pa length flags).toList, r ∈ regions.toList ∨
      r = ⟨regions.finish, pa, length, flags⟩ := by
    intro r hr
    rcases List.mem_append.mp hr with hr | hr
    · exact Or.inl hr
    · exact Or.inr (List.mem_singleton.mp hr)
  refine ⟨?_, ?_, ?_, ?_⟩
  · exact h.consecutive.next rfl
  · intro r hr
    have htail : (virtmemRegionAddNext regions pa length flags).toList.tail =
        regions.toList.tail ++ [⟨regions.finish, pa, length, flags⟩] := by
      unfold virtmemRegionAddNext VirtmemRegions.toList
      cases regions.before with
      | nil => rfl
      | cons first before => rfl
    rw [htail] at hr
    rcases List.mem_append.mp hr with hr | hr
    · exact h.nonempty r hr
    · obtain rfl := List.mem_singleton.mp hr
      exact hpos
  · intro r hr
    rcases hnew r hr with hr | rfl
    · exact h.pages r hr
    · exact hlength
  · intro r hr a ha
    rcases hnew r hr with hr | rfl
    · exact h.charted r hr a ha
    · exact hcharted a ha.1 ha.2

theorem chartFlags_v (word : Nat) : flagIsSet (word &&& CHART_FLAGS) PTE_V = flagIsSet word PTE_V := by
  unfold flagIsSet
  rw [Nat.and_assoc]
  rfl

theorem finish_grow (regions : VirtmemRegions) (length : Nat) :
    (virtmemRegionGrow regions length).finish = regions.finish + length :=
  (Nat.add_assoc _ _ _).symm

/-- The regions that are there once `length` more bytes have been charted. -/
structure Charts (s : PtState) (regions : VirtmemRegions) (length : Nat) (next : VirtmemRegions) : Prop where
  inv : ChartInv s next
  finish : next.finish = regions.finish + length

/-- The addresses that an entry maps, behind the regions so far. -/
structure EntryLeaf (s : PtState) (regions : VirtmemRegions) (level ppte : Nat) : Prop where
  aligned : mappedLength level ∣ regions.finish
  leaf : ∀ a, regions.finish ≤ a → a < regions.finish + mappedLength level → s.lookup a = (level, ppte)

variable {ppte : Nat}

/-- The offset in what the entry maps. -/
theorem EntryLeaf.offset (h : EntryLeaf s regions level ppte) (hlo : regions.finish ≤ a)
    (hhi : a < regions.finish + mappedLength level) : a % mappedLength level = a - regions.finish := by
  obtain ⟨k, hk⟩ := h.aligned
  have hsplit : a = mappedLength level * k + (a - regions.finish) := by omega
  have hlt : a - regions.finish < mappedLength level := by omega
  calc a % mappedLength level
      = (mappedLength level * k + (a - regions.finish)) % mappedLength level := congrArg (· % _) hsplit
    _ = a - regions.finish := by rw [Nat.mul_add_mod, Nat.mod_eq_of_lt hlt]

/-- A present entry grows the last region, if that continues its frame. -/
theorem ChartInv.growMapped (h : ChartInv s regions) (hentry : EntryLeaf s regions level ppte)
    (hflags : s.mem ppte &&& CHART_FLAGS = regions.current.mappedFlags)
    (hpa : flagIsSet (s.mem ppte) PTE_V = true →
      s.mem ppte &&& PTE_FRAME = regions.current.paStart + regions.current.length) :
    Charts s regions (mappedLength level) (virtmemRegionGrow regions (mappedLength level)) := by
  refine ⟨h.grow (mappedLength_pages level) ?_, finish_grow regions _⟩
  intro a hlo hhi
  rw [hentry.leaf a hlo hhi]
  unfold ChartedAs
  rw [← hflags, chartFlags_v]
  split_ifs with hv
  · refine ⟨rfl, ?_⟩
    rw [hentry.offset hlo hhi, hpa hv]
    simp only [VirtmemRegions.finish] at hlo ⊢
    omega
  · exact Bool.eq_false_iff.mpr hv

/-- An entry that is not present grows a region that is not mapped. -/
theorem ChartInv.growUnmapped (h : ChartInv s regions) (hentry : EntryLeaf s regions level ppte)
    (hcurrent : flagIsSet regions.current.mappedFlags PTE_V = false) (hv : flagIsSet (s.mem ppte) PTE_V = false) :
    Charts s regions (mappedLength level) (virtmemRegionGrow regions (mappedLength level)) := by
  refine ⟨h.grow (mappedLength_pages level) ?_, finish_grow regions _⟩
  intro a hlo hhi
  rw [hentry.leaf a hlo hhi]
  unfold ChartedAs
  rw [hcurrent]
  exact hv

/-- A new region. -/
theorem ChartInv.nextEntry {pa : Nat} (h : ChartInv s regions) (hentry : EntryLeaf s regions level ppte)
    (hpa : flagIsSet (s.mem ppte) PTE_V = true → pa = s.mem ppte &&& PTE_FRAME) :
    Charts s regions (mappedLength level)
      (virtmemRegionAddNext regions pa (mappedLength level) (s.mem ppte &&& CHART_FLAGS)) := by
  refine ⟨h.next (mappedLength_pages level) (mappedLength_pos level) ?_, rfl⟩
  intro a hlo hhi
  rw [hentry.leaf a hlo hhi]
  unfold ChartedAs
  rw [chartFlags_v]
  split_ifs with hv
  · refine ⟨rfl, ?_⟩
    rw [hentry.offset hlo hhi, hpa hv]
  · exact Bool.eq_false_iff.mpr hv

/-- An entry that refers to no table. -/
theorem ChartInv.entry (h : ChartInv s regions) (hentry : EntryLeaf s regions level ppte)
    (hstop : level = 0 ∨ pteChild (s.mem ppte) = none) (below : Nat → VirtmemRegions → VirtmemRegions) :
    Charts s regions (mappedLength level) (chartEntry level below (s.mem ppte) regions) := by
  unfold chartEntry
  dsimp only
  split_ifs with hlevel hv hps hsame hcurrent hsame hv
  · exact h.growMapped hentry hsame.1 fun _ => hsame.2
  · exact h.nextEntry hentry fun _ => rfl
  · -- the entry refers to a table
    have hnone := hstop.resolve_left (Nat.ne_of_gt hlevel)
    unfold pteChild at hnone
    simp [hv, hps] at hnone
  · exact h.nextEntry hentry fun hmapped => absurd hmapped hv
  · exact h.growUnmapped hentry (Bool.eq_false_iff.mpr hcurrent) (Bool.eq_false_iff.mpr hv)
  · obtain rfl : level = 0 := Nat.eq_zero_of_not_pos hlevel
    refine h.growMapped hentry hsame.1 fun hv => hsame.2.resolve_left ?_
    rw [hv]
    decide
  · obtain rfl : level = 0 := Nat.eq_zero_of_not_pos hlevel
    exact h.nextEntry hentry fun _ => rfl
  · obtain rfl : level = 0 := Nat.eq_zero_of_not_pos hlevel
    exact h.nextEntry hentry fun hmapped => absurd hmapped hv

/-- The turns of a loop, each of which charts the next `length` bytes. -/
theorem chartEntries_charts {length n : Nat} {turn : Nat → VirtmemRegions → VirtmemRegions} (h : ChartInv s regions)
    (hturn : ∀ i < n, ∀ next, Charts s regions (i * length) next → Charts s next length (turn i next)) :
    Charts s regions (n * length) (chartEntries turn n regions) := by
  induction n with
  | zero => exact ⟨h, by rw [Nat.zero_mul]; rfl⟩
  | succ n ih =>
      have hbefore := ih fun i hi => hturn i (by omega)
      obtain ⟨hinv, hfinish⟩ := hturn n (Nat.lt_succ_self n) _ hbefore
      refine ⟨hinv, hfinish.trans ?_⟩
      rw [hbefore.finish, Nat.add_assoc, Nat.succ_mul]

/-- The turn `i` of the loop over a table charts the addresses with the index `i`. -/
theorem Charts.turn {next : VirtmemRegions} (hnext : Charts s regions (i * mappedLength level) next)
    (haligned : mappedLength (level + 1) ∣ regions.finish) (hi : i < PT_NUM_ENTRIES)
    (hleaf : ∀ a, regions.finish ≤ a → a < regions.finish + mappedLength (level + 1) →
      s.lookup a = tableLeaf s a level table) :
    mappedLength level ∣ next.finish ∧ ∀ a, next.finish ≤ a → a < next.finish + mappedLength level →
      pteSlot table (levelIndex a level) = table + 8 * i ∧ s.lookup a = tableLeaf s a level table := by
  have hdvd : mappedLength level ∣ mappedLength (level + 1) :=
    ⟨PT_NUM_ENTRIES, by rw [mappedLength_succ, Nat.mul_comm]⟩
  have hend : i * mappedLength level + mappedLength level ≤ mappedLength (level + 1) := by
    rw [mappedLength_succ, ← Nat.succ_mul]
    exact Nat.mul_le_mul_right _ hi
  rw [hnext.finish]
  refine ⟨Nat.dvd_add (hdvd.trans haligned) (Nat.dvd_mul_left _ _), fun a hlo hhi => ?_⟩
  rw [levelIndex_eq haligned hi hlo hhi]
  exact ⟨rfl, hleaf a (by omega) (by omega)⟩

/-- **A table and all tables below it.** -/
theorem chartInternal_charts (h : ChartInv s regions) (haligned : mappedLength (level + 1) ∣ regions.finish)
    (hleaf : ∀ a, regions.finish ≤ a → a < regions.finish + mappedLength (level + 1) →
      s.lookup a = tableLeaf s a level table) :
    Charts s regions (mappedLength (level + 1)) (virtmemChartLayoutInternal s level table regions) := by
  induction level generalizing table regions with
  | zero =>
      rw [mappedLength_succ]
      apply chartEntries_charts h
      intro i hi next hnext
      obtain ⟨hdvd, hblock⟩ := hnext.turn haligned hi hleaf
      apply hnext.inv.entry ⟨hdvd, fun a hlo hhi => ?_⟩ (Or.inl rfl)
      obtain ⟨hslot, hlookup⟩ := hblock a hlo hhi
      rw [hlookup, tableLeaf_stops rfl (Or.inl rfl), hslot]
  | succ level ih =>
      rw [mappedLength_succ]
      apply chartEntries_charts h
      intro i hi next hnext
      obtain ⟨hdvd, hblock⟩ := hnext.turn haligned hi hleaf
      cases hchild : pteChild (s.mem (table + 8 * i)) with
      | none =>
          apply hnext.inv.entry ⟨hdvd, fun a hlo hhi => ?_⟩ (Or.inr hchild)
          obtain ⟨hslot, hlookup⟩ := hblock a hlo hhi
          rw [hlookup, tableLeaf_stops rfl (Or.inr (hslot ▸ hchild)), hslot]
      | some t =>
          obtain ⟨hflags, rfl⟩ := pteChild_eq_some.mp hchild
          have hbelow : chartEntry (level + 1) (virtmemChartLayoutInternal s level) (s.mem (table + 8 * i)) next =
              virtmemChartLayoutInternal s level (s.mem (table + 8 * i) &&& PTE_FRAME) next := by
            rw [Bool.or_eq_false_iff, Bool.not_eq_false'] at hflags
            unfold chartEntry
            dsimp only
            rw [if_pos (Nat.succ_pos level), if_pos hflags.1, if_neg (by rw [hflags.2]; decide)]
          rw [hbelow]
          apply ih hnext.inv hdvd
          intro a hlo hhi
          obtain ⟨hslot, hlookup⟩ := hblock a hlo hhi
          rw [hlookup]
          exact tableLeaf_follows rfl (hslot ▸ hchild)

/-! ### The whole chart -/

/-- The page-table entry that the walk of an address stops at agrees with the region: it is not present, or maps
the address to the same place with the same flags. -/
def WalkAgrees (s : PtState) (a : Nat) (r : VirtmemRegion) : Prop :=
  let (level, ppte) := ptWalk s a .l1
  if flagIsSet r.mappedFlags PTE_V then
    flagIsSet (s.mem ppte) PTE_V = true ∧
    (ptResolvePage s a).1 + getPageOffset a level = r.paStart + (a - r.vaStart) ∧
    s.mem ppte &&& CHART_FLAGS = r.mappedFlags
  else flagIsSet (s.mem ppte) PTE_V = false

/-- Nonempty regions that cover the address space one after the other, and say of the addresses in them what
`describes` requires. -/
structure VirtmemLayout (describes : Nat → VirtmemRegion → Prop) (regions : List VirtmemRegion) : Prop where
  consecutive : Consecutive VirtmemRegion.vaStart VirtmemRegion.length 0 regions VIRTMEM_END
  nonempty : ∀ r ∈ regions, 0 < r.length
  described : ∀ r ∈ regions, ∀ a, a % PGSIZE = 0 → Holds VirtmemRegion.vaStart VirtmemRegion.length r a →
    describes a r

/-- No large page of a table has a bit set between its flags and its frame. -/
def FramesAligned (s : PtState) : Prop :=
  ∀ path i t, path.length = 1 ∨ path.length = 2 → s.follow path = some t →
    flagIsSet (s.mem (pteSlot t i)) PTE_V = true → flagIsSet (s.mem (pteSlot t i)) PTE_PS = true →
    s.mem (pteSlot t i) &&& PTE_FRAME = s.mem (pteSlot t i) &&& if path.length = 1 then PTE_FRAME_1G else PTE_FRAME_2M

/-- The first region is empty if the first address is mapped, and is then left out. -/
theorem ChartInv.layout (h : ChartInv s regions) (hfinish : regions.finish = VIRTMEM_END) {first : VirtmemRegion}
    {rest : List VirtmemRegion} (hlist : regions.toList = first :: rest) :
    VirtmemLayout (fun a r => ChartedAs s (s.lookup a) a r) (if first.length = 0 then rest else first :: rest) := by
  have hconsecutive := h.consecutive
  have hnonempty := h.nonempty
  have hcharted := h.charted
  rw [hlist] at hconsecutive hnonempty hcharted
  rw [hfinish] at hconsecutive
  split_ifs with hempty
  · have hrest := hconsecutive.2
    rw [hempty] at hrest
    exact ⟨hrest, hnonempty, fun r hr a _ => hcharted r (List.mem_cons_of_mem _ hr) a⟩
  · refine ⟨hconsecutive, fun r hr => ?_, fun r hr a _ => hcharted r hr a⟩
    rcases List.mem_cons.mp hr with rfl | hr
    · exact Nat.pos_of_ne_zero hempty
    · exact hnonempty r hr

/-- **The chart** covers the address space and says what the tables say, with the frames as it reads them. -/
theorem virtmemChartLayout_charted (s : PtState) :
    VirtmemLayout (fun a r => ChartedAs s (s.lookup a) a r) (virtmemChartLayout s s.cr3) := by
  obtain ⟨hinv, hfinish⟩ := @chartInternal_charts s ⟨[], virtmemRegionAlloc⟩ 3 s.cr3 (ChartInv.start s)
    (Nat.dvd_zero _) fun a _ _ => lookup_eq_tableLeaf s a
  unfold virtmemChartLayout
  dsimp only
  cases hlist : (virtmemChartLayoutInternal s 3 s.cr3 ⟨[], virtmemRegionAlloc⟩).toList with
  | nil => exact absurd hlist (List.concat_ne_nil _ _)
  | cons first rest =>
      apply hinv.layout ?_ hlist
      rw [hfinish]
      decide

/-- The table and the index in it at which the walk of an address stops. -/
theorem lookup_stops (s : PtState) (a : Nat) : ∃ path i rest t, ptPath a = path ++ i :: rest ∧
    path.length + rest.length = 3 ∧ s.follow path = some t ∧ s.lookup a = (rest.length, pteSlot t i) ∧
    (rest = [] ∨ pteChild (s.mem (pteSlot t i)) = none) := by
  obtain ⟨path, i, rest, t, hpath, ht, hlookup, hstop⟩ := lookup_spec s.mem s.cr3 (ptIndex a .l4)
    [ptIndex a .l3, ptIndex a .l2, ptIndex a .l1]
  refine ⟨path, i, rest, t, hpath, ?_, ht, hlookup, hstop⟩
  have hlength := congrArg List.length hpath
  simp only [List.length_cons, List.length_append, List.length_nil] at hlength
  omega

theorem lookup_level_le (s : PtState) (a : Nat) : (s.lookup a).1 ≤ 3 := by
  obtain ⟨path, i, rest, t, -, hlength, -, hlookup, -⟩ := lookup_stops s a
  rw [hlookup]
  exact Nat.le_of_add_left_le hlength.le

theorem getPageOffset_levelAbove (a : Nat) {level : Nat} (hlevel : level ≤ 3) :
    getPageOffset a (levelAbove level) = a % mappedLength level := by
  rw [getPageOffset_eq]
  match level, hlevel with
  | 0, _ => rfl
  | 1, _ => rfl
  | 2, _ => rfl
  | 3, _ => rfl

/-- The page that `pt_resolve_page` finds for a present entry. -/
theorem ptResolvePage_page (s : PtState) (a : Nat) (hv : flagIsSet (s.mem (s.lookup a).2) PTE_V = true) :
    (ptResolvePage s a).1 = ptEntryPage (s.mem (s.lookup a).2) (levelAbove (s.lookup a).1) := by
  unfold ptResolvePage
  rw [ptWalk_full]
  dsimp only
  rw [hv]
  cases levelAbove (s.lookup a).1 <;> rfl

/-- The mask of the chart gives the frame that the walk of an address gives. -/
def FrameAgrees (s : PtState) (a : Nat) : Prop :=
  flagIsSet (s.mem (s.lookup a).2) PTE_V = true →
    s.mem (s.lookup a).2 &&& PTE_FRAME = ptEntryPage (s.mem (s.lookup a).2) (levelAbove (s.lookup a).1)

/-- What the chart says of an address is what the walk says if both read the same frame. -/
theorem ChartedAs.walkAgrees_iff {r : VirtmemRegion} (h : ChartedAs s (s.lookup a) a r) :
    WalkAgrees s a r ↔ FrameAgrees s a := by
  unfold ChartedAs at h
  unfold WalkAgrees FrameAgrees
  rw [ptWalk_full]
  dsimp only
  rw [getPageOffset_levelAbove a (lookup_level_le s a)]
  split_ifs at h ⊢ with hmapped
  · obtain ⟨hflags, hpa⟩ := h
    have hv : flagIsSet (s.mem (s.lookup a).2) PTE_V = true := by
      rw [← chartFlags_v, hflags, hmapped]
    rw [ptResolvePage_page s a hv, ← hpa]
    constructor
    · rintro ⟨-, hpage, -⟩ -
      exact (Nat.add_right_cancel hpage).symm
    · intro hframe
      exact ⟨hv, by rw [hframe hv], hflags⟩
  · refine ⟨fun hv hpresent => ?_, fun _ => h⟩
    rw [hv] at hpresent
    cases hpresent

/-- Every path of indices belongs to a page. -/
theorem exists_ptPath (i4 i3 i2 i1 : Fin PT_NUM_ENTRIES) :
    ∃ a < VIRTMEM_END, a % PGSIZE = 0 ∧ ptPath a = [i4, i3, i2, i1] := by
  have h4 : i4.val < 512 := i4.isLt
  have h3 : i3.val < 512 := i3.isLt
  have h2 : i2.val < 512 := i2.isLt
  have h1 : i1.val < 512 := i1.isLt
  let page := ((i4.val * 512 + i3) * 512 + i2) * 512 + i1
  have hdiv : ∀ n, page * 4096 / 2 ^ (12 + n) = page / 2 ^ n := by
    intro n
    rw [Nat.pow_add, ← Nat.div_div_eq_div_mul]
    exact congrArg (· / 2 ^ n) (Nat.mul_div_cancel page (by decide))
  have hindex : ∀ level i, page / 2 ^ ((level.toNat - 1) * 9) % 512 = i →
      ptLevelOffset (page * 4096) level = i := by
    intro level i hi
    rw [ptLevelOffset_eq]
    exact (congrArg (· % 512) (hdiv _)).trans hi
  refine ⟨page * 4096, ?_, Nat.mul_mod_left _ _, ?_⟩
  · simp only [VIRTMEM_END, page]
    omega
  · simp only [ptPath, List.cons.injEq, and_true]
    refine ⟨Fin.ext (hindex .l4 i4 ?_), Fin.ext (hindex .l3 i3 ?_), Fin.ext (hindex .l2 i2 ?_),
      Fin.ext (hindex .l1 i1 ?_)⟩ <;> simp only [PtLevel.toNat, page] <;> omega

theorem exists_page (path : List (Fin PT_NUM_ENTRIES)) (i : Fin PT_NUM_ENTRIES) (hlength : path.length ≤ 3) :
    ∃ a < VIRTMEM_END, a % PGSIZE = 0 ∧ ∃ rest, ptPath a = path ++ i :: rest ∧ path.length + rest.length = 3 := by
  match path, hlength with
  | [], _ =>
      obtain ⟨a, hlt, hpage, ha⟩ := exists_ptPath i i i i
      exact ⟨a, hlt, hpage, _, ha, rfl⟩
  | [i4], _ =>
      obtain ⟨a, hlt, hpage, ha⟩ := exists_ptPath i4 i i i
      exact ⟨a, hlt, hpage, _, ha, rfl⟩
  | [i4, i3], _ =>
      obtain ⟨a, hlt, hpage, ha⟩ := exists_ptPath i4 i3 i i
      exact ⟨a, hlt, hpage, _, ha, rfl⟩
  | [i4, i3, i2], _ =>
      obtain ⟨a, hlt, hpage, ha⟩ := exists_ptPath i4 i3 i2 i
      exact ⟨a, hlt, hpage, [], ha, rfl⟩

/-- The page that a large entry below a path maps. -/
theorem largePage (word : Nat) {pathLength restLength : Nat} (hsum : pathLength + restLength = 3)
    (hlength : pathLength = 1 ∨ pathLength = 2) : ptEntryPage word (levelAbove restLength) =
      word &&& if pathLength = 1 then PTE_FRAME_1G else PTE_FRAME_2M := by
  rcases hlength with rfl | rfl
  · obtain rfl : restLength = 2 := by omega
    rfl
  · obtain rfl : restLength = 1 := by omega
    rfl

theorem framesAligned_iff (hps : ∀ i, flagIsSet (s.mem (pteSlot s.cr3 i)) PTE_PS = false) :
    (∀ a < VIRTMEM_END, a % PGSIZE = 0 → FrameAgrees s a) ↔ FramesAligned s := by
  constructor
  · -- a page that the entry maps
    intro hagrees path i t hlength ht hv hlarge
    obtain ⟨a, hlt, hpage, rest, hpath, hsum⟩ := exists_page path i (by omega)
    have hnone : pteChild (s.mem (pteSlot t i)) = none := by
      rw [pteChild_eq_none, hv, hlarge]
      rfl
    have hlookup : s.lookup a = (rest.length, pteSlot t i) := lookup_through ht hnone hpath
    have hframe := hagrees a hlt hpage
    unfold FrameAgrees at hframe
    rw [hlookup] at hframe
    exact (hframe hv).trans (largePage _ hsum hlength)
  · intro haligned a _ _ hv
    obtain ⟨path, i, rest, t, -, hsum, ht, hlookup, hstop⟩ := lookup_stops s a
    rw [hlookup] at hv ⊢
    rcases hstop with rfl | hnone
    · rfl
    · have hlarge : flagIsSet (s.mem (pteSlot t i)) PTE_PS = true := by
        rw [pteChild_eq_none, hv] at hnone
        exact hnone
      have hpath : path ≠ [] := by
        rintro rfl
        obtain rfl := Option.some.inj ht
        exact absurd hlarge (Bool.eq_false_iff.mp (hps i))
      have hpos := List.length_pos_iff.mpr hpath
      by_cases hshort : path.length = 3
      · obtain rfl := List.length_eq_zero_iff.mp (show rest.length = 0 by omega)
        rfl
      · have hlength : path.length = 1 ∨ path.length = 2 := by omega
        exact (haligned path i t hlength ht hv hlarge).trans (largePage _ hsum hlength).symm

/-- The chart agrees with the walks of the pages whose frames both read alike. -/
theorem virtmemChartLayout_agrees (s : PtState) : VirtmemLayout (WalkAgrees s) (virtmemChartLayout s s.cr3) ↔
    ∀ a < VIRTMEM_END, a % PGSIZE = 0 → FrameAgrees s a := by
  have hcharted := virtmemChartLayout_charted s
  constructor
  · intro h a hlt hpage
    obtain ⟨r, hr, hholds⟩ := h.consecutive.exists_holds (Nat.zero_le a) hlt
    apply (hcharted.described r hr a hpage hholds).walkAgrees_iff.mp
    exact h.described r hr a hpage hholds
  · intro h
    refine ⟨hcharted.consecutive, hcharted.nonempty, fun r hr a hpage hholds => ?_⟩
    apply (hcharted.described r hr a hpage hholds).walkAgrees_iff.mpr
    exact h a (hcharted.consecutive.lt_of_holds hr hholds) hpage

/-- **The chart agrees with all walks** exactly if no large page has a bit set between its flags and its frame. -/
theorem virtmemChartLayout_agrees_iff (hps : ∀ i, flagIsSet (s.mem (pteSlot s.cr3 i)) PTE_PS = false) :
    VirtmemLayout (WalkAgrees s) (virtmemChartLayout s s.cr3) ↔ FramesAligned s :=
  (virtmemChartLayout_agrees s).trans (framesAligned_iff hps)

/-- Tables with one large page, of level 2, at 0. -/
def largeTables (word : Nat) : PtState where
  cr3 := 0x1000
  mem := fun addr => if addr = 0x1000 then 0x2003 else if addr = 0x2000 then 0x3003
    else if addr = 0x3000 then word else 0
  pool := []
  flushed := []

theorem largeTables_ps (word : Nat) (i : Fin PT_NUM_ENTRIES) :
    flagIsSet ((largeTables word).mem (pteSlot (largeTables word).cr3 i)) PTE_PS = false := by
  have hroot : ∀ i : Fin PT_NUM_ENTRIES, flagIsSet ((largeTables 0).mem (pteSlot 0x1000 i)) PTE_PS = false ∧
      pteSlot 0x1000 i ≠ 0x3000 := by decide +kernel
  obtain ⟨hps, hne⟩ := hroot i
  simp only [largeTables, if_neg hne] at hps ⊢
  exact hps

/-- A page with the frame `0x40000000`. -/
theorem virtmemChartLayout_agrees_large :
    VirtmemLayout (WalkAgrees (largeTables 0x40000083)) (virtmemChartLayout (largeTables 0x40000083) 0x1000) := by
  apply (virtmemChartLayout_agrees_iff (largeTables_ps 0x40000083)).mpr
  intro path i t _ _ hv hlarge
  simp only [largeTables] at hv hlarge ⊢
  split_ifs at hv hlarge ⊢
  all_goals first | exact absurd hv (by decide) | exact absurd hlarge (by decide) | decide

/-- Bit 12, with which a page chooses its memory type (`PAT`), is also set. The chart has the page at `0x40001000`. -/
theorem virtmemChartLayout_disagrees_pat :
    (∀ i, flagIsSet ((largeTables 0x40001083).mem (pteSlot (largeTables 0x40001083).cr3 i)) PTE_PS = false) ∧
    ¬VirtmemLayout (WalkAgrees (largeTables 0x40001083)) (virtmemChartLayout (largeTables 0x40001083) 0x1000) := by
  refine ⟨largeTables_ps _, fun h => ?_⟩
  have hframe := (virtmemChartLayout_agrees (largeTables 0x40001083)).mp h 0 (by decide) rfl
  have hv : flagIsSet ((largeTables 0x40001083).mem ((largeTables 0x40001083).lookup 0).2) PTE_V = true := by
    decide
  exact absurd (hframe hv) (by decide)

end Dangless
