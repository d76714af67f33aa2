import Dangless.LibRun
import Dangless.VirtmemMmu

/-! The access rights of mapped pages. `pt_map_page` gives the entries that it creates above level 1 the
flags of the page it maps, so the rights of a later page depend on the first page under each of them. -/

namespace Dangless

open TableTree

variable {s s' : PtState} {va : Nat} {p : List (Fin PT_NUM_ENTRIES)} {i : Fin PT_NUM_ENTRIES}

/-- The rights that the flags of a mapping ask for. -/
def flagRights (flags : Nat) : Paging.Rights :=
  ⟨flagIsSet flags PTE_W, flagIsSet flags PTE_U, flagIsSet flags PTE_NX⟩

/-- The effective rights of an address: what all levels allow. -/
def ptRights (s : PtState) (va : Nat) : Option Paging.Rights :=
  (Paging.walk s.mem va 3 s.cr3).map (·.rights)

/-- The flags that a page may have: any of `PTE_W`, `PTE_U` and `PTE_NX`. -/
def RightsFlags (flags : Nat) : Prop := flags &&& (PTE_W ||| PTE_U ||| PTE_NX) = flags

theorem RightsFlags.ok {flags : Nat} (h : RightsFlags flags) : FlagsOk flags := by
  constructor
  · rw [← h, Nat.and_assoc, show (PTE_W ||| PTE_U ||| PTE_NX) &&& PTE_FRAME = 0 by decide, Nat.and_zero]
  · rw [← h, Nat.and_assoc, show (PTE_W ||| PTE_U ||| PTE_NX) &&& PTE_PS = 0 by decide, Nat.and_zero]

/-- An entry has the rights of its flags. -/
theorem entryRights_eq {t flags : Nat} (halign : t % PGSIZE = 0) (hlt : t < 2 ^ 52) :
    Paging.entryRights (t ||| flags ||| PTE_V) = flagRights flags := by
  have ht : t = t / 2 ^ 12 * 2 ^ 12 := by
    simp only [PGSIZE] at halign
    omega
  have hlow : ∀ i, i < 12 → t.testBit i = false := by
    intro i hi
    rw [ht, Nat.testBit_mul_two_pow]
    simp [Nat.not_le.mpr hi]
  have hhigh : t.testBit 63 = false := Nat.testBit_lt_two_pow (hlt.trans (by decide))
  have hbit : ∀ i, PTE_V.testBit i = false → t.testBit i = false →
      (t ||| flags ||| PTE_V).testBit i = flagIsSet flags (2 ^ i) := by
    intro i hv hti
    rw [Nat.testBit_or, Nat.testBit_or, hv, hti, flagIsSet_two_pow]
    simp
  rw [Paging.entryRights, hbit 1 (by decide) (hlow 1 (by decide)), hbit 2 (by decide) (hlow 2 (by decide)),
    hbit 63 (by decide) hhigh]
  rfl

/-- The table that an entry refers to is a page address. -/
theorem pteChild_table {word t : Nat} (h : pteChild word = some t) :
    Paging.present word = true ∧ Paging.large word = false ∧ Paging.frame word 12 = t ∧
      t % PGSIZE = 0 ∧ t < 2 ^ 52 := by
  obtain ⟨hstop, rfl⟩ := pteChild_eq_some.mp h
  simp only [Bool.or_eq_false_iff, Bool.not_eq_false'] at hstop
  refine ⟨flagIsSet_v word ▸ hstop.1, flagIsSet_ps word ▸ hstop.2, (frame_4k word).symm, frame_aligned _, ?_⟩
  have hle := frame_lt word (show 12 ≤ 52 by decide)
  rw [show word &&& PTE_FRAME = _ from frame_4k word]
  omega

/-- A level of the walk at an entry that refers to a table. -/
theorem walk_step {level : PtLevel} {n t u : Nat} (hlevel : level.below = n + 1)
    (hchild : pteChild (s.mem (pteSlot t (ptIndex va level))) = some u) :
    Paging.walk s.mem va (n + 1) t = (Paging.walk s.mem va n u).map fun leaf =>
      { leaf with
        rights := (Paging.entryRights (s.mem (pteSlot t (ptIndex va level)))).meet leaf.rights } := by
  obtain ⟨hpresent, hlarge, hframe, -, -⟩ := pteChild_table hchild
  have hslot : Paging.slot t va (n + 1) = pteSlot t (ptIndex va level) := by
    rw [← hlevel, ← slot_eq]
    rfl
  rw [Paging.walk_table (congrArg s.mem hslot) hpresent hlarge, hframe]

/-- The rights of a page with a 4K entry: those of the four entries on its path. -/
theorem ptRights_of_entry {w4 w3 w2 w1 : Nat} (h4 : s.word [] (ptIndex va .l4) = some w4)
    (h3 : s.word [ptIndex va .l4] (ptIndex va .l3) = some w3)
    (h2 : s.word [ptIndex va .l4, ptIndex va .l3] (ptIndex va .l2) = some w2)
    (h1 : s.entry va = some (.l1, w1)) :
    ptRights s va = some ((Paging.entryRights w4).meet ((Paging.entryRights w3).meet
      ((Paging.entryRights w2).meet (Paging.entryRights w1)))) := by
  obtain ⟨hwalkLevel, t1, ht1, hppte⟩ := entry_l1_table h1
  obtain ⟨t2, ht2, hstep2⟩ := follow_prefix (p := [ptIndex va .l4, ptIndex va .l3])
    (q := [ptIndex va .l2]) ht1
  obtain ⟨t3, ht3, hstep3⟩ := follow_prefix (p := [ptIndex va .l4]) (q := [ptIndex va .l3]) ht2
  have hchild4 : pteChild (s.mem (pteSlot s.cr3 (ptIndex va .l4))) = some t3 := by
    rwa [show [ptIndex va .l4] = [] ++ [ptIndex va .l4] from rfl, follow_snoc rfl] at ht3
  have hchild3 : pteChild (s.mem (pteSlot t3 (ptIndex va .l3))) = some t2 := by
    rwa [show [ptIndex va .l3] = [] ++ [ptIndex va .l3] from rfl, follow_snoc rfl] at hstep3
  have hchild2 : pteChild (s.mem (pteSlot t2 (ptIndex va .l2))) = some t1 := by
    rwa [show [ptIndex va .l2] = [] ++ [ptIndex va .l2] from rfl, follow_snoc rfl] at hstep2
  have hword4 : s.mem (pteSlot s.cr3 (ptIndex va .l4)) = w4 := Option.some.inj h4
  have hword3 : s.mem (pteSlot t3 (ptIndex va .l3)) = w3 := by
    rw [PtState.word, PtState.follow, ht3] at h3
    exact Option.some.inj h3
  have hword2 : s.mem (pteSlot t2 (ptIndex va .l2)) = w2 := by
    rw [PtState.word, PtState.follow, ht2] at h2
    exact Option.some.inj h2
  have hword1 : s.mem (Paging.slot t1 va 0) = w1 ∧ Paging.present w1 = true := by
    have hslot : Paging.slot t1 va 0 = pteSlot t1 (ptIndex va .l1) := (slot_eq t1 va .l1).symm
    unfold PtState.entry at h1
    dsimp only at h1
    rw [hppte] at h1
    split_ifs at h1 with hv
    obtain rfl := (Prod.mk.inj (Option.some.inj h1)).2
    exact ⟨congrArg s.mem hslot, flagIsSet_v _ ▸ hv⟩
  unfold ptRights
  rw [walk_step rfl hchild4, walk_step rfl hchild3, walk_step rfl hchild2, Paging.walk_zero, hword1.1,
    hword1.2, hword4, hword3, hword2]
  rfl

/-- A call of `pt_map_page`. -/
structure MapCall where
  pa : Nat
  va : Nat
  flags : Nat
  deriving DecidableEq, Repr

/-- A successful call that maps an unmapped page. -/
structure MapStep (s : PtState) (call : MapCall) (s' : PtState) : Prop where
  aligned : call.pa % PGSIZE = 0
  lt : call.pa < 2 ^ 52
  flags : RightsFlags call.flags
  unmapped : s.entry call.va = none
  result : ptMapPage s call.pa call.va call.flags = (0, s')

/-- The flags of the first call whose page is under the entry at the end of a path. -/
def firstFlags (calls : List MapCall) (path : List (Fin PT_NUM_ENTRIES)) : Nat :=
  ((calls.find? fun call => path.isPrefixOf (ptPath call.va)).map (·.flags)).getD 0

/-- The flags of an entry above do not take from a page what its own flags give: it is writable and
user if the page is, and no-execute only if the page is. -/
def Allows (upper flags : Nat) : Prop :=
  (flagIsSet flags PTE_W = true → flagIsSet upper PTE_W = true) ∧
  (flagIsSet flags PTE_U = true → flagIsSet upper PTE_U = true) ∧
  (flagIsSet upper PTE_NX = true → flagIsSet flags PTE_NX = true)

/-- The first call under an entry stays the first one. -/
theorem firstFlags_append_of_mem {calls more : List MapCall} {path : List (Fin PT_NUM_ENTRIES)}
    {call : MapCall} (hmem : call ∈ calls) (hpath : path <+: ptPath call.va) :
    firstFlags (calls ++ more) path = firstFlags calls path := by
  have hsome : (calls.find? fun call => path.isPrefixOf (ptPath call.va)).isSome := by
    rw [List.find?_isSome]
    exact ⟨call, hmem, List.isPrefixOf_iff_prefix.mpr hpath⟩
  obtain ⟨first, hfirst⟩ := Option.isSome_iff_exists.mp hsome
  unfold firstFlags
  rw [List.find?_append, hfirst]
  rfl

theorem firstFlags_append_of_not_mem {calls : List MapCall} {path : List (Fin PT_NUM_ENTRIES)}
    {call : MapCall} (hnone : ∀ c ∈ calls, ¬ path <+: ptPath c.va) (hpath : path <+: ptPath call.va) :
    firstFlags (calls ++ [call]) path = call.flags := by
  have hfind : (calls.find? fun c => path.isPrefixOf (ptPath c.va)) = none := by
    rw [List.find?_eq_none]
    intro c hc hpre
    exact hnone c hc (List.isPrefixOf_iff_prefix.mp hpre)
  unfold firstFlags
  rw [List.find?_append, hfind, List.find?_singleton, List.isPrefixOf_iff_prefix.mpr hpath]
  rfl

/-- The top-level entry of an address refers to no table. -/
def EmptySubtree (s : PtState) (va : Nat) : Prop :=
  flagIsSet (s.mem (pteSlot s.cr3 (ptIndex va .l4))) PTE_V = false

/-- What a sequence of mappings leaves under top-level entries that were empty: an entry above level 1
has the flags of the first page under it. -/
structure RightsInv (s0 : PtState) (calls : List MapCall) (s : PtState) : Prop where
  inv : PtInv (fun _ => True) s
  tables : ∀ call ∈ calls, ∀ p i, p.length ≤ 2 → p ++ [i] <+: ptPath call.va →
    ∃ t, s.follow (p ++ [i]) = some t ∧
      s.word p i = some (t ||| firstFlags calls (p ++ [i]) ||| PTE_V)
  onlyCalls : ∀ va, EmptySubtree s0 va → ∀ p i t, p.length ≤ 2 → p ++ [i] <+: ptPath va →
    s.follow (p ++ [i]) = some t → ∃ call ∈ calls, p ++ [i] <+: ptPath call.va
  leaves : ∀ call ∈ calls, s.entry call.va = some (.l1, call.pa ||| call.flags ||| PTE_V)

theorem RightsInv.init (hinv : PtInv (fun _ => True) s) : RightsInv s [] s := by
  refine ⟨hinv, fun call h => absurd h List.not_mem_nil, fun va hempty p i t _ hpath ht => ?_,
    fun call h => absurd h List.not_mem_nil⟩
  -- the path starts at the empty entry
  obtain ⟨j, rest, hj⟩ : ∃ j rest, p ++ [i] = j :: rest := by
    cases p with
    | nil => exact ⟨i, [], rfl⟩
    | cons j p => exact ⟨j, p ++ [i], rfl⟩
  rw [hj] at hpath ht
  obtain rfl : j = ptIndex va .l4 := (List.cons_prefix_cons.mp hpath).1
  rw [PtState.follow, follow_cons] at ht
  obtain ⟨u, hu, -⟩ := Option.bind_eq_some_iff.mp ht
  have hpresent := (pteChild_table hu).1
  rw [← flagIsSet_v, show flagIsSet _ PTE_V = false from hempty] at hpresent
  exact absurd hpresent (by decide)

/-- The tables on the path of a page with a 4K entry. -/
theorem follow_of_entry_l1 {w : Nat} (h : s.entry va = some (.l1, w)) (hp : p.length ≤ 2)
    (hpath : p ++ [i] <+: ptPath va) : ∃ t, s.follow (p ++ [i]) = some t := by
  obtain ⟨-, t1, ht1, -⟩ := entry_l1_table h
  have hpre : p ++ [i] <+: ptPrefix va .l1 := by
    refine List.prefix_of_prefix_length_le hpath (ptPrefix_isPrefix va .l1) ?_
    simp only [List.length_append, List.length_cons, List.length_nil, ptPrefix]
    omega
  obtain ⟨rest, hrest⟩ := hpre
  rw [← hrest] at ht1
  obtain ⟨t, ht, -⟩ := follow_prefix ht1
  exact ⟨t, ht⟩

theorem RightsInv.step {s0 : PtState} {calls : List MapCall} {call : MapCall}
    (h : RightsInv s0 calls s) (hempty : EmptySubtree s0 call.va) (hstep : MapStep s call s') :
    RightsInv s0 (calls ++ [call]) s' := by
  obtain ⟨hinv', -, -, hok⟩ := ptMapPage_spec h.inv hstep.flags.ok (fun _ => trivial)
    (rfl : ptMapPage s call.pa call.va call.flags = _)
  rw [hstep.result] at hinv' hok
  obtain ⟨hmapped, hother, hgrown⟩ := hok (Int.lt_irrefl 0)
  -- an entry under which a page was mapped before is kept
  have hold : ∀ p i, p.length ≤ 2 → (∃ c ∈ calls, p ++ [i] <+: ptPath c.va) →
      ∃ t, s'.follow (p ++ [i]) = some t ∧
        s'.word p i = some (t ||| firstFlags (calls ++ [call]) (p ++ [i]) ||| PTE_V) := by
    rintro p i hp ⟨c, hc, hpath⟩
    obtain ⟨t, ht, hword⟩ := h.tables c hc p i hp hpath
    obtain ⟨ht', hword'⟩ := hgrown.kept p i t hp ht
    exact ⟨t, ht', by rw [hword', hword, firstFlags_append_of_mem hc hpath]⟩
  refine ⟨hinv', fun c hc p i hp hpath => ?_, fun va hva p i t hp hpath ht => ?_, fun c hc => ?_⟩
  · by_cases hbefore : ∃ c ∈ calls, p ++ [i] <+: ptPath c.va
    · exact hold p i hp hbefore
    · rcases List.mem_append.mp hc with hc | hc
      · exact absurd ⟨c, hc, hpath⟩ hbefore
      · obtain rfl := List.mem_singleton.mp hc
        obtain ⟨t, ht⟩ := follow_of_entry_l1 (hmapped _ rfl) hp hpath
        rcases hgrown.made p i t hp ht with hkept | ⟨-, hword⟩
        · exact absurd (h.onlyCalls _ hempty p i t hp hpath hkept) hbefore
        · refine ⟨t, ht, ?_⟩
          rw [hword, firstFlags_append_of_not_mem (fun c hc hpre => hbefore ⟨c, hc, hpre⟩) hpath]
  · rcases hgrown.made p i t hp ht with hkept | ⟨hpre, -⟩
    · obtain ⟨c, hc, hpre⟩ := h.onlyCalls va hva p i t hp hpath hkept
      exact ⟨c, List.mem_append_left _ hc, hpre⟩
    · exact ⟨call, List.mem_append_right _ (List.mem_singleton.mpr rfl), hpre⟩
  · rcases List.mem_append.mp hc with hc | hc
    · have hleaf := h.leaves c hc
      rw [hother hstep.unmapped c.va fun heq => ?_, hleaf]
      rw [entry_of_path s heq, hstep.unmapped] at hleaf
      exact absurd hleaf (by simp)
    · obtain rfl := List.mem_singleton.mp hc
      exact hmapped _ rfl

theorem RightsInv.of_run {s0 : PtState} {calls : List MapCall} (hinv : PtInv (fun _ => True) s0)
    (hrun : Lts.Run MapStep s0 calls s) (hempty : ∀ call ∈ calls, EmptySubtree s0 call.va) :
    RightsInv s0 calls s := by
  induction hrun with
  | nil => exact RightsInv.init hinv
  | snoc _ hstep ih =>
      refine (ih fun call hcall => ?_).step (hempty _ ?_) hstep
      · exact hempty call (List.mem_append_left _ hcall)
      · exact List.mem_append_right _ (List.mem_singleton.mpr rfl)

/-- The rights of a page of the sequence. -/
theorem RightsInv.rights {s0 : PtState} {calls : List MapCall} {call : MapCall}
    (h : RightsInv s0 calls s) (hcall : call ∈ calls) (halign : call.pa % PGSIZE = 0)
    (hlt : call.pa < 2 ^ 52) :
    ptRights s call.va = some
      ((flagRights (firstFlags calls (ptPrefix call.va .l4 ++ [ptIndex call.va .l4]))).meet
        ((flagRights (firstFlags calls (ptPrefix call.va .l3 ++ [ptIndex call.va .l3]))).meet
          ((flagRights (firstFlags calls (ptPrefix call.va .l2 ++ [ptIndex call.va .l2]))).meet
            (flagRights call.flags)))) := by
  have hlevel : ∀ p i, p.length ≤ 2 → p ++ [i] <+: ptPath call.va → ∃ w, s.word p i = some w ∧
      Paging.entryRights w = flagRights (firstFlags calls (p ++ [i])) := by
    intro p i hp hpath
    obtain ⟨t, ht, hword⟩ := h.tables call hcall p i hp hpath
    obtain ⟨u, hu, -⟩ := follow_prefix ht
    rw [PtState.follow, follow_snoc hu] at ht
    obtain ⟨-, -, -, htalign, htlt⟩ := pteChild_table ht
    exact ⟨_, hword, entryRights_eq htalign htlt⟩
  obtain ⟨w4, hw4, h4⟩ := hlevel [] (ptIndex call.va .l4) (by simp) ⟨_, rfl⟩
  obtain ⟨w3, hw3, h3⟩ := hlevel [ptIndex call.va .l4] (ptIndex call.va .l3) (by simp)
    ⟨[ptIndex call.va .l2, ptIndex call.va .l1], rfl⟩
  obtain ⟨w2, hw2, h2⟩ := hlevel [ptIndex call.va .l4, ptIndex call.va .l3] (ptIndex call.va .l2)
    (by simp) ⟨[ptIndex call.va .l1], rfl⟩
  rw [ptRights_of_entry hw4 hw3 hw2 (h.leaves call hcall), h4, h3, h2, entryRights_eq halign hlt]
  rfl

/-- The rights of a page are those of its own flags when no level takes from them. -/
theorem meet_eq_iff {f4 f3 f2 flags : Nat} :
    (flagRights f4).meet ((flagRights f3).meet ((flagRights f2).meet (flagRights flags))) =
      flagRights flags ↔ Allows f4 flags ∧ Allows f3 flags ∧ Allows f2 flags := by
  have hand : ∀ a b c d : Bool, (a && (b && (c && d))) = d ↔
      (d = true → a = true) ∧ (d = true → b = true) ∧ (d = true → c = true) := by decide
  have hor : ∀ a b c d : Bool, (a || (b || (c || d))) = d ↔
      (a = true → d = true) ∧ (b = true → d = true) ∧ (c = true → d = true) := by decide
  unfold flagRights Paging.Rights.meet Allows
  rw [Paging.Rights.mk.injEq, hand, hand, hor]
  constructor
  · rintro ⟨⟨w4, w3, w2⟩, ⟨u4, u3, u2⟩, n4, n3, n2⟩
    exact ⟨⟨w4, u4, n4⟩, ⟨w3, u3, n3⟩, w2, u2, n2⟩
  · rintro ⟨⟨w4, u4, n4⟩, ⟨w3, u3, n3⟩, w2, u2, n2⟩
    exact ⟨⟨w4, w3, w2⟩, ⟨u4, u3, u2⟩, n4, n3, n2⟩

/-- **A page has the rights of its flags exactly when the flags of the first page under each of its three
upper entries do not take from them.** -/
theorem ptRights_eq_flagRights_iff {s0 : PtState} {calls : List MapCall}
    (htree : PtInv (fun _ => True) s0) (hrun : Lts.Run MapStep s0 calls s)
    (hempty : ∀ call ∈ calls, EmptySubtree s0 call.va) {call : MapCall} (hcall : call ∈ calls) :
    ptRights s call.va = some (flagRights call.flags) ↔
      ∀ level, level ≠ PtLevel.l1 →
        Allows (firstFlags calls (ptPrefix call.va level ++ [ptIndex call.va level])) call.flags := by
  obtain ⟨halign, hlt⟩ : call.pa % PGSIZE = 0 ∧ call.pa < 2 ^ 52 := by
    clear hempty htree
    induction hrun with
    | nil => exact absurd hcall List.not_mem_nil
    | snoc _ hstep ih =>
        rcases List.mem_append.mp hcall with hcall | hcall
        · exact ih hcall
        · obtain rfl := List.mem_singleton.mp hcall
          exact ⟨hstep.aligned, hstep.lt⟩
  rw [(RightsInv.of_run htree hrun hempty).rights hcall halign hlt, Option.some.injEq, meet_eq_iff]
  constructor
  · rintro ⟨h4, h3, h2⟩ level hlevel
    cases level with
    | l1 => exact absurd rfl hlevel
    | l2 => exact h2
    | l3 => exact h3
    | l4 => exact h4
  · intro h
    exact ⟨h .l4 (by decide), h .l3 (by decide), h .l2 (by decide)⟩

/-- A page without rights, and after it a writable one in the same table. -/
def readOnlyFirst : List MapCall := [⟨0x5000, 0x40000000, 0⟩, ⟨0x6000, 0x40001000, PTE_W⟩]

def readOnlyTables : PtState := (ptMapPage emptyTables 0x5000 0x40000000 0).2

def writableTables : PtState := (ptMapPage readOnlyTables 0x6000 0x40001000 PTE_W).2

theorem MapStep.of_call {call : MapCall} (halign : call.pa % PGSIZE = 0) (hlt : call.pa < 2 ^ 52)
    (hflags : RightsFlags call.flags) (hunmapped : s.entry call.va = none)
    (hok : (ptMapPage s call.pa call.va call.flags).1 = 0) :
    MapStep s call (ptMapPage s call.pa call.va call.flags).2 :=
  ⟨halign, hlt, hflags, hunmapped, Prod.ext hok rfl⟩

theorem readOnlyFirst_run : Lts.Run MapStep emptyTables readOnlyFirst writableTables := by
  have hfirst : MapStep emptyTables ⟨0x5000, 0x40000000, 0⟩ readOnlyTables :=
    MapStep.of_call (by decide) (by decide) rfl (emptyTables_entry _) (by decide +kernel)
  have hsecond : MapStep readOnlyTables ⟨0x6000, 0x40001000, PTE_W⟩ writableTables :=
    MapStep.of_call (by decide) (by decide) rfl (by decide +kernel) (by decide +kernel)
  exact (Lts.Run.single hfirst).snoc hsecond

theorem readOnlyFirst_empty : ∀ call ∈ readOnlyFirst, EmptySubtree emptyTables call.va := by
  intro call _
  show flagIsSet 0 PTE_V = false
  decide

/-- The first of the two pages has its rights. -/
theorem ptRights_eq_flagRights_iff_first :
    ptRights writableTables 0x40000000 = some (flagRights 0) := by
  have hcall : (⟨0x5000, 0x40000000, 0⟩ : MapCall) ∈ readOnlyFirst := by decide
  refine (ptRights_eq_flagRights_iff emptyTables_inv readOnlyFirst_run readOnlyFirst_empty hcall).mpr
    fun level hlevel => ?_
  cases level with
  | l1 => exact absurd rfl hlevel
  | l2 | l3 | l4 => refine ⟨?_, ?_, ?_⟩ <;> decide

/-- The second page asks to be writable and is not. -/
theorem ptRights_ne_flagRights : ¬ ∀ s0 calls s, PtInv (fun _ => True) s0 → Lts.Run MapStep s0 calls s →
    (∀ call ∈ calls, EmptySubtree s0 call.va) →
    ∀ call ∈ calls, ptRights s call.va = some (flagRights call.flags) := by
  intro hclaim
  have hrights := hclaim _ _ _ emptyTables_inv readOnlyFirst_run readOnlyFirst_empty
    ⟨0x6000, 0x40001000, PTE_W⟩ (by decide)
  revert hrights
  decide +kernel

end Dangless
