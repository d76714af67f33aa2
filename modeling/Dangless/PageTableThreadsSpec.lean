import Dangless.PageTableThreads
import Dangless.VirtmemPages

/-! Threads that map, unmap, invalidate and resolve pages of their own in shared page tables, with a mutex in
`pt_map_page` only. -/

namespace Dangless

open TableTree Rely

variable {T : Type} {S : PtPaths} {X Y : Set Nat} {t u : T} {p path : List (Fin PT_NUM_ENTRIES)}
  {va a tbl flags pa ppte n : Nat} {level : PtLevel} {pt pt' pt'' : PtState}

/-- The word at which the walk of an address ends. -/
def PtState.stopWord (s : PtState) (a : Nat) : Nat := s.mem (ptWalk s a .l1).2

theorem AtLevel.stopWord (h : AtLevel pt va level ppte) : pt.stopWord va = pt.mem ppte := by
  rw [PtState.stopWord, h.walk]

theorem stopWord_of_path {b : Nat} (s : PtState) (h : ptPath a = ptPath b) : s.stopWord a = s.stopWord b := by
  simp only [ptPath, List.cons.injEq, and_true] at h
  obtain ⟨h4, h3, h2, h1⟩ := h
  have hlookup : s.lookup a = s.lookup b := by
    simp only [PtState.lookup]
    rw [h4, h3, h2, h1]
  rw [PtState.stopWord, PtState.stopWord, ptWalk_full, ptWalk_full, hlookup]

theorem stopWord_congr (hlookup : pt'.lookup a = pt.lookup a)
    (hword : pt'.mem (pt.lookup a).2 = pt.mem (pt.lookup a).2) :
    pt'.stopWord a = pt.stopWord a ∧ (ptWalk pt' a .l1).1 = (ptWalk pt a .l1).1 := by
  rw [PtState.stopWord, PtState.stopWord, ptWalk_full, ptWalk_full, hlookup]
  exact ⟨hword, rfl⟩

/-- The invariant of the page tables that the threads share: the tables on the paths of `S` form a tree, and a walk that
does not get to level 1 ends at an entry that is 0. -/
structure PtOk (S : PtPaths) (s : PtState) : Prop where
  inv : PtInv S s
  small : ∀ a, Within S a → (ptWalk s a .l1).1 ≠ .l1 → s.stopWord a = 0

/-- A word other than 0 is in a table of level 1. -/
theorem PtOk.table (h : PtOk S pt) (hS : Within S va) (hword : pt.stopWord va ≠ 0) :
    ∃ t, pt.follow (ptPrefix va .l1) = some t := by
  have hat := ptWalk_atLevel pt va
  have hlevel : (ptWalk pt va .l1).1 = .l1 := by
    by_contra hne
    exact hword (h.small va hS hne)
  rw [hlevel] at hat
  obtain ⟨t, ht, -⟩ := hat.table
  exact ⟨t, ht⟩

theorem table_atLevel (ht : pt.follow (ptPrefix va .l1) = some tbl) :
    AtLevel pt va .l1 (pteSlot tbl (ptIndex va .l1)) := ⟨⟨tbl, ht, rfl⟩, fun h => absurd rfl h⟩

/-- Nothing has changed but entries of level 1, those of the pages of `X`. -/
structure PagesOnly (S : PtPaths) (X : Set Nat) (s s' : PtState) : Prop where
  cr3 : s'.cr3 = s.cr3
  pool : s'.pool = s.pool
  mem : ∀ addr, s'.mem addr = s.mem addr ∨
    ∃ a ∈ X, Within S a ∧ ∃ t, s.follow (ptPrefix a .l1) = some t ∧ addr = pteSlot t (ptIndex a .l1)

theorem PagesOnly.refl (s : PtState) : PagesOnly S X s s := ⟨rfl, rfl, fun _ => Or.inl rfl⟩

theorem PagesOnly.mono (h : PagesOnly S X pt pt') (hXY : X ⊆ Y) : PagesOnly S Y pt pt' := by
  refine ⟨h.cr3, h.pool, fun addr => (h.mem addr).imp_right ?_⟩
  rintro ⟨a, ha, hrest⟩
  exact ⟨a, hXY ha, hrest⟩

/-- The entries of the tables above level 1 are what they were. -/
theorem PagesOnly.upper (h : PagesOnly S X pt pt') (hinv : PtInv S pt) (hp : p.length < 3)
    (ht : pt.follow p = some tbl) (i : Fin PT_NUM_ENTRIES) : pt'.mem (pteSlot tbl i) = pt.mem (pteSlot tbl i) := by
  rcases h.mem (pteSlot tbl i) with hsame | ⟨a, -, hS, t, hat, hslot⟩
  · exact hsame
  · obtain ⟨rfl, -⟩ := pteSlot_apart _ _ _ _ (hinv.table_aligned p tbl ht) (hinv.table_aligned _ t hat) hslot
    have hpath := hinv.tree _ p tbl (hS .l1) le_rfl (by omega) hat ht
    rw [← hpath] at hp
    exact absurd hp (by simp [ptPrefix])

theorem PagesOnly.follow (h : PagesOnly S X pt pt') (hinv : PtInv S pt) (hpath : path.length ≤ 3) :
    pt'.follow path = pt.follow path := by
  rw [PtState.follow, h.cr3]
  refine follow_congr fun q i t hq ht => h.upper hinv ?_ ht i
  have hle := hq.length_le
  simp only [List.length_append, List.length_cons, List.length_nil] at hle
  omega

theorem PagesOnly.trans (hinv : PtInv S pt) (h : PagesOnly S X pt pt') (h' : PagesOnly S X pt' pt'') :
    PagesOnly S X pt pt'' := by
  refine ⟨h'.cr3.trans h.cr3, h'.pool.trans h.pool, fun addr => ?_⟩
  rcases h'.mem addr with hsame | ⟨a, ha, hS, t, ht, hslot⟩
  · rw [hsame]
    exact h.mem addr
  · rw [h.follow hinv le_rfl] at ht
    exact Or.inr ⟨a, ha, hS, t, ht, hslot⟩

/-- A store into the entry of a page. -/
theorem PagesOnly.write (hva : va ∈ X) (hS : Within S va) (ht : pt.follow (ptPrefix va .l1) = some tbl) (word : Nat) :
    PagesOnly S X pt (pt.write (pteSlot tbl (ptIndex va .l1)) word) := by
  refine ⟨rfl, rfl, fun addr => ?_⟩
  by_cases haddr : addr = pteSlot tbl (ptIndex va .l1)
  · exact Or.inr ⟨va, hva, hS, tbl, ht, haddr⟩
  · exact Or.inl (Function.update_of_ne haddr _ _)

section WriteL1

variable (hok : PtOk S pt) (hS : Within S va) (ht : pt.follow (ptPrefix va .l1) = some tbl) (word : Nat)

include hok hS ht

theorem stopWord_write_l1_self (ha : ptPath a = ptPath va) :
    (pt.write (pteSlot tbl (ptIndex va .l1)) word).stopWord a = word := by
  have ht' : (pt.write (pteSlot tbl (ptIndex va .l1)) word).follow (ptPrefix va .l1) = some tbl :=
    (follow_write_l1 hok.inv.aligned hok.inv.tree hS ht word le_rfl).trans ht
  rw [stopWord_of_path _ ha, (table_atLevel ht').stopWord]
  exact Function.update_self _ _ _

theorem stopWord_write_l1_other (ha : ptPath a ≠ ptPath va) :
    (pt.write (pteSlot tbl (ptIndex va .l1)) word).stopWord a = pt.stopWord a ∧
      (ptWalk (pt.write (pteSlot tbl (ptIndex va .l1)) word) a .l1).1 = (ptWalk pt a .l1).1 := by
  have hnot : ¬ ptPrefix va .l1 ++ [ptIndex va .l1] <+: ptPath a := fun hpre =>
    ha (hpre.eq_of_length rfl).symm
  obtain ⟨hlookup, hword⟩ := lookup_update pteSlot_apart hok.inv.table_aligned hok.inv.tree (hS .l1) le_rfl ht (by simp) hnot
  exact stopWord_congr hlookup hword

theorem PtOk.write_l1 : PtOk S (pt.write (pteSlot tbl (ptIndex va .l1)) word) := by
  refine ⟨(write_l1_spec word hok.inv hS ht rfl).1, fun a ha hlevel => ?_⟩
  by_cases hpath : ptPath a = ptPath va
  · have ht' : (pt.write (pteSlot tbl (ptIndex va .l1)) word).follow (ptPrefix va .l1) = some tbl :=
      (follow_write_l1 hok.inv.aligned hok.inv.tree hS ht word le_rfl).trans ht
    have htables : ptPrefix a .l1 = ptPrefix va .l1 := by
      simp only [ptPath, List.cons.injEq, and_true] at hpath
      simp only [ptPrefix, hpath]
    rw [← htables] at ht'
    exact absurd (congrArg Prod.fst (table_atLevel ht').walk) hlevel
  · obtain ⟨hsame, hwalk⟩ := stopWord_write_l1_other hok hS ht word hpath
    rw [hsame]
    exact hok.small a ha (hwalk ▸ hlevel)

end WriteL1

theorem PtOk.tlbFlushOne (h : PtOk S pt) (va : Nat) : PtOk S (pt.tlbFlushOne va) := ⟨h.inv.tlbFlushOne, h.small⟩

section Attach

variable {s' : PtState} {i : Fin PT_NUM_ENTRIES} {tbl' : Nat} (hok : PtOk S pt) (hfresh : FreshTable pt tbl')
  (hflags : FlagsOk flags) (ht : pt.follow p = some tbl) (hS : S p) (hp : p.length < 3)
  (hzero : pt.mem (pteSlot tbl i) = 0)

include hok hfresh hflags ht hS hp hzero

/-- Referring to an empty table from an entry that is 0 changes the end of walks, but not the word there. -/
theorem attach_stop (a : Nat) : (pt.write (pteSlot tbl i) (tbl' ||| flags ||| PTE_V)).stopWord a = pt.stopWord a ∧
    ((ptWalk (pt.write (pteSlot tbl i) (tbl' ||| flags ||| PTE_V)) a .l1).1 = (ptWalk pt a .l1).1 ∨ pt.stopWord a = 0) := by
  have hnone : pteChild (pt.mem (pteSlot tbl i)) = none := by
    rw [hzero]
    rfl
  by_cases hpre : p ++ [i] <+: ptPath a
  · obtain ⟨rest, hrest⟩ := hpre
    cases rest with
    | nil =>
        have hlength := congrArg List.length hrest
        simp [ptPath] at hlength
        omega
    | cons j rest =>
        have hpath : ptPath a = p ++ i :: j :: rest := by
          rw [← hrest, List.append_assoc]
          rfl
        have hempty := attach_empty hok.inv hfresh ht hp (tbl' ||| flags ||| PTE_V) (i := i) j
        have hbefore : pt.lookup a = (_, pteSlot tbl i) := lookup_through ht hnone hpath
        have hafter : (pt.write (pteSlot tbl i) (tbl' ||| flags ||| PTE_V)).lookup a = (_, pteSlot tbl' j) :=
          lookup_through (attach_followed hok.inv hfresh hflags ht hS hp hnone) (by rw [hempty]; rfl) hrest.symm
        have hstop : pt.stopWord a = 0 := by
          rw [PtState.stopWord, ptWalk_full, hbefore, hzero]
        refine ⟨?_, Or.inr hstop⟩
        rw [hstop, PtState.stopWord, ptWalk_full, hafter, hempty]
  · obtain ⟨hlookup, hword⟩ :=
      lookup_update pteSlot_apart hok.inv.table_aligned hok.inv.tree hS (by omega) ht (by simp) hpre
    exact (stopWord_congr hlookup hword).imp_right Or.inl

theorem PtOk.attach : PtOk S (pt.write (pteSlot tbl i) (tbl' ||| flags ||| PTE_V)) := by
  have hnone : pteChild (pt.mem (pteSlot tbl i)) = none := by
    rw [hzero]
    rfl
  refine ⟨attach_inv hok.inv hfresh hflags ht hS hp hnone, fun a ha hlevel => ?_⟩
  obtain ⟨hsame, hwalk | hstop⟩ := attach_stop hok hfresh hflags ht hS hp hzero a
  · rw [hsame]
    exact hok.small a ha (hwalk ▸ hlevel)
  · rw [hsame, hstop]

end Attach

/-- `pp_zalloc_one` is seen by no walk. -/
theorem ppZallocOne_stop (hinv : PtInv S pt) (a : Nat) : (ppZallocOne pt).2.stopWord a = pt.stopWord a ∧
    (ptWalk (ppZallocOne pt).2 a .l1).1 = (ptWalk pt a .l1).1 := by
  obtain ⟨-, hkeeps, -, -, hmem, -⟩ := ppZallocOne_spec hinv rfl
  have hlength : [ptIndex a .l3, ptIndex a .l2, ptIndex a .l1].length ≤ 3 := le_rfl
  have hlookup := lookup_of_tables (fun q u hq hu => hmem q u hq hu) hlength (i := ptIndex a .l4)
  refine stopWord_congr ?_ hlookup.2
  rw [PtState.lookup, hkeeps.cr3]
  exact hlookup.1

theorem PtOk.zalloc (hok : PtOk S pt) : PtOk S (ppZallocOne pt).2 := by
  refine ⟨(ppZallocOne_spec hok.inv rfl).1, fun a ha hlevel => ?_⟩
  obtain ⟨hsame, hwalk⟩ := ppZallocOne_stop hok.inv a
  rw [hsame]
  exact hok.small a ha (hwalk ▸ hlevel)

/-- A page that was given for a table stays empty while other threads write to their pages. -/
theorem FreshTable.of_pagesOnly {tbl' : Nat} (hinv : PtInv S pt) (h : PagesOnly S X pt pt') (hfresh : FreshTable pt tbl') :
    FreshTable pt' tbl' := by
  refine ⟨hfresh.ne_zero, hfresh.aligned, hfresh.lt, fun path hpath => ?_, fun i => ?_, ?_⟩
  · rw [h.follow hinv hpath]
    exact hfresh.fresh path hpath
  · rcases h.mem (pteSlot tbl' i) with hsame | ⟨a, -, -, t, hat, hslot⟩
    · rw [hsame]
      exact hfresh.empty i
    · obtain ⟨rfl, -⟩ := pteSlot_apart _ _ _ _ hfresh.aligned (hinv.table_aligned _ t hat) hslot
      exact absurd hat (hfresh.fresh _ le_rfl)
  · rw [h.pool]
    exact hfresh.poolDistinct

/-! ### Interference -/

/-- What the other threads do while a thread works on the pages of `X`. -/
structure Interference (S : PtPaths) (t : T) (X : Set Nat) (s s' : PtShared T) : Prop where
  owner : s'.owner = some t ↔ s.owner = some t
  cr3 : s'.pt.cr3 = s.pt.cr3
  follow : ∀ path t, path.length ≤ 3 → s.pt.follow path = some t → s'.pt.follow path = some t
  word : ∀ a ∈ X, s'.pt.stopWord a = s.pt.stopWord a
  held : s.owner = some t → PagesOnly S Xᶜ s.pt s'.pt

/-- What a thread may do that works on the pages of `X`: without the mutex only stores into their entries. -/
structure Allowed (S : PtPaths) (t : T) (X : Set Nat) (s s' : PtShared T) : Prop where
  owner : ∀ u, u ≠ t → (s'.owner = some u ↔ s.owner = some u)
  cr3 : s'.pt.cr3 = s.pt.cr3
  follow : ∀ path t, path.length ≤ 3 → s.pt.follow path = some t → s'.pt.follow path = some t
  word : ∀ a, a ∉ X → s'.pt.stopWord a = s.pt.stopWord a
  outside : s.owner ≠ some t → PagesOnly S X s.pt s'.pt

def ptEnv (S : PtPaths) (t : T) (X : Set Nat) : Env (PtShared T) where
  rely := Interference S t X
  guar := Allowed S t X
  waits s := ∃ u, u ≠ t ∧ s.owner = some u

/-- The invariant of the shared page tables. -/
def PtSharedOk (S : PtPaths) (s : PtShared T) : Prop := PtOk S s.pt

variable {s s' s'' : PtShared T}

theorem Interference.refl (s : PtShared T) : Interference S t X s s :=
  ⟨Iff.rfl, rfl, fun _ _ _ h => h, fun _ _ => rfl, fun _ => .refl _⟩

theorem Interference.trans (hok : PtSharedOk S s) (h : Interference S t X s s') (h' : Interference S t X s' s'') :
    Interference S t X s s'' where
  owner := h'.owner.trans h.owner
  cr3 := h'.cr3.trans h.cr3
  follow path tbl hpath ht := h'.follow path tbl hpath (h.follow path tbl hpath ht)
  word a ha := (h'.word a ha).trans (h.word a ha)
  held howner := (h.held howner).trans hok.inv (h'.held (h.owner.mpr howner))

theorem Allowed.refl (s : PtShared T) : Allowed S t X s s :=
  ⟨fun _ _ => Iff.rfl, rfl, fun _ _ _ h => h, fun _ _ => rfl, fun _ => .refl _⟩

theorem ptEnv_lawful : (ptEnv S t X).Lawful (PtSharedOk S) where
  refl _ := Interference.refl _
  trans := Interference.trans
  quiet _ := Allowed.refl _

/-- Threads that work on different pages leave each other alone. -/
theorem Allowed.interference (h : Allowed S t X s s') (htu : t ≠ u) (hXY : Disjoint X Y) : Interference S u Y s s' where
  owner := h.owner u htu.symm
  cr3 := h.cr3
  follow := h.follow
  word a ha := h.word a fun hX => Set.disjoint_left.mp hXY hX ha
  held howner := by
    refine (h.outside ?_).mono fun a ha hY => Set.disjoint_left.mp hXY ha hY
    rw [howner]
    exact fun heq => htu (Option.some.inj heq).symm

/-- A store into the entry of a page of the thread. -/
theorem Allowed.write_l1 (hok : PtSharedOk S s) (hX : ∀ a, ptPath a = ptPath va → a ∈ X) (hS : Within S va)
    (ht : s.pt.follow (ptPrefix va .l1) = some tbl) (word : Nat) :
    Allowed S t X s { s with pt := s.pt.write (pteSlot tbl (ptIndex va .l1)) word } where
  owner _ _ := Iff.rfl
  cr3 := rfl
  follow _ _ hpath hu := (follow_write_l1 hok.inv.aligned hok.inv.tree hS ht word hpath).trans hu
  word a ha := (stopWord_write_l1_other hok hS ht word fun hpath => ha (hX a hpath)).1
  outside _ := .write (hX va rfl) hS ht word

theorem Allowed.tlbFlushOne (va : Nat) : Allowed S t X s { s with pt := s.pt.tlbFlushOne va } :=
  ⟨fun _ _ => Iff.rfl, rfl, fun _ _ _ h => h, fun _ _ => rfl, fun _ => ⟨rfl, rfl, fun _ => Or.inl rfl⟩⟩

theorem Allowed.lock (hfree : s.owner = none) : Allowed S t X s { s with owner := some t } := by
  refine ⟨fun u hu => ?_, rfl, fun _ _ _ h => h, fun _ _ => rfl, fun _ => .refl _⟩
  rw [hfree]
  exact ⟨fun h => absurd (Option.some.inj h).symm hu, fun h => by cases h⟩

theorem Allowed.unlock (howner : s.owner = some t) : Allowed S t X s { s with owner := none } := by
  refine ⟨fun u hu => ?_, rfl, fun _ _ _ h => h, fun _ _ => rfl, fun _ => .refl _⟩
  rw [howner]
  exact ⟨fun h => (by cases h), fun h => absurd (Option.some.inj h).symm hu⟩

/-- With the mutex a thread may take a page for a table. -/
theorem Allowed.zalloc (hok : PtSharedOk S s) (howner : s.owner = some t) :
    Allowed S t X s { s with pt := (ppZallocOne s.pt).2 } := by
  obtain ⟨-, hkeeps, -, hfollow, -, -⟩ := ppZallocOne_spec hok.inv rfl
  refine ⟨fun _ _ => Iff.rfl, hkeeps.cr3, fun path u hpath hu => ?_, fun a _ => (ppZallocOne_stop hok.inv a).1,
    fun h => absurd howner h⟩
  exact (hfollow path (by omega)).trans hu

theorem Allowed.attach {i : Fin PT_NUM_ENTRIES} {tbl' : Nat} (hok : PtSharedOk S s) (howner : s.owner = some t)
    (hfresh : FreshTable s.pt tbl') (hflags : FlagsOk flags) (ht : s.pt.follow p = some tbl) (hS : S p)
    (hp : p.length < 3) (hzero : s.pt.mem (pteSlot tbl i) = 0) :
    Allowed S t X s { s with pt := s.pt.write (pteSlot tbl i) (tbl' ||| flags ||| PTE_V) } := by
  have hnone : pteChild (s.pt.mem (pteSlot tbl i)) = none := by
    rw [hzero]
    rfl
  refine ⟨fun _ _ => Iff.rfl, rfl, fun path u hpath hu => ?_,
    fun a _ => (attach_stop hok hfresh hflags ht hS hp hzero a).1, fun h => absurd howner h⟩
  dsimp only
  rw [attach_follow hok.inv hfresh hflags ht hS hp hnone path (by omega), if_neg ?_]
  · exact hu
  · rintro rfl
    rw [PtState.follow, follow_snoc ht, hnone] at hu
    cases hu

/-! ### Walks -/

/-- The walk of a page of the thread will not be changed under it: its table is there, or the thread has the mutex. -/
structure Steady (S : PtPaths) (t : T) (X : Set Nat) (va : Nat) (s : PtShared T) : Prop where
  ok : PtSharedOk S s
  mem : va ∈ X
  within : Within S va
  table : (∃ tbl, s.pt.follow (ptPrefix va .l1) = some tbl) ∨ s.owner = some t

theorem Steady.rely (h : Steady S t X va s) (hs : Interference S t X s s') (hok : PtSharedOk S s') :
    Steady S t X va s' := by
  refine ⟨hok, h.mem, h.within, ?_⟩
  rcases h.table with ⟨tbl, ht⟩ | howner
  · exact Or.inl ⟨tbl, hs.follow _ tbl le_rfl ht⟩
  · exact Or.inr (hs.owner.mpr howner)

theorem ptPrefix_length (va : Nat) (hlevel : level ≠ .l1) : (ptPrefix va level).length < 3 := by
  cases level with
  | l1 => exact absurd rfl hlevel
  | l2 | l3 | l4 => simp [ptPrefix]

/-- An entry at which the walk ends stays what it is; an entry that refers to a table goes on to do so. -/
theorem Steady.entry (h : Steady S t X va s) (hs : Interference S t X s s')
    (ht : s.pt.follow (ptPrefix va level) = some tbl) :
    (level = .l1 ∨ pteChild (s.pt.mem (pteSlot tbl (ptIndex va level))) = none →
      s'.pt.mem (pteSlot tbl (ptIndex va level)) = s.pt.mem (pteSlot tbl (ptIndex va level))) ∧
    (level ≠ .l1 → pteChild (s'.pt.mem (pteSlot tbl (ptIndex va level))) =
      pteChild (s.pt.mem (pteSlot tbl (ptIndex va level)))) := by
  by_cases hlevel : level = .l1
  · subst hlevel
    have ht' := hs.follow _ tbl le_rfl ht
    have hword := hs.word va h.mem
    rw [(table_atLevel ht).stopWord, (table_atLevel ht').stopWord] at hword
    exact ⟨fun _ => hword, fun hne => absurd rfl hne⟩
  · have hlength := ptPrefix_length va hlevel
    cases hchild : pteChild (s.pt.mem (pteSlot tbl (ptIndex va level))) with
    | some child =>
        have hfollow : s.pt.follow (ptPrefix va level ++ [ptIndex va level]) = some child :=
          (follow_snoc ht).trans hchild
        have hfollow' := hs.follow _ child (by simp; omega) hfollow
        have ht' := hs.follow _ tbl (by omega) ht
        rw [PtState.follow, follow_snoc ht'] at hfollow'
        exact ⟨fun hstop => (by rcases hstop with rfl | hnone; exacts [absurd rfl hlevel, by cases hnone]),
          fun _ => hfollow'⟩
    | none =>
        -- the walk ends here, so there is no table of level 1
        have hat : AtLevel s.pt va level (pteSlot tbl (ptIndex va level)) := ⟨⟨tbl, ht, rfl⟩, fun _ => hchild⟩
        have howner : s.owner = some t := by
          rcases h.table with ⟨tbl', ht'⟩ | howner
          · have hwalk := (table_atLevel ht').walk
            rw [hat.walk] at hwalk
            exact absurd (congrArg Prod.fst hwalk) hlevel
          · exact howner
        have hsame := (hs.held howner).upper h.ok.inv hlength ht (ptIndex va level)
        exact ⟨fun _ => hsame, fun _ => by rw [hsame, hchild]⟩

section Walk

variable {post : PtLevel × Nat → PtShared T → Prop}

/-- The condition of `WALK_LEVEL` comes out as if the entry were read once. -/
theorem walkStopsProg_ok (h : Steady S t X va s) (ht : s.pt.follow (ptPrefix va level) = some tbl) :
    Ok (PtSharedOk S) (ptEnv S t X)
      (fun stops s' => Interference S t X s s' ∧ Steady S t X va s' ∧ s'.pt.follow (ptPrefix va level) = some tbl ∧
        (stops = true ↔ level = .l1 ∨ pteChild (s'.pt.mem (pteSlot tbl (ptIndex va level))) = none))
      (walkStopsProg .l1 level (pteSlot tbl (ptIndex va level))) s := by
  have hkept : ∀ {s'}, Interference S t X s s' → s'.pt.follow (ptPrefix va level) = some tbl := fun hs =>
    hs.follow _ tbl (by cases level <;> simp [ptPrefix]) ht
  unfold walkStopsProg loadPte
  refine ok_read ptEnv_lawful fun s₁ hs₁ hok₁ => ?_
  have h₁ := h.rely hs₁ hok₁
  cases hvalid : flagIsSet (s₁.pt.mem (pteSlot tbl (ptIndex va level))) PTE_V with
  | false =>
      refine ok_pure fun s₂ hs₂ hok₂ => ?_
      have hs := hs₁.trans h.ok hs₂
      refine ⟨hs, h.rely hs hok₂, hkept hs, fun _ => ?_, fun _ => rfl⟩
      by_cases hlevel : level = .l1
      · exact Or.inl hlevel
      · refine Or.inr ?_
        rw [(h₁.entry hs₂ (hkept hs₁)).2 hlevel, pteChild_eq_none, hvalid]
        rfl
  | true =>
      by_cases hlevel : level = .l1
      · subst hlevel
        refine ok_pure fun s₂ hs₂ hok₂ => ?_
        have hs := hs₁.trans h.ok hs₂
        exact ⟨hs, h.rely hs hok₂, hkept hs, fun _ => Or.inl rfl, fun _ => rfl⟩
      · simp only [Bool.not_true, Bool.false_eq_true, if_false, hlevel]
        refine ok_read ptEnv_lawful fun s₂ hs₂ hok₂ => ok_pure fun s₃ hs₃ hok₃ => ?_
        have hs₁₃ := hs₂.trans hok₁ hs₃
        have hs := hs₁.trans h.ok hs₁₃
        refine ⟨hs, h.rely hs hok₃, hkept hs, ?_⟩
        -- the present entry that was read first has become a large page in between only if it was one
        obtain ⟨hsame, hchild⟩ := h₁.entry hs₂ (hkept hs₁)
        have hl1 : (PtLevel.l1 == level) = false := by simpa using Ne.symm hlevel
        rw [(h₁.entry hs₁₃ (hkept hs₁)).2 hlevel, ← hchild hlevel, hl1, Bool.or_false]
        constructor
        · intro hlarge
          refine Or.inr (pteChild_eq_none.mpr ?_)
          rw [hlarge, Bool.or_true]
        · rintro (hfalse | hnone)
          · exact hfalse.elim
          · have hword := hsame (Or.inr ((hchild hlevel).symm.trans hnone))
            have hstop := pteChild_eq_none.mp hnone
            rw [hword, hvalid] at hstop
            rw [hword]
            exact hstop

theorem walkLevelProg_ok (h : Steady S t X va s) (ht : s.pt.follow (ptPrefix va level) = some tbl)
    {next : Nat → PtProg T (PtLevel × Nat)}
    (hstop : ∀ s', Interference S t X s s' → Steady S t X va s' →
      AtLevel s'.pt va level (pteSlot tbl (ptIndex va level)) → post (level, pteSlot tbl (ptIndex va level)) s')
    (hnext : level ≠ .l1 → ∀ s' child, Interference S t X s s' → Steady S t X va s' →
      s'.pt.follow (ptPrefix va level ++ [ptIndex va level]) = some child →
      Ok (PtSharedOk S) (ptEnv S t X) post (next child) s') :
    Ok (PtSharedOk S) (ptEnv S t X) post (walkLevelProg va .l1 level tbl next) s := by
  refine Ok.bind ptEnv_lawful h.ok (walkStopsProg_ok h ht) fun stops s₁ hok₁ hmid => ?_
  obtain ⟨hs₁, h₁, ht₁, hstops⟩ := hmid
  cases stops with
  | true =>
      refine ok_pure fun s₂ hs₂ hok₂ => ?_
      have hs := hs₁.trans h.ok hs₂
      refine hstop s₂ hs (h.rely hs hok₂) ⟨⟨tbl, ?_, rfl⟩, fun hlevel => ?_⟩
      · exact hs₂.follow _ tbl (by cases level <;> simp [ptPrefix]) ht₁
      · rw [(h₁.entry hs₂ ht₁).2 hlevel]
        exact (hstops.mp rfl).resolve_left hlevel
  | false =>
      obtain ⟨hlevel, hsome⟩ := not_or.mp fun hstopped => Bool.false_ne_true (hstops.mpr hstopped)
      unfold loadPte
      refine ok_read ptEnv_lawful fun s₂ hs₂ hok₂ => ?_
      obtain ⟨child, hchild⟩ := Option.ne_none_iff_exists'.mp hsome
      have hchild₂ := ((h₁.entry hs₂ ht₁).2 hlevel).trans hchild
      have ht₂ := hs₂.follow _ tbl (by cases level <;> simp [ptPrefix]) ht₁
      have hs := hs₁.trans h.ok hs₂
      have hframe : s₂.pt.mem (pteSlot tbl (ptIndex va level)) &&& PTE_FRAME = child := (pteChild_eq_some.mp hchild₂).2
      show Ok _ _ _ (next (s₂.pt.mem (pteSlot tbl (ptIndex va level)) &&& PTE_FRAME)) s₂
      rw [hframe]
      exact hnext hlevel s₂ child hs (h.rely hs hok₂) ((follow_snoc ht₂).trans hchild₂)

/-- A walk ends where it would end if all its loads came at once. -/
theorem ptWalkProg_ok (h : Steady S t X va s) :
    Ok (PtSharedOk S) (ptEnv S t X)
      (fun stop s' => Interference S t X s s' ∧ Steady S t X va s' ∧ AtLevel s'.pt va stop.1 stop.2)
      (ptWalkProg va .l1) s := by
  unfold ptWalkProg rcr3
  refine ok_read ptEnv_lawful fun s₁ hs₁ hok₁ => ?_
  have h₁ := h.rely hs₁ hok₁
  have h₄ : s₁.pt.follow (ptPrefix va .l4) = some s₁.pt.cr3 := rfl
  refine walkLevelProg_ok h₁ h₄ (fun s' hs h' hat => ⟨hs₁.trans h.ok hs, h', hat⟩) fun _ s₂ t₃ hs₂ h₂ ht => ?_
  have h₃ : s₂.pt.follow (ptPrefix va .l3) = some t₃ := ht
  have hs₂ := hs₁.trans h.ok hs₂
  refine walkLevelProg_ok h₂ h₃ (fun s' hs h' hat => ⟨hs₂.trans h.ok hs, h', hat⟩) fun _ s₃ t₂ hs₃ h₃ ht => ?_
  have h₂ : s₃.pt.follow (ptPrefix va .l2) = some t₂ := ht
  have hs₃ := hs₂.trans h.ok hs₃
  refine walkLevelProg_ok h₃ h₂ (fun s' hs h' hat => ⟨hs₃.trans h.ok hs, h', hat⟩) fun _ s₄ t₁ hs₄ h₄ ht => ?_
  have h₁ : s₄.pt.follow (ptPrefix va .l1) = some t₁ := ht
  have hs₄ := hs₃.trans h.ok hs₄
  exact walkLevelProg_ok h₄ h₁ (fun s' hs h' hat => ⟨hs₄.trans h.ok hs, h', hat⟩) fun hl1 => absurd rfl hl1

end Walk

/-- In the critical section of `pt_map_page`: the walk of the page ends at an entry of a level that is 0, and the words of
the thread's pages are still `f`. -/
structure Blank (S : PtPaths) (t : T) (X : Set Nat) (f : Nat → Nat) (va : Nat) (level : PtLevel) (ppte : Nat)
    (s : PtShared T) : Prop where
  steady : Steady S t X va s
  owner : s.owner = some t
  at_ : AtLevel s.pt va level ppte
  zero : s.pt.mem ppte = 0
  words : ∀ a ∈ X, s.pt.stopWord a = f a

variable {f : Nat → Nat} {upper lower : PtLevel}

theorem Blank.rely (h : Blank S t X f va level ppte s) (hs : Interference S t X s s') (hok : PtSharedOk S s') :
    Blank S t X f va level ppte s' := by
  obtain ⟨tbl, ht, rfl⟩ := h.at_.table
  have hstop : level = .l1 ∨ pteChild (s.pt.mem (pteSlot tbl (ptIndex va level))) = none := by
    refine Or.inr ?_
    rw [h.zero]
    rfl
  have hsame := (h.steady.entry hs ht).1 hstop
  have ht' := hs.follow _ tbl (by cases level <;> simp [ptPrefix]) ht
  refine ⟨h.steady.rely hs hok, hs.owner.mpr h.owner, ⟨⟨tbl, ht', rfl⟩, fun _ => ?_⟩, hsame.trans h.zero,
    fun a ha => (hs.word a ha).trans (h.words a ha)⟩
  rw [hsame, h.zero]
  rfl

/-- Creating a level: the thread still has the mutex, and goes on in the new table if there is one. -/
theorem ptMapPageCreateLevelProg_ok (h : Blank S t X f va upper ppte s) (hflags : FlagsOk flags)
    (hlower : levelsBelow upper = lower :: levelsBelow lower) :
    Ok (PtSharedOk S) (ptEnv S t X)
      (fun created s' => s'.owner = some t ∧ (∀ a ∈ X, s'.pt.stopWord a = f a) ∧
        ∀ ppte', created = some ppte' → Blank S t X f va lower ppte' s')
      (ptMapPageCreateLevelProg ppte va lower flags) s := by
  have hupper : upper ≠ .l1 := by
    rintro rfl
    cases hlower
  have hsteps : ptPrefix va lower = ptPrefix va upper ++ [ptIndex va upper] := by
    cases upper <;> cases lower <;> simp [levelsBelow] at hlower <;> rfl
  have hlength := ptPrefix_length va hupper
  unfold ptMapPageCreateLevelProg ppZallocOneProg
  refine ok_fetch fun s₁ hs₁ hok₁ => ?_
  have h₁ := h.rely hs₁ hok₁
  obtain ⟨tbl, ht, rfl⟩ := h₁.at_.table
  obtain ⟨-, -, -, hfollow, hmem, hfresh⟩ := ppZallocOne_spec hok₁.inv rfl
  have hwords : ∀ a ∈ X, (ppZallocOne s₁.pt).2.stopWord a = f a := fun a ha =>
    (ppZallocOne_stop hok₁.inv a).1.trans (h₁.words a ha)
  refine ⟨hok₁.zalloc, .zalloc hok₁ h₁.owner, ?_⟩
  by_cases hnull : (ppZallocOne s₁.pt).1 = 0
  · rw [if_pos hnull]
    refine ok_pure fun s₂ hs₂ _ => ⟨hs₂.owner.mpr h₁.owner, fun a ha => (hs₂.word a ha).trans (hwords a ha), ?_⟩
    intro ppte' hsome
    cases hsome
  · rw [if_neg hnull]
    -- the page is in no table while the thread has the mutex
    have hblank : Blank S t X f va upper (pteSlot tbl (ptIndex va upper)) { s₁ with pt := (ppZallocOne s₁.pt).2 } := by
      have hsame := hmem _ tbl (by omega) ht (ptIndex va upper)
      refine ⟨⟨hok₁.zalloc, h₁.steady.mem, h₁.steady.within, Or.inr h₁.owner⟩, h₁.owner,
        ⟨⟨tbl, (hfollow _ (by omega)).trans ht, rfl⟩, fun _ => ?_⟩, hsame.trans h₁.zero, hwords⟩
      rw [hsame, h₁.zero]
      rfl
    unfold storePte
    refine ok_modify fun s₂ hs₂ hok₂ => ?_
    have h₂ := hblank.rely hs₂ hok₂
    have hfresh₂ := (hfresh hnull).of_pagesOnly hok₁.zalloc.inv (hs₂.held h₁.owner)
    have ht₂ := hs₂.follow _ tbl (by omega) ((hfollow _ (by omega)).trans ht)
    have hnone : pteChild (s₂.pt.mem (pteSlot tbl (ptIndex va upper))) = none := by
      rw [h₂.zero]
      rfl
    have hS := h₂.steady.within upper
    have hok := hok₂.attach hfresh₂ hflags ht₂ hS hlength h₂.zero
    refine ⟨hok, .attach hok₂ h₂.owner hfresh₂ hflags ht₂ hS hlength h₂.zero, ok_pure fun s₃ hs₃ hok₃ => ?_⟩
    have hempty := attach_empty hok₂.inv hfresh₂ ht₂ hlength ((ppZallocOne s₁.pt).1 ||| flags ||| PTE_V)
      (i := ptIndex va upper) (ptIndex va lower)
    have hlast : Blank S t X f va lower (pteSlot (ppZallocOne s₁.pt).1 (ptIndex va lower))
        { s₂ with pt := s₂.pt.write (pteSlot tbl (ptIndex va upper)) ((ppZallocOne s₁.pt).1 ||| flags ||| PTE_V) } := by
      refine ⟨⟨hok, h₂.steady.mem, h₂.steady.within, Or.inr h₂.owner⟩, h₂.owner, ⟨⟨_, ?_, rfl⟩, fun _ => ?_⟩, hempty,
        fun a ha => ((attach_stop hok₂ hfresh₂ hflags ht₂ hS hlength h₂.zero a).1).trans (h₂.words a ha)⟩
      · rw [hsteps]
        exact attach_followed hok₂.inv hfresh₂ hflags ht₂ hS hlength hnone
      · rw [hempty]
        rfl
    have h₃ := hlast.rely hs₃ hok₃
    refine ⟨h₃.owner, h₃.words, fun ppte' hsome => ?_⟩
    obtain rfl := Option.some.inj hsome
    exact h₃

theorem ptMapPageCreateLevelsProg_ok {levels : List PtLevel} (hlevels : levelsBelow level = levels)
    (h : Blank S t X f va level ppte s) (hflags : FlagsOk flags) :
    Ok (PtSharedOk S) (ptEnv S t X)
      (fun created s' => s'.owner = some t ∧ (∀ a ∈ X, s'.pt.stopWord a = f a) ∧
        ∀ ppte', created = some ppte' → Blank S t X f va .l1 ppte' s')
      (ptMapPageCreateLevelsProg ppte va flags levels) s := by
  induction levels generalizing s ppte level with
  | nil =>
      have hlevel : level = .l1 := by
        cases level with
        | l1 => rfl
        | l2 | l3 | l4 => cases hlevels
      subst hlevel
      refine ok_pure fun s' hs' hok' => ?_
      have h' := h.rely hs' hok'
      refine ⟨h'.owner, h'.words, fun ppte' hsome => ?_⟩
      obtain rfl := Option.some.inj hsome
      exact h'
  | cons lower levels ih =>
      have hlevel : level ≠ .l1 := by
        rintro rfl
        cases hlevels
      obtain ⟨lower', hlower⟩ := levelsBelow_cons hlevel
      obtain ⟨rfl, rfl⟩ := List.cons.inj (hlevels.symm.trans hlower)
      refine Ok.bind ptEnv_lawful h.steady.ok (ptMapPageCreateLevelProg_ok h hflags hlower) fun created s₁ hok₁ hmid => ?_
      obtain ⟨howner, hwords, hblank⟩ := hmid
      cases created with
      | none =>
          refine ok_pure fun s₂ hs₂ _ => ⟨hs₂.owner.mpr howner, fun a ha => (hs₂.word a ha).trans (hwords a ha), ?_⟩
          intro ppte' hsome
          cases hsome
      | some ppte' => exact ih rfl (hblank ppte' rfl)

/-- A thread after `pt_map_page`: the page has the new entry, or nothing of the thread has changed. -/
def PageMapped (t : T) (X : Set Nat) (f : Nat → Nat) (va word : Nat) (result : Int) (s : PtShared T) : Prop :=
  s.owner ≠ some t ∧ ((result = 0 ∧ ∀ a ∈ X, s.pt.stopWord a = if ptPath a = ptPath va then word else f a) ∨
    (result = -1 ∧ ∀ a ∈ X, s.pt.stopWord a = f a))

/-- Leaving the critical section. -/
theorem mutexUnlock_ok {post : Int → PtShared T → Prop} {result : Int} (howner : s.owner = some t)
    (h : ∀ s', s'.owner ≠ some t → (∀ a ∈ X, s'.pt.stopWord a = s.pt.stopWord a) → post result s') :
    Ok (PtSharedOk S) (ptEnv S t X) post (mutexUnlock >>= fun _ => pure result) s := by
  unfold mutexUnlock
  refine ok_modify fun s₁ hs₁ hok₁ => ⟨hok₁, .unlock (hs₁.owner.mpr howner), ok_pure fun s₂ hs₂ _ => ?_⟩
  refine h s₂ (fun hown => ?_) fun a ha => (hs₂.word a ha).trans (hs₁.word a ha)
  cases hs₂.owner.mp hown

theorem ptMapPageStoreProg_ok (h : Blank S t X f va .l1 ppte s) (hX : ∀ a, ptPath a = ptPath va → a ∈ X) :
    Ok (PtSharedOk S) (ptEnv S t X) (PageMapped t X f va (pa ||| flags ||| PTE_V))
      (ptMapPageStoreProg ppte pa va flags) s := by
  unfold ptMapPageStoreProg loadPte storePte
  refine ok_read ptEnv_lawful fun s₁ hs₁ hok₁ => ?_
  have h₁ := h.rely hs₁ hok₁
  -- the entry is 0, so there is nothing to flush
  have hinvalid : flagIsSet (s₁.pt.mem ppte) PTE_V = false := by
    rw [h₁.zero]
    rfl
  rw [hinvalid]
  refine ok_modify fun s₂ hs₂ hok₂ => ?_
  have h₂ := h₁.rely hs₂ hok₂
  obtain ⟨tbl, ht, rfl⟩ := h₂.at_.table
  have hS := h₂.steady.within
  have hok := hok₂.write_l1 hS ht (pa ||| flags ||| PTE_V)
  refine ⟨hok, .write_l1 hok₂ hX hS ht _, mutexUnlock_ok h₂.owner fun s₃ howner hwords => ?_⟩
  refine ⟨howner, Or.inl ⟨rfl, fun a ha => (hwords a ha).trans ?_⟩⟩
  by_cases hpath : ptPath a = ptPath va
  · rw [if_pos hpath]
    exact stopWord_write_l1_self hok₂ hS ht _ hpath
  · rw [if_neg hpath]
    exact (stopWord_write_l1_other hok₂ hS ht _ hpath).1.trans (h₂.words a ha)

/-- `pt_map_page` of a page that is not mapped. -/
theorem ptMapPageProg_ok (howner : s.owner ≠ some t) (hX : ∀ a, ptPath a = ptPath va → a ∈ X)
    (hS : Within S va) (hflags : FlagsOk flags) (hpa : pa % PGSIZE = 0) (hva : va % PGSIZE = 0)
    (hwords : ∀ a ∈ X, s.pt.stopWord a = f a) (hzero : f va = 0) :
    Ok (PtSharedOk S) (ptEnv S t X) (PageMapped t X f va (pa ||| flags ||| PTE_V)) (ptMapPageProg t pa va flags) s := by
  unfold ptMapPageProg mutexLock
  refine ok_check (decide_eq_true hpa) (ok_check (decide_eq_true hva) (ok_await (fun s₁ hs₁ hok₁ hguard => ?_) ?_))
  · have hfree : s₁.owner = none := Option.isNone_iff_eq_none.mp hguard
    refine ⟨hok₁, .lock hfree, Ok.bind ptEnv_lawful hok₁
      (ptWalkProg_ok ⟨hok₁, hX va rfl, hS, Or.inr rfl⟩) fun stop s₂ hok₂ hmid => ?_⟩
    obtain ⟨hs₂, h₂, hat⟩ := hmid
    have hwords₂ : ∀ a ∈ X, s₂.pt.stopWord a = f a := fun a ha =>
      (hs₂.word a ha).trans ((hs₁.word a ha).trans (hwords a ha))
    have hblank : Blank S t X f va stop.1 stop.2 s₂ :=
      ⟨h₂, hs₂.owner.mpr rfl, hat, by rw [← hat.stopWord, hwords₂ va (hX va rfl), hzero], hwords₂⟩
    unfold loadPte
    refine ok_read ptEnv_lawful fun s₃ hs₃ hok₃ => ?_
    have h₃ := hblank.rely hs₃ hok₃
    have hinvalid : (!flagIsSet (s₃.pt.mem stop.2) PTE_V) = true := by
      rw [h₃.zero]
      rfl
    refine ok_check hinvalid (Ok.bind ptEnv_lawful hok₃ (ptMapPageCreateLevelsProg_ok rfl h₃ hflags)
      fun created s₄ hok₄ hcreated => ?_)
    obtain ⟨howner₄, hwords₄, hblank₄⟩ := hcreated
    cases created with
    | none =>
        exact mutexUnlock_ok howner₄ fun s₅ hown hwords₅ =>
          ⟨hown, Or.inr ⟨rfl, fun a ha => (hwords₅ a ha).trans (hwords₄ a ha)⟩⟩
    | some ppte => exact ptMapPageStoreProg_ok (hblank₄ ppte rfl) hX
  · intro s₁ hs₁ _ hguard
    cases hu : s₁.owner with
    | none =>
        rw [hu] at hguard
        cases hguard
    | some u =>
        refine ⟨u, ?_, hu⟩
        rintro rfl
        exact howner (hs₁.owner.mp hu)

/-- A page of the thread with a table. -/
theorem steady_of_word (hok : PtSharedOk S s) (hva : va ∈ X) (hS : Within S va) (hword : s.pt.stopWord va ≠ 0) :
    Steady S t X va s := ⟨hok, hva, hS, Or.inl (hok.table hS hword)⟩

theorem Steady.atLevel_l1 (h : Steady S t X va s) (hword : s.pt.stopWord va ≠ 0) (hat : AtLevel s.pt va level ppte) :
    level = .l1 := by
  obtain ⟨tbl, ht⟩ := h.ok.table h.within hword
  have hwalk := (table_atLevel ht).walk
  rw [hat.walk] at hwalk
  exact congrArg Prod.fst hwalk

/-- A flush changes nothing that a thread looks at. -/
theorem tlbFlushOneIf_ok {R : Type} {post : R → PtShared T → Prop} {k : Unit → PtProg T R} {b : Bool}
    (hok : PtSharedOk S s)
    (h : ∀ s', Interference S t X s s' → PtSharedOk S s' → Ok (PtSharedOk S) (ptEnv S t X) post (k ()) s') :
    Ok (PtSharedOk S) (ptEnv S t X) post (tlbFlushOneIf b va >>= k) s := by
  cases b with
  | false => exact h s (.refl s) hok
  | true =>
      refine ok_modify fun s₁ hs₁ hok₁ => ⟨hok₁.tlbFlushOne va, .tlbFlushOne va, h _ ?_ (hok₁.tlbFlushOne va)⟩
      refine hs₁.trans hok ⟨Iff.rfl, rfl, fun _ _ _ hu => hu, fun _ _ => rfl, fun _ => ⟨rfl, rfl, fun _ => Or.inl rfl⟩⟩

/-- A store into the entry of a page of the thread. -/
theorem storePte_ok {R : Type} {post : R → PtShared T → Prop} {k : Unit → PtProg T R} {word : Nat}
    (h : Steady S t X va s) (hX : ∀ a, ptPath a = ptPath va → a ∈ X) (ht : s.pt.follow (ptPrefix va .l1) = some tbl)
    (hk : ∀ s', (s'.owner = some t ↔ s.owner = some t) → PtSharedOk S s' →
      (∀ path u, path.length ≤ 3 → s.pt.follow path = some u → s'.pt.follow path = some u) →
      (∀ a ∈ X, s'.pt.stopWord a = if ptPath a = ptPath va then word else s.pt.stopWord a) →
      Ok (PtSharedOk S) (ptEnv S t X) post (k ()) s') :
    Ok (PtSharedOk S) (ptEnv S t X) post (storePte (pteSlot tbl (ptIndex va .l1)) word >>= k) s := by
  unfold storePte
  refine ok_modify fun s₁ hs₁ hok₁ => ?_
  have ht₁ := hs₁.follow _ tbl le_rfl ht
  have hok := hok₁.write_l1 h.within ht₁ word
  refine ⟨hok, .write_l1 hok₁ hX h.within ht₁ word, hk _ hs₁.owner hok (fun path u hpath hu => ?_) fun a ha => ?_⟩
  · exact (follow_write_l1 hok₁.inv.aligned hok₁.inv.tree h.within ht₁ word hpath).trans (hs₁.follow path u hpath hu)
  · by_cases hpath : ptPath a = ptPath va
    · rw [if_pos hpath]
      exact stopWord_write_l1_self hok₁ h.within ht₁ word hpath
    · rw [if_neg hpath]
      exact (stopWord_write_l1_other hok₁ h.within ht₁ word hpath).1.trans (hs₁.word a ha)

/-- `pt_unmap_page` of a page that is mapped. -/
theorem ptUnmapPageProg_ok (hok : PtSharedOk S s) (howner : s.owner ≠ some t) (hX : ∀ a, ptPath a = ptPath va → a ∈ X)
    (hS : Within S va) (hwords : ∀ a ∈ X, s.pt.stopWord a = f a) (hmapped : f va ≠ 0) :
    Ok (PtSharedOk S) (ptEnv S t X)
      (fun _ s' => s'.owner ≠ some t ∧ ∀ a ∈ X, s'.pt.stopWord a = if ptPath a = ptPath va then 0 else f a)
      (ptUnmapPageProg va .l1) s := by
  have hva := hX va rfl
  have h : Steady S t X va s := steady_of_word hok hva hS (by rwa [hwords va hva])
  unfold ptUnmapPageProg
  refine Ok.bind ptEnv_lawful hok (ptWalkProg_ok h) fun stop s₁ hok₁ hmid => ?_
  obtain ⟨hs₁, h₁, hat⟩ := hmid
  have hlevel : stop.1 = .l1 := h₁.atLevel_l1 (by rwa [hs₁.word va hva, hwords va hva]) hat
  rw [hlevel] at hat
  obtain ⟨tbl, ht, hslot⟩ := hat.table
  rw [if_neg (not_not_intro hlevel), hslot]
  unfold loadPte
  refine ok_read ptEnv_lawful fun s₂ hs₂ hok₂ => ?_
  refine storePte_ok (h₁.rely hs₂ hok₂) hX (hs₂.follow _ tbl le_rfl ht) fun s₃ howner₃ hok₃ _ hwords₃ => ?_
  refine tlbFlushOneIf_ok hok₃ fun s₄ hs₄ _ => ok_pure fun s₅ hs₅ _ => ⟨?_, fun a ha => ?_⟩
  · rw [Ne, hs₅.owner, hs₄.owner, howner₃, hs₂.owner, hs₁.owner]
    exact howner
  · have hbefore : s₂.pt.stopWord a = f a := (hs₂.word a ha).trans ((hs₁.word a ha).trans (hwords a ha))
    rw [hs₅.word a ha, hs₄.word a ha, hwords₃ a ha, hbefore]

/-- The pages of a region. -/
def ptPages (va n : Nat) : Set Nat := {a | ∃ k, k < n ∧ ptPath a = ptPath (pgOffset va k)}

theorem mem_ptPages {k : Nat} (hk : k < n) (ha : ptPath a = ptPath (pgOffset va k)) : a ∈ ptPages va n := ⟨k, hk, ha⟩

/-- The words of the pages of a region, by their number. -/
def HasWords (va n : Nat) (w : Nat → Nat) (s : PtShared T) : Prop := ∀ k, k < n → s.pt.stopWord (pgOffset va k) = w k

theorem HasWords.rely {w : Nat → Nat} (h : HasWords va n w s) (hs : Interference S t (ptPages va n) s s') :
    HasWords va n w s' := fun k hk => (hs.word _ (mem_ptPages hk rfl)).trans (h k hk)

/-- Changing the word of one page of a region. -/
theorem HasWords.update {w : Nat → Nat} {m word : Nat} (hdistinct : PagesDistinct va n) (hm : m < n)
    (h : HasWords va n w s)
    (hword : ∀ a ∈ ptPages va n, s'.pt.stopWord a = if ptPath a = ptPath (pgOffset va m) then word else s.pt.stopWord a) :
    HasWords va n (Function.update w m word) s' := by
  intro k hk
  rw [hword _ (mem_ptPages hk rfl)]
  by_cases hkm : k = m
  · subst hkm
    rw [if_pos rfl, Function.update_self]
  · have hne : ptPath (pgOffset va k) ≠ ptPath (pgOffset va m) := by
      rcases Nat.lt_or_gt_of_ne hkm with hlt | hlt
      · exact hdistinct k m hlt hm
      · exact (hdistinct m k hlt hk).symm
    rw [if_neg hne, Function.update_of_ne hkm, h k hk]

section Region

variable {w : Nat → Nat} {m done : Nat} (hdistinct : PagesDistinct va n) (hS : ∀ k, k < n → Within S (pgOffset va k))

include hdistinct hS

/-- The entries of the first pages of a region, and 0 for the others. -/
def mappedWords (pa flags done : Nat) (k : Nat) : Nat := if k < done then pgOffset pa k ||| flags ||| PTE_V else 0

omit hdistinct hS in
theorem mappedWords_succ (pa flags done : Nat) : mappedWords pa flags (done + 1) =
    Function.update (mappedWords pa flags done) done (pgOffset pa done ||| flags ||| PTE_V) := by
  funext k
  by_cases hk : k = done
  · subst hk
    rw [Function.update_self]
    exact if_pos (Nat.lt_succ_self k)
  · rw [Function.update_of_ne hk]
    exact if_congr (by omega) rfl rfl

/-- The turns of the loop of `pt_map_region`: as many pages are mapped as the loop got to. -/
theorem ptMapRegionLoopProg_ok (hok : PtSharedOk S s) (howner : s.owner ≠ some t) (hflags : FlagsOk flags)
    (hpa : pa % PGSIZE = 0) (hva : va % PGSIZE = 0) (hwords : HasWords va n (fun _ => 0) s) (hm : m ≤ n) :
    Ok (PtSharedOk S) (ptEnv S t (ptPages va n))
      (fun failed s' => s'.owner ≠ some t ∧ ∃ done, done ≤ m ∧ HasWords va n (mappedWords pa flags done) s' ∧
        ((failed = none ∧ done = m) ∨ failed = some done))
      (ptMapRegionLoopProg t pa va flags m) s := by
  induction m with
  | zero =>
      refine ok_pure fun s' hs' _ => ⟨fun h => howner (hs'.owner.mp h), 0, le_rfl, fun k hk => ?_, Or.inl ⟨rfl, rfl⟩⟩
      exact (hwords.rely hs' k hk).trans (if_neg (Nat.not_lt_zero k)).symm
  | succ m ih =>
      refine Ok.bind ptEnv_lawful hok (ih (by omega)) fun failed s₁ hok₁ hmid => ?_
      obtain ⟨howner₁, done, hdone, hwords₁, hfailed⟩ := hmid
      have hpage : ∀ q, q % PGSIZE = 0 → pgOffset q m % PGSIZE = 0 := fun q hq => by
        simp only [pgOffset, u64, PGSIZE] at *
        omega
      cases failed with
      | some failed =>
          have heq : failed = done := Option.some.inj (hfailed.resolve_left fun h => by cases h.1)
          subst heq
          exact ok_pure fun s' hs' _ =>
            ⟨fun h => howner₁ (hs'.owner.mp h), failed, by omega, hwords₁.rely hs', Or.inr rfl⟩
      | none =>
          obtain rfl : done = m := (hfailed.resolve_right fun h => by cases h).2
          have hzero : s₁.pt.stopWord (pgOffset va done) = 0 := (hwords₁ done hm).trans (if_neg (Nat.lt_irrefl done))
          refine Ok.bind ptEnv_lawful hok₁ (ptMapPageProg_ok howner₁ (fun a ha => mem_ptPages hm ha)
            (hS done hm) hflags (hpage pa hpa) (hpage va hva) (fun _ _ => rfl) hzero) fun result s₂ _ hmapped => ?_
          obtain ⟨howner₂, ⟨rfl, hword⟩ | ⟨rfl, hword⟩⟩ := hmapped
          · have hwords₂ := hwords₁.update hdistinct hm hword
            rw [← mappedWords_succ] at hwords₂
            exact ok_pure fun s' hs' _ =>
              ⟨fun h => howner₂ (hs'.owner.mp h), done + 1, le_rfl, hwords₂.rely hs', Or.inl ⟨rfl, rfl⟩⟩
          · have hwords₂ : HasWords va n (mappedWords pa flags done) s₂ := fun k hk =>
              (hword _ (mem_ptPages hk rfl)).trans (hwords₁ k hk)
            exact ok_pure fun s' hs' _ =>
              ⟨fun h => howner₂ (hs'.owner.mp h), done, by omega, hwords₂.rely hs', Or.inr rfl⟩

/-- The turns of the loop after `fail_unmap`. -/
theorem ptUnmapRegionLoopProg_ok (hok : PtSharedOk S s) (howner : s.owner ≠ some t) (hdone : done ≤ n) (hm : m ≤ done)
    (hwords : HasWords va n (mappedWords pa flags done) s) :
    Ok (PtSharedOk S) (ptEnv S t (ptPages va n))
      (fun _ s' => s'.owner ≠ some t ∧ HasWords va n (fun k => if k < m then 0 else mappedWords pa flags done k) s')
      (ptUnmapRegionLoopProg va m) s := by
  induction m with
  | zero =>
      refine ok_pure fun s' hs' _ => ⟨fun h => howner (hs'.owner.mp h), fun k hk => ?_⟩
      exact (hwords.rely hs' k hk).trans (if_neg (Nat.not_lt_zero k)).symm
  | succ m ih =>
      refine Ok.bind ptEnv_lawful hok (ih (by omega)) fun _ s₁ hok₁ hmid => ?_
      obtain ⟨howner₁, hwords₁⟩ := hmid
      have hmn : m < n := by omega
      have hmapped : s₁.pt.stopWord (pgOffset va m) ≠ 0 := by
        rw [hwords₁ m hmn]
        dsimp only
        rw [if_neg (Nat.lt_irrefl m), mappedWords, if_pos (by omega)]
        exact entry_ne_zero
      refine Ok.bind ptEnv_lawful hok₁ (ptUnmapPageProg_ok hok₁ howner₁ (fun a ha => mem_ptPages hmn ha) (hS m hmn)
        (fun _ _ => rfl) hmapped) fun _ s₂ _ hcleared => ?_
      have hwords₂ := hwords₁.update hdistinct hmn hcleared.2
      refine ok_pure fun s' hs' _ => ⟨fun h => hcleared.1 (hs'.owner.mp h), fun k hk => ?_⟩
      rw [hwords₂.rely hs' k hk]
      by_cases hkm : k = m
      · subst hkm
        rw [Function.update_self]
        exact (if_pos (Nat.lt_succ_self k)).symm
      · rw [Function.update_of_ne hkm]
        exact if_congr (by omega) rfl rfl

/-- `pt_map_region` of pages that are not mapped: all of them are mapped, or none. -/
theorem ptMapRegionProg_ok (hok : PtSharedOk S s) (howner : s.owner ≠ some t) (hflags : FlagsOk flags)
    (hpa : pa % PGSIZE = 0) (hva : va % PGSIZE = 0) (hwords : HasWords va n (fun _ => 0) s) :
    Ok (PtSharedOk S) (ptEnv S t (ptPages va n))
      (fun result s' => s'.owner ≠ some t ∧
        ((result = 0 ∧ HasWords va n (fun k => pgOffset pa k ||| flags ||| PTE_V) s') ∨
          (result = -1 ∧ HasWords va n (fun _ => 0) s')))
      (ptMapRegionProg t pa va (n * PGSIZE) flags) s := by
  have hturns : (n * PGSIZE + PGSIZE - 1) / PGSIZE = n := by
    simp only [PGSIZE]
    omega
  unfold ptMapRegionProg
  rw [hturns]
  refine ok_check (decide_eq_true hpa) (ok_check (decide_eq_true hva) (ok_check (by simp) ?_))
  refine Ok.bind ptEnv_lawful hok (ptMapRegionLoopProg_ok hdistinct hS hok howner hflags hpa hva hwords le_rfl)
    fun failed s₁ hok₁ hmid => ?_
  obtain ⟨howner₁, done, hdone, hwords₁, ⟨rfl, rfl⟩ | rfl⟩ := hmid
  · refine ok_pure fun s' hs' _ => ⟨fun h => howner₁ (hs'.owner.mp h), Or.inl ⟨rfl, fun k hk => ?_⟩⟩
    exact (hwords₁.rely hs' k hk).trans (if_pos hk)
  · refine Ok.bind ptEnv_lawful hok₁ (ptUnmapRegionLoopProg_ok hdistinct hS hok₁ howner₁ hdone le_rfl hwords₁)
      fun _ s₂ _ hcleared => ok_pure fun s' hs' _ => ?_
    refine ⟨fun h => hcleared.1 (hs'.owner.mp h), Or.inr ⟨rfl, fun k hk => ?_⟩⟩
    rw [hcleared.2.rely hs' k hk]
    by_cases hkd : k < done
    · exact if_pos hkd
    · exact (if_neg hkd).trans (if_neg hkd)

/-- The turns of the inner loop of `virtual_invalidate`, in one table. -/
theorem virtualInvalidatePtesProg_ok (hok : PtSharedOk S s) (howner : s.owner ≠ some t)
    (ht : s.pt.follow (ptPrefix (pgOffset va done) .l1) = some tbl)
    (htable : ptLevelOffset (pgOffset va done) .l1 + m ≤ PT_NUM_ENTRIES) (hm : done + m ≤ n)
    (hwords : HasWords va n (fun k => if k < done then PTE_INVALIDATED else w k) s) :
    Ok (PtSharedOk S) (ptEnv S t (ptPages va n))
      (fun _ s' => s'.owner ≠ some t ∧ s'.pt.follow (ptPrefix (pgOffset va done) .l1) = some tbl ∧
        HasWords va n (fun k => if k < done + m then PTE_INVALIDATED else w k) s')
      (virtualInvalidatePtesProg (pgOffset va done) (pteSlot tbl (ptIndex (pgOffset va done) .l1)) m) s := by
  induction m with
  | zero =>
      exact ok_pure fun s' hs' _ =>
        ⟨fun h => howner (hs'.owner.mp h), hs'.follow _ tbl le_rfl ht, hwords.rely hs'⟩
  | succ m ih =>
      refine Ok.bind ptEnv_lawful hok (ih (by omega) (by omega)) fun _ s₁ hok₁ hmid => ?_
      obtain ⟨howner₁, ht₁, hwords₁⟩ := hmid
      have hmn : done + m < n := by omega
      -- the entry of this turn is in the same table
      obtain ⟨hpath, hoffset⟩ := ptPrefix_pgOffset (k := m) (show ptLevelOffset (pgOffset va done) .l1 + m < _ by omega)
      have hslot : pteSlot tbl (ptIndex (pgOffset va done) .l1) + 8 * m =
          pteSlot tbl (ptIndex (pgOffset va (done + m)) .l1) := by
        rw [← pgOffset_pgOffset]
        simp only [pteSlot, ptIndex, hoffset]
        omega
      have ht' : s₁.pt.follow (ptPrefix (pgOffset va (done + m)) .l1) = some tbl := by
        rw [← pgOffset_pgOffset, hpath]
        exact ht₁
      have hsteady : Steady S t (ptPages va n) (pgOffset va (done + m)) s₁ :=
        ⟨hok₁, mem_ptPages hmn rfl, hS _ hmn, Or.inl ⟨tbl, ht'⟩⟩
      rw [hslot]
      refine storePte_ok hsteady (fun a ha => mem_ptPages hmn ha) ht' fun s₂ howner₂ hok₂ hfollow₂ hword => ?_
      have hwords₂ := hwords₁.update hdistinct hmn hword
      refine tlbFlushOneIf_ok (b := true) hok₂ fun s₃ hs₃ _ => ok_pure fun s₄ hs₄ _ => ⟨?_, ?_, fun k hk => ?_⟩
      · rw [Ne, hs₄.owner, hs₃.owner, howner₂]
        exact howner₁
      · exact hs₄.follow _ tbl le_rfl (hs₃.follow _ tbl le_rfl (hfollow₂ _ tbl le_rfl ht₁))
      · rw [(hwords₂.rely hs₃).rely hs₄ k hk]
        by_cases hkm : k = done + m
        · subst hkm
          rw [Function.update_self]
          exact (if_pos (by omega)).symm
        · rw [Function.update_of_ne hkm]
          exact if_congr (by omega) rfl rfl

/-- From any page on, the loop of `virtual_invalidate` does the pages that are left. -/
theorem virtualInvalidateLoopProg_ok {fuel : Nat} (hvalid : ∀ k, k < n → flagIsSet (w k) PTE_V = true)
    (hok : PtSharedOk S s) (howner : s.owner ≠ some t) (hdone : done ≤ n) (hfuel : n - done ≤ fuel)
    (hwords : HasWords va n (fun k => if k < done then PTE_INVALIDATED else w k) s) :
    Ok (PtSharedOk S) (ptEnv S t (ptPages va n))
      (fun _ s' => s'.owner ≠ some t ∧ HasWords va n (fun _ => PTE_INVALIDATED) s')
      (virtualInvalidateLoopProg va n done fuel) s := by
  induction fuel generalizing s done with
  | zero =>
      refine ok_pure fun s' hs' _ => ⟨fun h => howner (hs'.owner.mp h), fun k hk => ?_⟩
      exact (hwords.rely hs' k hk).trans (if_pos (by omega))
  | succ fuel ih =>
      unfold virtualInvalidateLoopProg
      by_cases hmore : done < n
      · rw [if_pos hmore]
        have hword : s.pt.stopWord (pgOffset va done) = w done := (hwords done hmore).trans (if_neg (Nat.lt_irrefl done))
        have hne : w done ≠ 0 := by
          intro hzero
          have hset := hvalid done hmore
          rw [hzero] at hset
          cases hset
        have hmem : pgOffset va done ∈ ptPages va n := mem_ptPages hmore rfl
        have h : Steady S t (ptPages va n) (pgOffset va done) s :=
          steady_of_word hok hmem (hS done hmore) (by rwa [hword])
        refine Ok.bind ptEnv_lawful hok (ptWalkProg_ok h) fun stop s₁ hok₁ hmid => ?_
        obtain ⟨hs₁, h₁, hat⟩ := hmid
        have hword₁ := (hs₁.word _ hmem).trans hword
        have hlevel : stop.1 = .l1 := h₁.atLevel_l1 (by rwa [hword₁]) hat
        rw [hlevel] at hat
        obtain ⟨tbl, ht, hslot⟩ := hat.table
        refine ok_check (decide_eq_true hlevel) ?_
        rw [hslot]
        unfold loadPte
        refine ok_read ptEnv_lawful fun s₂ hs₂ hok₂ => ?_
        have ht₂ := hs₂.follow _ tbl le_rfl ht
        have hpresent : flagIsSet (s₂.pt.mem (pteSlot tbl (ptIndex (pgOffset va done) .l1))) PTE_V = true := by
          rw [← (table_atLevel ht₂).stopWord, hs₂.word _ hmem, hword₁]
          exact hvalid done hmore
        have howner₂ : s₂.owner ≠ some t := by
          rw [Ne, hs₂.owner, hs₁.owner]
          exact howner
        have hoffset := ptLevelOffset_lt (pgOffset va done) .l1
        refine ok_check hpresent (Ok.bind ptEnv_lawful hok₂ (virtualInvalidatePtesProg_ok hdistinct hS hok₂ howner₂ ht₂
          (by omega) (by omega) ((hwords.rely hs₁).rely hs₂)) fun _ s₃ hok₃ hchunk => ?_)
        exact ih hok₃ hchunk.1 (by omega) (by omega) hchunk.2.2
      · rw [if_neg hmore]
        refine ok_pure fun s' hs' _ => ⟨fun h => howner (hs'.owner.mp h), fun k hk => ?_⟩
        exact (hwords.rely hs' k hk).trans (if_pos (by omega))

end Region

/-- What an entry of level 1 says about an address. -/
def resolved (word va : Nat) : Nat :=
  let pa := if flagIsSet word PTE_V then word &&& PTE_FRAME_4K else 0
  if pa = 0 then 0 else u64 (pa + getPageOffset va .l1)

/-- `pt_resolve` of an address whose page is or was mapped. -/
theorem ptResolveProg_ok (hok : PtSharedOk S s) (howner : s.owner ≠ some t) (hva : va ∈ X) (hS : Within S va)
    (hword : s.pt.stopWord va ≠ 0) :
    Ok (PtSharedOk S) (ptEnv S t X)
      (fun pa s' => s'.owner ≠ some t ∧ pa = resolved (s.pt.stopWord va) va ∧ ∀ a ∈ X, s'.pt.stopWord a = s.pt.stopWord a)
      (ptResolveProg va) s := by
  have hpage : Ok (PtSharedOk S) (ptEnv S t X)
      (fun page s' => Interference S t X s s' ∧ page.2 = .l1 ∧
        page.1 = if flagIsSet (s.pt.stopWord va) PTE_V then s.pt.stopWord va &&& PTE_FRAME_4K else 0)
      (ptResolvePageProg va) s := by
    unfold ptResolvePageProg
    refine Ok.bind ptEnv_lawful hok (ptWalkProg_ok (steady_of_word hok hva hS hword)) fun stop s₁ hok₁ hmid => ?_
    obtain ⟨hs₁, h₁, hat⟩ := hmid
    obtain ⟨level, ppte⟩ := stop
    obtain rfl : level = .l1 := h₁.atLevel_l1 (by rwa [hs₁.word va hva]) hat
    obtain ⟨tbl, ht, hslot⟩ := hat.table
    dsimp only at hslot
    subst hslot
    have hload : ∀ {s'}, Interference S t X s₁ s' → s'.pt.mem (pteSlot tbl (ptIndex va .l1)) = s.pt.stopWord va :=
      fun hs => by
        rw [← (table_atLevel (hs.follow _ tbl le_rfl ht)).stopWord, hs.word va hva, hs₁.word va hva]
    unfold loadPte
    refine ok_read ptEnv_lawful fun s₂ hs₂ hok₂ => ?_
    dsimp only
    rw [hload hs₂]
    cases flagIsSet (s.pt.stopWord va) PTE_V with
    | false =>
        exact ok_pure fun s₃ hs₃ _ => ⟨hs₁.trans hok (hs₂.trans hok₁ hs₃), rfl, rfl⟩
    | true =>
        refine ok_read ptEnv_lawful fun s₃ hs₃ _ => ok_pure fun s₄ hs₄ _ => ?_
        have hs₁₃ := hs₂.trans hok₁ hs₃
        refine ⟨hs₁.trans hok (hs₁₃.trans hok₁ hs₄), rfl, ?_⟩
        dsimp only
        rw [hload hs₁₃]
        rfl
  unfold ptResolveProg
  refine Ok.bind ptEnv_lawful hok hpage fun page s₁ _ hmid => ok_pure fun s₂ hs₂ _ => ?_
  obtain ⟨hs₁, hlevel, hframe⟩ := hmid
  have hs := hs₁.trans hok hs₂
  refine ⟨fun h => howner (hs.owner.mp h), ?_, hs.word⟩
  rw [hlevel, hframe]
  rfl

/-! ### The protocol -/

/-- What a thread calls. -/
inductive PtCall where
  | mapRegion (pa va n flags : Nat)
  | invalidate (p n : Nat)
  | resolve (va : Nat)
  deriving DecidableEq

inductive PtAnswer where
  | code (result : Int)
  | address (pa : Nat)
  | done

/-- The pages that a call is about. -/
def PtCall.pages : PtCall → Set Nat
  | .mapRegion _ va n _ => ptPages va n
  | .invalidate p n => ptPages (roundDown p PGSIZE) n
  | .resolve va => {a | ptPath a = ptPath va}

def PtCall.code (t : T) : PtCall → PtProg T PtAnswer
  | .mapRegion pa va n flags => do return .code (← ptMapRegionProg t pa va (n * PGSIZE) flags)
  | .invalidate p n => do
      virtualInvalidateProg p n
      return .done
  | .resolve va => do return .address (← ptResolveProg va)

/-- When a call is in order: a region that is mapped is free, one that is invalidated is mapped, and an address is looked
up that is or was mapped. -/
def PtCall.Legal (S : PtPaths) : PtCall → (Nat → Nat) → Prop
  | .mapRegion pa va n flags, f => pa % PGSIZE = 0 ∧ va % PGSIZE = 0 ∧ FlagsOk flags ∧ PagesDistinct va n ∧
      ∀ k, k < n → Within S (pgOffset va k) ∧ f (pgOffset va k) = 0
  | .invalidate p n, f => PagesDistinct (roundDown p PGSIZE) n ∧
      ∀ k, k < n → Within S (pgOffset (roundDown p PGSIZE) k) ∧ flagIsSet (f (pgOffset (roundDown p PGSIZE) k)) PTE_V = true
  | .resolve va, f => Within S va ∧ f va ≠ 0

/-- What a call is for, on the words that stand for the pages: all pages of a region are mapped or none, all are
invalidated, an address is looked up. -/
def PtCall.Does : PtCall → (Nat → Nat) → PtAnswer → (Nat → Nat) → Prop
  | .mapRegion pa va n flags, _, r, f' =>
      (r = .code 0 ∧ ∀ k, k < n → f' (pgOffset va k) = pgOffset pa k ||| flags ||| PTE_V) ∨
        (r = .code (-1) ∧ ∀ k, k < n → f' (pgOffset va k) = 0)
  | .invalidate p n, _, r, f' => r = .done ∧ ∀ k, k < n → f' (pgOffset (roundDown p PGSIZE) k) = PTE_INVALIDATED
  | .resolve va, f, r, f' => r = .address (resolved (f va) va) ∧ f' va = f va

/-- Threads on shared page tables. -/
def ptProtocol (T : Type) (S : PtPaths) : Protocol T (PtShared T) PtCall PtAnswer Nat Nat where
  inv := PtSharedOk S
  code := PtCall.code
  keys := PtCall.pages
  view s := s.pt.stopWord
  env := ptEnv S
  idle t s := s.owner ≠ some t
  holder := PtShared.owner
  legal := PtCall.Legal S
  spec := PtCall.Does

theorem ptCall_ok {call : PtCall} (hok : PtSharedOk S s) (hlegal : call.Legal S s.pt.stopWord) (howner : s.owner ≠ some t) :
    Ok (PtSharedOk S) (ptEnv S t call.pages) ((ptProtocol T S).Post t call s.pt.stopWord) (call.code t) s := by
  cases call with
  | mapRegion pa va n flags =>
      obtain ⟨hpa, hva, hflags, hdistinct, hpages⟩ := hlegal
      refine Ok.bind ptEnv_lawful hok (ptMapRegionProg_ok hdistinct (fun k hk => (hpages k hk).1) hok howner hflags hpa hva
        fun k hk => (hpages k hk).2) fun result s₁ _ hmid => ok_pure fun s₂ hs₂ _ => ?_
      obtain ⟨howner₁, hwords⟩ := hmid
      refine ⟨fun h => howner₁ (hs₂.owner.mp h), ?_⟩
      rcases hwords with ⟨rfl, hwords⟩ | ⟨rfl, hwords⟩
      · exact Or.inl ⟨rfl, hwords.rely hs₂⟩
      · exact Or.inr ⟨rfl, hwords.rely hs₂⟩
  | invalidate p n =>
      obtain ⟨hdistinct, hpages⟩ := hlegal
      refine Ok.bind ptEnv_lawful hok (virtualInvalidateLoopProg_ok (w := fun k => s.pt.stopWord (pgOffset _ k)) hdistinct
        (fun k hk => (hpages k hk).1) (fun k hk => (hpages k hk).2) hok howner (Nat.zero_le n) (by omega)
        fun k _ => (if_neg (Nat.not_lt_zero k)).symm) fun _ s₁ _ hmid => ok_pure fun s₂ hs₂ _ => ?_
      exact ⟨fun h => hmid.1 (hs₂.owner.mp h), rfl, hmid.2.rely hs₂⟩
  | resolve va =>
      obtain ⟨hS, hword⟩ := hlegal
      refine Ok.bind ptEnv_lawful hok (ptResolveProg_ok hok howner rfl hS hword) fun pa s₁ _ hmid =>
        ok_pure fun s₂ hs₂ _ => ?_
      obtain ⟨howner₁, rfl, hwords⟩ := hmid
      exact ⟨fun h => howner₁ (hs₂.owner.mp h), rfl, (hs₂.word va rfl).trans (hwords va rfl)⟩

theorem ptProtocol_sound : (ptProtocol T S).Sound where
  lawful _ _ := ptEnv_lawful
  apart htu hXY h := h.interference htu hXY
  view h hk := h.word _ hk
  idle h hs hown := h (hs.owner.mp hown)
  holder h := h
  waits h := h
  legal := by
    intro call f g hfg hlegal
    cases call with
    | mapRegion pa va n flags =>
        obtain ⟨hpa, hva, hflags, hdistinct, hpages⟩ := hlegal
        refine ⟨hpa, hva, hflags, hdistinct, fun k hk => ⟨(hpages k hk).1, ?_⟩⟩
        rw [← hfg _ (mem_ptPages hk rfl)]
        exact (hpages k hk).2
    | invalidate p n =>
        obtain ⟨hdistinct, hpages⟩ := hlegal
        refine ⟨hdistinct, fun k hk => ⟨(hpages k hk).1, ?_⟩⟩
        rw [← hfg _ (mem_ptPages hk rfl)]
        exact (hpages k hk).2
    | resolve va =>
        refine ⟨hlegal.1, ?_⟩
        rw [← hfg va rfl]
        exact hlegal.2
  spec := by
    intro call f g r f' g' hfg hfg' hdoes
    cases call with
    | mapRegion pa va n flags =>
        have hsame : ∀ k, k < n → g' (pgOffset va k) = f' (pgOffset va k) := fun k hk =>
          (hfg' _ (mem_ptPages hk rfl)).symm
        rcases hdoes with ⟨rfl, hwords⟩ | ⟨rfl, hwords⟩
        · exact Or.inl ⟨rfl, fun k hk => (hsame k hk).trans (hwords k hk)⟩
        · exact Or.inr ⟨rfl, fun k hk => (hsame k hk).trans (hwords k hk)⟩
    | invalidate p n =>
        exact ⟨hdoes.1, fun k hk => (hfg' _ (mem_ptPages hk rfl)).symm.trans (hdoes.2 k hk)⟩
    | resolve va =>
        refine ⟨?_, ?_⟩
        · rw [← hfg va rfl]
          exact hdoes.1
        · rw [← hfg va rfl, ← hfg' va rfl]
          exact hdoes.2
  code := ptCall_ok

/-- The translation of an address, from the word at which its walk ends. -/
theorem PtOk.entry (h : PtOk S pt) (hS : Within S va) :
    pt.entry va = if flagIsSet (pt.stopWord va) PTE_V then some (.l1, pt.stopWord va) else none := by
  have hat := ptWalk_atLevel pt va
  unfold PtState.entry
  rw [PtState.stopWord]
  dsimp only
  cases hvalid : flagIsSet (pt.mem (ptWalk pt va .l1).2) PTE_V with
  | false => rfl
  | true =>
      have hlevel : (ptWalk pt va .l1).1 = .l1 := by
        by_contra hne
        have hzero := h.small va hS hne
        rw [PtState.stopWord] at hzero
        rw [hzero] at hvalid
        cases hvalid
      rw [hlevel]

variable [DecidableEq T] {labels : List (Label T PtCall PtAnswer)} {c₀ c : Conf T (PtShared T) PtCall PtAnswer}
  {a₀ : Locked.Atomic T (Nat → Nat) PtCall Unit}

end Dangless
