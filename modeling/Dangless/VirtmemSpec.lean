import Dangless.VirtmemWalk

/-! What the operations of `virtmem.c` do to the translation of every address. -/

namespace Dangless

open TableTree

abbrev PtPaths := List (Fin PT_NUM_ENTRIES) → Prop

/-- The invariant of the page tables: the tables on the paths of `S` form a tree, and the page
allocator returns pages that are in use nowhere in the tables. -/
structure PtInv (S : PtPaths) (s : PtState) : Prop where
  aligned : s.cr3 % PGSIZE = 0
  tree : TreeOn pteSlot pteChild S s.mem s.cr3 3
  poolAligned : ∀ pa ∈ s.pool, pa ≠ 0 → pa % PGSIZE = 0 ∧ pa < 2 ^ 52
  poolFresh : ∀ pa ∈ s.pool, pa ≠ 0 → ∀ path, path.length ≤ 3 → s.follow path ≠ some pa
  poolDistinct : s.pool.Pairwise fun pa pa' => pa ≠ 0 → pa' ≠ pa

/-- What every operation keeps: the root, and which of its entries are in use. -/
structure PtKeeps (s s' : PtState) : Prop where
  cr3 : s'.cr3 = s.cr3
  root : ∀ i, s.mem (pteSlot s.cr3 i) ≠ 0 → s'.mem (pteSlot s.cr3 i) ≠ 0

/-- The tables on the path of an address are in the tree. -/
def Within (S : PtPaths) (va : Nat) : Prop := ∀ level, S (ptPrefix va level)

theorem PtKeeps.refl (s : PtState) : PtKeeps s s := ⟨rfl, fun _ h => h⟩

theorem PtKeeps.trans {s s' s'' : PtState} (h : PtKeeps s s') (h' : PtKeeps s' s'') :
    PtKeeps s s'' := by
  refine ⟨h'.cr3.trans h.cr3, fun i hi => ?_⟩
  have hroot := h'.root i
  rw [h.cr3] at hroot
  exact hroot (h.root i hi)

variable {S : PtPaths} {s s' : PtState} {path p : List (Fin PT_NUM_ENTRIES)} {i : Fin PT_NUM_ENTRIES}
  {t va a flags pa : Nat} {level : PtLevel}

theorem pteSlot_apart : SlotsApart pteSlot fun t => t % PGSIZE = 0 := by
  intro t t' i i' ht ht' heq
  have hi := i.isLt
  have hi' := i'.isLt
  simp only [pteSlot, PGSIZE, PT_NUM_ENTRIES] at *
  refine ⟨by omega, Fin.ext (by omega)⟩

theorem follow_aligned (halign : s.cr3 % PGSIZE = 0) (ht : s.follow path = some t) : t % PGSIZE = 0 := by
  rcases List.eq_nil_or_concat path with rfl | ⟨p, i, rfl⟩
  · obtain rfl := Option.some.inj ht
    exact halign
  · rw [List.concat_eq_append] at ht
    obtain ⟨u, hu, -⟩ := follow_prefix ht
    rw [PtState.follow, follow_snoc hu] at ht
    obtain ⟨-, rfl⟩ := pteChild_eq_some.mp ht
    exact frame_aligned _

theorem PtInv.table_aligned (hinv : PtInv S s) : ∀ path t, s.follow path = some t → t % PGSIZE = 0 :=
  fun _ _ ht => follow_aligned hinv.aligned ht

theorem PtState.entry_congr (hlookup : s'.lookup va = s.lookup va)
    (hword : s'.mem (s.lookup va).2 = s.mem (s.lookup va).2) : s'.entry va = s.entry va := by
  rw [PtState.entry_eq, PtState.entry_eq, hlookup, hword]

/-- The translation of an address depends on its path only. -/
theorem entry_of_path {b : Nat} (s : PtState) (h : ptPath a = ptPath b) : s.entry a = s.entry b := by
  simp only [ptPath, List.cons.injEq, and_true] at h
  obtain ⟨h4, h3, h2, h1⟩ := h
  have hlookup : s.lookup a = s.lookup b := by
    simp only [PtState.lookup]
    rw [h4, h3, h2, h1]
  rw [PtState.entry_eq, PtState.entry_eq, hlookup]

@[simp] theorem tlbFlushOne_entry : (s.tlbFlushOne a).entry va = s.entry va := rfl

theorem PtInv.tlbFlushOne (hinv : PtInv S s) : PtInv S (s.tlbFlushOne a) :=
  ⟨hinv.aligned, hinv.tree, hinv.poolAligned, hinv.poolFresh, hinv.poolDistinct⟩

/-- A root without entries, and pages to come that are not the root. -/
theorem PtInv.of_empty (halign : s.cr3 % PGSIZE = 0) (hempty : ∀ i, s.mem (pteSlot s.cr3 i) = 0)
    (hpool : ∀ pa ∈ s.pool, pa ≠ 0 → pa % PGSIZE = 0 ∧ pa < 2 ^ 52 ∧ pa ≠ s.cr3)
    (hdistinct : s.pool.Pairwise fun pa pa' => pa ≠ 0 → pa' ≠ pa) : PtInv S s := by
  have hfollow : ∀ path t, s.follow path = some t → path = [] ∧ t = s.cr3 := by
    intro path t ht
    cases path with
    | nil => exact ⟨rfl, (Option.some.inj ht).symm⟩
    | cons i path =>
        rw [PtState.follow, follow_cons, hempty i] at ht
        exact absurd ht (by simp [pteChild, flagIsSet])
  refine ⟨halign, fun p q t _ _ _ hp hq => ?_, fun pa hpa hne => ?_, fun pa hpa hne path _ ht => ?_, hdistinct⟩
  · rw [(hfollow p t hp).1, (hfollow q t hq).1]
  · exact ⟨(hpool pa hpa hne).1, (hpool pa hpa hne).2.1⟩
  · exact (hpool pa hpa hne).2.2 (hfollow path pa ht).2

/-- The word of the entry `i` of the table at the end of a path. -/
def PtState.word (s : PtState) (p : List (Fin PT_NUM_ENTRIES)) (i : Fin PT_NUM_ENTRIES) : Option Nat :=
  (s.follow p).map fun t => s.mem (pteSlot t i)

/-- The tables are kept with the entries that refer to them, and new ones are on `full` only, with these
flags. -/
structure Grown (s s' : PtState) (full : List (Fin PT_NUM_ENTRIES)) (flags : Nat) : Prop where
  kept : ∀ p i t, p.length ≤ 2 → s.follow (p ++ [i]) = some t →
    s'.follow (p ++ [i]) = some t ∧ s'.word p i = s.word p i
  made : ∀ p i t, p.length ≤ 2 → s'.follow (p ++ [i]) = some t →
    s.follow (p ++ [i]) = some t ∨ (p ++ [i] <+: full ∧ s'.word p i = some (t ||| flags ||| PTE_V))

theorem Grown.of_words {full : List (Fin PT_NUM_ENTRIES)}
    (hfollow : ∀ path : List (Fin PT_NUM_ENTRIES), path.length ≤ 3 → s'.follow path = s.follow path)
    (hword : ∀ p i, p.length ≤ 2 → s'.word p i = s.word p i) : Grown s s' full flags := by
  have hsnoc : ∀ (p : List (Fin PT_NUM_ENTRIES)) i, p.length ≤ 2 →
      s'.follow (p ++ [i]) = s.follow (p ++ [i]) := by
    intro p i hp
    apply hfollow
    simp only [List.length_append, List.length_cons, List.length_nil]
    omega
  exact ⟨fun p i t hp ht => ⟨(hsnoc p i hp).trans ht, hword p i hp⟩,
    fun p i t hp ht => Or.inl ((hsnoc p i hp).symm.trans ht)⟩

theorem Grown.refl (s : PtState) (full : List (Fin PT_NUM_ENTRIES)) (flags : Nat) : Grown s s full flags :=
  Grown.of_words (fun _ _ => rfl) fun _ _ _ => rfl

theorem Grown.trans {s'' : PtState} {full : List (Fin PT_NUM_ENTRIES)} (h : Grown s s' full flags)
    (h' : Grown s' s'' full flags) : Grown s s'' full flags := by
  refine ⟨fun p i t hp ht => ?_, fun p i t hp ht => ?_⟩
  · obtain ⟨ht', hword⟩ := h.kept p i t hp ht
    obtain ⟨ht'', hword'⟩ := h'.kept p i t hp ht'
    exact ⟨ht'', hword'.trans hword⟩
  · rcases h'.made p i t hp ht with ht' | hnew
    · rcases h.made p i t hp ht' with hold | ⟨hpre, hword⟩
      · exact Or.inl hold
      · exact Or.inr ⟨hpre, (h'.kept p i t hp ht').2.trans hword⟩
    · exact Or.inr hnew

theorem zeroPage_slot (ht : t % PGSIZE = 0) (hpa : pa % PGSIZE = 0) (hne : t ≠ pa)
    (mem : Nat → Nat) (i : Fin PT_NUM_ENTRIES) : zeroPage mem pa (pteSlot t i) = mem (pteSlot t i) := by
  have hi := i.isLt
  refine if_neg ?_
  simp only [pteSlot, PGSIZE, PT_NUM_ENTRIES] at *
  omega

theorem zeroPage_self (mem : Nat → Nat) (pa : Nat) (i : Fin PT_NUM_ENTRIES) :
    zeroPage mem pa (pteSlot pa i) = 0 := by
  have hi := i.isLt
  refine if_pos ?_
  simp only [pteSlot, PGSIZE, PT_NUM_ENTRIES] at *
  omega

/-- A page that `pp_zalloc_one` has given: an empty table that is not in the tree. -/
structure FreshTable (s : PtState) (pa : Nat) : Prop where
  ne_zero : pa ≠ 0
  aligned : pa % PGSIZE = 0
  lt : pa < 2 ^ 52
  fresh : ∀ path, path.length ≤ 3 → s.follow path ≠ some pa
  empty : ∀ i, s.mem (pteSlot pa i) = 0
  poolDistinct : ∀ pa' ∈ s.pool, pa' ≠ pa

/-- `pp_zalloc_one` changes no table and no translation. -/
theorem ppZallocOne_spec (hinv : PtInv S s) {r : Nat × PtState} (hr : ppZallocOne s = r) :
    PtInv S r.2 ∧ PtKeeps s r.2 ∧ (∀ a, r.2.entry a = s.entry a) ∧
      (∀ path, path.length ≤ 4 → r.2.follow path = s.follow path) ∧
      (∀ path t, path.length ≤ 3 → s.follow path = some t →
        ∀ i, r.2.mem (pteSlot t i) = s.mem (pteSlot t i)) ∧
      (r.1 ≠ 0 → FreshTable r.2 r.1) := by
  unfold ppZallocOne at hr
  cases hpool : s.pool with
  | nil =>
      rw [hpool] at hr
      obtain rfl := hr
      exact ⟨hinv, PtKeeps.refl s, fun _ => rfl, fun _ _ => rfl, fun _ _ _ _ _ => rfl,
        fun h => absurd rfl h⟩
  | cons pa pool =>
      have hpoolAligned := hinv.poolAligned
      have hpoolFresh := hinv.poolFresh
      have hpoolDistinct := hinv.poolDistinct
      rw [hpool] at hr hpoolAligned hpoolFresh hpoolDistinct
      have hdistinct := List.pairwise_cons.mp hpoolDistinct
      by_cases hpa : pa = 0
      · simp only [hpa, if_true] at hr
        obtain rfl := hr
        refine ⟨⟨hinv.aligned, hinv.tree, fun q hq => hpoolAligned q (List.mem_cons_of_mem _ hq),
          fun q hq => hpoolFresh q (List.mem_cons_of_mem _ hq), hdistinct.2⟩, ⟨rfl, fun _ h => h⟩,
          fun _ => rfl, fun _ _ => rfl, fun _ _ _ _ _ => rfl, fun h => absurd rfl h⟩
      · simp only [hpa, if_false] at hr
        obtain rfl := hr
        obtain ⟨halign, hlt⟩ := hpoolAligned pa List.mem_cons_self hpa
        have hfresh := hpoolFresh pa List.mem_cons_self hpa
        have htables : ∀ path t, path.length ≤ 3 → s.follow path = some t →
            ∀ i, zeroPage s.mem pa (pteSlot t i) = s.mem (pteSlot t i) := by
          intro path t hlength ht i
          exact zeroPage_slot (hinv.table_aligned path t ht) halign
            (fun heq => hfresh path hlength (heq ▸ ht)) _ i
        have hfollow : ∀ path : List (Fin PT_NUM_ENTRIES), path.length ≤ 4 →
            TableTree.follow pteSlot pteChild (zeroPage s.mem pa) s.cr3 path = s.follow path :=
          fun path hlength => follow_of_tables htables hlength
        refine ⟨⟨hinv.aligned, ?_, fun q hq => hpoolAligned q (List.mem_cons_of_mem _ hq), ?_,
          hdistinct.2⟩, ⟨rfl, ?_⟩, fun a => ?_, hfollow, htables, fun _ => ?_⟩
        · intro p q t hp hlp hlq htp htq
          rw [hfollow p (by omega)] at htp
          rw [hfollow q (by omega)] at htq
          exact hinv.tree p q t hp hlp hlq htp htq
        · intro q hq hq0 path hlength
          show TableTree.follow _ _ (zeroPage s.mem pa) _ _ ≠ _
          rw [hfollow path (by omega)]
          exact hpoolFresh q (List.mem_cons_of_mem _ hq) hq0 path hlength
        · intro i hi
          show zeroPage s.mem pa _ ≠ 0
          rw [htables [] s.cr3 (by simp) rfl]
          exact hi
        · exact PtState.entry_congr (lookup_of_tables htables (by simp)).1
            (lookup_of_tables htables (by simp)).2
        · refine ⟨hpa, halign, hlt, fun path hlength => ?_, zeroPage_self s.mem pa, fun q hq => ?_⟩
          · show TableTree.follow _ _ (zeroPage s.mem pa) _ _ ≠ _
            rw [hfollow path (by omega)]
            exact hfresh path hlength
          · exact hdistinct.1 q hq hpa

theorem ppZallocOne_grown (hinv : PtInv S s) {r : Nat × PtState} (hr : ppZallocOne s = r)
    (full : List (Fin PT_NUM_ENTRIES)) (flags : Nat) : Grown s r.2 full flags := by
  obtain ⟨-, -, -, hfollow, hmem, -⟩ := ppZallocOne_spec hinv hr
  refine Grown.of_words (fun path hpath => hfollow path (by omega)) fun p i hp => ?_
  unfold PtState.word
  rw [hfollow p (by omega)]
  cases ht : s.follow p with
  | none => rfl
  | some t => exact congrArg some (hmem p t (by omega) ht i)

theorem PtKeeps.write {word : Nat} (hword : word ≠ 0) (s : PtState) (ppte : Nat) :
    PtKeeps s (s.write ppte word) := by
  refine ⟨rfl, fun i hi => ?_⟩
  by_cases heq : pteSlot s.cr3 i = ppte
  · simpa [PtState.write, heq] using hword
  · simpa [PtState.write, heq] using hi

theorem entry_of_lookup_invalid (h : flagIsSet (s.mem (s.lookup va).2) PTE_V = false) :
    s.entry va = none := by
  rw [PtState.entry_eq, h]
  rfl

theorem pteChild_entry {t' : Nat} (hflags : FlagsOk flags) (halign : t' % PGSIZE = 0)
    (hlt : t' < 2 ^ 52) : pteChild (t' ||| flags ||| PTE_V) = some t' := by
  refine pteChild_eq_some.mpr ⟨?_, entry_frame hflags halign hlt⟩
  rw [entry_valid, entry_not_large hflags halign]
  rfl

section Attach

variable {t' : Nat} (hinv : PtInv S s) (hfresh : FreshTable s t') (hflags : FlagsOk flags)
  (ht : s.follow p = some t) (hS : S p) (hp : p.length < 3) (hnone : pteChild (s.mem (pteSlot t i)) = none)

include hfresh ht hp

theorem FreshTable.ne_table : t' ≠ t := fun heq => hfresh.fresh p (by omega) (heq ▸ ht)

include hinv

/-- The entries of the fresh table stay empty. -/
theorem attach_empty (word : Nat) (j : Fin PT_NUM_ENTRIES) :
    (s.write (pteSlot t i) word).mem (pteSlot t' j) = 0 := by
  have hslot : pteSlot t' j ≠ pteSlot t i := fun heq =>
    hfresh.ne_table ht hp (pteSlot_apart _ _ _ _ hfresh.aligned (hinv.table_aligned p t ht) heq).1
  show Function.update _ _ _ _ = 0
  rw [Function.update_of_ne hslot, hfresh.empty j]

include hflags hS hnone

/-- The tables are those from before and the fresh one. -/
theorem attach_follow (path : List (Fin PT_NUM_ENTRIES)) (hpath : path.length ≤ 3 + 1) :
    (s.write (pteSlot t i) (t' ||| flags ||| PTE_V)).follow path =
      if path = p ++ [i] then some t' else s.follow path := by
  have hempty : ∀ j, pteChild (s.mem (pteSlot t' j)) = none := by
    intro j
    rw [hfresh.empty j]
    rfl
  exact follow_attach pteSlot_apart hinv.table_aligned hinv.tree hS (by omega) ht hnone
    (pteChild_entry hflags hfresh.aligned hfresh.lt) hfresh.aligned (hfresh.ne_table ht hp) hempty hpath

theorem attach_followed : (s.write (pteSlot t i) (t' ||| flags ||| PTE_V)).follow (p ++ [i]) = some t' := by
  rw [attach_follow hinv hfresh hflags ht hS hp hnone _ (by simp; omega), if_pos rfl]

theorem attach_inv : PtInv S (s.write (pteSlot t i) (t' ||| flags ||| PTE_V)) := by
  have hempty : ∀ j, pteChild (s.mem (pteSlot t' j)) = none := by
    intro j
    rw [hfresh.empty j]
    rfl
  refine ⟨hinv.aligned, ?_, hinv.poolAligned, ?_, hinv.poolDistinct⟩
  · exact hinv.tree.attach pteSlot_apart hinv.table_aligned hS (by omega) ht hnone
      (pteChild_entry hflags hfresh.aligned hfresh.lt) hfresh.aligned hfresh.fresh hempty
  · intro q hq hq0 path hpath
    rw [attach_follow hinv hfresh hflags ht hS hp hnone path (by omega)]
    split_ifs
    · exact fun heq => hfresh.poolDistinct q hq (Option.some.inj heq).symm
    · exact hinv.poolFresh q hq hq0 path hpath

/-- The walks through the entry ended there, and now they end at an entry of the fresh table. -/
theorem attach_entry (hinvalid : flagIsSet (s.mem (pteSlot t i)) PTE_V = false) (a : Nat) :
    (s.write (pteSlot t i) (t' ||| flags ||| PTE_V)).entry a = s.entry a := by
  by_cases hpre : p ++ [i] <+: ptPath a
  · obtain ⟨rest, hrest⟩ := hpre
    cases rest with
    | nil =>
        have := congrArg List.length hrest
        simp [ptPath] at this
        omega
    | cons j rest =>
        have hpath : ptPath a = p ++ i :: j :: rest := by
          rw [← hrest, List.append_assoc]
          rfl
        have hzero := attach_empty hinv hfresh ht hp (t' ||| flags ||| PTE_V) (i := i) j
        have hbefore : s.lookup a = (_, pteSlot t i) := lookup_through ht hnone hpath
        have hafter : (s.write (pteSlot t i) (t' ||| flags ||| PTE_V)).lookup a = (_, pteSlot t' j) :=
          lookup_through (attach_followed hinv hfresh hflags ht hS hp hnone) (by rw [hzero]; rfl) hrest.symm
        have hentryBefore : s.entry a = none :=
          entry_of_lookup_invalid (by rw [hbefore]; exact hinvalid)
        have hentryAfter : (s.write (pteSlot t i) (t' ||| flags ||| PTE_V)).entry a = none :=
          entry_of_lookup_invalid (by rw [hafter, hzero]; rfl)
        rw [hentryBefore, hentryAfter]
  · obtain ⟨hlookup, hword⟩ :=
      lookup_update pteSlot_apart hinv.table_aligned hinv.tree hS (by omega) ht (by simp) hpre
    exact PtState.entry_congr hlookup hword

/-- The fresh table is the one that the path has grown by. -/
theorem attach_grown {full : List (Fin PT_NUM_ENTRIES)} (hfull : p ++ [i] <+: full) :
    Grown s (s.write (pteSlot t i) (t' ||| flags ||| PTE_V)) full flags := by
  have hfollow := attach_follow hinv hfresh hflags ht hS hp hnone
  have hparent : (s.write (pteSlot t i) (t' ||| flags ||| PTE_V)).follow p = some t := by
    rw [hfollow p (by omega), if_neg (by simp), ht]
  refine ⟨fun q j u hq hu => ?_, fun q j u hq hu => ?_⟩
  · -- an entry that refers to a table is not the one that is written
    have hne : q ++ [j] ≠ p ++ [i] := by
      intro heq
      rw [heq, PtState.follow, follow_snoc ht, hnone] at hu
      exact absurd hu (by simp)
    obtain ⟨v, hv, -⟩ := follow_prefix hu
    have hne' : q ≠ p ++ [i] := by
      rintro rfl
      rw [follow_snoc ht, hnone] at hv
      exact absurd hv (by simp)
    refine ⟨by rw [hfollow _ (by simp; omega), if_neg hne, hu], ?_⟩
    unfold PtState.word
    rw [hfollow q (by omega), if_neg hne', show s.follow q = some v from hv]
    exact congrArg some (update_slot_other pteSlot_apart hinv.table_aligned hinv.tree hS (by omega) ht
      (by omega) hv hne)
  · rw [hfollow _ (by simp; omega)] at hu
    split_ifs at hu with heq
    · obtain ⟨rfl, hji⟩ := List.append_inj' heq rfl
      obtain rfl := List.singleton_inj.mp hji
      refine Or.inr ⟨hfull, ?_⟩
      rw [PtState.word, hparent, ← Option.some.inj hu]
      exact congrArg some (Function.update_self _ _ _)
    · exact Or.inl hu

/-- Referring to a fresh table changes no translation, unless the entry mapped a large page. -/
theorem attach_spec (hs' : s' = s.write (pteSlot t i) (t' ||| flags ||| PTE_V)) :
    PtInv S s' ∧ PtKeeps s s' ∧ s'.follow (p ++ [i]) = some t' ∧
      (∀ j, s'.mem (pteSlot t' j) = 0) ∧
      (flagIsSet (s.mem (pteSlot t i)) PTE_V = false → ∀ a, s'.entry a = s.entry a) ∧
      ∀ full, p ++ [i] <+: full → Grown s s' full flags := by
  obtain rfl := hs'
  exact ⟨attach_inv hinv hfresh hflags ht hS hp hnone, PtKeeps.write entry_ne_zero s _,
    attach_followed hinv hfresh hflags ht hS hp hnone, attach_empty hinv hfresh ht hp _,
    attach_entry hinv hfresh hflags ht hS hp hnone,
    fun _ hfull => attach_grown hinv hfresh hflags ht hS hp hnone hfull⟩

end Attach

section WriteL1

variable (halign : s.cr3 % PGSIZE = 0) (htree : TreeOn pteSlot pteChild S s.mem s.cr3 3)
  (hS : Within S va) (ht : s.follow (ptPrefix va .l1) = some t) (word : Nat)

include halign htree hS ht

/-- No table is reached through an entry of level 1. -/
theorem follow_write_l1 (hpath : path.length ≤ 3) :
    (s.write (pteSlot t (ptIndex va .l1)) word).follow path = s.follow path := by
  refine follow_update pteSlot_apart (fun _ _ h => follow_aligned halign h) htree (hS .l1) le_rfl ht
    (by omega) fun hpre => ?_
  have hle := hpre.length_le
  simp [ptPrefix] at hle
  omega

/-- An entry of level 1 is in no other table. -/
theorem grown_write_l1 (full : List (Fin PT_NUM_ENTRIES)) (flags : Nat) :
    Grown s (s.write (pteSlot t (ptIndex va .l1)) word) full flags := by
  refine Grown.of_words (fun path hpath => follow_write_l1 halign htree hS ht word hpath) fun p i hp => ?_
  unfold PtState.word
  rw [follow_write_l1 halign htree hS ht word (by omega)]
  cases hu : s.follow p with
  | none => rfl
  | some u =>
      refine congrArg some (update_slot_other pteSlot_apart (fun _ _ h => follow_aligned halign h)
        htree (hS .l1) le_rfl ht (by omega) hu fun heq => ?_)
      have hlength := congrArg List.length heq
      simp [ptPrefix] at hlength
      omega

theorem entry_write_l1_self (ha : ptPath a = ptPath va) :
    (s.write (pteSlot t (ptIndex va .l1)) word).entry a =
      if flagIsSet word PTE_V then some (.l1, word) else none := by
  have hlookup : (s.write (pteSlot t (ptIndex va .l1)) word).lookup a =
      (0, pteSlot t (ptIndex va .l1)) :=
    lookup_full ((follow_write_l1 halign htree hS ht word le_rfl).trans ht) ha
  rw [PtState.entry_eq, hlookup]
  simp [PtState.write, levelAbove]

theorem entry_write_l1_other (ha : ptPath a ≠ ptPath va) :
    (s.write (pteSlot t (ptIndex va .l1)) word).entry a = s.entry a := by
  have hnot : ¬ ptPrefix va .l1 ++ [ptIndex va .l1] <+: ptPath a := fun hpre =>
    ha (hpre.eq_of_length rfl).symm
  obtain ⟨hlookup, hword⟩ := lookup_update pteSlot_apart (fun _ _ h => follow_aligned halign h) htree
    (hS .l1) le_rfl ht (by simp) hnot
  exact PtState.entry_congr hlookup hword

end WriteL1

/-- The invariant depends on the tables that the paths lead to, and on the pages to come. -/
theorem PtInv.of_follow (hinv : PtInv S s) (hcr3 : s'.cr3 = s.cr3) (hpool : s'.pool = s.pool)
    (hfollow : ∀ path : List (Fin PT_NUM_ENTRIES), path.length ≤ 3 → s'.follow path = s.follow path) :
    PtInv S s' := by
  refine ⟨hcr3 ▸ hinv.aligned, ?_, hpool ▸ hinv.poolAligned, ?_, hpool ▸ hinv.poolDistinct⟩
  · intro p q u hp hlp hlq hpu hqu
    exact hinv.tree p q u hp hlp hlq ((hfollow p hlp).symm.trans hpu) ((hfollow q hlq).symm.trans hqu)
  · intro q hq hq0 path hpath
    rw [hfollow path hpath]
    exact hinv.poolFresh q (hpool ▸ hq) hq0 path hpath

/-- Writing an entry of level 1 sets the translation of its page and of no other. -/
theorem write_l1_spec (word : Nat) (hinv : PtInv S s) (hS : Within S va)
    (ht : s.follow (ptPrefix va .l1) = some t)
    (hs' : s' = s.write (pteSlot t (ptIndex va .l1)) word) :
    PtInv S s' ∧ PtKeeps s s' ∧ s'.follow (ptPrefix va .l1) = some t ∧
      (∀ a, ptPath a = ptPath va →
        s'.entry a = if flagIsSet word PTE_V then some (.l1, word) else none) ∧
      (∀ a, ptPath a ≠ ptPath va → s'.entry a = s.entry a) := by
  obtain rfl := hs'
  have hfollow : ∀ path : List (Fin PT_NUM_ENTRIES), path.length ≤ 3 →
      (s.write (pteSlot t (ptIndex va .l1)) word).follow path = s.follow path := fun _ hpath =>
    follow_write_l1 hinv.aligned hinv.tree hS ht word hpath
  have hroot : ∀ j, pteSlot s.cr3 j ≠ pteSlot t (ptIndex va .l1) := by
    intro j heq
    obtain ⟨rfl, -⟩ := pteSlot_apart _ _ _ _ hinv.aligned (hinv.table_aligned _ t ht) heq
    have hnil := hinv.tree _ [] s.cr3 (hS .l1) le_rfl (by simp) ht rfl
    exact List.cons_ne_nil _ _ hnil
  refine ⟨hinv.of_follow rfl rfl hfollow, ⟨rfl, fun j hj => ?_⟩, (hfollow _ le_rfl).trans ht,
    fun a => entry_write_l1_self hinv.aligned hinv.tree hS ht word,
    fun a => entry_write_l1_other hinv.aligned hinv.tree hS ht word⟩
  show Function.update _ _ _ _ ≠ 0
  rw [Function.update_of_ne (hroot j)]
  exact hj

/-! ### Creating the missing levels -/

/-- `ppte` is the entry of `va` in its table of a level, and above level 1 it refers to no table. -/
structure AtLevel (s : PtState) (va : Nat) (level : PtLevel) (ppte : Nat) : Prop where
  table : ∃ t, s.follow (ptPrefix va level) = some t ∧ ppte = pteSlot t (ptIndex va level)
  noChild : level ≠ .l1 → pteChild (s.mem ppte) = none

/-- A full walk stops at the entry of the address in one of its tables. -/
theorem ptWalk_atLevel (s : PtState) (va : Nat) :
    AtLevel s va (ptWalk s va .l1).1 (ptWalk s va .l1).2 := by
  obtain ⟨p, j, rest, t, hpath, ht, hlookup, hstop⟩ := lookup_spec s.mem s.cr3 (ptIndex va .l4)
    [ptIndex va .l3, ptIndex va .l2, ptIndex va .l1]
  rw [ptWalk_full, PtState.lookup, hlookup]
  rcases p with _ | ⟨x, _ | ⟨y, _ | ⟨z, p⟩⟩⟩
  · obtain ⟨rfl, rfl⟩ := List.cons.inj hpath
    exact ⟨⟨t, ht, rfl⟩, fun _ => by simpa using hstop⟩
  · simp only [List.cons_append, List.nil_append, List.cons.injEq] at hpath
    obtain ⟨rfl, rfl, rfl⟩ := hpath
    exact ⟨⟨t, ht, rfl⟩, fun _ => by simpa using hstop⟩
  · simp only [List.cons_append, List.nil_append, List.cons.injEq] at hpath
    obtain ⟨rfl, rfl, rfl, rfl⟩ := hpath
    exact ⟨⟨t, ht, rfl⟩, fun _ => by simpa using hstop⟩
  · have hlast : p = [] ∧ rest = [] := by
      have hlength := congrArg List.length hpath
      simp only [List.length_cons, List.length_append, List.length_nil] at hlength
      exact ⟨List.eq_nil_of_length_eq_zero (by omega), List.eq_nil_of_length_eq_zero (by omega)⟩
    obtain ⟨rfl, rfl⟩ := hlast
    simp only [List.cons_append, List.nil_append, List.cons.injEq] at hpath
    obtain ⟨rfl, rfl, rfl, rfl, -⟩ := hpath
    exact ⟨⟨t, ht, rfl⟩, fun h => absurd rfl h⟩

theorem PtState.entry_eq_none : s.entry va = none ↔
    flagIsSet (s.mem (ptWalk s va .l1).2) PTE_V = false := by
  unfold PtState.entry
  cases h : flagIsSet (s.mem (ptWalk s va .l1).2) PTE_V <;> simp [h]

/-- What creating the levels of `va` down to `level` leaves, when it starts from `s`: no translation
changes if the entry it starts at is not present. -/
def Created (S : PtPaths) (s : PtState) (va flags : Nat) (level : PtLevel) (absent : Prop) :
    Except PtState (PtState × Nat) → Prop
  | .error s' => PtInv S s' ∧ PtKeeps s s' ∧ (absent → ∀ a, s'.entry a = s.entry a)
  | .ok (s', ppte) => PtInv S s' ∧ PtKeeps s s' ∧ AtLevel s' va level ppte ∧
      (absent → flagIsSet (s'.mem ppte) PTE_V = false ∧ ∀ a, s'.entry a = s.entry a) ∧
      Grown s s' (ptPath va) flags

theorem ptMapPageCreateLevel_spec {upper lower : PtLevel} {ppte : Nat} (hinv : PtInv S s)
    (hflags : FlagsOk flags) (hS : S (ptPrefix va upper)) (hupper : upper ≠ .l1)
    (hlower : ptPrefix va lower = ptPrefix va upper ++ [ptIndex va upper])
    (hat : AtLevel s va upper ppte) :
    Created S s va flags lower (flagIsSet (s.mem ppte) PTE_V = false)
      (ptMapPageCreateLevel s ppte va lower flags) := by
  obtain ⟨t, ht, rfl⟩ := hat.table
  have hnone := hat.noChild hupper
  have hlength : (ptPrefix va upper).length < 3 := by
    cases upper with
    | l1 => exact absurd rfl hupper
    | l2 | l3 | l4 => simp [ptPrefix]
  cases halloc : ppZallocOne s with
  | mk t' s1 =>
      obtain ⟨hinv1, hkeeps1, hentry1, hfollow1, hmem1, hfresh1⟩ := ppZallocOne_spec hinv halloc
      dsimp only at hinv1 hkeeps1 hentry1 hfollow1 hmem1 hfresh1
      unfold ptMapPageCreateLevel
      rw [halloc]
      by_cases ht' : t' = 0
      · simp only [ht', if_true]
        exact ⟨hinv1, hkeeps1, fun _ => hentry1⟩
      · simp only [ht', if_false]
        have hsame : s1.mem (pteSlot t (ptIndex va upper)) = s.mem (pteSlot t (ptIndex va upper)) :=
          hmem1 _ t (by omega) ht _
        obtain ⟨hinv', hkeeps', hfollow', hzero', hentry', hgrown'⟩ := attach_spec hinv1 (hfresh1 ht')
          hflags ((hfollow1 _ (by omega)).trans ht) hS hlength (hsame ▸ hnone) rfl
        refine ⟨hinv', hkeeps1.trans hkeeps', ⟨⟨t', hlower ▸ hfollow', rfl⟩, fun _ => ?_⟩, fun habsent =>
          ⟨?_, fun a => ?_⟩, (ppZallocOne_grown hinv halloc _ _).trans (hgrown' _ ?_)⟩
        · show pteChild (PtState.mem _ (pteSlot t' (ptIndex va lower))) = none
          rw [hzero']
          rfl
        · show flagIsSet (PtState.mem _ (pteSlot t' (ptIndex va lower))) PTE_V = false
          rw [hzero']
          rfl
        · rw [hentry' (by rw [hsame]; exact habsent) a, hentry1 a]
        · rw [← hlower]
          exact ptPrefix_isPrefix va lower

/-- Creating a level and then the levels under it. -/
theorem Created.bind {upper lower : PtLevel} {absent : Prop} {r : Except PtState (PtState × Nat)}
    {f : PtState × Nat → Except PtState (PtState × Nat)} (h : Created S s va flags upper absent r)
    (hf : ∀ s' ppte, PtInv S s' → AtLevel s' va upper ppte →
      Created S s' va flags lower (flagIsSet (s'.mem ppte) PTE_V = false) (f (s', ppte))) :
    Created S s va flags lower absent (r >>= f) := by
  cases r with
  | error s' => exact h
  | ok r =>
      obtain ⟨s', ppte⟩ := r
      obtain ⟨hinv', hkeeps', hat', habsent', hgrown'⟩ := h
      have hnext := hf s' ppte hinv' hat'
      show Created S s va flags lower absent (f (s', ppte))
      cases hresult : f (s', ppte) with
      | error s'' =>
          rw [hresult] at hnext
          obtain ⟨hinv'', hkeeps'', hentry''⟩ := hnext
          refine ⟨hinv'', hkeeps'.trans hkeeps'', fun habsent a => ?_⟩
          obtain ⟨hclear, hentry'⟩ := habsent' habsent
          rw [hentry'' hclear a, hentry' a]
      | ok r'' =>
          obtain ⟨s'', ppte''⟩ := r''
          rw [hresult] at hnext
          obtain ⟨hinv'', hkeeps'', hat'', habsent'', hgrown''⟩ := hnext
          refine ⟨hinv'', hkeeps'.trans hkeeps'', hat'', fun habsent => ?_, hgrown'.trans hgrown''⟩
          obtain ⟨hclear, hentry'⟩ := habsent' habsent
          obtain ⟨hclear'', hentry''⟩ := habsent'' hclear
          exact ⟨hclear'', fun a => (hentry'' a).trans (hentry' a)⟩

theorem ptMapPageCreateLevels_spec {ppte : Nat} (hinv : PtInv S s) (hflags : FlagsOk flags)
    (hS : Within S va) (hat : AtLevel s va level ppte) :
    Created S s va flags .l1 (flagIsSet (s.mem ppte) PTE_V = false)
      (ptMapPageCreateLevels s ppte va flags level) := by
  have hfrom2 : ∀ s ppte, PtInv S s → AtLevel s va .l2 ppte →
      Created S s va flags .l1 (flagIsSet (s.mem ppte) PTE_V = false)
        (ptMapPageCreateLevels s ppte va flags .l2) := fun s ppte hinv hat =>
    ptMapPageCreateLevel_spec hinv hflags (hS .l2) (by decide) rfl hat
  have hfrom3 : ∀ s ppte, PtInv S s → AtLevel s va .l3 ppte →
      Created S s va flags .l1 (flagIsSet (s.mem ppte) PTE_V = false)
        (ptMapPageCreateLevels s ppte va flags .l3) := fun s ppte hinv hat =>
    (ptMapPageCreateLevel_spec hinv hflags (hS .l3) (by decide) rfl hat).bind hfrom2
  cases level with
  | l1 => exact ⟨hinv, PtKeeps.refl s, hat, fun h => ⟨h, fun _ => rfl⟩, Grown.refl s _ flags⟩
  | l2 => exact hfrom2 s ppte hinv hat
  | l3 => exact hfrom3 s ppte hinv hat
  | l4 => exact (ptMapPageCreateLevel_spec hinv hflags (hS .l4) (by decide) rfl hat).bind hfrom3

/-- `pt_map_page` keeps the invariant. When it succeeds the page has the new entry, and when the page
was not mapped before no other translation changes. -/
theorem ptMapPage_spec {r : Int × PtState} (hinv : PtInv S s) (hflags : FlagsOk flags)
    (hS : Within S va) (hr : ptMapPage s pa va flags = r) :
    PtInv S r.2 ∧ PtKeeps s r.2 ∧
      (r.1 < 0 → s.entry va = none → ∀ a, r.2.entry a = s.entry a) ∧
      (¬ r.1 < 0 → (∀ a, ptPath a = ptPath va → r.2.entry a = some (.l1, pa ||| flags ||| PTE_V)) ∧
        (s.entry va = none → ∀ a, ptPath a ≠ ptPath va → r.2.entry a = s.entry a) ∧
        Grown s r.2 (ptPath va) flags) := by
  have hcreated := ptMapPageCreateLevels_spec hinv hflags hS (ptWalk_atLevel s va)
  rw [← PtState.entry_eq_none] at hcreated
  unfold ptMapPage at hr
  dsimp only at hr
  cases hlevels : ptMapPageCreateLevels s (ptWalk s va .l1).2 va flags (ptWalk s va .l1).1 with
  | error s1 =>
      rw [hlevels] at hr hcreated
      obtain ⟨hinv1, hkeeps1, hentry1⟩ := hcreated
      dsimp only at hr
      obtain rfl := hr
      exact ⟨hinv1, hkeeps1, fun _ => hentry1, fun h => absurd (show (-1 : Int) < 0 by decide) h⟩
  | ok r1 =>
      obtain ⟨s1, ppte⟩ := r1
      rw [hlevels] at hr hcreated
      obtain ⟨hinv1, hkeeps1, hat, habsent, hgrown1⟩ := hcreated
      obtain ⟨t, ht, rfl⟩ := hat.table
      dsimp only at hr
      -- the flush leaves the memory as it is
      have hflush : ∃ s2 : PtState, (if flagIsSet (s1.mem (pteSlot t (ptIndex va .l1))) PTE_V
          then s1.tlbFlushOne va else s1) = s2 ∧ PtInv S s2 ∧ PtKeeps s1 s2 ∧
            s2.follow (ptPrefix va .l1) = some t ∧ (∀ a, s2.entry a = s1.entry a) ∧
            Grown s1 s2 (ptPath va) flags := by
        split_ifs
        · exact ⟨_, rfl, hinv1.tlbFlushOne, ⟨rfl, fun _ h => h⟩, ht, fun _ => rfl,
            Grown.of_words (fun _ _ => rfl) fun _ _ _ => rfl⟩
        · exact ⟨_, rfl, hinv1, PtKeeps.refl s1, ht, fun _ => rfl, Grown.refl s1 _ flags⟩
      obtain ⟨s2, hs2, hinv2, hkeeps2, ht2, hentry2, hgrown2⟩ := hflush
      rw [hs2] at hr
      obtain rfl := hr
      obtain ⟨hinv3, hkeeps3, -, hpage, hother⟩ :=
        write_l1_spec (pa ||| flags ||| PTE_V) hinv2 hS ht2 rfl
      refine ⟨hinv3, hkeeps1.trans (hkeeps2.trans hkeeps3), fun h => absurd h (Int.lt_irrefl 0),
        fun _ => ⟨fun a ha => ?_, fun hnone a ha => ?_, hgrown1.trans (hgrown2.trans ?_)⟩⟩
      · rw [hpage a ha, if_pos entry_valid]
      · rw [hother a ha, hentry2 a, (habsent hnone).2 a]
      · exact grown_write_l1 hinv2.aligned hinv2.tree hS ht2 _ _ _

theorem entry_l1_table {w : Nat} (h : s.entry va = some (.l1, w)) :
    (ptWalk s va .l1).1 = .l1 ∧ ∃ t, s.follow (ptPrefix va .l1) = some t ∧
      (ptWalk s va .l1).2 = pteSlot t (ptIndex va .l1) := by
  have hat := ptWalk_atLevel s va
  unfold PtState.entry at h
  dsimp only at h
  split_ifs at h
  have hlevel := (Prod.mk.inj (Option.some.inj h)).1
  rw [hlevel] at hat
  exact ⟨hlevel, hat.table⟩

/-- The pages from `lo` on below `hi` of a region do not resolve any more, and no other translation
changes. -/
structure Cleared (s s' : PtState) (va lo hi : Nat) : Prop where
  cleared : ∀ k, lo ≤ k → k < hi → ∀ a, ptPath a = ptPath (pgOffset va k) → s'.entry a = none
  frame : ∀ a, (∀ k, lo ≤ k → k < hi → ptPath a ≠ ptPath (pgOffset va k)) → s'.entry a = s.entry a

theorem Cleared.refl (s : PtState) (va n : Nat) : Cleared s s va n n :=
  ⟨fun k h h' => absurd h' (by omega), fun _ _ => rfl⟩

theorem Cleared.trans {s s' s'' : PtState} {lo mid hi : Nat} (hlo : lo ≤ mid) (hhi : mid ≤ hi)
    (h : Cleared s s' va lo mid) (h' : Cleared s' s'' va mid hi) : Cleared s s'' va lo hi := by
  refine ⟨fun k hk hk' a ha => ?_, fun a ha => ?_⟩
  · by_cases hlater : ∃ j, mid ≤ j ∧ j < hi ∧ ptPath a = ptPath (pgOffset va j)
    · obtain ⟨j, hj, hj', haj⟩ := hlater
      exact h'.cleared j hj hj' a haj
    · have hmid : k < mid := by
        by_contra hge
        exact hlater ⟨k, by omega, hk', ha⟩
      rw [h'.frame a fun j hj hj' haj => hlater ⟨j, hj, hj', haj⟩]
      exact h.cleared k hk hmid a ha
  · rw [h'.frame a fun k hk hk' => ha k (by omega) hk', h.frame a fun k hk hk' => ha k hk (by omega)]

/-- The pages of a region are different pages. -/
def PagesDistinct (va n : Nat) : Prop :=
  ∀ j k, j < k → k < n → ptPath (pgOffset va j) ≠ ptPath (pgOffset va k)

/-- Clearing one page. -/
theorem Cleared.single {n : Nat} (hpage : ∀ a, ptPath a = ptPath (pgOffset va n) → s'.entry a = none)
    (hother : ∀ a, ptPath a ≠ ptPath (pgOffset va n) → s'.entry a = s.entry a) :
    Cleared s s' va n (n + 1) := by
  refine ⟨fun k hk hk' => ?_, fun a ha => hother a (ha n le_rfl (by omega))⟩
  obtain rfl : k = n := by omega
  exact hpage

theorem ptUnmapPage_spec {r : Int × PtState} (hinv : PtInv S s) (hS : Within S va)
    (hr : ptUnmapPage s va .l1 = r) :
    PtInv S r.2 ∧ PtKeeps s r.2 ∧ (∀ w, s.entry va = some (.l1, w) →
      (∀ a, ptPath a = ptPath va → r.2.entry a = none) ∧
        ∀ a, ptPath a ≠ ptPath va → r.2.entry a = s.entry a) := by
  have hat := ptWalk_atLevel s va
  unfold ptUnmapPage at hr
  dsimp only at hr
  split_ifs at hr with hlevel hvalid
  · obtain rfl := hr
    refine ⟨hinv, PtKeeps.refl s, fun w hw => absurd (entry_l1_table hw).1 hlevel⟩
  all_goals
    rw [not_ne_iff.mp hlevel] at hat
    obtain ⟨t, ht, hppte⟩ := hat.table
    rw [hppte] at hr
    obtain rfl := hr
    obtain ⟨hinv', hkeeps', -, hpage, hother⟩ := write_l1_spec 0 hinv hS ht rfl
    have hgone : ∀ a, ptPath a = ptPath va → (s.write (pteSlot t (ptIndex va .l1)) 0).entry a = none :=
      fun a ha => (hpage a ha).trans (if_neg (by decide))
  · refine ⟨hinv'.tlbFlushOne, ⟨hkeeps'.cr3, hkeeps'.root⟩, fun w _ => ⟨fun a ha => ?_, fun a ha => ?_⟩⟩
    · exact tlbFlushOne_entry.trans (hgone a ha)
    · exact tlbFlushOne_entry.trans (hother a ha)
  · exact ⟨hinv', hkeeps', fun w _ => ⟨hgone, hother⟩⟩

/-! ### Regions -/

/-- The pages of a region are mapped to consecutive physical pages, and no other translation
changes. -/
structure MappedTo (s s' : PtState) (pa va flags n : Nat) : Prop where
  mapped : ∀ k, k < n → ∀ a, ptPath a = ptPath (pgOffset va k) →
    s'.entry a = some (.l1, pgOffset pa k ||| flags ||| PTE_V)
  frame : ∀ a, (∀ k, k < n → ptPath a ≠ ptPath (pgOffset va k)) → s'.entry a = s.entry a

theorem ptMapRegionLoop_succ (s : PtState) (pa va flags n : Nat) :
    ptMapRegionLoop s pa va flags (n + 1) =
      match ptMapRegionLoop s pa va flags n with
      | .error e => .error e
      | .ok s' =>
          if (ptMapPage s' (pgOffset pa n) (pgOffset va n) flags).1 < 0
          then .error (n, (ptMapPage s' (pgOffset pa n) (pgOffset va n) flags).2)
          else .ok (ptMapPage s' (pgOffset pa n) (pgOffset va n) flags).2 := by
  rw [ptMapRegionLoop]
  cases ptMapRegionLoop s pa va flags n <;> rfl

/-- What the first `n` turns of the loop of `pt_map_region` leave. -/
def RegionLoop (S : PtPaths) (s : PtState) (pa va flags n : Nat) :
    Except (Nat × PtState) PtState → Prop
  | .error (done, s') => done < n ∧ PtInv S s' ∧ PtKeeps s s' ∧
      (PagesDistinct va n → (∀ k, k < n → s.entry (pgOffset va k) = none) → MappedTo s s' pa va flags done)
  | .ok s' => PtInv S s' ∧ PtKeeps s s' ∧
      (∀ k, k < n → s'.mem (pteSlot s.cr3 (ptIndex (pgOffset va k) .l4)) ≠ 0) ∧
      (PagesDistinct va n → (∀ k, k < n → s.entry (pgOffset va k) = none) → MappedTo s s' pa va flags n)

theorem ptMapRegionLoop_spec (hinv : PtInv S s) (hflags : FlagsOk flags) {n : Nat}
    (hS : ∀ k, k < n → Within S (pgOffset va k)) :
    RegionLoop S s pa va flags n (ptMapRegionLoop s pa va flags n) := by
  induction n with
  | zero =>
      exact ⟨hinv, PtKeeps.refl s, fun k h => absurd h (by omega), fun _ _ =>
        ⟨fun k h => absurd h (by omega), fun _ _ => rfl⟩⟩
  | succ n ih =>
      have hloop := ih fun k hk => hS k (by omega)
      have hweaken : PagesDistinct va (n + 1) → PagesDistinct va n := fun h j k hj hk =>
        h j k hj (by omega)
      rw [ptMapRegionLoop_succ]
      cases hresult : ptMapRegionLoop s pa va flags n with
      | error e =>
          obtain ⟨done, s'⟩ := e
          rw [hresult] at hloop
          obtain ⟨hdone, hinv', hkeeps', hmapped⟩ := hloop
          exact ⟨by omega, hinv', hkeeps', fun hdistinct hnone =>
            hmapped (hweaken hdistinct) fun k hk => hnone k (by omega)⟩
      | ok s' =>
          rw [hresult] at hloop
          obtain ⟨hinv', hkeeps', hroot', hmapped⟩ := hloop
          obtain ⟨hinv'', hkeeps'', hfail, hpage⟩ := ptMapPage_spec hinv' hflags (hS n (by omega))
            (rfl : ptMapPage s' (pgOffset pa n) (pgOffset va n) flags = _)
          -- the page of this turn is still unmapped
          have hunmapped : PagesDistinct va (n + 1) →
              (∀ k, k < n + 1 → s.entry (pgOffset va k) = none) → s'.entry (pgOffset va n) = none := by
            intro hdistinct hnone
            have hframe := (hmapped (hweaken hdistinct) fun k hk => hnone k (by omega)).frame
            rw [hframe _ fun k hk heq => hdistinct k n hk (by omega) heq.symm]
            exact hnone n (by omega)
          dsimp only
          split_ifs with hneg
          · refine ⟨by omega, hinv'', hkeeps'.trans hkeeps'', fun hdistinct hnone => ?_⟩
            have hloop := hmapped (hweaken hdistinct) fun k hk => hnone k (by omega)
            have hsame := hfail hneg (hunmapped hdistinct hnone)
            exact ⟨fun k hk a ha => (hsame a).trans (hloop.mapped k hk a ha), fun a ha =>
              (hsame a).trans (hloop.frame a ha)⟩
          · obtain ⟨hmap, hother, -⟩ := hpage hneg
            refine ⟨hinv'', hkeeps'.trans hkeeps'', fun k hk => ?_, fun hdistinct hnone => ?_⟩
            · by_cases hkn : k = n
              · subst hkn
                have hne := root_ne_zero_of_entry (by rw [hmap _ rfl]; simp)
                rwa [hkeeps''.cr3, hkeeps'.cr3] at hne
              · have hroot := hroot' k (by omega)
                rw [← hkeeps'.cr3] at hroot ⊢
                exact hkeeps''.root _ hroot
            · have hloop := hmapped (hweaken hdistinct) fun k hk => hnone k (by omega)
              have hsame := hother (hunmapped hdistinct hnone)
              refine ⟨fun k hk a ha => ?_, fun a ha => ?_⟩
              · by_cases hkn : k = n
                · subst hkn
                  exact hmap a ha
                · rw [hsame a fun heq => hdistinct k n (by omega) (by omega) (ha.symm.trans heq)]
                  exact hloop.mapped k (by omega) a ha
              · rw [hsame a (ha n (by omega))]
                exact hloop.frame a fun k hk => ha k (by omega)

theorem ptUnmapRegionLoop_spec (hinv : PtInv S s) {n : Nat}
    (hS : ∀ k, k < n → Within S (pgOffset va k)) :
    PtInv S (ptUnmapRegionLoop s va n) ∧ PtKeeps s (ptUnmapRegionLoop s va n) ∧
      (PagesDistinct va n → (∀ k, k < n → ∃ w, s.entry (pgOffset va k) = some (.l1, w)) →
        Cleared s (ptUnmapRegionLoop s va n) va 0 n) := by
  induction n with
  | zero => exact ⟨hinv, PtKeeps.refl s, fun _ _ => Cleared.refl s va 0⟩
  | succ n ih =>
      obtain ⟨hinv', hkeeps', hcleared⟩ := ih fun k hk => hS k (by omega)
      obtain ⟨hinv'', hkeeps'', hpage⟩ := ptUnmapPage_spec hinv' (hS n (by omega)) rfl
      refine ⟨hinv'', hkeeps'.trans hkeeps'', fun hdistinct hmapped => ?_⟩
      have hloop := hcleared (fun j k hj hk => hdistinct j k hj (by omega)) fun k hk =>
        hmapped k (by omega)
      obtain ⟨w, hw⟩ := hmapped n (by omega)
      obtain ⟨hnone, hother⟩ := hpage w (by
        rw [hloop.frame _ fun k _ hk heq => hdistinct k n hk (by omega) heq.symm]
        exact hw)
      exact hloop.trans (Nat.zero_le n) (by omega) (Cleared.single hnone hother)

/-- `pt_map_region` maps the whole region, or changes no translation. -/
theorem ptMapRegion_spec {n : Nat} {r : Int × PtState} (hinv : PtInv S s) (hflags : FlagsOk flags)
    (hS : ∀ k, k < n → Within S (pgOffset va k)) (hr : ptMapRegion s pa va (n * PGSIZE) flags = r) :
    PtInv S r.2 ∧ PtKeeps s r.2 ∧
      (¬ r.1 < 0 → ∀ k, k < n → r.2.mem (pteSlot s.cr3 (ptIndex (pgOffset va k) .l4)) ≠ 0) ∧
      (PagesDistinct va n → (∀ k, k < n → s.entry (pgOffset va k) = none) →
        (r.1 < 0 → ∀ a, r.2.entry a = s.entry a) ∧ (¬ r.1 < 0 → MappedTo s r.2 pa va flags n)) := by
  have hloop : RegionLoop S s pa va flags n _ := ptMapRegionLoop_spec hinv hflags hS
  have hturns : (n * PGSIZE + PGSIZE - 1) / PGSIZE = n := by
    simp only [PGSIZE]
    omega
  unfold ptMapRegion at hr
  rw [hturns] at hr
  cases hresult : ptMapRegionLoop s pa va flags n with
  | ok s' =>
      rw [hresult] at hr hloop
      obtain ⟨hinv', hkeeps', hroot', hmapped⟩ := hloop
      dsimp only at hr
      obtain rfl := hr
      exact ⟨hinv', hkeeps', fun _ => hroot', fun hdistinct hnone =>
        ⟨fun h => absurd h (Int.lt_irrefl 0), fun _ => hmapped hdistinct hnone⟩⟩
  | error e =>
      obtain ⟨done, s'⟩ := e
      rw [hresult] at hr hloop
      obtain ⟨hdone, hinv', hkeeps', hmapped⟩ := hloop
      dsimp only at hr
      obtain rfl := hr
      have hneg : (-1 : Int) < 0 := by decide
      have hSdone : ∀ k, k < done → Within S (pgOffset va k) := fun k hk => hS k (by omega)
      obtain ⟨hinv'', hkeeps'', hcleared⟩ := ptUnmapRegionLoop_spec hinv' hSdone
      refine ⟨hinv'', hkeeps'.trans hkeeps'', fun h => absurd hneg h, fun hdistinct hnone =>
        ⟨fun _ a => ?_, fun h => absurd hneg h⟩⟩
      have hregion := hmapped hdistinct hnone
      have hunmapped := hcleared (fun j k hj hk => hdistinct j k hj (by omega)) fun k hk =>
        ⟨_, hregion.mapped k hk _ rfl⟩
      by_cases hpage : ∃ k, k < done ∧ ptPath a = ptPath (pgOffset va k)
      · obtain ⟨k, hk, ha⟩ := hpage
        rw [hunmapped.cleared k (Nat.zero_le k) hk a ha, entry_of_path s ha, hnone k (by omega)]
      · rw [hunmapped.frame a fun k _ hk heq => hpage ⟨k, hk, heq⟩,
          hregion.frame a fun k hk heq => hpage ⟨k, hk, heq⟩]

/-- The path of an address tells its page, up to the bits that walks do not read. -/
theorem path_pgOffset_iff {k : Nat} (hva : va % PGSIZE = 0) :
    ptPath a = ptPath (pgOffset va k) ↔ a / PGSIZE % 2 ^ 36 = (va / PGSIZE + k) % 2 ^ 36 := by
  rw [ptPath_eq_iff]
  simp only [pgOffset, u64, PGSIZE] at *
  omega

theorem pagesDistinct_of_le {n : Nat} (hva : va % PGSIZE = 0) (hn : n ≤ 2 ^ 36) : PagesDistinct va n := by
  intro j k hj hk
  rw [Ne, path_pgOffset_iff hva]
  simp only [pgOffset, u64, PGSIZE] at *
  omega

/-- Where the page tables map a region, each of its bytes resolves to its place. -/
theorem MappedTo.resolve {n o : Nat} (h : MappedTo s s' pa va flags n) (hflags : FlagsOk flags)
    (hva : va % PGSIZE = 0) (hpa : pa % PGSIZE = 0) (hpos : 0 < pa) (hend : pa + n * PGSIZE ≤ 2 ^ 52)
    (ho : o < n * PGSIZE) : ptResolve s' (va + o) = pa + o := by
  have hk : o / PGSIZE < n := by
    simp only [PGSIZE] at *
    omega
  have hpage : pgOffset pa (o / PGSIZE) = pa + o / PGSIZE * PGSIZE := by
    refine pgOffset_eq ?_
    simp only [PGSIZE] at *
    omega
  have hpath : ptPath (va + o) = ptPath (pgOffset va (o / PGSIZE)) := by
    rw [path_pgOffset_iff hva]
    simp only [PGSIZE] at *
    omega
  have hentry := h.mapped _ hk _ hpath
  rw [hpage] at hentry
  have hresolve : ptResolve s' (va + o) = pa + o / PGSIZE * PGSIZE + (va + o) % PGSIZE := by
    refine ptResolve_of_entry_l1 hflags ?_ ?_ ?_ hentry <;> simp only [PGSIZE] at * <;> omega
  rw [hresolve]
  simp only [PGSIZE] at *
  omega

/-- **`pt_map_region` maps exactly the region it is asked for**: on success each of its bytes resolves to
the byte at the same place after `pa`, the translation of every other address (in the 48 bits that a
walk reads) is as before, and the tables still form a tree. -/
theorem ptMapRegion_maps {size : Nat} (htree : PtInv (fun _ => True) s) (hpa : pa % PGSIZE = 0)
    (hpos : 0 < pa) (hva : va % PGSIZE = 0) (hsize : size % PGSIZE = 0) (hpaEnd : pa + size ≤ 2 ^ 52)
    (hvaEnd : va + size ≤ 2 ^ 64) (hwidth : size ≤ VIRTMEM_END) (hflags : FlagsOk flags)
    (hunmapped : ∀ o, o < size → s.entry (va + o) = none)
    (hok : (ptMapRegion s pa va size flags).1 = 0) :
    (∀ o, o < size → ptResolve (ptMapRegion s pa va size flags).2 (va + o) = pa + o) ∧
    (∀ a, (∀ o, o < size → a % VIRTMEM_END ≠ (va + o) % VIRTMEM_END) →
      (ptMapRegion s pa va size flags).2.entry a = s.entry a ∧
      ptResolve (ptMapRegion s pa va size flags).2 a = ptResolve s a) ∧
    PtInv (fun _ => True) (ptMapRegion s pa va size flags).2 := by
  obtain ⟨n, rfl⟩ : ∃ n, size = n * PGSIZE := ⟨size / PGSIZE, by simp only [PGSIZE] at *; omega⟩
  have hn : n ≤ 2 ^ 36 := by
    simp only [PGSIZE, VIRTMEM_END] at hwidth
    omega
  have hpages : ∀ k, k < n → s.entry (pgOffset va k) = none := by
    intro k hk
    have hin : va + k * PGSIZE < 2 ^ 64 := by
      simp only [PGSIZE] at *
      omega
    rw [pgOffset_eq hin]
    refine hunmapped _ ?_
    simp only [PGSIZE]
    omega
  obtain ⟨hinv, -, -, hresult⟩ := ptMapRegion_spec htree hflags (fun _ _ _ => trivial)
    (rfl : ptMapRegion s pa va (n * PGSIZE) flags = _)
  have hmapped := (hresult (pagesDistinct_of_le hva hn) hpages).2 (by rw [hok]; exact Int.lt_irrefl 0)
  refine ⟨fun o ho => hmapped.resolve hflags hva hpa hpos hpaEnd ho, fun a ha => ?_, hinv⟩
  have hframe : (ptMapRegion s pa va (n * PGSIZE) flags).2.entry a = s.entry a := by
    refine hmapped.frame a fun k hk heq => ?_
    rw [path_pgOffset_iff hva] at heq
    -- the byte of that page at the offset of `a`
    refine ha (k * PGSIZE + a % PGSIZE) ?_ ?_ <;> simp only [PGSIZE, VIRTMEM_END] at * <;> omega
  exact ⟨hframe, ptResolve_congr hframe⟩

/-- A root without entries, and memory for three tables. -/
def emptyTables : PtState := ⟨4096, fun _ => 0, [8192, 12288, 16384, 20480], []⟩

theorem emptyTables_inv : PtInv S emptyTables :=
  PtInv.of_empty (by decide) (fun _ => rfl) (by decide) (by decide)

theorem emptyTables_entry (a : Nat) : emptyTables.entry a = none := by
  rw [PtState.entry_eq]
  exact if_neg (by simp [emptyTables, flagIsSet])

/-- Two pages under an empty root, the last of one table and the first of the next. -/
theorem ptMapRegion_maps_two_tables :
    ptResolve (ptMapRegion emptyTables 0x5000 0x401FF000 8192 PTE_W).2 0x40200007 = 0x6007 := by
  exact (ptMapRegion_maps emptyTables_inv (by decide) (by decide) (by decide) (by decide) (by decide)
    (by decide) (by decide) ⟨by decide, by decide⟩ (fun o _ => emptyTables_entry _)
    (by decide +kernel)).1 0x1007 (by decide)

end Dangless
