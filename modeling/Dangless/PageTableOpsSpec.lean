import Dangless.LibTlb
import Dangless.PageTableOps
import Dangless.VirtmemInvalidate

/-! What the operations on the page tables do, one after the other, to the entries, to the markers of invalidated pages
and to the translations that the processor keeps in its TLB. -/

namespace Dangless

open TableTree Tlb

variable {S : PtPaths} {s s' : PtState} {p : List (Fin PT_NUM_ENTRIES)} {i : Fin PT_NUM_ENTRIES}
  {t va a flags pa ppte n : Nat} {ops more : List PtOp}

/-- The entry at which the walk of an address ends is `PTE_INVALIDATED`. -/
def PtState.Marked (s : PtState) (va : Nat) : Prop := s.mem (ptWalk s va .l1).2 = PTE_INVALIDATED

/-- The processor translates an address by its present entry, and `invlpg` flushes the page of its address. -/
def ptMachine : Machine PtState PtOp Nat (PtLevel × Nat) where
  apply := PtState.apply
  translate := PtState.entry
  flushes op a := ∃ va, op = .invlpg va ∧ ptPath a = ptPath va

/-- Assertions hold, and the TLB has no stale translation afterwards if it had none before. -/
structure OpsOk (s : PtState) (ops : List PtOp) : Prop where
  checks : ∀ b, .check b ∈ ops → b = true
  keeps : ptMachine.Keeps ∅ s ops ∅

theorem OpsOk.nil : OpsOk s [] := ⟨by simp, Machine.Keeps.nil⟩

theorem OpsOk.append (h : OpsOk s ops) (h' : OpsOk (s.applyAll ops) more) : OpsOk s (ops ++ more) := by
  refine ⟨fun b hb => ?_, h.keeps.append h'.keeps⟩
  rcases List.mem_append.mp hb with hb | hb
  · exact h.checks b hb
  · exact h'.checks b hb

/-- Every walk finds what it found before. -/
structure SameView (s s' : PtState) : Prop where
  entry : ∀ a, s'.entry a = s.entry a
  marked : ∀ a, s'.Marked a ↔ s.Marked a

theorem SameView.refl (s : PtState) : SameView s s := ⟨fun _ => rfl, fun _ => Iff.rfl⟩

theorem SameView.trans {s'' : PtState} (h : SameView s s') (h' : SameView s' s'') : SameView s s'' :=
  ⟨fun a => (h'.entry a).trans (h.entry a), fun a => (h'.marked a).trans (h.marked a)⟩

theorem PtState.marked_iff : s.Marked va ↔ s.mem (s.lookup va).2 = PTE_INVALIDATED := by
  rw [PtState.Marked, ptWalk_full]

theorem PtState.marked_congr (hlookup : s'.lookup va = s.lookup va)
    (hword : s'.mem (s.lookup va).2 = s.mem (s.lookup va).2) : s'.Marked va ↔ s.Marked va := by
  rw [PtState.marked_iff, PtState.marked_iff, hlookup, hword]

/-- A present entry is no marker. -/
theorem PtState.not_marked_of_entry (h : s.entry va ≠ none) : ¬ s.Marked va := by
  intro hmarked
  apply h
  rw [PtState.entry_eq, PtState.marked_iff.mp hmarked]
  rfl

/-- The marker of an address is that of its page. -/
theorem marked_of_path (s : PtState) (h : ptPath a = ptPath va) : s.Marked a ↔ s.Marked va := by
  simp only [ptPath, List.cons.injEq, and_true] at h
  obtain ⟨h4, h3, h2, h1⟩ := h
  have hlookup : s.lookup a = s.lookup va := by
    simp only [PtState.lookup]
    rw [h4, h3, h2, h1]
  rw [PtState.marked_iff, PtState.marked_iff, hlookup]

theorem SameView.tlbFlushOne (s : PtState) (va : Nat) : SameView s (s.tlbFlushOne va) :=
  ⟨fun _ => rfl, fun _ => Iff.rfl⟩

theorem ppZallocOne_view (hinv : PtInv S s) : SameView s (ppZallocOne s).2 := by
  obtain ⟨-, hkeeps, hentry, -, hmem, -⟩ := ppZallocOne_spec hinv rfl
  refine ⟨hentry, fun a => ?_⟩
  have hlength : [ptIndex a .l3, ptIndex a .l2, ptIndex a .l1].length ≤ 3 := le_rfl
  have hlookup := lookup_of_tables (fun q u hq hu => hmem q u hq hu) hlength (i := ptIndex a .l4)
  refine PtState.marked_congr ?_ hlookup.2
  rw [PtState.lookup, hkeeps.cr3]
  exact hlookup.1

/-- Operations that leave every walk as it is, with their assertions. -/
def Plain : PtState → List PtOp → Prop
  | _, [] => True
  | s, op :: ops => SameView s (s.apply op) ∧ op ≠ .check false ∧ Plain (s.apply op) ops

theorem plain_append : Plain s (ops ++ more) ↔ Plain s ops ∧ Plain (s.applyAll ops) more := by
  induction ops generalizing s with
  | nil => exact (and_iff_right trivial).symm
  | cons op ops ih => rw [List.cons_append, Plain, Plain, ih, applyAll_cons, and_assoc, and_assoc]

theorem Plain.view (h : Plain s ops) : SameView s (s.applyAll ops) := by
  induction ops generalizing s with
  | nil => exact SameView.refl s
  | cons op ops ih => exact h.1.trans (ih h.2.2)

theorem Plain.quiet (h : Plain s ops) : ptMachine.Quiet s ops := by
  induction ops generalizing s with
  | nil => trivial
  | cons op ops ih => exact ⟨h.1.entry, ih h.2.2⟩

theorem Plain.ok (h : Plain s ops) : OpsOk s ops := by
  refine ⟨?_, h.quiet.keeps⟩
  induction ops generalizing s with
  | nil => simp
  | cons op ops ih =>
      intro b hb
      rcases List.mem_cons.mp hb with heq | hb
      · cases b with
        | true => rfl
        | false => exact absurd heq.symm h.2.1
      · exact ih h.2.2 b hb

theorem plain_checks {conditions : List Bool} (h : ∀ b ∈ conditions, b = true) : Plain s (conditions.map .check) := by
  induction conditions with
  | nil => trivial
  | cons b conditions ih =>
      obtain ⟨rfl, hrest⟩ := List.forall_mem_cons.mp h
      exact ⟨SameView.refl s, by simp, ih hrest⟩

theorem applyAll_checks (conditions : List Bool) : s.applyAll (conditions.map .check) = s := by
  induction conditions with
  | nil => rfl
  | cons b conditions ih => exact ih

section Attach

variable {t' : Nat} (hinv : PtInv S s) (hfresh : FreshTable s t') (hflags : FlagsOk flags)
  (ht : s.follow p = some t) (hS : S p) (hp : p.length < 3) (hnone : pteChild (s.mem (pteSlot t i)) = none)

include hinv hfresh hflags ht hS hp hnone

/-- Referring to an empty table is seen by no walk, if the entry was neither present nor marked. -/
theorem attach_view (hinvalid : flagIsSet (s.mem (pteSlot t i)) PTE_V = false)
    (hclear : s.mem (pteSlot t i) ≠ PTE_INVALIDATED) : SameView s (s.write (pteSlot t i) (t' ||| flags ||| PTE_V)) := by
  refine ⟨attach_entry hinv hfresh hflags ht hS hp hnone hinvalid, fun a => ?_⟩
  by_cases hpre : p ++ [i] <+: ptPath a
  · obtain ⟨rest, hrest⟩ := hpre
    cases rest with
    | nil =>
        have hlength := congrArg List.length hrest
        simp [ptPath] at hlength
        omega
    | cons j rest =>
        have hpath : ptPath a = p ++ i :: j :: rest := by
          rw [← hrest, List.append_assoc]
          rfl
        have hzero := attach_empty hinv hfresh ht hp (t' ||| flags ||| PTE_V) (i := i) j
        have hbefore : s.lookup a = (_, pteSlot t i) := lookup_through ht hnone hpath
        have hafter : (s.write (pteSlot t i) (t' ||| flags ||| PTE_V)).lookup a = (_, pteSlot t' j) :=
          lookup_through (attach_followed hinv hfresh hflags ht hS hp hnone) (by rw [hzero]; rfl) hrest.symm
        rw [PtState.marked_iff, PtState.marked_iff, hbefore, hafter, hzero]
        exact ⟨fun hmarked => absurd hmarked (by decide), fun hmarked => absurd hmarked hclear⟩
  · obtain ⟨hlookup, hword⟩ :=
      lookup_update pteSlot_apart hinv.table_aligned hinv.tree hS (by omega) ht (by simp) hpre
    exact PtState.marked_congr hlookup hword

end Attach

/-- An entry of `va` that no walk takes for a table, a mapping or a marker. -/
structure BlankAt (S : PtPaths) (s : PtState) (va : Nat) (level : PtLevel) (ppte : Nat) : Prop where
  inv : PtInv S s
  at_ : AtLevel s va level ppte
  invalid : flagIsSet (s.mem ppte) PTE_V = false
  clear : s.mem ppte ≠ PTE_INVALIDATED

theorem ptMapPageCreateLevel_plain {level lower : PtLevel} (h : BlankAt S s va level ppte) (hflags : FlagsOk flags)
    (hS : Within S va) (hlower : levelsBelow level = lower :: levelsBelow lower) :
    Plain s (ptMapPageCreateLevelOps s ppte flags) ∧
      ∀ s' ppte', ptMapPageCreateLevel s ppte va lower flags = .ok (s', ppte') → BlankAt S s' va lower ppte' := by
  obtain ⟨t, ht, rfl⟩ := h.at_.table
  have hlevel : level ≠ .l1 := by
    rintro rfl
    cases hlower
  have hsteps : ptPrefix va lower = ptPrefix va level ++ [ptIndex va level] := by
    cases level <;> cases lower <;> simp [levelsBelow] at hlower <;> rfl
  have hlength : (ptPrefix va level).length < 3 := by
    cases level with
    | l1 => exact absurd rfl hlevel
    | l2 | l3 | l4 => simp [ptPrefix]
  have hnone := h.at_.noChild hlevel
  have hview := ppZallocOne_view h.inv
  unfold ptMapPageCreateLevelOps ptMapPageCreateLevel
  cases halloc : ppZallocOne s with
  | mk t' s1 =>
      obtain ⟨hinv1, -, -, hfollow1, hmem1, hfresh1⟩ := ppZallocOne_spec h.inv halloc
      have happly : s.apply .zalloc = s1 := congrArg Prod.snd halloc
      rw [halloc] at hview
      dsimp only at hinv1 hfollow1 hmem1 hfresh1 hview ⊢
      by_cases ht' : t' = 0
      · simp only [ht', if_true]
        refine ⟨⟨happly ▸ hview, by simp, trivial⟩, fun s' ppte' h => by cases h⟩
      · simp only [ht', if_false]
        have hsame : s1.mem (pteSlot t (ptIndex va level)) = s.mem (pteSlot t (ptIndex va level)) :=
          hmem1 _ t (by omega) ht _
        have ht1 := (hfollow1 (ptPrefix va level) (by omega)).trans ht
        have hnone1 : pteChild (s1.mem (pteSlot t (ptIndex va level))) = none := hsame ▸ hnone
        have hattach := attach_view hinv1 (hfresh1 ht') hflags ht1 (hS level) hlength hnone1
          (by rw [hsame]; exact h.invalid) (by rw [hsame]; exact h.clear)
        refine ⟨⟨happly ▸ hview, by simp, ?_, by simp, trivial⟩, fun s' ppte' hok => ?_⟩
        · rw [happly]
          exact hattach
        · obtain ⟨rfl, rfl⟩ := Prod.mk.inj (Except.ok.inj hok)
          have hzero := attach_empty hinv1 (hfresh1 ht') ht1 hlength (t' ||| flags ||| PTE_V)
            (i := ptIndex va level) (ptIndex va lower)
          have hslot : t' + 8 * ptLevelOffset va lower = pteSlot t' (ptIndex va lower) := rfl
          refine ⟨attach_inv hinv1 (hfresh1 ht') hflags ht1 (hS level) hlength hnone1, ⟨⟨t', ?_, rfl⟩, fun _ => ?_⟩,
            ?_, ?_⟩
          · rw [hsteps]
            exact attach_followed hinv1 (hfresh1 ht') hflags ht1 (hS level) hlength hnone1
          · rw [hslot, hzero]
            rfl
          · rw [hslot, hzero]
            rfl
          · rw [hslot, hzero]
            decide

theorem ptMapPageCreateLevels_plain {level : PtLevel} (h : BlankAt S s va level ppte) (hflags : FlagsOk flags)
    (hS : Within S va) :
    Plain s (ptMapPageCreateLevelsOps s ppte va flags (levelsBelow level)) ∧
      ∀ s' ppte', ptMapPageCreateLevels s ppte va flags level = .ok (s', ppte') → BlankAt S s' va .l1 ppte' := by
  generalize hlevels : levelsBelow level = levels
  induction levels generalizing s ppte level with
  | nil =>
      cases level with
      | l1 =>
          refine ⟨trivial, fun s' ppte' hok => ?_⟩
          obtain ⟨rfl, rfl⟩ := Prod.mk.inj (Except.ok.inj hok)
          exact h
      | l2 | l3 | l4 => cases hlevels
  | cons lower levels ih =>
      have hlevel : level ≠ .l1 := by
        rintro rfl
        cases hlevels
      obtain ⟨lower', hlower⟩ := levelsBelow_cons hlevel
      obtain ⟨rfl, rfl⟩ := List.cons.inj (hlevels.symm.trans hlower)
      obtain ⟨hplain, hblank⟩ := ptMapPageCreateLevel_plain h hflags hS hlower
      rw [ptMapPageCreateLevels_eq s ppte va flags hlower, ptMapPageCreateLevelsOps, plain_append]
      rcases ptMapPageCreateLevel_eq s ppte va lower flags with ⟨u, hlevel, happly⟩ | ⟨u, ppte', hlevel, happly⟩
      · rw [hlevel]
        exact ⟨⟨hplain, trivial⟩, fun s' ppte' hok => by cases hok⟩
      · rw [hlevel, happly]
        obtain ⟨hrest, hlast⟩ := ih (hblank u ppte' hlevel) rfl
        exact ⟨⟨hplain, hrest⟩, hlast⟩

section StoreL1

variable (halign : s.cr3 % PGSIZE = 0) (htree : TreeOn pteSlot pteChild S s.mem s.cr3 3)
  (hS : Within S va) (ht : s.follow (ptPrefix va .l1) = some t) (word : Nat)

include halign htree hS ht

theorem marked_write_l1_self (ha : ptPath a = ptPath va) :
    (s.write (pteSlot t (ptIndex va .l1)) word).Marked a ↔ word = PTE_INVALIDATED := by
  have hlookup : (s.write (pteSlot t (ptIndex va .l1)) word).lookup a = (0, pteSlot t (ptIndex va .l1)) :=
    lookup_full ((follow_write_l1 halign htree hS ht word le_rfl).trans ht) ha
  rw [PtState.marked_iff, hlookup]
  simp [PtState.write]

theorem marked_write_l1_other (ha : ptPath a ≠ ptPath va) :
    (s.write (pteSlot t (ptIndex va .l1)) word).Marked a ↔ s.Marked a := by
  have hnot : ¬ ptPrefix va .l1 ++ [ptIndex va .l1] <+: ptPath a := fun hpre => ha (hpre.eq_of_length rfl).symm
  obtain ⟨hlookup, hword⟩ := lookup_update pteSlot_apart (fun _ _ h => follow_aligned halign h) htree
    (hS .l1) le_rfl ht (by simp) hnot
  exact PtState.marked_congr hlookup hword

/-- A store into the entry of a page that had no translation makes nothing stale. -/
theorem store_ok (hnone : s.entry va = none) : OpsOk s [.store (pteSlot t (ptIndex va .l1)) word] := by
  refine ⟨by simp, Machine.Keeps.single fun a _ => Or.inr ⟨Set.notMem_empty a, ?_⟩⟩
  by_cases ha : ptPath a = ptPath va
  · exact Or.inr ((entry_of_path s ha).trans hnone)
  · exact Or.inl (entry_write_l1_other halign htree hS ht word ha)

/-- After a store into the entry of a page, only that page can be stale, and `invlpg` flushes it. -/
theorem store_flush_ok : OpsOk s [.store (pteSlot t (ptIndex va .l1)) word, .invlpg va] := by
  have hstore : ptMachine.Keeps ∅ s [.store (pteSlot t (ptIndex va .l1)) word] {a | ptPath a = ptPath va} :=
    Machine.Keeps.single fun a ha =>
      Or.inr ⟨Set.notMem_empty a, Or.inl (entry_write_l1_other halign htree hS ht word ha)⟩
  refine ⟨by simp, hstore.append (Machine.Keeps.single fun a _ => ?_)⟩
  by_cases ha : ptPath a = ptPath va
  · exact Or.inl ⟨va, rfl, ha⟩
  · exact Or.inr ⟨ha, Or.inl rfl⟩

end StoreL1

/-! ### Mapping and unmapping -/

/-- Besides, no page is marked and none loses its marker. -/
structure KeepsMarks (s : PtState) (ops : List PtOp) : Prop extends OpsOk s ops where
  marked : ∀ a, (s.applyAll ops).Marked a ↔ s.Marked a

theorem KeepsMarks.nil : KeepsMarks s [] := ⟨OpsOk.nil, fun _ => Iff.rfl⟩

theorem KeepsMarks.append (h : KeepsMarks s ops) (h' : KeepsMarks (s.applyAll ops) more) :
    KeepsMarks s (ops ++ more) := by
  refine ⟨h.toOpsOk.append h'.toOpsOk, fun a => ?_⟩
  rw [applyAll_append]
  exact (h'.marked a).trans (h.marked a)

theorem Plain.keepsMarks (h : Plain s ops) : KeepsMarks s ops := ⟨h.ok, h.view.marked⟩

/-- The word of a mapping is no marker. -/
theorem entry_ne_invalidated : pa ||| flags ||| PTE_V ≠ PTE_INVALIDATED := by
  intro heq
  have hvalid : flagIsSet (pa ||| flags ||| PTE_V) PTE_V = true := entry_valid
  rw [heq] at hvalid
  revert hvalid
  decide

section Page

variable (hinv : PtInv S s) (hS : Within S va)

include hinv hS

/-- A store of a word that is no marker, into the entry of a page that is not marked. -/
theorem keepsMarks_of_store {word : Nat} {rest : List PtOp} (ht : s.follow (ptPrefix va .l1) = some t)
    (hok : OpsOk s (.store (pteSlot t (ptIndex va .l1)) word :: rest))
    (hrest : SameView (s.write (pteSlot t (ptIndex va .l1)) word)
      (s.applyAll (.store (pteSlot t (ptIndex va .l1)) word :: rest)))
    (hword : word ≠ PTE_INVALIDATED) (hclear : ¬ s.Marked va) :
    KeepsMarks s (.store (pteSlot t (ptIndex va .l1)) word :: rest) := by
  refine ⟨hok, fun a => (hrest.marked a).trans ?_⟩
  by_cases ha : ptPath a = ptPath va
  · rw [marked_write_l1_self hinv.aligned hinv.tree hS ht word ha, marked_of_path s ha]
    exact ⟨fun heq => absurd heq hword, fun hmarked => absurd hmarked hclear⟩
  · exact marked_write_l1_other hinv.aligned hinv.tree hS ht word ha

/-- `pt_map_page` of a page that is neither mapped nor marked. -/
theorem ptMapPage_keepsMarks (hflags : FlagsOk flags) (hpa : pa % PGSIZE = 0) (hva : va % PGSIZE = 0)
    (hnone : s.entry va = none) (hclear : ¬ s.Marked va) : KeepsMarks s (ptMapPageOps s pa va flags) := by
  have hinvalid := PtState.entry_eq_none.mp hnone
  have hblank : BlankAt S s va (ptWalk s va .l1).1 (ptWalk s va .l1).2 :=
    ⟨hinv, ptWalk_atLevel s va, hinvalid, hclear⟩
  obtain ⟨hplain, hlast⟩ := ptMapPageCreateLevels_plain hblank hflags hS
  have hchecks : KeepsMarks s ([decide (pa % PGSIZE = 0), decide (va % PGSIZE = 0),
      !flagIsSet (s.mem (ptWalk s va .l1).2) PTE_V].map PtOp.check) := by
    apply Plain.keepsMarks
    apply plain_checks
    simp [hpa, hva, hinvalid]
  have hlevels := hchecks.append (by rw [applyAll_checks]; exact hplain.keepsMarks)
  unfold ptMapPageOps
  dsimp only
  refine hlevels.append ?_
  rw [applyAll_append, applyAll_checks]
  rcases ptMapPageCreateLevels_ops s (ptWalk s va .l1).2 va flags (ptWalk s va .l1).1 with
    ⟨u, hresult, -⟩ | ⟨u, ppte, hresult, happly⟩
  · rw [hresult]
    exact KeepsMarks.nil
  · have hblank' := hlast u ppte hresult
    obtain ⟨t', ht', rfl⟩ := hblank'.at_.table
    have hview := hplain.view
    rw [happly] at hview ⊢
    rw [hresult]
    dsimp only
    rw [ptMapPageStoreOps, hblank'.invalid, if_neg Bool.false_ne_true, List.nil_append]
    refine keepsMarks_of_store hblank'.inv hS ht' ?_ (SameView.refl _) entry_ne_invalidated ?_
    · exact store_ok hblank'.inv.aligned hblank'.inv.tree hS ht' _ ((hview.entry va).trans hnone)
    · exact fun hmarked => hclear ((hview.marked va).mp hmarked)

/-- `pt_unmap_page` of a page that is mapped. -/
theorem ptUnmapPage_keepsMarks {w : Nat} (hw : s.entry va = some (.l1, w)) :
    KeepsMarks s (ptUnmapPageOps s va .l1) := by
  obtain ⟨hlevel, t, ht, hppte⟩ := entry_l1_table hw
  have hvalid : flagIsSet (s.mem (pteSlot t (ptIndex va .l1))) PTE_V = true := by
    cases h : flagIsSet (s.mem (pteSlot t (ptIndex va .l1))) PTE_V with
    | true => rfl
    | false =>
        rw [← hppte, ← PtState.entry_eq_none, hw] at h
        cases h
  unfold ptUnmapPageOps
  dsimp only
  rw [if_neg (not_not.mpr hlevel), hppte, if_pos hvalid]
  refine keepsMarks_of_store hinv hS ht (store_flush_ok hinv.aligned hinv.tree hS ht 0) (SameView.tlbFlushOne _ va)
    (by decide) (PtState.not_marked_of_entry ?_)
  rw [hw]
  simp

end Page

section Region

variable (hinv : PtInv S s) (hflags : FlagsOk flags)

include hinv

theorem ptUnmapRegionLoop_keepsMarks (hS : ∀ k, k < n → Within S (pgOffset va k)) (hdistinct : PagesDistinct va n)
    (hmapped : ∀ k, k < n → ∃ w, s.entry (pgOffset va k) = some (.l1, w)) :
    KeepsMarks s (ptUnmapRegionLoopOps s va n) := by
  induction n with
  | zero => exact KeepsMarks.nil
  | succ n ih =>
      have hS' : ∀ k, k < n → Within S (pgOffset va k) := fun k hk => hS k (by omega)
      have hdistinct' : PagesDistinct va n := fun j k hj hk => hdistinct j k hj (by omega)
      obtain ⟨hinv', -, hcleared⟩ := ptUnmapRegionLoop_spec hinv hS'
      have hframe := (hcleared hdistinct' fun k hk => hmapped k (by omega)).frame
      obtain ⟨w, hw⟩ := hmapped n (by omega)
      rw [ptUnmapRegionLoopOps]
      refine (ih hS' hdistinct' fun k hk => hmapped k (by omega)).append ?_
      rw [applyAll_ptUnmapRegionLoopOps]
      -- the page of this turn is still mapped
      refine ptUnmapPage_keepsMarks hinv' (hS n (by omega)) (w := w) ?_
      rw [hframe _ fun k _ hk heq => hdistinct k n hk (by omega) heq.symm, hw]

include hflags

/-- The loop of `pt_map_region` over pages that are neither mapped nor marked. -/
theorem ptMapRegionLoop_keepsMarks (hpa : pa % PGSIZE = 0) (hva : va % PGSIZE = 0)
    (hS : ∀ k, k < n → Within S (pgOffset va k)) (hdistinct : PagesDistinct va n)
    (hnone : ∀ k, k < n → s.entry (pgOffset va k) = none) (hclear : ∀ k, k < n → ¬ s.Marked (pgOffset va k)) :
    KeepsMarks s (ptMapRegionLoopOps s pa va flags n) := by
  induction n with
  | zero => exact KeepsMarks.nil
  | succ n ih =>
      have hS' : ∀ k, k < n → Within S (pgOffset va k) := fun k hk => hS k (by omega)
      have hdistinct' : PagesDistinct va n := fun j k hj hk => hdistinct j k hj (by omega)
      have hnone' : ∀ k, k < n → s.entry (pgOffset va k) = none := fun k hk => hnone k (by omega)
      have hprev := ih hS' hdistinct' hnone' fun k hk => hclear k (by omega)
      have happly := applyAll_ptMapRegionLoopOps s pa va flags n
      have hloop : RegionLoop S s pa va flags n (ptMapRegionLoop s pa va flags n) :=
        ptMapRegionLoop_spec hinv hflags hS'
      rw [ptMapRegionLoopOps]
      refine hprev.append ?_
      have hmarked := hprev.marked
      rw [happly] at hmarked ⊢
      cases hresult : ptMapRegionLoop s pa va flags n with
      | error e => exact KeepsMarks.nil
      | ok s' =>
          rw [hresult] at hloop hmarked
          obtain ⟨hinv', -, -, hmap⟩ := hloop
          have hframe := (hmap hdistinct' hnone').frame
          have hpage : ∀ q, q % PGSIZE = 0 → pgOffset q n % PGSIZE = 0 := fun q hq => by
            simp only [pgOffset, u64, PGSIZE] at *
            omega
          refine ptMapPage_keepsMarks hinv' (hS n (by omega)) hflags (hpage pa hpa) (hpage va hva) ?_ ?_
          · rw [hframe _ fun k hk heq => hdistinct k n hk (by omega) heq.symm]
            exact hnone n (by omega)
          · exact fun h => hclear n (by omega) ((hmarked _).mp h)

/-- `pt_map_region`, whether it maps the region or gives up. -/
theorem ptMapRegion_keepsMarks (hpa : pa % PGSIZE = 0) (hva : va % PGSIZE = 0)
    (hS : ∀ k, k < n → Within S (pgOffset va k)) (hdistinct : PagesDistinct va n)
    (hnone : ∀ k, k < n → s.entry (pgOffset va k) = none) (hclear : ∀ k, k < n → ¬ s.Marked (pgOffset va k)) :
    KeepsMarks s (ptMapRegionOps s pa va (n * PGSIZE) flags) := by
  have hturns : (n * PGSIZE + PGSIZE - 1) / PGSIZE = n := by
    simp only [PGSIZE]
    omega
  have hchecks : KeepsMarks s ([decide (pa % PGSIZE = 0), decide (va % PGSIZE = 0),
      decide (n * PGSIZE % PGSIZE = 0)].map PtOp.check) := by
    apply Plain.keepsMarks
    apply plain_checks
    simp [hpa, hva]
  have hloop := ptMapRegionLoop_keepsMarks hinv hflags hpa hva hS hdistinct hnone hclear
  have hspec : RegionLoop S s pa va flags n (ptMapRegionLoop s pa va flags n) := ptMapRegionLoop_spec hinv hflags hS
  have happly := applyAll_ptMapRegionLoopOps s pa va flags n
  unfold ptMapRegionOps
  dsimp only
  rw [hturns]
  refine (hchecks.append (by rw [applyAll_checks]; exact hloop)).append ?_
  rw [applyAll_append, applyAll_checks, happly]
  cases hresult : ptMapRegionLoop s pa va flags n with
  | ok s' => exact KeepsMarks.nil
  | error e =>
      obtain ⟨done, s'⟩ := e
      rw [hresult] at hspec
      obtain ⟨hdone, hinv', -, hmap⟩ := hspec
      have hmapped := (hmap hdistinct hnone).mapped
      exact ptUnmapRegionLoop_keepsMarks hinv' (fun k hk => hS k (by omega))
        (fun j k hj hk => hdistinct j k hj (by omega)) fun k hk => ⟨_, hmapped k hk _ rfl⟩

end Region

theorem Invalidated.treeOn (h : Invalidated s s' va n) (htree : TreeOn pteSlot pteChild S s.mem s.cr3 3) :
    TreeOn pteSlot pteChild S s'.mem s'.cr3 3 := by
  intro q r u hq hlq hlr hqu hru
  exact htree q r u hq hlq hlr ((h.follow q hlq).symm.trans hqu) ((h.follow r hlr).symm.trans hru)

section Invalidate

variable (halign : s.cr3 % PGSIZE = 0) (htree : TreeOn pteSlot pteChild S s.mem s.cr3 3)

include halign htree

theorem virtualInvalidatePages_marked (hS : ∀ k, k < n → Within S (pgOffset va k))
    (htable : ∀ k, k < n → ∃ t, s.follow (ptPrefix (pgOffset va k) .l1) = some t) :
    (virtualInvalidatePages s va n).Marked a ↔ s.Marked a ∨ ∃ k, k < n ∧ ptPath a = ptPath (pgOffset va k) := by
  induction n with
  | zero => simp [virtualInvalidatePages]
  | succ n ih =>
      have hprev := virtualInvalidatePages_spec halign htree (n := n) (fun k hk => hS k (by omega))
        fun k hk => htable k (by omega)
      obtain ⟨t, ht⟩ := htable n (by omega)
      have ht' := (hprev.follow _ le_rfl).trans ht
      have htree' := hprev.treeOn htree
      have hih := ih (fun k hk => hS k (by omega)) fun k hk => htable k (by omega)
      rw [virtualInvalidatePages, virtualInvalidatePage, ptWalk_of_table ht']
      refine ((SameView.tlbFlushOne _ _).marked a).trans ?_
      by_cases ha : ptPath a = ptPath (pgOffset va n)
      · rw [marked_write_l1_self (hprev.cr3 ▸ halign) htree' (hS n (by omega)) ht' _ ha]
        exact ⟨fun _ => Or.inr ⟨n, by omega, ha⟩, fun _ => rfl⟩
      · rw [marked_write_l1_other (hprev.cr3 ▸ halign) htree' (hS n (by omega)) ht' _ ha, hih]
        apply or_congr_right
        constructor
        · rintro ⟨k, hk, hpath⟩
          exact ⟨k, by omega, hpath⟩
        · rintro ⟨k, hk, hpath⟩
          rcases Nat.lt_succ_iff_lt_or_eq.mp hk with hlt | rfl
          · exact ⟨k, hlt, hpath⟩
          · exact absurd hpath ha

/-- The stores of the inner loop of `virtual_invalidate`, each with its flush. -/
theorem virtualInvalidatePtes_ok (hS : ∀ k, k < n → Within S (pgOffset va k))
    (ht : s.follow (ptPrefix va .l1) = some t) (hn : ptLevelOffset va .l1 + n ≤ PT_NUM_ENTRIES) :
    OpsOk s (virtualInvalidatePtesOps va (pteSlot t (ptIndex va .l1)) n) := by
  induction n with
  | zero => exact OpsOk.nil
  | succ n ih =>
      have hS' : ∀ k, k < n → Within S (pgOffset va k) := fun k hk => hS k (by omega)
      have htable : ∀ k, k < n + 1 → s.follow (ptPrefix (pgOffset va k) .l1) = some t := by
        intro k hk
        rw [(ptPrefix_pgOffset (by omega)).1]
        exact ht
      have hprev := virtualInvalidatePages_spec halign htree (n := n) hS' fun k hk => ⟨t, htable k (by omega)⟩
      have htree' := hprev.treeOn htree
      obtain ⟨-, hoffset⟩ := ptPrefix_pgOffset (k := n) (show ptLevelOffset va .l1 + n < _ by omega)
      have hslot : pteSlot t (ptIndex va .l1) + 8 * n = pteSlot t (ptIndex (pgOffset va n) .l1) := by
        simp only [pteSlot, ptIndex, hoffset]
        omega
      rw [virtualInvalidatePtesOps]
      refine (ih hS' (by omega)).append ?_
      rw [applyAll_virtualInvalidatePtesOps, virtualInvalidatePtes_eq halign htree hS' ht (by omega), hslot]
      exact store_flush_ok (hprev.cr3 ▸ halign) htree' (hS n (by omega)) ((hprev.follow _ le_rfl).trans (htable n (by omega))) _

/-- The loop of `virtual_invalidate` over pages that are mapped, from any page on. -/
theorem virtualInvalidateLoop_ok {npages pageOffset fuel : Nat} (hS : ∀ k, k < npages → Within S (pgOffset va k))
    (hdistinct : PagesDistinct va npages)
    (hmapped : ∀ k, k < npages → ∃ w, s.entry (pgOffset va k) = some (.l1, w)) :
    OpsOk (virtualInvalidatePages s va pageOffset)
      (virtualInvalidateLoopOps (virtualInvalidatePages s va pageOffset) va npages pageOffset fuel) := by
  induction fuel generalizing pageOffset with
  | zero => exact OpsOk.nil
  | succ fuel ih =>
      rw [virtualInvalidateLoopOps]
      split_ifs with hlt
      · have htable : ∀ k, k < npages → ∃ t, s.follow (ptPrefix (pgOffset va k) .l1) = some t := by
          intro k hk
          obtain ⟨w, hw⟩ := hmapped k hk
          obtain ⟨-, t, ht, -⟩ := entry_l1_table hw
          exact ⟨t, ht⟩
        have hprev := virtualInvalidatePages_spec halign htree (n := pageOffset) (fun k hk => hS k (by omega))
          fun k hk => htable k (by omega)
        obtain ⟨t, ht⟩ := htable pageOffset hlt
        have ht' := (hprev.follow _ le_rfl).trans ht
        have halign' : (virtualInvalidatePages s va pageOffset).cr3 % PGSIZE = 0 := hprev.cr3 ▸ halign
        have htree' := hprev.treeOn htree
        -- the page that this turn starts at is still mapped
        have hentry : (virtualInvalidatePages s va pageOffset).entry (pgOffset va pageOffset) ≠ none := by
          obtain ⟨w, hw⟩ := hmapped pageOffset hlt
          rw [hprev.cleared.frame _ fun k _ hk heq => hdistinct k pageOffset hk hlt heq.symm, hw]
          simp
        have hvalid : flagIsSet ((virtualInvalidatePages s va pageOffset).mem
            (pteSlot t (ptIndex (pgOffset va pageOffset) .l1))) PTE_V = true := by
          rw [Ne, PtState.entry_eq_none, ptWalk_of_table ht'] at hentry
          simpa using hentry
        have hbase := ptLevelOffset_lt (pgOffset va pageOffset) .l1
        dsimp only
        rw [ptWalk_of_table ht']
        dsimp only
        rw [hvalid]
        generalize hnptes : min (PT_NUM_ENTRIES - ptLevelOffset (pgOffset va pageOffset) .l1)
          (npages - pageOffset) = nptes
        have hchunk : ∀ k, k < nptes → Within S (pgOffset (pgOffset va pageOffset) k) := fun k hk => by
          rw [pgOffset_pgOffset]
          exact hS _ (by omega)
        have hchecks : OpsOk (virtualInvalidatePages s va pageOffset) [PtOp.check (PtLevel.l1 = .l1), .check true] :=
          Plain.ok ⟨SameView.refl _, by simp, SameView.refl _, by simp, trivial⟩
        have hptes := virtualInvalidatePtes_ok halign' htree' hchunk ht' (show _ + nptes ≤ _ by omega)
        refine (hchecks.append hptes).append ?_
        rw [applyAll_append, applyAll_virtualInvalidatePtesOps]
        show OpsOk (virtualInvalidatePtes (virtualInvalidatePages s va pageOffset) _ _ _) _
        rw [virtualInvalidatePtes_eq halign' htree' hchunk ht' (by omega), virtualInvalidatePages_add]
        exact ih
      · exact OpsOk.nil

end Invalidate

/-- `virtual_invalidate` of pages that are mapped marks exactly these pages. -/
theorem virtualInvalidate_ok {p npages : Nat} (hinv : PtInv S s) (hva : roundDown p PGSIZE = va)
    (hS : ∀ k, k < npages → Within S (pgOffset va k)) (hdistinct : PagesDistinct va npages)
    (hmapped : ∀ k, k < npages → ∃ w, s.entry (pgOffset va k) = some (.l1, w)) :
    OpsOk s (virtualInvalidateOps s p npages) ∧ ∀ a, (virtualInvalidate s p npages).Marked a ↔
      s.Marked a ∨ ∃ k, k < npages ∧ ptPath a = ptPath (pgOffset va k) := by
  have htable : ∀ k, k < npages → ∃ t, s.follow (ptPrefix (pgOffset va k) .l1) = some t := by
    intro k hk
    obtain ⟨w, hw⟩ := hmapped k hk
    obtain ⟨-, t, ht, -⟩ := entry_l1_table hw
    exact ⟨t, ht⟩
  have hloop : virtualInvalidate s p npages = virtualInvalidatePages s va npages := by
    rw [virtualInvalidate, hva]
    exact virtualInvalidateLoop_eq hinv.aligned hinv.tree hS htable (Nat.zero_le _) (by omega)
  rw [hloop, virtualInvalidateOps, hva]
  have hok : OpsOk (virtualInvalidatePages s va 0) (virtualInvalidateLoopOps s va npages 0 npages) :=
    virtualInvalidateLoop_ok hinv.aligned hinv.tree hS hdistinct hmapped
  exact ⟨hok, fun a => virtualInvalidatePages_marked hinv.aligned hinv.tree hS htable⟩

end Dangless
