import Dangless.SysContract

/-! A system allocator that meets the contract, so that the contract can be met: it gives addresses of
the low 4 GB in ascending order and never gives one twice. Like glibc's, its `realloc` with size 0
releases the block. -/

namespace Dangless

/-- The live blocks with their usable sizes, and the first address that was never used. -/
structure BumpHeap where
  blocks : List (Nat × Nat)
  next : Nat

namespace BumpHeap

/-- The usable size of a block that was asked for with `n` bytes. -/
def usable (n : Nat) : Nat := (n / 16 + 1) * 16

/-- A block at the first multiple of `align` that was never used. -/
def memalign (align n : Nat) (s : BumpHeap) : Nat × BumpHeap :=
  let start := (s.next + align - 1) / align * align
  if s.next ≤ start ∧ start + usable n ≤ 2 ^ 32
  then (start, ⟨(start, usable n) :: s.blocks, start + usable n⟩) else (0, s)

def malloc (n : Nat) (s : BumpHeap) : Nat × BumpHeap := memalign 16 n s

def free (b : Nat) (s : BumpHeap) : BumpHeap := { s with blocks := s.blocks.filter (·.1 ≠ b) }

def realloc (b n : Nat) (s : BumpHeap) : Nat × BumpHeap :=
  if b = 0 then malloc n s
  else if n = 0 then (0, free b s)
  else
    let r := malloc n s
    if r.1 = 0 then (0, s) else (r.1, free b r.2)

def mallocUsableSize (b : Nat) (s : BumpHeap) : Nat := ((s.blocks.find? (·.1 = b)).map (·.2)).getD 0

/-- The blocks lie one after the other in the low 4 GB without page 0. -/
structure Ok (s : BumpHeap) : Prop where
  low : PGSIZE ≤ s.next
  inside : ∀ x ∈ s.blocks, PGSIZE ≤ x.1 ∧ 0 < x.2 ∧ x.1 + x.2 ≤ s.next
  high : s.next ≤ 2 ^ 32

def live (s : BumpHeap) : Set Nat := {b | ∃ x ∈ s.blocks, x.1 = b}

end BumpHeap

/-- The functions of the library. -/
def bumpAllocator : SysAllocator BumpHeap where
  malloc := BumpHeap.malloc
  calloc num size := BumpHeap.malloc (num * size)
  realloc := BumpHeap.realloc
  memalign := BumpHeap.memalign
  free := BumpHeap.free
  mallocUsableSize := BumpHeap.mallocUsableSize

namespace BumpHeap

variable {s : BumpHeap} {b c n align : Nat}

theorem le_usable (n : Nat) : n ≤ usable n ∧ 0 < usable n := by
  simp only [usable]
  omega

theorem mallocUsableSize_mem (hb : b ∈ s.live) : (b, mallocUsableSize b s) ∈ s.blocks := by
  obtain ⟨x, hx, rfl⟩ := hb
  unfold mallocUsableSize
  cases hfind : s.blocks.find? (·.1 = x.1) with
  | none =>
      have hnone := List.find?_eq_none.mp hfind x hx
      simp at hnone
  | some y =>
      have hy : y.1 = x.1 := by simpa using List.find?_some hfind
      have hmem := List.mem_of_find?_eq_some hfind
      rw [← hy]
      exact hmem

theorem mallocUsableSize_cons {x : Nat × Nat} (hne : c ≠ x.1) (next : Nat) :
    mallocUsableSize c ⟨x :: s.blocks, next⟩ = mallocUsableSize c s := by
  unfold mallocUsableSize
  rw [List.find?_cons_of_neg (by simpa using hne.symm)]

theorem mallocUsableSize_free (hne : c ≠ b) : mallocUsableSize c (free b s) = mallocUsableSize c s := by
  unfold mallocUsableSize free
  have hpred : (fun x : Nat × Nat => decide (decide (x.1 ≠ b) = true ∧ decide (x.1 = c) = true)) =
      fun x => decide (x.1 = c) := by
    funext x
    by_cases hx : x.1 = c
    · simp [hx, hne]
    · simp [hx]
  rw [List.find?_filter, hpred]

theorem live_free (b : Nat) (s : BumpHeap) : (free b s).live = s.live \ {b} := by
  ext c
  constructor
  · rintro ⟨x, hx, rfl⟩
    obtain ⟨hmem, hne⟩ := List.mem_filter.mp hx
    exact ⟨⟨x, hmem, rfl⟩, by simpa using hne⟩
  · rintro ⟨⟨x, hmem, rfl⟩, hne⟩
    exact ⟨x, List.mem_filter.mpr ⟨hmem, by simpa using hne⟩, rfl⟩

theorem Ok.free (h : s.Ok) (b : Nat) : (BumpHeap.free b s).Ok :=
  ⟨h.low, fun x hx => h.inside x (List.mem_filter.mp hx).1, h.high⟩

/-- A block that was never given before, or no change. -/
theorem memalign_spec (h : s.Ok) (align n : Nat) :
    (memalign align n s).2.Ok ∧ Obtains bumpAllocator live s n (memalign align n s) := by
  have hlow := h.low
  have husable := le_usable n
  unfold memalign
  generalize (s.next + align - 1) / align * align = start
  dsimp only
  split_ifs with hroom
  · have hpos : start ≠ 0 := by
      simp only [PGSIZE] at hlow
      omega
    have hold : ∀ x ∈ s.blocks, x.1 ≠ start := by
      intro x hx heq
      have := h.inside x hx
      omega
    refine ⟨⟨by dsimp only; omega, fun x hx => ?_, hroom.2⟩, fun hnull => absurd hnull hpos,
      fun _ => ?_, fun _ => ?_, fun _ => ?_, fun c hc => ?_⟩
    · rcases List.mem_cons.mp hx with rfl | hx
      · exact ⟨by dsimp only; omega, husable.2, le_rfl⟩
      · obtain ⟨hge, hpos, hle⟩ := h.inside x hx
        exact ⟨hge, hpos, by dsimp only; omega⟩
    · rintro ⟨x, hx, heq⟩
      exact hold x hx heq
    · ext c
      simp only [live, Set.mem_insert_iff, Set.mem_ofPred_eq, List.mem_cons, exists_eq_or_imp]
      rw [eq_comm]
    · show n ≤ mallocUsableSize start _
      simpa [mallocUsableSize] using husable.1
    · obtain ⟨x, hx, rfl⟩ := hc
      exact mallocUsableSize_cons (hold x hx) _
  · exact ⟨h, fun _ => rfl, fun hne => absurd rfl hne, fun hne => absurd rfl hne,
      fun hne => absurd rfl hne, fun _ _ => rfl⟩

theorem realloc_spec (h : s.Ok) (hb : b ∈ s.live) (n : Nat) :
    (realloc b n s).2.Ok ∧ Reallocs bumpAllocator live s b n (realloc b n s) := by
  have hb0 : b ≠ 0 := by
    obtain ⟨x, hx, rfl⟩ := hb
    have hge := (h.inside x hx).1
    simp only [PGSIZE] at hge
    omega
  obtain ⟨hok, hr⟩ := memalign_spec h 16 n
  unfold realloc
  dsimp only
  rw [if_neg hb0]
  split_ifs with hn hnull
  · exact ⟨h.free b, fun _ => Or.inr ⟨hn, live_free b s⟩, fun hne => absurd rfl hne,
      fun hne => absurd rfl hne, fun hne => absurd rfl hne, fun c _ hne => mallocUsableSize_free hne⟩
  · exact ⟨h, fun _ => Or.inl ⟨rfl, rfl⟩, fun hne => absurd rfl hne, fun hne => absurd rfl hne,
      fun hne => absurd rfl hne, fun _ _ _ => rfl⟩
  · have hfresh := hr.fresh hnull
    have hne : (malloc n s).1 ≠ b := fun heq => hfresh (heq ▸ hb)
    refine ⟨hok.free b, fun hzero => absurd hzero hnull, fun _ => Or.inr hfresh, fun _ => ?_, fun _ => ?_,
      fun c hc hcb => ?_⟩
    · show (BumpHeap.free b (malloc n s).2).live = _
      rw [live_free, show (malloc n s).2.live = _ from hr.live_eq hnull,
        Set.insert_sdiff_singleton_comm hne]
      rfl
    · exact (hr.size hnull).trans (mallocUsableSize_free hne).ge
    · exact (mallocUsableSize_free hcb).trans (hr.usable c hc)

end BumpHeap

/-- The contract, in any layout. -/
def bumpContract (L : DuneLayout) : SysContract bumpAllocator L where
  Ok := BumpHeap.Ok
  live := BumpHeap.live
  home := by
    intro s b hok hb
    obtain ⟨hge, hpos, hle⟩ := hok.inside _ (BumpHeap.mallocUsableSize_mem hb)
    have hhigh := hok.high
    change 0 < BumpHeap.mallocUsableSize b s at hpos
    refine Or.inl ⟨hge, ?_, hle.trans hhigh⟩
    change b + BumpHeap.mallocUsableSize b s ≤ s.next at hle
    omega
  malloc s n hok := BumpHeap.memalign_spec hok 16 n
  calloc s num size hok := BumpHeap.memalign_spec hok 16 (num * size)
  memalign s align size hok := BumpHeap.memalign_spec hok align size
  reallocNull s n hok := BumpHeap.memalign_spec hok 16 n
  realloc s b n hok hb := BumpHeap.realloc_spec hok hb n
  free s b hok _ := ⟨hok.free b, BumpHeap.live_free b s, fun _ _ hne => BumpHeap.mallocUsableSize_free hne⟩

/-- A process in kernel mode that has called the library for nothing yet. -/
def bumpWorld (items : List VpSpan) (pt : PtState) : World BumpHeap where
  sys := ⟨[], PGSIZE⟩
  addr := fun _ => true
  populating := false
  storageUsed := false
  items := items
  pt := pt
  autoDedicated := false
  hookDepth := 0
  kernelMode := true
  trace := []

end Dangless
