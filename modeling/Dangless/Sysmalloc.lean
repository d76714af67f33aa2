import Dangless.Virtmem
import Dangless.VirtmemAlloc

/-! The state of the whole program and its calls to the system allocator (`platform/dune/sysmalloc.c`).
The system allocator is outside the repository: it is a parameter. -/

namespace Dangless

variable {σ : Type}

/-- The functions that `dlsym` finds, over a state of their own. A function returns the pointer and the
state it leaves; 0 is `NULL`. `memalign` is that of the C library, `void *memalign(size_t, size_t)`. -/
structure SysAllocator (σ : Type) where
  malloc : Nat → σ → Nat × σ
  calloc : Nat → Nat → σ → Nat × σ
  realloc : Nat → Nat → σ → Nat × σ
  memalign : Nat → Nat → σ → Nat × σ
  free : Nat → σ → σ
  mallocUsableSize : Nat → σ → Nat

/-- The symbols of `HANDLE_SYM`. -/
inductive SysSym where
  | malloc
  | calloc
  | realloc
  | memalign
  | free
  deriving DecidableEq, Repr

/-- What is recorded of a run: the pointers that the system allocator is given, with its state at that
moment, and the calls of the virtual page allocator. -/
inductive Event (σ : Type) where
  | sysrealloc (p : Nat) (sys : σ)
  | sysfree (p : Nat) (sys : σ)
  | mallocUsableSize (p : Nat) (sys : σ)
  | vpAlloc (va npages : Nat)
  | vpFree (p npages : Nat)

/-- The state: the system allocator, the globals of `sysmalloc.c` (`addr`: which of the `addr_sys..`
are set; `storageUsed`: `s_storage_used`), the freelist, the page tables, the globals of
`dangless_malloc.c` and the ring of the processor. `trace` holds the events, the last one first. -/
structure World (σ : Type) where
  sys : σ
  addr : SysSym → Bool
  populating : Bool
  storageUsed : Bool
  items : List VpSpan
  pt : PtState
  autoDedicated : Bool
  hookDepth : Nat
  kernelMode : Bool
  trace : List (Event σ)

section

variable (A : SysAllocator σ)

/-- `sysmalloc`. Where `addr_sysmalloc` is not set, `populate_addrs` is a step of its own before it. -/
def sysmalloc (size : Nat) (w : World σ) : Nat × World σ :=
  let r := A.malloc size w.sys
  (r.1, { w with sys := r.2 })

/-- `syscalloc_special`: the static buffer at `storage`, whatever the size. -/
def syscallocSpecial (storage : Nat) (w : World σ) : Nat × World σ :=
  (storage, { w with storageUsed := true })

/-- `syscalloc`. -/
def syscalloc (storage num size : Nat) (w : World σ) : Nat × World σ :=
  if !w.addr .calloc && w.populating then syscallocSpecial storage w
  else
    let r := A.calloc num size w.sys
    (r.1, { w with sys := r.2 })

/-- `sysrealloc`. -/
def sysrealloc (p size : Nat) (w : World σ) : Nat × World σ :=
  let r := A.realloc p size w.sys
  (r.1, { w with sys := r.2, trace := .sysrealloc p w.sys :: w.trace })

/-- `sysmemalign(pp, align, size)`: the call goes to `memalign`, which takes its first two arguments
as alignment and size and returns a pointer; the caller reads the low half of it as an `int`. -/
def sysmemalign (pp align : Nat) (w : World σ) : Nat × World σ :=
  let r := A.memalign pp align w.sys
  (r.1 % 2 ^ 32, { w with sys := r.2 })

/-- `sysfree`. -/
def sysfree (p : Nat) (w : World σ) : World σ :=
  { w with sys := A.free p w.sys, trace := .sysfree p w.sys :: w.trace }

/-- `sysmalloc_usable_size`. -/
def sysmallocUsableSize (p : Nat) (w : World σ) : Nat × World σ :=
  (A.mallocUsableSize p w.sys, { w with trace := .mallocUsableSize p w.sys :: w.trace })

/-- `sysmalloc_spanned_pages`. -/
def sysmallocSpannedPages (p : Nat) (w : World σ) : Nat × World σ :=
  let sz := sysmallocUsableSize A p w
  (numSpannedPages p sz.1, sz.2)

/-- `FREE(span)` of several span objects. -/
def freeNodes (nodes : List Nat) (w : World σ) : World σ := nodes.foldl (fun w node => sysfree A node w) w

/-- `vp_alloc`. -/
def vpAlloc (npages : Nat) (w : World σ) : Nat × World σ :=
  let r := freelistAlloc npages w.items
  let w := freeNodes A r.freed { w with items := r.items }
  (r.va, { w with trace := .vpAlloc r.va npages :: w.trace })

/-- `sizeof(struct vp_span)`. -/
def VP_SPAN_SIZE : Nat := 32

/-- `vp_free`. -/
def vpFree (p npages : Nat) (w : World σ) : Int × World σ :=
  let node := if freelistFreeNeedsNode w.items p npages then sysmalloc A VP_SPAN_SIZE w else (0, w)
  let r := freelistFree w.items p npages node.1
  let w := freeNodes A r.freed { node.2 with items := r.items }
  (r.result, { w with trace := .vpFree p npages :: w.trace })

/-- `vp_free_region`. -/
def vpFreeRegion (start end_ : Nat) (w : World σ) : Int × World σ :=
  vpFree A start (u64 (end_ + 2 ^ 64 - start) / PGSIZE) w

/-- The part of the state that only `populate_addrs`, the hooks and the switch of rings change. -/
def World.modes (w : World σ) : Bool × Nat × (SysSym → Bool) × Bool × Bool :=
  (w.kernelMode, w.hookDepth, w.addr, w.populating, w.storageUsed)

variable (w : World σ) (p npages : Nat)

@[simp] theorem freeNodes_items (nodes : List Nat) : (freeNodes A nodes w).items = w.items := by
  induction nodes generalizing w with
  | nil => rfl
  | cons node nodes ih => exact ih (sysfree A node w)

@[simp] theorem freeNodes_pt (nodes : List Nat) : (freeNodes A nodes w).pt = w.pt := by
  induction nodes generalizing w with
  | nil => rfl
  | cons node nodes ih => exact ih (sysfree A node w)

@[simp] theorem freeNodes_autoDedicated (nodes : List Nat) :
    (freeNodes A nodes w).autoDedicated = w.autoDedicated := by
  induction nodes generalizing w with
  | nil => rfl
  | cons node nodes ih => exact ih (sysfree A node w)

@[simp] theorem freeNodes_modes (nodes : List Nat) : (freeNodes A nodes w).modes = w.modes := by
  induction nodes generalizing w with
  | nil => rfl
  | cons node nodes ih => exact ih (sysfree A node w)

@[simp] theorem vpAlloc_va : (vpAlloc A npages w).1 = (freelistAlloc npages w.items).va := rfl

@[simp] theorem vpAlloc_items :
    (vpAlloc A npages w).2.items = (freelistAlloc npages w.items).items := by
  simp [vpAlloc]

@[simp] theorem vpAlloc_pt : (vpAlloc A npages w).2.pt = w.pt := by
  simp [vpAlloc]

@[simp] theorem vpAlloc_autoDedicated :
    (vpAlloc A npages w).2.autoDedicated = w.autoDedicated := by
  simp [vpAlloc]

@[simp] theorem vpAlloc_modes : (vpAlloc A npages w).2.modes = w.modes :=
  freeNodes_modes A { w with items := _ } _

/-- What `vp_free` does to the list, with whatever object it got. -/
theorem vpFree_items : ∃ node, (vpFree A p npages w).1 = (freelistFree w.items p npages node).result ∧
    (vpFree A p npages w).2.items = (freelistFree w.items p npages node).items := by
  unfold vpFree
  cases freelistFreeNeedsNode w.items p npages
  · exact ⟨0, rfl, by simp⟩
  · exact ⟨(sysmalloc A VP_SPAN_SIZE w).1, rfl, by simp [sysmalloc]⟩

@[simp] theorem vpFree_pt : (vpFree A p npages w).2.pt = w.pt := by
  unfold vpFree
  cases freelistFreeNeedsNode w.items p npages <;> simp [sysmalloc]

@[simp] theorem vpFree_autoDedicated :
    (vpFree A p npages w).2.autoDedicated = w.autoDedicated := by
  unfold vpFree
  cases freelistFreeNeedsNode w.items p npages <;> simp [sysmalloc]

@[simp] theorem vpFree_modes : (vpFree A p npages w).2.modes = w.modes := by
  unfold vpFree
  cases freelistFreeNeedsNode w.items p npages
  · exact freeNodes_modes A { w with items := _ } _
  · exact freeNodes_modes A { (sysmalloc A VP_SPAN_SIZE w).2 with items := _ } _

end

end Dangless
