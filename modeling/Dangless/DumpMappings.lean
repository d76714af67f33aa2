import Dangless.Virtmem

/-! `dump_mappings` (`dump.c`): a scan over a range of addresses that prints regions of pages. -/

namespace Dangless

/-- `pt_resolve_page` with `*page_level` before and after, of which a present entry alone becomes the level. There is
no result for an entry of level 4, which is `UNREACHABLE`. -/
def ptResolvePageOut (s : PtState) (va : Nat) (pageLevel : Option PtLevel) : Option (Nat × Option PtLevel) :=
  let (level, ppte) := ptWalk s va .l1
  if !flagIsSet (s.mem ppte) PTE_V then some (0, pageLevel)
  else
    match level with
    | .l1 => some (s.mem ppte &&& PTE_FRAME_4K, some level)
    | .l2 => some (s.mem ppte &&& PTE_FRAME_2M, some level)
    | .l3 => some (s.mem ppte &&& PTE_FRAME_1G, some level)
    | .l4 => none

/-- A line of the output. -/
inductive DumpLine where
  | unmapped (start end_ : Nat)
  | identity (start end_ : Nat)
  | nonIdentity (level : PtLevel) (va pa : Nat)
  | finalIdentity (start end_ : Nat)
  | finalUnmapped (start end_ : Nat)
  deriving DecidableEq, Repr

/-- The variables of `dump_mappings`, where `level` has no value at first; what has been printed; and the addresses
that `pt_resolve_page` has been asked for. -/
structure DumpState where
  va : Nat
  level : Option PtLevel
  mapped : Bool
  identity : Bool
  start : Nat
  out : List DumpLine
  resolved : List Nat
  deriving DecidableEq, Repr

inductive DumpError where
  /-- A variable is read that has no value. -/
  | uninitialised
  | unreachable
  | outOfFuel
  deriving DecidableEq, Repr

def DumpState.print (st : DumpState) (line : DumpLine) : DumpState := { st with out := st.out ++ [line] }

/-- `if (!start) start = va`. -/
def DumpState.begin (st : DumpState) : DumpState :=
  if st.start = 0 then { st with start := st.va } else st

/-- `if (!mapped && start != 0)`. -/
def DumpState.endUnmapped (st : DumpState) : DumpState :=
  if st.mapped = false ∧ st.start ≠ 0 then
    { st.print (.unmapped st.start st.va) with start := 0, identity := false }
  else st

/-- `if (identity && start != 0)`, before a page that is not identity-mapped. -/
def DumpState.endIdentity (st : DumpState) : DumpState :=
  if st.identity = true ∧ st.start ≠ 0 then { st.print (.identity st.start st.va) with identity := false }
  else st

/-- `if (mapped && identity && start != 0)`, before an unmapped page. -/
def DumpState.endMapped (st : DumpState) : DumpState :=
  if st.mapped = true ∧ st.identity = true ∧ st.start ≠ 0 then
    { st.print (.identity st.start st.va) with start := 0 }
  else st

/-- The branch of `dump_mappings` for a mapped page. -/
def dumpMapped (level : PtLevel) (pa : Nat) (st : DumpState) : DumpState :=
  let st := { st.endUnmapped with mapped := true }.begin
  if pa = st.va then { st with identity := true }
  else st.endIdentity.print (.nonIdentity level st.va pa)

/-- The branch for an unmapped page. -/
def dumpUnmapped (st : DumpState) : DumpState :=
  { st.endMapped with mapped := false, identity := false }.begin

/-- A turn of the loop, with the increment, which reads `level`. -/
def dumpTurn (s : PtState) (st : DumpState) : Except DumpError DumpState :=
  match ptResolvePageOut s st.va st.level with
  | none => .error .unreachable
  | some (_, none) => .error .uninitialised
  | some (pa, some level) =>
      let st := { st with level := some level, resolved := st.resolved ++ [st.va] }
      let st := if pa ≠ 0 then dumpMapped level pa st else dumpUnmapped st
      .ok { st with va := u64 (st.va + (1 <<< ptLevelShift level)) }

/-- The lines behind the loop. -/
def dumpFinal (vaEnd : Nat) (st : DumpState) : DumpState :=
  if st.start ≠ 0 then
    if st.mapped = true ∧ st.identity = true then st.print (.finalIdentity st.start vaEnd)
    else if st.mapped = false then st.print (.finalUnmapped st.start vaEnd)
    else st
  else st

def dumpLoop (s : PtState) (vaEnd : Nat) : Nat → DumpState → Except DumpError DumpState
  | 0, _ => .error .outOfFuel
  | fuel + 1, st =>
      if st.va < vaEnd then (dumpTurn s st).bind (dumpLoop s vaEnd fuel)
      else .ok (dumpFinal vaEnd st)

/-- `dump_mappings`. The loop has as many turns as there is fuel. -/
def dumpMappings (s : PtState) (fuel vaStart vaEnd : Nat) : Except DumpError DumpState :=
  dumpLoop s vaEnd fuel ⟨vaStart, none, false, false, 0, [], []⟩

end Dangless
