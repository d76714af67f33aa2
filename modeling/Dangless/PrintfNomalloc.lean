import Mathlib.Algebra.Ring.Int.Defs
import Mathlib.Logic.Function.Basic

/-! `common/printf_nomalloc.c`: formatted printing into a buffer, without dynamic memory. A store past the end of
the buffer, a signed overflow and an argument that is not of the type that is fetched, which C leaves undefined,
end a run; so do the assertions. The arguments are those of the x86-64 calling convention, where `va_list`
is passed by reference. -/

namespace Dangless

/-- A C string: the bytes before the NUL. -/
structure CString where
  bytes : List UInt8
  no_nul : 0 ∉ bytes

/-- An argument, after the promotions. -/
inductive VaArg where
  | int (v : BitVec 32)
  | long (v : BitVec 64)
  | pointer (v : BitVec 64)
  | string (s : Option CString)

/-- Why a run does not return. -/
inductive PrintError where
  | assertion (msg : String)
  | unreachable (msg : String)
  | outOfBounds (index : Nat)
  | overflow
  | badArgument

/-- `g_buffer`, and what follows it. -/
abbrev PrintBuffer : Type := Nat → UInt8

def LLONG_MIN : Int := -2 ^ 63
def INT_MAX : Int := 2 ^ 31 - 1

/-- No number has more digits. -/
def WORD_BITS : Nat := 64

/-- `va_arg(args, int)` and `va_arg(args, unsigned int)`. -/
def vaInt : List VaArg → Except PrintError (BitVec 32 × List VaArg)
  | .int v :: args => .ok (v, args)
  | _ => .error .badArgument

/-- `va_arg(args, long int)` and the other types of its width. -/
def vaLong : List VaArg → Except PrintError (BitVec 64 × List VaArg)
  | .long v :: args => .ok (v, args)
  | _ => .error .badArgument

/-- `va_arg(args, void *)`. -/
def vaPointer : List VaArg → Except PrintError (BitVec 64 × List VaArg)
  | .pointer v :: args => .ok (v, args)
  | _ => .error .badArgument

/-- `va_arg(args, char *)`. -/
def vaString : List VaArg → Except PrintError (Option CString × List VaArg)
  | .string s :: args => .ok (s, args)
  | _ => .error .badArgument

section

variable (size : Nat)

/-- `*dest = c`, in a buffer of `DANGLESS_CONFIG_PRINTF_NOMALLOC_BUFFER_SIZE` bytes. -/
def store (dest : Nat) (c : UInt8) (b : PrintBuffer) : Except PrintError PrintBuffer :=
  if dest < size then .ok (Function.update b dest c) else .error (.outOfBounds dest)

/-- A loop of `*dest++ = c`, or `memcpy`. -/
def storeAll : Nat → List UInt8 → PrintBuffer → Except PrintError (Nat × PrintBuffer)
  | dest, [], b => .ok (dest, b)
  | dest, c :: text, b => do
      let b ← store size dest c b
      storeAll (dest + 1) text b

/-- `print_str`. -/
def printStr (dest : Nat) (src : List UInt8) (b : PrintBuffer) : Except PrintError (Nat × PrintBuffer) := do
  let r ← storeAll size dest src b
  .ok (r.1 - dest, r.2)

/-- `"0123456789ABCDEF"`. -/
def DIGITS : List UInt8 :=
  ['0', '1', '2', '3', '4', '5', '6', '7', '8', '9', 'A', 'B', 'C', 'D', 'E', 'F'].map Char.toUInt8

/-- The loop that moves the pointer to where the number will end. -/
def seekEnd (base : Nat) : Nat → Nat → Nat → Nat
  | 0, _, dest => dest
  | left + 1, i, dest => if i / base > 0 then seekEnd base left (i / base) (dest + 1) else dest + 1

/-- The loop that writes the digits from the end backwards. -/
def writeDigits (base : Nat) : Nat → Nat → Nat → Nat → PrintBuffer → Except PrintError (Nat × PrintBuffer)
  | 0, _, _, nchars, b => .ok (nchars, b)
  | left + 1, num, dest, nchars, b => do
      let b ← store size (dest - 1) (DIGITS.getD (num % base) 0) b
      if num / base > 0 then writeDigits base left (num / base) (dest - 1) (nchars + 1) b
      else .ok (nchars + 1, b)

/-- The two loops, which `print_int` and `print_uint` end with. -/
def printDigits (dest num base nchars : Nat) (b : PrintBuffer) : Except PrintError (Nat × PrintBuffer) :=
  writeDigits size base WORD_BITS num (seekEnd base WORD_BITS num dest) nchars b

/-- `print_int`. -/
def printInt (dest : Nat) (num : Int) (base : Nat) (b : PrintBuffer) : Except PrintError (Nat × PrintBuffer) :=
  if num = LLONG_MIN then .error (.assertion "Implementation limitation, cannot print LLONG_MIN")
  else if num < 0 then
    if base = 10 then do
      let b ← store size dest '-'.toUInt8 b
      printDigits size (dest + 1) num.natAbs base 1 b
    else printDigits size dest num.natAbs base 0 b
  else printDigits size dest num.natAbs base 0 b

/-- `print_uint`. -/
def printUint (dest num base : Nat) (b : PrintBuffer) : Except PrintError (Nat × PrintBuffer) :=
  printDigits size dest num base 0 b

def MIN_FIELD_WIDTH_CUSTOM : Int := -1

inductive Justify where
  | right
  | left
  deriving DecidableEq, Repr

/-- `struct format_modifiers`. -/
structure FormatModifiers where
  longness : Nat
  minFieldWidth : Int
  justify : Justify
  paddingChar : UInt8

def FORMAT_MODIFIERS_INIT : FormatModifiers := ⟨0, 0, .right, ' '.toUInt8⟩

/-- `fetch_int_arg`. -/
def fetchIntArg (modifiers : FormatModifiers) (args : List VaArg) : Except PrintError (Int × List VaArg) :=
  if modifiers.longness = 2 ∨ modifiers.longness = 1 then do
    let r ← vaLong args
    .ok (r.1.toInt, r.2)
  else do
    let r ← vaInt args
    .ok (r.1.toInt, r.2)

/-- `fetch_uint_arg`. -/
def fetchUintArg (modifiers : FormatModifiers) (args : List VaArg) : Except PrintError (Nat × List VaArg) :=
  if modifiers.longness = 2 ∨ modifiers.longness = 1 then do
    let r ← vaLong args
    .ok (r.1.toNat, r.2)
  else do
    let r ← vaInt args
    .ok (r.1.toNat, r.2)

/-- A turn of the inner loop of `do_vsprintf`: the modifiers with `c`, or nothing where `c` ends them. -/
def parseModifier (c : UInt8) (mod : FormatModifiers) : Except PrintError (Option FormatModifiers) :=
  if c = 'l'.toUInt8 then .ok (some { mod with longness := mod.longness + 1 })
  else if c = 'z'.toUInt8 then .ok (some { mod with longness := 2 })
  else if c = '-'.toUInt8 then .ok (some { mod with justify := .left })
  else if c = '0'.toUInt8 ∧ mod.minFieldWidth = 0 then .ok (some { mod with paddingChar := '0'.toUInt8 })
  else if '0'.toUInt8 ≤ c ∧ c ≤ '9'.toUInt8 then
    -- a `0` within the width comes here as well
    if mod.minFieldWidth = MIN_FIELD_WIDTH_CUSTOM then
      .error (.assertion "Both custom and explicit minimum field width specifier??")
    else
      let minFieldWidth : Int := mod.minFieldWidth * 10 + (c.toNat - '0'.toUInt8.toNat)
      if INT_MAX < minFieldWidth then .error .overflow
      else .ok (some { mod with minFieldWidth := minFieldWidth })
  else if c = '*'.toUInt8 then
    if mod.minFieldWidth ≠ 0 then .error (.assertion "Both custom and explicit minimum field width specifier??")
    else .ok (some { mod with minFieldWidth := MIN_FIELD_WIDTH_CUSTOM })
  else .ok none

/-- The width that is an argument. -/
def fetchWidth (modifiers : FormatModifiers) (args : List VaArg) :
    Except PrintError (FormatModifiers × List VaArg) :=
  if modifiers.minFieldWidth = MIN_FIELD_WIDTH_CUSTOM then do
    let r ← vaInt args
    if r.1.toInt < 0 then .error (.assertion "Invalid custom minimum field width passed as argument!")
    else .ok ({ modifiers with minFieldWidth := r.1.toInt }, r.2)
  else .ok (modifiers, args)

/-- The `switch` of `handle_format`: how many bytes are written, and the arguments that are left. -/
def printArg (dest : Nat) (specifier : UInt8) (modifiers : FormatModifiers) (args : List VaArg) (b : PrintBuffer) :
    Except PrintError ((Nat × PrintBuffer) × List VaArg) :=
  if specifier = 'd'.toUInt8 ∨ specifier = 'i'.toUInt8 then do
    let arg ← fetchIntArg modifiers args
    let r ← printInt size dest arg.1 10 b
    .ok (r, arg.2)
  else if specifier = 'u'.toUInt8 then do
    let arg ← fetchUintArg modifiers args
    let r ← printUint size dest arg.1 10 b
    .ok (r, arg.2)
  else if specifier = 'x'.toUInt8 ∨ specifier = 'X'.toUInt8 then do
    let arg ← fetchUintArg modifiers args
    let r ← printUint size dest arg.1 16 b
    .ok (r, arg.2)
  else if specifier = 'p'.toUInt8 then do
    let arg ← vaPointer args
    if arg.1 ≠ 0 then do
      let zero ← printStr size dest (['0', 'x'].map Char.toUInt8) b
      let r ← printUint size (dest + zero.1) arg.1.toNat 16 zero.2
      .ok ((zero.1 + r.1, r.2), arg.2)
    else do
      let r ← printStr size dest (['(', 'n', 'u', 'l', 'l', ' ', 'p', 't', 'r', ')'].map Char.toUInt8) b
      .ok (r, arg.2)
  else if specifier = 'c'.toUInt8 then do
    let arg ← vaInt args
    let b ← store size dest (UInt8.ofNat arg.1.toNat) b
    .ok ((1, b), arg.2)
  else if specifier = 's'.toUInt8 then do
    let arg ← vaString args
    match arg.1 with
    | some s => do
        let r ← printStr size dest s.bytes b
        .ok (r, arg.2)
    | none => do
        let r ← printStr size dest (['(', 'n', 'u', 'l', 'l', ' ', 's', 't', 'r', ')'].map Char.toUInt8) b
        .ok (r, arg.2)
  else if specifier = '%'.toUInt8 then do
    let b ← store size dest '%'.toUInt8 b
    .ok ((1, b), args)
  else .error (.unreachable "Unimplemented format specifier!\n")

/-- The end of `handle_format`: the padding of what has been written. -/
def padField (dest unpaddedLen : Nat) (modifiers : FormatModifiers) (b : PrintBuffer) :
    Except PrintError (Nat × PrintBuffer) :=
  if (unpaddedLen : Int) < modifiers.minFieldWidth then do
    let paddingLen := modifiers.minFieldWidth.toNat - unpaddedLen
    match modifiers.justify with
    | .left => do
        let r ← storeAll size (dest + unpaddedLen) (List.replicate paddingLen ' '.toUInt8) b
        .ok (r.1 - dest, r.2)
    | .right => do
        let tmpBuff := (List.range unpaddedLen).map fun i => b (dest + i)
        let r ← storeAll size dest (List.replicate paddingLen modifiers.paddingChar) b
        let r ← storeAll size r.1 tmpBuff r.2
        .ok (r.1 - dest, r.2)
  else .ok (unpaddedLen, b)

/-- `handle_format`. -/
def handleFormat (dest : Nat) (specifier : UInt8) (modifiers : FormatModifiers) (args : List VaArg)
    (b : PrintBuffer) : Except PrintError ((Nat × PrintBuffer) × List VaArg) := do
  let fetched ← fetchWidth modifiers args
  let printed ← printArg size dest specifier fetched.1 fetched.2 b
  let r ← padField size dest printed.1.1 fetched.1 printed.1.2
  .ok (r, printed.2)

/-- The two loops of `do_vsprintf` over the bytes of the format; there are modifiers in the inner one. -/
def formatLoop : List UInt8 → Option FormatModifiers → Nat → List VaArg → PrintBuffer →
    Except PrintError (Nat × PrintBuffer)
  | [], none, dest, _, b => .ok (dest, b)
  | [], some mod, dest, args, b => do
      -- the NUL is taken for the specifier
      let r ← handleFormat size dest 0 mod args b
      .ok (dest + r.1.1, r.1.2)
  | c :: format, none, dest, args, b =>
      if c ≠ '%'.toUInt8 then do
        let b ← store size dest c b
        formatLoop format none (dest + 1) args b
      else formatLoop format (some FORMAT_MODIFIERS_INIT) dest args b
  | c :: format, some mod, dest, args, b => do
      match ← parseModifier c mod with
      | some mod => formatLoop format (some mod) dest args b
      | none => do
          let r ← handleFormat size dest c mod args b
          formatLoop format none (dest + r.1.1) r.2 r.1.2

/-- `do_vsprintf`: the length, and the buffer, which the text is in. -/
def doVsprintf (format : List UInt8) (args : List VaArg) (b : PrintBuffer) :
    Except PrintError (Nat × PrintBuffer) := do
  let r ← formatLoop size format none 0 args b
  let b ← store size r.1 0 r.2
  .ok (r.1, b)

end

end Dangless
