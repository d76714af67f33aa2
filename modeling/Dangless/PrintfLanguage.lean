import Dangless.PrintfNomalloc

/-! The formats that `printf_nomalloc` documents, with their arguments, and the text that C's `printf` makes of
them: hexadecimal digits are upper case, and null pointers have the texts that are documented. -/

namespace Dangless

inductive Flag where
  | minus
  | zero
  deriving DecidableEq, Repr

/-- The length modifiers of integers, but for the one of `int`. -/
inductive LengthModifier where
  | l
  | ll
  | z

/-- An integer argument; its length modifier says its type. -/
inductive IntArg where
  | int (v : BitVec 32)
  | long (length : LengthModifier) (v : BitVec 64)

/-- A conversion and the argument that it takes. -/
inductive Conversion where
  | d (v : IntArg)
  | i (v : IntArg)
  | u (v : IntArg)
  | x (v : IntArg)
  | X (v : IntArg)
  | p (v : BitVec 64)
  | c (v : BitVec 32)
  | s (v : Option CString)

/-- A minimum field width in digits begins with a digit that is not zero. -/
inductive FieldWidth where
  | none
  | digits (n : Nat) (hpos : 0 < n)
  | star (v : BitVec 32)

def Conversion.IsInteger : Conversion → Prop
  | .d _ => True
  | .i _ => True
  | .u _ => True
  | .x _ => True
  | .X _ => True
  | .p _ => False
  | .c _ => False
  | .s _ => False

/-- A directive other than `%%`. -/
structure Directive where
  flags : List Flag
  width : FieldWidth
  conversion : Conversion
  zero_integer : .zero ∈ flags → conversion.IsInteger

inductive FormatItem where
  | literal (c : UInt8) (hc : c ≠ 0 ∧ c ≠ '%'.toUInt8)
  | percent
  | directive (d : Directive)

def Flag.char : Flag → Char
  | .minus => '-'
  | .zero => '0'

def LengthModifier.chars : LengthModifier → List Char
  | .l => ['l']
  | .ll => ['l', 'l']
  | .z => ['z']

def IntArg.lengthChars : IntArg → List Char
  | .int _ => []
  | .long length _ => length.chars

def IntArg.arg : IntArg → VaArg
  | .int v => .int v
  | .long _ v => .long v

def Conversion.lengthChars : Conversion → List Char
  | .d v => v.lengthChars
  | .i v => v.lengthChars
  | .u v => v.lengthChars
  | .x v => v.lengthChars
  | .X v => v.lengthChars
  | .p _ => []
  | .c _ => []
  | .s _ => []

def Conversion.specifier : Conversion → Char
  | .d _ => 'd'
  | .i _ => 'i'
  | .u _ => 'u'
  | .x _ => 'x'
  | .X _ => 'X'
  | .p _ => 'p'
  | .c _ => 'c'
  | .s _ => 's'

def Conversion.arg : Conversion → VaArg
  | .d v => v.arg
  | .i v => v.arg
  | .u v => v.arg
  | .x v => v.arg
  | .X v => v.arg
  | .p v => .pointer v
  | .c v => .int v
  | .s v => .string v

def FieldWidth.chars : FieldWidth → List Char
  | .none => []
  | .digits n _ => Nat.toDigits 10 n
  | .star _ => ['*']

def FieldWidth.args : FieldWidth → List VaArg
  | .none => []
  | .digits _ _ => []
  | .star v => [.int v]

def Directive.chars (d : Directive) : List Char :=
  '%' :: (d.flags.map Flag.char ++ (d.width.chars ++ (d.conversion.lengthChars ++ [d.conversion.specifier])))

def FormatItem.format : FormatItem → List UInt8
  | .literal c _ => [c]
  | .percent => ['%', '%'].map Char.toUInt8
  | .directive d => d.chars.map Char.toUInt8

def FormatItem.args : FormatItem → List VaArg
  | .literal _ _ => []
  | .percent => []
  | .directive d => d.width.args ++ [d.conversion.arg]

def formatOf (items : List FormatItem) : List UInt8 := items.flatMap FormatItem.format
def argsOf (items : List FormatItem) : List VaArg := items.flatMap FormatItem.args

def IntArg.toInt : IntArg → Int
  | .int v => v.toInt
  | .long _ v => v.toInt

def IntArg.toNat : IntArg → Nat
  | .int v => v.toNat
  | .long _ v => v.toNat

def numeral (base n : Nat) : List UInt8 := (Nat.toDigits base n).map fun c => c.toUpper.toUInt8

def signText (v : Int) : List UInt8 := if v < 0 then ['-'.toUInt8] else []

def Conversion.sign : Conversion → List UInt8
  | .d v => signText v.toInt
  | .i v => signText v.toInt
  | _ => []

def Conversion.body : Conversion → List UInt8
  | .d v => numeral 10 v.toInt.natAbs
  | .i v => numeral 10 v.toInt.natAbs
  | .u v => numeral 10 v.toNat
  | .x v => numeral 16 v.toNat
  | .X v => numeral 16 v.toNat
  | .p v =>
      if v ≠ 0 then ['0', 'x'].map Char.toUInt8 ++ numeral 16 v.toNat
      else ['(', 'n', 'u', 'l', 'l', ' ', 'p', 't', 'r', ')'].map Char.toUInt8
  | .c v => [UInt8.ofNat v.toNat]
  | .s (some src) => src.bytes
  | .s none => ['(', 'n', 'u', 'l', 'l', ' ', 's', 't', 'r', ')'].map Char.toUInt8

def FieldWidth.value : FieldWidth → Int
  | .none => 0
  | .digits n _ => n
  | .star v => v.toInt

/-- Zeros stand between the sign and the digits; a negative width is a flag `-` and a width. -/
def Directive.text (d : Directive) : List UInt8 :=
  let sign := d.conversion.sign
  let body := d.conversion.body
  let fill := d.width.value.natAbs - (sign.length + body.length)
  if .minus ∈ d.flags ∨ d.width.value < 0 then sign ++ body ++ List.replicate fill ' '.toUInt8
  else if .zero ∈ d.flags then sign ++ List.replicate fill '0'.toUInt8 ++ body
  else List.replicate fill ' '.toUInt8 ++ (sign ++ body)

def FormatItem.text : FormatItem → List UInt8
  | .literal c _ => [c]
  | .percent => ['%'.toUInt8]
  | .directive d => d.text

def textOf (items : List FormatItem) : List UInt8 := items.flatMap FormatItem.text

/-- `printf` fails where the length is not an `int`. -/
def cPrintf (items : List FormatItem) : Option (List UInt8) :=
  if ((textOf items).length : Int) ≤ INT_MAX then some (textOf items) else none

end Dangless
