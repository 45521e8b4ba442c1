namespace LiteralFill

inductive IntegerBits where
  | bits8 | bits16 | bits32 | bits64 | native
  deriving DecidableEq, Repr

inductive Sign where
  | signed | unsigned
  deriving DecidableEq, Repr

inductive FloatSize where
  | bits32 | bits64
  deriving DecidableEq, Repr

/-- Kinds of untyped constants. They describe constant expressions, never the type of a field. -/
inductive UntypedKind where
  | bool | int | rune | float | complex | string | nil
  deriving DecidableEq, Repr

inductive BasicKind where
  | bool
  | integer (bits : IntegerBits) (sign : Sign)
  | byte
  | rune
  | uintptr
  | unsafePointer
  | float (size : FloatSize)
  | complex (size : FloatSize)
  | string
  | untyped (kind : UntypedKind)
  | invalid
  deriving DecidableEq, Repr

def IntegerBits.suffix : IntegerBits → String
  | .bits8 => "8"
  | .bits16 => "16"
  | .bits32 => "32"
  | .bits64 => "64"
  | .native => ""

def Sign.lead : Sign → String
  | .signed => ""
  | .unsigned => "u"

def Sign.ofBool : Bool → Sign
  | true => .signed
  | false => .unsigned

def UntypedKind.name : UntypedKind → String
  | .bool => "untyped bool"
  | .int => "untyped int"
  | .rune => "untyped rune"
  | .float => "untyped float"
  | .complex => "untyped complex"
  | .string => "untyped string"
  | .nil => "untyped nil"

namespace BasicKind

def int : BasicKind := .integer .native .signed
def uint : BasicKind := .integer .native .unsigned
def uint8 : BasicKind := .integer .bits8 .unsigned
def uint32 : BasicKind := .integer .bits32 .unsigned
def int64 : BasicKind := .integer .bits64 .signed
def uint64 : BasicKind := .integer .bits64 .unsigned
def float32 : BasicKind := .float .bits32
def float64 : BasicKind := .float .bits64

/-- The predeclared name. A complex kind is named after the width of both its parts together. -/
def name : BasicKind → String
  | .bool => "bool"
  | .integer bits sign => sign.lead ++ "int" ++ bits.suffix
  | .byte => "byte"
  | .rune => "rune"
  | .uintptr => "uintptr"
  | .unsafePointer => "unsafe.Pointer"
  | .float .bits32 => "float32"
  | .float .bits64 => "float64"
  | .complex .bits32 => "complex64"
  | .complex .bits64 => "complex128"
  | .string => "string"
  | .untyped kind => kind.name
  | .invalid => "invalid type"

end BasicKind

end LiteralFill
