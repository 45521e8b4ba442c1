import LiteralFill.TypeName

namespace LiteralFill

inductive FillError where
  | invalidTypes (error : TableError)
  | notAStruct (ty : String)
  | nonIdentifierKey
  | tooManyValues (fields : Nat)
  | unexpectedType (ty : String)
  | unrenderable (name : String)
  | fault (fault : Fault)
  /-- The zero value goes on further than the descent may. -/
  | tooDeep
  deriving DecidableEq, Repr

def FillError.message : FillError → String
  | .invalidTypes error => s!"Invalid type table: {error.message}"
  | .notAStruct ty => s!"Cannot fill literal of non-struct type '{ty}'"
  | .nonIdentifierKey => "Struct literal contains a key that is not a field name"
  | .tooManyValues fields => s!"Struct literal has more values than its {fields} field(s)"
  | .unexpectedType ty => s!"Unexpected type '{ty}' while filling struct literal"
  | .unrenderable name => hiddenMessage name
  | .fault f => f.message
  | .tooDeep => "Zero value is nested too deeply"

/-- A field left out since its value cannot be written, and the name that may not be used. -/
structure Omission where
  field : String
  hidden : String
  deriving DecidableEq, Repr

def Omission.reason (o : Omission) : String := hiddenMessage o.hidden

def SpellError.toFillError : SpellError → FillError
  | .hidden name => .unrenderable name
  | .dangling decl => .fault (.dangling decl)

/-- The name of a type, as a step of filling. -/
def Viewpoint.nameOf (v : Viewpoint) (ty : Ty) : Except FillError String :=
  (ty.spell v).mapError SpellError.toFillError

/-- The name of a type for a message, where one that may not be named is called as at home. -/
def Viewpoint.describe (v : Viewpoint) (ty : Ty) : Except FillError String :=
  match ty.spell v with
  | .ok name => .ok name
  | .error (.hidden name) => .ok name
  | .error (.dangling decl) => .error (.fault (.dangling decl))

end LiteralFill
