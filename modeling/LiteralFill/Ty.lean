import LiteralFill.Kind
import LiteralFill.Scope
import LiteralFill.Text.Uppercase

namespace LiteralFill

inductive ChanDir where
  | both | send | recv
  deriving DecidableEq, Repr

mutual

/-- A type. `named` refers to a declaration by its number in the type table. -/
inductive Ty where
  | basic (kind : BasicKind)
  | chan (dir : ChanDir) (elem : Ty)
  | func (signature : Signature)
  | slice (elem : Ty)
  | interface (methods : List Method)
  | array (len : Nat) (elem : Ty)
  | map (key value : Ty)
  | struct (fields : List Field)
  | named (decl : Nat)
  | pointer (elem : Ty)
  | tuple (elems : List Ty)
  deriving Repr

/-- Parameters and results of a function. The last parameter of a variadic one is a slice. -/
structure Signature where
  params : List Ty
  results : List Ty
  variadic : Bool
  deriving Repr

structure Method where
  name : String
  signature : Signature
  deriving Repr

structure Field where
  name : String
  exported : Bool
  embedded : Bool
  scope : Scope
  ty : Ty
  deriving Repr

end

instance : Inhabited Ty := ⟨.tuple []⟩

def Ty.isStruct : Ty → Bool
  | .struct _ => true
  | _ => false

def Ty.isNamed : Ty → Bool
  | .named _ => true
  | _ => false

/-- A name is exported when its first letter is upper case. -/
def isExportedName (name : String) : Bool :=
  name.toList.head?.any Text.isUppercase

/-- The field `name` declared in `scope`, not embedded. -/
def Field.declared (name : String) (ty : Ty) (scope : Scope) : Field :=
  ⟨name, isExportedName name, false, scope, ty⟩

/-- Whether code in the package `scope` may name the field. -/
def Field.visibleFrom (f : Field) (scope : Scope) : Bool :=
  f.exported || f.scope = scope

mutual

/-- The declarations a type refers to, in the order in which it is written. -/
def Ty.refs : Ty → List Nat
  | .basic _ => []
  | .chan _ elem => elem.refs
  | .func signature => signature.refs
  | .slice elem => elem.refs
  | .interface methods => methodRefs methods
  | .array _ elem => elem.refs
  | .map key value => key.refs ++ value.refs
  | .struct fields => fieldRefs fields
  | .named decl => [decl]
  | .pointer elem => elem.refs
  | .tuple elems => tyRefs elems

def Signature.refs : Signature → List Nat
  | ⟨params, results, _⟩ => tyRefs params ++ tyRefs results

def tyRefs : List Ty → List Nat
  | [] => []
  | ty :: rest => ty.refs ++ tyRefs rest

def methodRefs : List Method → List Nat
  | [] => []
  | ⟨_, signature⟩ :: rest => signature.refs ++ methodRefs rest

def fieldRefs : List Field → List Nat
  | [] => []
  | ⟨_, _, _, _, ty⟩ :: rest => ty.refs ++ fieldRefs rest

end

end LiteralFill
