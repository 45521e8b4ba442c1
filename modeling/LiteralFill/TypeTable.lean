import LiteralFill.Ty

namespace LiteralFill

/-- A declared type. A predeclared one, such as `error`, belongs to no package. -/
structure TypeDecl where
  name : String
  scope? : Option Scope
  exported : Bool
  underlying : Ty

namespace TypeDecl

def declared (name : String) (scope : Scope) (underlying : Ty) : TypeDecl :=
  ⟨name, some scope, isExportedName name, underlying⟩

def predeclared (name : String) (underlying : Ty) : TypeDecl :=
  ⟨name, none, true, underlying⟩

def isForeignTo (d : TypeDecl) (scope : Scope) : Bool :=
  d.scope?.any (· ≠ scope)

end TypeDecl

/-- Every declared type that a package can reach, by number. -/
structure TypeTable where
  decls : Array TypeDecl

inductive TableError where
  | missingDecl (decl : Nat)
  | selfReferential (name : String)
  | maxDepthExceeded
  deriving DecidableEq, Repr

def TableError.message : TableError → String
  | .missingDecl decl => s!"Type declaration #{decl} does not exist"
  | .selfReferential name => s!"Type '{name}' is defined in terms of itself"
  | .maxDepthExceeded => "Maximum type declaration depth exceeded"

/-- A table used beyond what validation grants: a reference to no declaration, or a chain of names
followed further than any chain may go. -/
inductive Fault where
  | dangling (decl : Nat)
  | endlessChain
  deriving DecidableEq, Repr

def Fault.message : Fault → String
  | .dangling decl => s!"type declaration #{decl} is not in the table"
  | .endlessChain => "type table was not validated before use"

/-- Where a type stands: steps down from a declaration's right-hand side, or from a type of its own. -/
structure Place where
  decl? : Option Nat
  steps : List Nat
  deriving DecidableEq, Repr

/-- A type at its place. Equal types at two places are two nodes. -/
structure Node where
  place : Place
  ty : Ty

/-- The type on its own, outside of any table. -/
def Node.root (ty : Ty) : Node := ⟨⟨none, []⟩, ty⟩

/-- The part number `i` of the type at a node. -/
def Node.child (node : Node) (i : Nat) (ty : Ty) : Node :=
  ⟨⟨node.place.decl?, i :: node.place.steps⟩, ty⟩

namespace TypeTable

def empty : TypeTable := ⟨#[]⟩

def size (t : TypeTable) : Nat := t.decls.size

/-- The table with one more declaration, whose number is the old size. -/
def add (t : TypeTable) (decl : TypeDecl) : TypeTable := ⟨t.decls.push decl⟩

def get? (t : TypeTable) (decl : Nat) : Option TypeDecl := t.decls[decl]?

/-- What a declaration stands for, one name further. -/
def definition? (t : TypeTable) (decl : Nat) : Option Ty := (t.get? decl).map TypeDecl.underlying

/-- Gives a declaration another right-hand side, which is how recursive types are closed. -/
def define (t : TypeTable) (decl : Nat) (underlying : Ty) : TypeTable :=
  ⟨t.decls.modify decl fun d => { d with underlying }⟩

@[simp] theorem size_add (t : TypeTable) (decl : TypeDecl) : (t.add decl).size = t.size + 1 := by
  simp [size, add]

@[simp] theorem get?_add_size (t : TypeTable) (decl : TypeDecl) :
    (t.add decl).get? t.size = some decl := by
  simp [get?, add, size]

theorem get?_add_of_lt (t : TypeTable) (d : TypeDecl) {decl : Nat} (h : decl < t.size) :
    (t.add d).get? decl = t.get? decl := by
  simp [get?, add, Array.getElem?_push, show decl ≠ t.decls.size from Nat.ne_of_lt h]

theorem isSome_get?_iff (t : TypeTable) (decl : Nat) : (t.get? decl).isSome ↔ decl < t.size := by
  simp [get?, size]

@[simp] theorem size_define (t : TypeTable) (decl : Nat) (underlying : Ty) :
    (t.define decl underlying).size = t.size := by
  simp [size, define]

theorem definition?_define (t : TypeTable) {decl : Nat} (underlying : Ty) (h : decl < t.size) :
    (t.define decl underlying).definition? decl = some underlying := by
  simp [definition?, get?, define, Array.getElem_modify, show decl < t.decls.size from h]

/-- The most names that may stand between a declaration and a type that is not a name. -/
def maxLinks : Nat := 1024

/-- Follows names, looking at no more than `n` types. -/
def follow (t : TypeTable) : Nat → Node → Except Fault Node
  | 0, _ => .error .endlessChain
  | n + 1, node =>
    match node.ty with
    | .named decl =>
      match t.definition? decl with
      | some ty => t.follow n ⟨⟨some decl, []⟩, ty⟩
      | none => .error (.dangling decl)
    | _ => .ok node

theorem isNamed_of_follow {t : TypeTable} {n : Nat} {node target : Node}
    (h : t.follow n node = .ok target) : target.ty.isNamed = false := by
  induction n generalizing node with
  | zero => cases h
  | succ n ih =>
    rw [follow] at h
    split at h
    · split at h
      · exact ih h
      · cases h
    · next hn =>
      cases h
      cases ht : target.ty with
      | named decl => exact absurd ht (hn decl)
      | _ => rfl

/-- The node at the end of a chain of names. -/
def underlyingNode (t : TypeTable) (node : Node) : Except Fault Node :=
  t.follow (maxLinks + 1) node

def underlying (t : TypeTable) (ty : Ty) : Except Fault Ty :=
  (·.ty) <$> t.underlyingNode (.root ty)

/-- The fields of a type that is, under its names, a struct. -/
def structFields? (t : TypeTable) (ty : Ty) : Except Fault (Option (List Field)) :=
  t.underlying ty |>.map fun
    | .struct fields => some fields
    | _ => none

/-- The first reference of a type that leads nowhere. -/
def refError? (t : TypeTable) (ty : Ty) : Option TableError :=
  (ty.refs.find? (t.size ≤ ·)).map .missingDecl

/-- Follows names from `decl` on, which is so many links behind a declaration called `name`. What was
passed on the way is marked in `seen`. -/
@[semireducible]
def chainErrorFrom? (t : TypeTable) (name : String) (seen : Array Bool) (links decl : Nat) :
    Option TableError :=
  match t.definition? decl with
  | some (.named next) =>
    if seen.getD decl false then some (.selfReferential name)
    else if maxLinks < links + 1 then some .maxDepthExceeded
    else t.chainErrorFrom? name (seen.setIfInBounds decl true) (links + 1) next
  | _ => none
termination_by maxLinks - links

/-- What is wrong with the names that lead on from the declaration `start`, called `name`. -/
def chainError? (t : TypeTable) (start : Nat) (name : String) : Option TableError :=
  t.chainErrorFrom? name (Array.replicate t.size false) 0 start

/-- The first error of the table: references come before chains, and declarations in order. -/
def error? (t : TypeTable) : Option TableError :=
  t.decls.toList.findSome? (fun d => t.refError? d.underlying) <|>
    t.decls.toList.zipIdx.findSome? fun (d, i) => t.chainError? i d.name

def validate (t : TypeTable) : Except TableError Unit :=
  t.error?.elim (.ok ()) .error

def validateType (t : TypeTable) (ty : Ty) : Except TableError Unit :=
  (t.refError? ty).elim (.ok ()) .error

end TypeTable

end LiteralFill
