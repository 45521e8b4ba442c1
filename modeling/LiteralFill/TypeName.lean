import LiteralFill.TypeTable

namespace LiteralFill

/-- The type table as one file of a package sees it. -/
structure Viewpoint where
  table : TypeTable
  qualifier : Qualifier

def Viewpoint.current (v : Viewpoint) : Scope := v.qualifier.current

/-- Why a type cannot be written down: part of it may not be named here, or a reference leads nowhere. -/
inductive SpellError where
  | hidden (name : String)
  | dangling (decl : Nat)
  deriving DecidableEq, Repr

/-- Of a type that may not be named, by the name it has at home. -/
def hiddenMessage (name : String) : String := s!"Cannot refer to '{name}' from this package"

/-- The name of a declared type as the file writes it. -/
def TypeDecl.spell (v : Viewpoint) (d : TypeDecl) : Except SpellError String :=
  match d.scope? with
  | none => .ok d.name
  | some scope =>
    if d.isForeignTo v.current && !d.exported then .error (.hidden (scope.name ++ "." ++ d.name))
    else match v.qualifier.lead? scope with
      | none => .error (.hidden (scope.name ++ "." ++ d.name))
      | some .bare => .ok d.name
      | some (.package name) => .ok (name ++ "." ++ d.name)

def Viewpoint.spellDecl (v : Viewpoint) (decl : Nat) : Except SpellError String :=
  match v.table.get? decl with
  | some d => d.spell v
  | none => .error (.dangling decl)

/-- A struct with a field that may not be named here cannot be written out. -/
def hiddenField? (v : Viewpoint) (fields : List Field) : Option SpellError :=
  (fields.find? (!·.visibleFrom v.current)).map fun f => .hidden ("struct\x7b... " ++ f.name ++ " ...\x7d")

def Ty.isReceiveOnly : Ty → Bool
  | .chan .recv _ => true
  | _ => false

def ChanDir.spelling : ChanDir → String
  | .both => "chan "
  | .send => "chan<- "
  | .recv => "<-chan "

/-- Before `<-chan` the word `chan` would read as `chan<-`, so the element is put in parentheses. -/
def spellChan (dir : ChanDir) (elem : Ty) (text : String) : String :=
  if dir = .both && elem.isReceiveOnly then dir.spelling ++ "(" ++ text ++ ")" else dir.spelling ++ text

/-- The parts of a signature put together: no result, a single one, or a list in parentheses. -/
def spellFunc (params results : List String) : String :=
  "(" ++ ", ".intercalate params ++ ")" ++
    match results with
    | [] => ""
    | [result] => " " ++ result
    | _ => " (" ++ ", ".intercalate results ++ ")"

mutual

/-- The type as the file writes it. -/
def Ty.spell (v : Viewpoint) : Ty → Except SpellError String
  | .basic kind => .ok kind.name
  | .chan dir elem => do return spellChan dir elem (← elem.spell v)
  | .func signature => do return "func" ++ (← signature.spell v)
  | .slice elem => do return "[]" ++ (← elem.spell v)
  | .interface methods => do return "interface\x7b" ++ "; ".intercalate (← spellMethods v methods) ++ "\x7d"
  | .array len elem => do return "[" ++ toString len ++ "]" ++ (← elem.spell v)
  | .map key value => do
    let key ← key.spell v
    return "map[" ++ key ++ "]" ++ (← value.spell v)
  | .struct fields => do
    (hiddenField? v fields).elim (.ok ()) .error
    return "struct\x7b" ++ "; ".intercalate (← spellFields v fields) ++ "\x7d"
  | .named decl => v.spellDecl decl
  | .pointer elem => do return "*" ++ (← elem.spell v)
  | .tuple elems => do return "(" ++ ", ".intercalate (← spellTypes v elems) ++ ")"

def Signature.spell (v : Viewpoint) : Signature → Except SpellError String
  | ⟨params, results, variadic⟩ => do
    let params ← spellParams v variadic params
    return spellFunc params (← spellTypes v results)

def spellTypes (v : Viewpoint) : List Ty → Except SpellError (List String)
  | [] => .ok []
  | ty :: rest => do
    let text ← ty.spell v
    return text :: (← spellTypes v rest)

/-- The last parameter of a variadic signature is written by its elements. -/
def spellParams (v : Viewpoint) (variadic : Bool) : List Ty → Except SpellError (List String)
  | [] => .ok []
  | [.slice elem] => do return [(if variadic then "..." else "[]") ++ (← elem.spell v)]
  | ty :: rest => do
    let text ← ty.spell v
    return text :: (← spellParams v variadic rest)

def spellMethods (v : Viewpoint) : List Method → Except SpellError (List String)
  | [] => .ok []
  | ⟨name, signature⟩ :: rest => do
    let text ← signature.spell v
    return (name ++ text) :: (← spellMethods v rest)

def spellFields (v : Viewpoint) : List Field → Except SpellError (List String)
  | [] => .ok []
  | ⟨name, _, embedded, _, ty⟩ :: rest => do
    let text ← ty.spell v
    return (if embedded then text else name ++ " " ++ text) :: (← spellFields v rest)

end

/-- An anonymous struct type written out. -/
def spellStruct (v : Viewpoint) (fields : List Field) : Except SpellError String :=
  (Ty.struct fields).spell v

end LiteralFill
