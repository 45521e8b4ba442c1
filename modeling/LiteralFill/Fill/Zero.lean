import LiteralFill.Fill.Draft

namespace LiteralFill

open Filler (here advance close inside)

/-- How a literal is written at its place. -/
structure Style where
  /-- The declared name of the struct about to be written. -/
  decl? : Option Nat
  /-- Whether the literal around it already tells the type. -/
  elided : Bool
  /-- Whether a pointer to the literal is wanted. -/
  addressed : Bool
  deriving DecidableEq, Repr

def Style.plain : Style := ⟨none, false, false⟩

def Style.elidedType : Style := ⟨none, true, false⟩

def nilAt (pos : Nat) : Expr := .ident "nil" pos

def zeroLitAt (pos : Nat) : Expr := .basicLit .int "0" pos

def conversionAt (pos : Nat) (callee arg : Expr) : Expr := .call callee pos [arg] false pos

/-- The zero value of a basic kind that a field can have. -/
def BasicKind.zeroAt? (pos : Nat) : BasicKind → Option Expr
  | .bool => some (.ident "false" pos)
  | .integer _ _ | .byte | .rune => some (zeroLitAt pos)
  | .uintptr => some (conversionAt pos (.ident "uintptr" pos) (zeroLitAt pos))
  | .unsafePointer =>
    some (conversionAt pos (.selector (.ident "unsafe" pos) "Pointer" pos)
      (conversionAt pos (.ident "uintptr" pos) (zeroLitAt pos)))
  | .float _ => some (.basicLit .float "0.0" pos)
  | .complex _ =>
    some (.paren pos (.binary (zeroLitAt pos) pos .add (.basicLit .imag "0i" pos)) pos)
  | .string => some (.basicLit .string "\"\"" pos)
  | .untyped _ | .invalid => none

/-- The type of an array literal, with the element's name as one word. -/
def arrayTypeAt (v : Viewpoint) (pos len : Nat) (elem : Ty) : Except FillError Expr := do
  return .arrayType pos (some (.basicLit .int (toString len) pos)) (.ident (← v.nameOf elem) pos)

/-- The type of a map literal. -/
def mapTypeAt (v : Viewpoint) (pos : Nat) (key value : Ty) : Except FillError Expr := do
  let key ← v.nameOf key
  return .mapType pos (.ident key pos) (.ident (← v.nameOf value) pos)

/-- The type of a struct literal as one word: its declared name if it has one. -/
def structTypeAt (v : Viewpoint) (style : Style) (pos : Nat) (fields : List Field) :
    Except FillError Expr := do
  let name ← v.nameOf (style.decl?.elim (.struct fields) .named)
  return .ident (if style.addressed then "&" ++ name else name) pos

/-- The type before the braces, unless it is elided. -/
def Style.typeExpr? (style : Style) (typeAt : Nat → Except FillError Expr) : Filler (Option Expr) := do
  if style.elided then return none else return some (← Filler.ofExcept (typeAt (← here)))

/-- The same value `n` times over, each on a line of its own. -/
def elements (value : Filler Expr) : Nat → Filler (List Expr)
  | 0 => return []
  | n + 1 => do
    let _ ← advance
    let e ← value
    return e :: (← elements value n)

/-- The entry of a field that the user has not written. A field whose value names what may not be
named is left out, and the draft goes back to the line it had come to. -/
def freshEntry (name : String) (value : Filler Expr) : Filler (Option Expr) := do
  let before ← get
  let key ← advance
  tryCatch (return some (.keyValue (.ident name key) key (← value))) fun
    | .unrenderable hidden => do
      modify fun d =>
        { d with pos := before.pos, lines := before.lines, omitted := d.omitted ++ [⟨name, hidden⟩] }
      return none
    | e => throw e

/-- The value that the user wrote for a field of the outermost struct. No other field gets it then. -/
def takeValue? (outermost : Bool) (field : String) : Filler (Option Expr) :=
  if outermost then
    modifyGet fun d => (d.entries.value? field, { d with entries := d.entries.remove field })
  else return none

/-- The entries of a struct literal, field by field from number `i` on: in the outermost struct what
the user wrote, else the value that `valueOf` finds for a field that may be named here. -/
def fieldEntries (v : Viewpoint) (valueOf : Nat → Field → Filler Expr) (outermost : Bool) :
    Nat → List Field → Filler (List Expr)
  | _, [] => return []
  | i, f :: rest => do
    match ← takeValue? outermost f.name with
    | some value =>
      let _ ← advance
      let entry ← (Expr.entry f.name value).renumber
      return entry :: (← fieldEntries v valueOf outermost (i + 1) rest)
    | none =>
      if f.visibleFrom v.current then
        let entry? ← freshEntry f.name (valueOf i f)
        return entry?.toList ++ (← fieldEntries v valueOf outermost (i + 1) rest)
      else fieldEntries v valueOf outermost (i + 1) rest

def basicZero (kind : BasicKind) : Filler Expr := do
  match kind.zeroAt? (← here) with
  | some e => return e
  | none => throw (.unexpectedType kind.name)

/-- A composite literal with what `inner` writes between its braces. -/
def literal (style : Style) (typeAt : Nat → Except FillError Expr) (inner : Filler (List Expr)) :
    Filler Expr := do
  let type? ← style.typeExpr? typeAt
  let lbrace ← here
  let elts ← inner
  return .compositeLit type? lbrace elts (← close elts.length)

def mapEntry (keyZero valueZero : Filler Expr) : Filler (List Expr) := do
  let _ ← advance
  let key ← keyZero
  let colon ← here
  let value ← valueZero
  return [.keyValue key colon value]

/-- What stands between the braces of a struct literal: nothing if the struct is inside itself. -/
def structEntries (v : Viewpoint) (place : Place) (fields : List Field)
    (valueOf : Nat → Field → Filler Expr) : Filler (List Expr) := do
  if place ∈ (← get).path then return []
  else
    let first ← modifyGet fun d => (d.first, { d with first := false })
    inside place (fieldEntries v valueOf first 0 fields)

/-- The zero value of a type, in at most `depth` steps down. -/
def zero (v : Viewpoint) : Nat → Style → Node → Filler Expr
  | 0, _, _ => throw .tooDeep
  | depth + 1, style, node =>
    match node.ty with
    | .basic kind => basicZero kind
    | .chan _ _ | .func _ | .slice _ | .interface _ => return nilAt (← here)
    | .array len elem =>
      literal style (arrayTypeAt v · len elem)
        (elements (zero v depth .elidedType (node.child 0 elem)) len)
    | .map key value =>
      literal .plain (mapTypeAt v · key value)
        (mapEntry (zero v depth .elidedType (node.child 0 key))
          (zero v depth .elidedType (node.child 1 value)))
    | .struct fields =>
      literal style (structTypeAt v style · fields)
        (structEntries v node.place fields fun i f => zero v depth .plain (node.child i f.ty))
    | .named decl => do
      let target ← .ofExcept ((v.table.underlyingNode node).mapError .fault)
      zero v depth { style with decl? := if target.ty.isStruct then some decl else none } target
    | .pointer elem => do
      let target ← .ofExcept ((v.table.underlying elem).mapError .fault)
      if target.isStruct then zero v depth { style with addressed := true } (node.child 0 elem)
      else return nilAt (← here)
    | .tuple _ => .ofExcept (v.describe node.ty >>= fun name => .error (.unexpectedType name))

end LiteralFill
