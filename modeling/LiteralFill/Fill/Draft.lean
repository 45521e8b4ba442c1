import LiteralFill.Fill.Entries

namespace LiteralFill

/-- What the writing of a literal has come to. -/
structure Draft where
  /-- The line of the last token. -/
  pos : Nat
  /-- The lines that the composite literals closed so far ask for. -/
  lines : Nat
  /-- What the user wrote and no field has taken over yet. -/
  entries : Entries
  /-- Whether the outermost struct is still to come. -/
  first : Bool
  /-- The structs being written, innermost first. -/
  path : List Place
  omitted : List Omission

def Draft.start (entries : Entries) : Draft := ⟨1, 0, entries, true, [], []⟩

/-- A step of writing. What it did to the draft stays when it fails. -/
abbrev Filler := ExceptT FillError (StateM Draft)

namespace Filler

/-- A step that looks at nothing in the draft. -/
def ofExcept {α : Type} (outcome : Except FillError α) : Filler α := liftExcept outcome

/-- The line of the last token. -/
def here : Filler Nat := return (← get).pos

/-- Goes to the next line. -/
def advance : Filler Nat := modifyGet fun d => (d.pos + 1, { d with pos := d.pos + 1 })

/-- Ends a composite literal of `n` elements. Its closing brace starts a line if there are any. -/
def close (n : Nat) : Filler Nat :=
  if n = 0 then here
  else do
    modify fun d => { d with lines := d.lines + (n + 2) }
    advance

/-- A step taken while a struct is being written, which ends with the step whatever comes of it. -/
def inside {α : Type} (place : Place) (x : Filler α) : Filler α := do
  modify fun d => { d with path := place :: d.path }
  let outcome ← observing x
  modify fun d => { d with path := d.path.tail }
  ofExcept outcome

end Filler

open Filler

mutual

/-- Moves an expression onto the layout: everything stands on the current line except the elements of
composite literals, which get a line each. -/
def Expr.renumber : Expr → Filler Expr
  | .ident name _ => return .ident name (← here)
  | .basicLit kind value _ => return .basicLit kind value (← here)
  | .compositeLit type? _ elts _ => do
    let type? ← renumberOpt type?
    let lbrace ← here
    let elts ← renumberElements elts
    return .compositeLit type? lbrace elts (← close elts.length)
  | .keyValue key _ value => do
    let key ← key.renumber
    let colon ← here
    return .keyValue key colon (← value.renumber)
  | .binary x _ op y => do
    let x ← x.renumber
    let opPos ← here
    return .binary x opPos op (← y.renumber)
  | .unary _ op x => do
    let opPos ← here
    return .unary opPos op (← x.renumber)
  | .call callee _ args spread _ => do
    let callee ← callee.renumber
    let lparen ← here
    let args ← renumberArgs args
    return .call callee lparen args spread (← here)
  | .selector x name _ => do
    let x ← x.renumber
    return .selector x name (← here)
  | .index x _ index _ => do
    let x ← x.renumber
    let lbrack ← here
    let index ← index.renumber
    return .index x lbrack index (← here)
  | .slice x _ low? high? max? threeIndex _ => do
    let x ← x.renumber
    let lbrack ← here
    let low? ← renumberOpt low?
    let high? ← renumberOpt high?
    let max? ← renumberOpt max?
    return .slice x lbrack low? high? max? threeIndex (← here)
  | .star _ x => do
    let starPos ← here
    return .star starPos (← x.renumber)
  | .paren _ x _ => do
    let lparen ← here
    let x ← x.renumber
    return .paren lparen x (← here)
  | .funcLit _ source => return .funcLit (← here) source
  | .ellipsis _ elt? => do
    let pos ← here
    return .ellipsis pos (← renumberOpt elt?)
  | .arrayType _ len? elt => do
    let lbrack ← here
    let len? ← renumberOpt len?
    return .arrayType lbrack len? (← elt.renumber)
  | .mapType _ key value => do
    let pos ← here
    let key ← key.renumber
    return .mapType pos key (← value.renumber)

def renumberOpt : Option Expr → Filler (Option Expr)
  | none => return none
  | some e => return some (← e.renumber)

def renumberArgs : List Expr → Filler (List Expr)
  | [] => return []
  | e :: rest => do
    let e ← e.renumber
    return e :: (← renumberArgs rest)

def renumberElements : List Expr → Filler (List Expr)
  | [] => return []
  | e :: rest => do
    let _ ← advance
    let e ← e.renumber
    return e :: (← renumberElements rest)

end

end LiteralFill
