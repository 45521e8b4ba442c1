import LiteralFill.Expr.Basic

namespace LiteralFill

mutual

/-- How often the line advances inside an expression: once before each element of a composite
literal that has any, and once before its closing brace. -/
def Expr.advances : Expr → Nat
  | .ident _ _ | .basicLit _ _ _ | .funcLit _ _ => 0
  | .compositeLit type? _ elts _ =>
    advancesOpt type? + (if elts.isEmpty then 0 else elts.length + 1) + advancesAll elts
  | .keyValue key _ value => key.advances + value.advances
  | .binary x _ _ y => x.advances + y.advances
  | .unary _ _ x => x.advances
  | .call callee _ args _ _ => callee.advances + advancesAll args
  | .selector x _ _ => x.advances
  | .index x _ index _ => x.advances + index.advances
  | .slice x _ low? high? max? _ _ =>
    x.advances + advancesOpt low? + advancesOpt high? + advancesOpt max?
  | .star _ x => x.advances
  | .paren _ x _ => x.advances
  | .ellipsis _ elt? => advancesOpt elt?
  | .arrayType _ len? elt => advancesOpt len? + elt.advances
  | .mapType _ key value => key.advances + value.advances

def advancesOpt : Option Expr → Nat
  | none => 0
  | some e => e.advances

def advancesAll : List Expr → Nat
  | [] => 0
  | e :: rest => e.advances + advancesAll rest

end

mutual

/-- The lines that the composite literals of an expression ask for: two more than its elements for
each that has any. -/
def Expr.lineCount : Expr → Nat
  | .ident _ _ | .basicLit _ _ _ | .funcLit _ _ => 0
  | .compositeLit type? _ elts _ =>
    lineCountOpt type? + (if elts.isEmpty then 0 else elts.length + 2) + lineCountAll elts
  | .keyValue key _ value => key.lineCount + value.lineCount
  | .binary x _ _ y => x.lineCount + y.lineCount
  | .unary _ _ x => x.lineCount
  | .call callee _ args _ _ => callee.lineCount + lineCountAll args
  | .selector x _ _ => x.lineCount
  | .index x _ index _ => x.lineCount + index.lineCount
  | .slice x _ low? high? max? _ _ =>
    x.lineCount + lineCountOpt low? + lineCountOpt high? + lineCountOpt max?
  | .star _ x => x.lineCount
  | .paren _ x _ => x.lineCount
  | .ellipsis _ elt? => lineCountOpt elt?
  | .arrayType _ len? elt => lineCountOpt len? + elt.lineCount
  | .mapType _ key value => key.lineCount + value.lineCount

def lineCountOpt : Option Expr → Nat
  | none => 0
  | some e => e.lineCount

def lineCountAll : List Expr → Nat
  | [] => 0
  | e :: rest => e.lineCount + lineCountAll rest

end

mutual

/-- Gives every token a line, the first one `p`. A token stands on the line of the one before it,
except that each element of a composite literal, and the closing brace after them, starts the next. -/
def Expr.layOut (p : Nat) : Expr → Expr
  | .ident name _ => .ident name p
  | .basicLit kind value _ => .basicLit kind value p
  | .compositeLit type? _ elts _ =>
    let brace := p + advancesOpt type?
    .compositeLit (layOutOpt p type?) brace (layOutElements brace elts)
      (brace + (if elts.isEmpty then 0 else elts.length + 1) + advancesAll elts)
  | .keyValue key _ value =>
    .keyValue (key.layOut p) (p + key.advances) (value.layOut (p + key.advances))
  | .binary x _ op y => .binary (x.layOut p) (p + x.advances) op (y.layOut (p + x.advances))
  | .unary _ op x => .unary p op (x.layOut p)
  | .call callee _ args spread _ =>
    .call (callee.layOut p) (p + callee.advances) (layOutArgs (p + callee.advances) args) spread
      (p + callee.advances + advancesAll args)
  | .selector x name _ => .selector (x.layOut p) name (p + x.advances)
  | .index x _ index _ =>
    .index (x.layOut p) (p + x.advances) (index.layOut (p + x.advances))
      (p + x.advances + index.advances)
  | .slice x _ low? high? max? threeIndex _ =>
    let atLow := p + x.advances
    let atHigh := atLow + advancesOpt low?
    let atMax := atHigh + advancesOpt high?
    .slice (x.layOut p) atLow (layOutOpt atLow low?) (layOutOpt atHigh high?) (layOutOpt atMax max?)
      threeIndex (atMax + advancesOpt max?)
  | .star _ x => .star p (x.layOut p)
  | .paren _ x _ => .paren p (x.layOut p) (p + x.advances)
  | .funcLit _ source => .funcLit p source
  | .ellipsis _ elt? => .ellipsis p (layOutOpt p elt?)
  | .arrayType _ len? elt => .arrayType p (layOutOpt p len?) (elt.layOut (p + advancesOpt len?))
  | .mapType _ key value => .mapType p (key.layOut p) (value.layOut (p + key.advances))

def layOutOpt (p : Nat) : Option Expr → Option Expr
  | none => none
  | some e => some (e.layOut p)

def layOutArgs (p : Nat) : List Expr → List Expr
  | [] => []
  | e :: rest => e.layOut p :: layOutArgs (p + e.advances) rest

/-- Each element on the line after what precedes it. -/
def layOutElements (p : Nat) : List Expr → List Expr
  | [] => []
  | e :: rest => e.layOut (p + 1) :: layOutElements (p + 1 + e.advances) rest

end

mutual

/-- The expression without its positions. -/
def Expr.unplaced : Expr → Expr
  | .ident name _ => .ident name noPos
  | .basicLit kind value _ => .basicLit kind value noPos
  | .compositeLit type? _ elts _ =>
    .compositeLit (unplacedOpt type?) noPos (unplacedAll elts) noPos
  | .keyValue key _ value => .keyValue key.unplaced noPos value.unplaced
  | .binary x _ op y => .binary x.unplaced noPos op y.unplaced
  | .unary _ op x => .unary noPos op x.unplaced
  | .call callee _ args spread _ => .call callee.unplaced noPos (unplacedAll args) spread noPos
  | .selector x name _ => .selector x.unplaced name noPos
  | .index x _ index _ => .index x.unplaced noPos index.unplaced noPos
  | .slice x _ low? high? max? threeIndex _ =>
    .slice x.unplaced noPos (unplacedOpt low?) (unplacedOpt high?) (unplacedOpt max?) threeIndex noPos
  | .star _ x => .star noPos x.unplaced
  | .paren _ x _ => .paren noPos x.unplaced noPos
  | .funcLit _ source => .funcLit noPos source
  | .ellipsis _ elt? => .ellipsis noPos (unplacedOpt elt?)
  | .arrayType _ len? elt => .arrayType noPos (unplacedOpt len?) elt.unplaced
  | .mapType _ key value => .mapType noPos key.unplaced value.unplaced

def unplacedOpt : Option Expr → Option Expr
  | none => none
  | some e => some e.unplaced

def unplacedAll : List Expr → List Expr
  | [] => []
  | e :: rest => e.unplaced :: unplacedAll rest

end

end LiteralFill
