import LiteralFill.Proofs.Layout.Basic

namespace LiteralFill

mutual

/-- The expression `k` lines further down. -/
def Expr.shift (k : Nat) : Expr → Expr
  | .ident name pos => .ident name (pos + k)
  | .basicLit kind value pos => .basicLit kind value (pos + k)
  | .compositeLit type? lbrace elts rbrace =>
    .compositeLit (shiftOpt k type?) (lbrace + k) (shiftAll k elts) (rbrace + k)
  | .keyValue key colon value => .keyValue (key.shift k) (colon + k) (value.shift k)
  | .binary x opPos op y => .binary (x.shift k) (opPos + k) op (y.shift k)
  | .unary opPos op x => .unary (opPos + k) op (x.shift k)
  | .call callee lparen args spread rparen =>
    .call (callee.shift k) (lparen + k) (shiftAll k args) spread (rparen + k)
  | .selector x name namePos => .selector (x.shift k) name (namePos + k)
  | .index x lbrack index rbrack => .index (x.shift k) (lbrack + k) (index.shift k) (rbrack + k)
  | .slice x lbrack low? high? max? threeIndex rbrack =>
    .slice (x.shift k) (lbrack + k) (shiftOpt k low?) (shiftOpt k high?) (shiftOpt k max?) threeIndex
      (rbrack + k)
  | .star starPos x => .star (starPos + k) (x.shift k)
  | .paren lparen x rparen => .paren (lparen + k) (x.shift k) (rparen + k)
  | .funcLit pos source => .funcLit (pos + k) source
  | .ellipsis pos elt? => .ellipsis (pos + k) (shiftOpt k elt?)
  | .arrayType lbrack len? elt => .arrayType (lbrack + k) (shiftOpt k len?) (elt.shift k)
  | .mapType pos key value => .mapType (pos + k) (key.shift k) (value.shift k)

def shiftOpt (k : Nat) : Option Expr → Option Expr
  | none => none
  | some e => some (e.shift k)

def shiftAll (k : Nat) : List Expr → List Expr
  | [] => []
  | e :: rest => e.shift k :: shiftAll k rest

end

mutual

/-- A layout that starts further down is the same layout further down. -/
theorem Expr.shift_layOut (p k : Nat) : (e : Expr) → (e.layOut p).shift k = e.layOut (p + k)
  | .ident _ _ | .basicLit _ _ _ | .funcLit _ _ => rfl
  | .compositeLit type? _ elts _ => by
    simp only [Expr.layOut, Expr.shift, shiftOpt_layOutOpt, shiftAll_layOutElements, Nat.add_right_comm]
  | .keyValue key _ value => by
    simp only [Expr.layOut, Expr.shift, key.shift_layOut, value.shift_layOut, Nat.add_right_comm]
  | .binary x _ _ y => by
    simp only [Expr.layOut, Expr.shift, x.shift_layOut, y.shift_layOut, Nat.add_right_comm]
  | .unary _ _ x => by simp only [Expr.layOut, Expr.shift, x.shift_layOut]
  | .call callee _ args _ _ => by
    simp only [Expr.layOut, Expr.shift, callee.shift_layOut, shiftAll_layOutArgs, Nat.add_right_comm]
  | .selector x _ _ => by simp only [Expr.layOut, Expr.shift, x.shift_layOut, Nat.add_right_comm]
  | .index x _ index _ => by
    simp only [Expr.layOut, Expr.shift, x.shift_layOut, index.shift_layOut, Nat.add_right_comm]
  | .slice x _ _ _ _ _ _ => by
    simp only [Expr.layOut, Expr.shift, x.shift_layOut, shiftOpt_layOutOpt, Nat.add_right_comm]
  | .star _ x => by simp only [Expr.layOut, Expr.shift, x.shift_layOut]
  | .paren _ x _ => by simp only [Expr.layOut, Expr.shift, x.shift_layOut, Nat.add_right_comm]
  | .ellipsis _ _ => by simp only [Expr.layOut, Expr.shift, shiftOpt_layOutOpt]
  | .arrayType _ _ elt => by
    simp only [Expr.layOut, Expr.shift, shiftOpt_layOutOpt, elt.shift_layOut, Nat.add_right_comm]
  | .mapType _ key value => by
    simp only [Expr.layOut, Expr.shift, key.shift_layOut, value.shift_layOut, Nat.add_right_comm]

theorem shiftOpt_layOutOpt (p k : Nat) :
    (e? : Option Expr) → shiftOpt k (layOutOpt p e?) = layOutOpt (p + k) e?
  | none => rfl
  | some e => by simp only [layOutOpt, shiftOpt, e.shift_layOut]

theorem shiftAll_layOutArgs (p k : Nat) :
    (es : List Expr) → shiftAll k (layOutArgs p es) = layOutArgs (p + k) es
  | [] => rfl
  | e :: rest => by
    simp only [layOutArgs, shiftAll, e.shift_layOut, shiftAll_layOutArgs, Nat.add_right_comm]

theorem shiftAll_layOutElements (p k : Nat) :
    (es : List Expr) → shiftAll k (layOutElements p es) = layOutElements (p + k) es
  | [] => rfl
  | e :: rest => by
    simp only [layOutElements, shiftAll, e.shift_layOut, shiftAll_layOutElements, Nat.add_right_comm]

end

end LiteralFill
