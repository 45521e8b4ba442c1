import LiteralFill.Proofs.Layout.Lemmas
import Mathlib.Algebra.GroupWithZero.Nat
import Mathlib.Algebra.Order.BigOperators.Group.List
import Mathlib.Algebra.Order.Group.Nat

namespace LiteralFill

/-- A token of an expression that has a position, and where it stands among composite literals. -/
structure Token where
  text : String
  pos : Nat
  /-- The composite literals that have it between their braces. -/
  depth : Nat
  /-- Whether an element of a composite literal starts with it, or it closes one that has elements. -/
  opens : Bool

/-- A token that goes on from the one before it. -/
def Token.mark (depth : Nat) (text : String) (pos : Nat) : Token := ⟨text, pos, depth, false⟩

def Token.opened (t : Token) : Token := { t with opens := true }

@[simp] theorem Token.pos_mark (depth : Nat) (text : String) (pos : Nat) :
    (mark depth text pos).pos = pos := rfl

@[simp] theorem Token.pos_opened (t : Token) : t.opened.pos = t.pos := rfl

open Token (mark)

mutual

/-- The tokens of an expression that have a position, in the order in which they are written. -/
def Expr.tokens (depth : Nat) : Expr → List Token
  | .ident name pos => [mark depth name pos]
  | .basicLit _ value pos => [mark depth value pos]
  | .compositeLit type? lbrace elts rbrace =>
    tokensOpt depth type? ++ mark depth "\x7b" lbrace :: tokensElements (depth + 1) elts ++
      [⟨"\x7d", rbrace, depth, !elts.isEmpty⟩]
  | .keyValue key colon value => key.tokens depth ++ mark depth ":" colon :: value.tokens depth
  | .binary x opPos op y => x.tokens depth ++ mark depth op.symbol opPos :: y.tokens depth
  | .unary opPos op x => mark depth op.symbol opPos :: x.tokens depth
  | .call callee lparen args _ rparen =>
    callee.tokens depth ++ mark depth "(" lparen :: tokensArgs depth args ++ [mark depth ")" rparen]
  | .selector x name namePos => x.tokens depth ++ [mark depth name namePos]
  | .index x lbrack index rbrack =>
    x.tokens depth ++ mark depth "[" lbrack :: index.tokens depth ++ [mark depth "]" rbrack]
  | .slice x lbrack low? high? max? _ rbrack =>
    x.tokens depth ++ mark depth "[" lbrack :: tokensOpt depth low? ++ tokensOpt depth high? ++
      tokensOpt depth max? ++ [mark depth "]" rbrack]
  | .star starPos x => mark depth "*" starPos :: x.tokens depth
  | .paren lparen x rparen => mark depth "(" lparen :: x.tokens depth ++ [mark depth ")" rparen]
  | .funcLit pos source => [mark depth source pos]
  | .ellipsis pos elt? => mark depth "..." pos :: tokensOpt depth elt?
  | .arrayType lbrack len? elt =>
    mark depth "[" lbrack :: tokensOpt depth len? ++ elt.tokens depth
  | .mapType pos key value => mark depth "map" pos :: key.tokens depth ++ value.tokens depth

def tokensOpt (depth : Nat) : Option Expr → List Token
  | none => []
  | some e => e.tokens depth

def tokensArgs (depth : Nat) : List Expr → List Token
  | [] => []
  | e :: rest => e.tokens depth ++ tokensArgs depth rest

def tokensElements (depth : Nat) : List Expr → List Token
  | [] => []
  | e :: rest => (e.tokens depth).modifyHead Token.opened ++ tokensElements depth rest

end

/-- The positions of an expression, in the order in which its tokens are written. -/
def Expr.positions (e : Expr) : List Nat := (e.tokens 0).map Token.pos

mutual

/-- The numbers of elements of all composite literals anywhere in an expression. -/
def Expr.literalSizes : Expr → List Nat
  | .ident _ _ | .basicLit _ _ _ | .funcLit _ _ => []
  | .compositeLit type? _ elts _ => literalSizesOpt type? ++ elts.length :: literalSizesAll elts
  | .keyValue key _ value => key.literalSizes ++ value.literalSizes
  | .binary x _ _ y => x.literalSizes ++ y.literalSizes
  | .unary _ _ x => x.literalSizes
  | .call callee _ args _ _ => callee.literalSizes ++ literalSizesAll args
  | .selector x _ _ => x.literalSizes
  | .index x _ index _ => x.literalSizes ++ index.literalSizes
  | .slice x _ low? high? max? _ _ =>
    x.literalSizes ++ literalSizesOpt low? ++ literalSizesOpt high? ++ literalSizesOpt max?
  | .star _ x => x.literalSizes
  | .paren _ x _ => x.literalSizes
  | .ellipsis _ elt? => literalSizesOpt elt?
  | .arrayType _ len? elt => literalSizesOpt len? ++ elt.literalSizes
  | .mapType _ key value => key.literalSizes ++ value.literalSizes

def literalSizesOpt : Option Expr → List Nat
  | none => []
  | some e => e.literalSizes

def literalSizesAll : List Expr → List Nat
  | [] => []
  | e :: rest => e.literalSizes ++ literalSizesAll rest

end

/-- The sum of `n + k` over the sizes `n` of the composite literals that have elements. -/
def brokenSum (k : Nat) (sizes : List Nat) : Nat := ((sizes.filter (0 < ·)).map (· + k)).sum

@[simp] theorem brokenSum_append (k : Nat) (sizes sizes' : List Nat) :
    brokenSum k (sizes ++ sizes') = brokenSum k sizes + brokenSum k sizes' := by
  simp [brokenSum]

theorem brokenSum_cons_length (k : Nat) (es : List Expr) (sizes : List Nat) :
    brokenSum k (es.length :: sizes) = (if es.isEmpty then 0 else es.length + k) + brokenSum k sizes := by
  cases es <;> simp [brokenSum]

mutual

theorem Expr.brokenSum_literalSizes : (e : Expr) →
    brokenSum 1 e.literalSizes = e.advances ∧ brokenSum 2 e.literalSizes = e.lineCount
  | .ident _ _ | .basicLit _ _ _ | .funcLit _ _ => ⟨rfl, rfl⟩
  | .compositeLit type? _ elts _ => by
    simp only [Expr.literalSizes, brokenSum_append, brokenSum_cons_length,
      brokenSum_literalSizesOpt type?, brokenSum_literalSizesAll elts, Expr.advances,
      Expr.lineCount, Nat.add_assoc, and_self]
  | .keyValue x _ y | .binary x _ _ y | .index x _ y _ | .mapType _ x y => by
    simp only [Expr.literalSizes, brokenSum_append, x.brokenSum_literalSizes,
      y.brokenSum_literalSizes, Expr.advances, Expr.lineCount, and_self]
  | .unary _ _ x | .selector x _ _ | .star _ x | .paren _ x _ => x.brokenSum_literalSizes
  | .call callee _ args _ _ => by
    simp only [Expr.literalSizes, brokenSum_append, callee.brokenSum_literalSizes,
      brokenSum_literalSizesAll args, Expr.advances, Expr.lineCount, and_self]
  | .slice x _ low? high? max? _ _ => by
    simp only [Expr.literalSizes, brokenSum_append, x.brokenSum_literalSizes,
      brokenSum_literalSizesOpt low?, brokenSum_literalSizesOpt high?,
      brokenSum_literalSizesOpt max?, Expr.advances, Expr.lineCount, and_self]
  | .ellipsis _ elt? => brokenSum_literalSizesOpt elt?
  | .arrayType _ len? elt => by
    simp only [Expr.literalSizes, brokenSum_append, brokenSum_literalSizesOpt len?,
      elt.brokenSum_literalSizes, Expr.advances, Expr.lineCount, and_self]

theorem brokenSum_literalSizesOpt : (e? : Option Expr) →
    brokenSum 1 (literalSizesOpt e?) = advancesOpt e? ∧
      brokenSum 2 (literalSizesOpt e?) = lineCountOpt e?
  | none => ⟨rfl, rfl⟩
  | some e => e.brokenSum_literalSizes

theorem brokenSum_literalSizesAll : (es : List Expr) →
    brokenSum 1 (literalSizesAll es) = advancesAll es ∧
      brokenSum 2 (literalSizesAll es) = lineCountAll es
  | [] => ⟨rfl, rfl⟩
  | e :: rest => by
    simp only [literalSizesAll, brokenSum_append, e.brokenSum_literalSizes,
      brokenSum_literalSizesAll rest, advancesAll, lineCountAll, and_self]

end

/-- The lines asked for have room for every line that is reached. -/
theorem Expr.advances_lt_lineCount (e : Expr) : e.advances < max e.lineCount 1 := by
  rw [← e.brokenSum_literalSizes.1, ← e.brokenSum_literalSizes.2]
  unfold brokenSum
  -- without a broken literal there is one line, otherwise each of them has a line to spare
  cases e.literalSizes.filter (0 < ·) with
  | nil => decide
  | cons n sizes =>
    have h : (sizes.map (· + 1)).sum ≤ (sizes.map (· + 2)).sum :=
      List.sum_le_sum fun i _ => Nat.le_succ (i + 1)
    simp only [List.map_cons, List.sum_cons]
    omega

mutual

/-- Numbering leaves the sizes of the composite literals as they are. -/
@[simp] theorem Expr.literalSizes_layOut (p : Nat) :
    (e : Expr) → (e.layOut p).literalSizes = e.literalSizes
  | .ident _ _ | .basicLit _ _ _ | .funcLit _ _ => rfl
  | .compositeLit type? _ elts _ => by
    simp only [Expr.layOut, Expr.literalSizes, literalSizesOpt_layOutOpt p type?,
      literalSizesAll_layOutElements, length_layOutElements]
  | .keyValue x _ y | .binary x _ _ y | .index x _ y _ | .mapType _ x y => by
    simp only [Expr.layOut, Expr.literalSizes, x.literalSizes_layOut, y.literalSizes_layOut]
  | .unary _ _ x | .selector x _ _ | .star _ x | .paren _ x _ => x.literalSizes_layOut p
  | .call callee _ args _ _ => by
    simp only [Expr.layOut, Expr.literalSizes, callee.literalSizes_layOut,
      literalSizesAll_layOutArgs]
  | .slice x _ low? high? max? _ _ => by
    simp only [Expr.layOut, Expr.literalSizes, x.literalSizes_layOut, literalSizesOpt_layOutOpt]
  | .ellipsis _ elt? => literalSizesOpt_layOutOpt p elt?
  | .arrayType _ len? elt => by
    simp only [Expr.layOut, Expr.literalSizes, literalSizesOpt_layOutOpt p len?,
      elt.literalSizes_layOut]

theorem literalSizesOpt_layOutOpt (p : Nat) :
    (e? : Option Expr) → literalSizesOpt (layOutOpt p e?) = literalSizesOpt e?
  | none => rfl
  | some e => e.literalSizes_layOut p

theorem literalSizesAll_layOutArgs (p : Nat) :
    (es : List Expr) → literalSizesAll (layOutArgs p es) = literalSizesAll es
  | [] => rfl
  | e :: rest => by
    simp only [layOutArgs, literalSizesAll, e.literalSizes_layOut, literalSizesAll_layOutArgs]

theorem literalSizesAll_layOutElements (p : Nat) :
    (es : List Expr) → literalSizesAll (layOutElements p es) = literalSizesAll es
  | [] => rfl
  | e :: rest => by
    simp only [layOutElements, literalSizesAll, e.literalSizes_layOut,
      literalSizesAll_layOutElements]

end

theorem Expr.lineCount_layOut (p : Nat) (e : Expr) : (e.layOut p).lineCount = e.lineCount := by
  rw [← (e.layOut p).brokenSum_literalSizes.2, e.literalSizes_layOut, e.brokenSum_literalSizes.2]

/-- Expressions that differ in nothing but positions are laid out alike. -/
theorem Expr.layOut_congr {e e' : Expr} (h : e.unplaced = e'.unplaced) (p : Nat) :
    e.layOut p = e'.layOut p := by
  rw [← e.layOut_unplaced, h, e'.layOut_unplaced]

theorem Expr.lineCount_congr {e e' : Expr} (h : e.unplaced = e'.unplaced) :
    e.lineCount = e'.lineCount := by
  rw [← e.lineCount_layOut 1, Expr.layOut_congr h, e'.lineCount_layOut]

/-- An expression starts with a token of its own, at its first position. -/
theorem Expr.exists_tokens_eq_cons (depth : Nat) :
    (e : Expr) → ∃ text rest, e.tokens depth = mark depth text e.firstPos :: rest
  | .ident _ _ | .basicLit _ _ _ | .funcLit _ _ | .unary _ _ _ | .star _ _ | .paren _ _ _
  | .ellipsis _ _ | .arrayType _ _ _ | .mapType _ _ _ => ⟨_, _, rfl⟩
  | .compositeLit none _ _ _ => ⟨_, _, rfl⟩
  | .compositeLit (some x) _ _ _ | .keyValue x _ _ | .binary x _ _ _ | .call x _ _ _ _
  | .selector x _ _ | .index x _ _ _ | .slice x _ _ _ _ _ _ => by
    obtain ⟨text, rest, h⟩ := x.exists_tokens_eq_cons depth
    simp only [Expr.tokens, tokensOpt, h, List.cons_append, Expr.firstPos, firstPosOr]
    exact ⟨_, _, rfl⟩

theorem Expr.head?_positions (e : Expr) : e.positions.head? = some e.firstPos := by
  obtain ⟨text, rest, h⟩ := e.exists_tokens_eq_cons 0
  rw [Expr.positions, h]
  rfl

end LiteralFill
