import LiteralFill.Proofs.Grammar.Sentence

namespace LiteralFill

open Lexeme (symbol word)

/-- A computation that gives this result from some number of steps on. -/
def Yields {α : Type} (f : Nat → Option α) (r : α) : Prop := ∃ least, ∀ n, least ≤ n → f n = some r

namespace Yields

variable {α β : Type} {f : Nat → Option α} {a r : α} {b : β}

theorem pure (a : α) : Yields (fun _ => some a) a := ⟨0, fun _ _ => rfl⟩

theorem bind {g : Nat → α → Option β} (hf : Yields f a) (hg : Yields (g · a) b) :
    Yields (fun n => (f n).bind (g n)) b := by
  obtain ⟨m, hm⟩ := hf
  obtain ⟨k, hk⟩ := hg
  refine ⟨max m k, fun n hn => ?_⟩
  dsimp only
  rw [hm n (Nat.le_trans (Nat.le_max_left m k) hn), Option.bind_some]
  exact hk n (Nat.le_trans (Nat.le_max_right m k) hn)

/-- One more step is enough to call a computation. -/
theorem step (h : Yields (fun n => f (n + 1)) r) : Yields f r := by
  obtain ⟨m, hm⟩ := h
  refine ⟨m + 1, fun n hn => ?_⟩
  obtain ⟨k, rfl⟩ := Nat.exists_eq_add_of_le hn
  rw [Nat.add_right_comm]
  exact hm (m + k) (Nat.le_add_right m k)

theorem unique (h : Yields f a) (h' : Yields f r) : a = r := by
  obtain ⟨m, hm⟩ := h
  obtain ⟨k, hk⟩ := h'
  exact Option.some.inj ((hm _ (Nat.le_max_left m k)).symm.trans (hk _ (Nat.le_max_right m k)))

end Yields

/-- What follows a symbol that stands first. -/
def expect (op : String) : List Lexeme → Option (List Lexeme)
  | symbol s :: rest => if s = op then some rest else none
  | _ => none

def binaryOp? (s : String) : Option BinaryOp :=
  [BinaryOp.add, .subtract, .multiply, .divide, .modulus, .bitwiseAnd, .bitwiseOr, .bitwiseXor,
    .bitClear, .leftShift, .rightShift, .logicalAnd, .logicalOr, .equals, .notEquals, .lessThan,
    .lessThanEq, .greaterThan, .greaterThanEq].find? (·.symbol = s)

def unaryOp? (s : String) : Option UnaryOp :=
  [UnaryOp.plus, .negate, .not, .bitComplement, .addressOf, .receive].find? (·.symbol = s)

/-- The binary operator that stands first, if it binds at least as strongly as `p`. -/
def binary? (p : Nat) : List Lexeme → Option (BinaryOp × List Lexeme)
  | symbol s :: rest => ((binaryOp? s).filter (p ≤ ·.precedence)).map (·, rest)
  | _ => none

/-- What an operator in front of an operand makes of it. -/
def front? (s : String) : Option (Expr → Expr) :=
  if s = "*" then some (.star noPos)
  else (unaryOp? s).map (Expr.unary noPos)

mutual

/-- Reads an expression of strength `p` by recursive descent, with `n` nested calls at most. -/
def readExpr : (n : Nat) → (p : Nat) → List Lexeme → Option (Expr × List Lexeme)
  | 0, _, _ => none
  | n + 1, p, ts => (readUnary n ts).bind fun (x, rest) => readOperators n p x rest

/-- Goes on from a left operand as long as operators follow that bind at least as strongly as `p`. -/
def readOperators : Nat → (p : Nat) → Expr → List Lexeme → Option (Expr × List Lexeme)
  | 0, _, _, _ => none
  | n + 1, p, x, ts =>
    match binary? p ts with
    | none => some (x, ts)
    | some (op, rest) =>
      (readExpr n (op.precedence + 1) rest).bind fun (y, rest) =>
        readOperators n p (.binary x noPos op y) rest

def readUnary : Nat → List Lexeme → Option (Expr × List Lexeme)
  | 0, _ => none
  | _ + 1, [] => none
  | n + 1, word name :: rest => readPostfix n (.ident name noPos) rest
  | n + 1, symbol s :: rest =>
    if s = "(" then
      (readExpr n 0 rest).bind fun (x, rest) =>
        (expect ")" rest).bind fun rest => readPostfix n (.paren noPos x noPos) rest
    else
      (front? s).bind fun make => (readUnary n rest).bind fun (x, rest) => some (make x, rest)

def readPostfix : Nat → Expr → List Lexeme → Option (Expr × List Lexeme)
  | 0, _, _ => none
  | n + 1, x, symbol s :: rest =>
    if s = "." then
      match rest with
      | word name :: rest => readPostfix n (.selector x name noPos) rest
      | _ => none
    else if s = "[" then
      (readBrackets n x rest).bind fun (y, rest) => readPostfix n y rest
    else if s = "(" then
      (readCall n x rest).bind fun (y, rest) => readPostfix n y rest
    else some (x, symbol s :: rest)
  | _ + 1, x, ts => some (x, ts)

/-- What follows an opening bracket, up to the closing one. -/
def readBrackets : Nat → Expr → List Lexeme → Option (Expr × List Lexeme)
  | 0, _, _ => none
  | n + 1, x, ts =>
    (readBound n ts).bind fun (low?, rest) =>
      match expect "]" rest, expect ":" rest with
      | some rest, _ => low?.map fun i => (.index x noPos i noPos, rest)
      | none, none => none
      | none, some rest =>
        (readBound n rest).bind fun (high?, rest) =>
          match expect "]" rest, expect ":" rest with
          | some rest, _ => some (.slice x noPos low? high? none false noPos, rest)
          | none, none => none
          | none, some rest =>
            (readBound n rest).bind fun (max?, rest) => (expect "]" rest).map fun rest =>
              (.slice x noPos low? high? max? true noPos, rest)

def readBound : Nat → List Lexeme → Option (Option Expr × List Lexeme)
  | 0, _ => none
  | n + 1, ts =>
    if (expect "]" ts).isSome || (expect ":" ts).isSome then some (none, ts)
    else (readExpr n 0 ts).bind fun (x, rest) => some (some x, rest)

/-- What follows the opening parenthesis of a call, up to the closing one. -/
def readCall : Nat → Expr → List Lexeme → Option (Expr × List Lexeme)
  | 0, _, _ => none
  | n + 1, f, ts =>
    match expect ")" ts with
    | some rest => some (.call f noPos [] false noPos, rest)
    | none => (readArgs n ts).bind fun (args, spread, rest) =>
      some (.call f noPos args spread noPos, rest)

def readArgs : Nat → List Lexeme → Option (List Expr × Bool × List Lexeme)
  | 0, _ => none
  | n + 1, ts =>
    (readExpr n 0 ts).bind fun (x, rest) =>
      let spread := (expect "..." rest).isSome
      let rest := (expect "..." rest).getD rest
      let more := (expect "," rest).getD rest
      match expect ")" more with
      | some rest => some ([x], spread, rest)
      | none =>
        if spread then none
        else (expect "," rest).bind fun rest =>
          (readArgs n rest).bind fun (xs, spread, rest) => some (x :: xs, spread, rest)

end

section Rules

-- the equations of the readers are made here, once, and not by each rule that unfolds one
attribute [local simp] readExpr readOperators readUnary readPostfix readBrackets readBound readCall
  readArgs

variable {ts rest : List Lexeme} {x y : Expr} {p : Nat} {r : Expr × List Lexeme}

theorem expect_self (op : String) (rest : List Lexeme) : expect op (symbol op :: rest) = some rest :=
  if_pos rfl

theorem expect_ne {s op : String} (h : s ≠ op) (rest : List Lexeme) :
    expect op (symbol s :: rest) = none := if_neg h

theorem yields_readExpr (hx : Yields (readUnary · ts) (x, rest))
    (h : Yields (readOperators · p x rest) r) : Yields (readExpr · p ts) r := by
  refine .step ?_
  simp only [readExpr]
  exact hx.bind h

theorem yields_readOperators_nil (h : binary? p ts = none) :
    Yields (readOperators · p x ts) (x, ts) := by
  refine .step ?_
  simp only [readOperators, h]
  exact .pure _

theorem yields_readOperators_cons {op : BinaryOp} {us : List Lexeme}
    (hop : binary? p ts = some (op, us)) (hy : Yields (readExpr · (op.precedence + 1) us) (y, rest))
    (h : Yields (readOperators · p (.binary x noPos op y) rest) r) :
    Yields (readOperators · p x ts) r := by
  refine .step ?_
  simp only [readOperators, hop]
  exact hy.bind h

theorem yields_readUnary_word {name : String} (h : Yields (readPostfix · (.ident name noPos) ts) r) :
    Yields (readUnary · (word name :: ts)) r := by
  refine .step ?_
  simp only [readUnary]
  exact h

theorem yields_readUnary_paren (hx : Yields (readExpr · 0 ts) (x, symbol ")" :: rest))
    (h : Yields (readPostfix · (.paren noPos x noPos) rest) r) :
    Yields (readUnary · (symbol "(" :: ts)) r := by
  refine .step ?_
  simp only [readUnary, ↓reduceIte]
  refine hx.bind ?_
  simp only [expect_self, Option.bind_some]
  exact h

theorem yields_readUnary_front {s : String} {make : Expr → Expr} (hs : s ≠ "(")
    (hmake : front? s = some make) (hx : Yields (readUnary · ts) (x, rest)) :
    Yields (readUnary · (symbol s :: ts)) (make x, rest) := by
  refine .step ?_
  simp only [readUnary, if_neg hs, hmake, Option.bind_some]
  exact hx.bind (.pure _)

/-- Lexemes that go on with no postfix. -/
def EndsPrimary (ts : List Lexeme) : Prop :=
  expect "." ts = none ∧ expect "[" ts = none ∧ expect "(" ts = none

theorem yields_readPostfix_nil (h : EndsPrimary ts) : Yields (readPostfix · x ts) (x, ts) := by
  refine .step ?_
  match ts, h with
  | [], _ => exact .pure _
  | word _ :: _, _ => exact .pure _
  | symbol s :: rest, h =>
    simp only [EndsPrimary, expect, ite_eq_right_iff, reduceCtorEq, imp_false] at h
    simp only [readPostfix, if_neg h.1, if_neg h.2.1, if_neg h.2.2]
    exact .pure _

theorem yields_readPostfix_selector {name : String}
    (h : Yields (readPostfix · (.selector x name noPos) rest) r) :
    Yields (readPostfix · x (symbol "." :: word name :: rest)) r := by
  refine .step ?_
  simp only [readPostfix, ↓reduceIte]
  exact h

theorem yields_readPostfix_brackets (hy : Yields (readBrackets · x ts) (y, rest))
    (h : Yields (readPostfix · y rest) r) : Yields (readPostfix · x (symbol "[" :: ts)) r := by
  refine .step ?_
  simp only [readPostfix, String.reduceEq, ↓reduceIte]
  exact hy.bind h

theorem yields_readPostfix_call (hy : Yields (readCall · x ts) (y, rest))
    (h : Yields (readPostfix · y rest) r) : Yields (readPostfix · x (symbol "(" :: ts)) r := by
  refine .step ?_
  simp only [readPostfix, String.reduceEq, ↓reduceIte]
  exact hy.bind h

theorem yields_readBound_none (h : ((expect "]" ts).isSome || (expect ":" ts).isSome) = true) :
    Yields (readBound · ts) (none, ts) := by
  refine .step ?_
  simp only [readBound, h, ↓reduceIte]
  exact .pure _

theorem yields_readBound_some (h : ((expect "]" ts).isSome || (expect ":" ts).isSome) = false)
    (hx : Yields (readExpr · 0 ts) (x, rest)) : Yields (readBound · ts) (some x, rest) := by
  refine .step ?_
  simp only [readBound, h, Bool.false_eq_true, ↓reduceIte]
  exact hx.bind (.pure _)

theorem yields_readBrackets_index {i : Expr}
    (hi : Yields (readBound · ts) (some i, symbol "]" :: rest)) :
    Yields (readBrackets · x ts) (.index x noPos i noPos, rest) := by
  refine .step ?_
  simp only [readBrackets]
  exact hi.bind (.pure _)

theorem yields_readBrackets_slice {us : List Lexeme} {low? high? : Option Expr}
    (hlow : Yields (readBound · ts) (low?, symbol ":" :: us))
    (hhigh : Yields (readBound · us) (high?, symbol "]" :: rest)) :
    Yields (readBrackets · x ts) (.slice x noPos low? high? none false noPos, rest) := by
  refine .step ?_
  simp only [readBrackets]
  exact hlow.bind (hhigh.bind (.pure _))

theorem yields_readBrackets_sliceThree {us vs : List Lexeme} {low? high? max? : Option Expr}
    (hlow : Yields (readBound · ts) (low?, symbol ":" :: us))
    (hhigh : Yields (readBound · us) (high?, symbol ":" :: vs))
    (hmax : Yields (readBound · vs) (max?, symbol "]" :: rest)) :
    Yields (readBrackets · x ts) (.slice x noPos low? high? max? true noPos, rest) := by
  refine .step ?_
  simp only [readBrackets]
  exact hlow.bind (hhigh.bind (hmax.bind (.pure _)))

theorem yields_readCall_none :
    Yields (readCall · x (symbol ")" :: rest)) (.call x noPos [] false noPos, rest) := by
  refine .step ?_
  simp only [readCall, expect_self]
  exact .pure _

theorem yields_readCall {args : List Expr} {spread : Bool} (h : expect ")" ts = none)
    (hargs : Yields (readArgs · ts) (args, spread, rest)) :
    Yields (readCall · x ts) (.call x noPos args spread noPos, rest) := by
  refine .step ?_
  simp only [readCall, h]
  exact hargs.bind (.pure _)

theorem yields_readArgs_one (spread comma : Bool)
    (hx : Yields (readExpr · 0 ts)
      (x, optionally spread "..." ++ (optionally comma "," ++ symbol ")" :: rest))) :
    Yields (readArgs · ts) ([x], spread, rest) := by
  refine .step ?_
  simp only [readArgs]
  refine hx.bind ?_
  cases spread <;> cases comma <;> exact .pure _

theorem yields_readArgs_more {us : List Lexeme} {args : List Expr} {spread : Bool}
    (hx : Yields (readExpr · 0 ts) (x, symbol "," :: us)) (hus : expect ")" us = none)
    (hargs : Yields (readArgs · us) (args, spread, rest)) :
    Yields (readArgs · ts) (x :: args, spread, rest) := by
  refine .step ?_
  simp only [readArgs]
  refine hx.bind ?_
  have hspread : expect "..." (symbol "," :: us) = none := expect_ne (by decide) us
  simp only [hspread, expect_self, hus, Option.isSome_none, Option.getD_none, Option.getD_some,
    Bool.false_eq_true, ↓reduceIte, Option.bind_some]
  exact hargs.bind (.pure _)

end Rules

end LiteralFill
