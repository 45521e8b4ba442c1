import LiteralFill.Proofs.Grammar.Reader

namespace LiteralFill

open Lexeme (symbol word)

/-- Lexemes that go on with neither a postfix nor an operator of precedence `p` or above. -/
def Stops (p : Nat) (ts : List Lexeme) : Prop := EndsPrimary ts ∧ binary? p ts = none

/-- Symbols after which an expression is complete. -/
def closers : List String := [")", "]", ":", ",", "..."]

theorem stops_nil (p : Nat) : Stops p [] := ⟨⟨rfl, rfl, rfl⟩, rfl⟩

theorem binary?_eq_none_iff {p : Nat} {s : String} {rest : List Lexeme} :
    binary? p (symbol s :: rest) = none ↔ ∀ op, binaryOp? s = some op → op.precedence < p := by
  simp only [binary?, Option.map_eq_none_iff, Option.filter_eq_none_iff, decide_eq_true_eq,
    Nat.not_le]

theorem stops_closer {s : String} (hs : s ∈ closers) (p : Nat) (rest : List Lexeme) :
    Stops p (symbol s :: rest) := by
  have hnone : ∀ s ∈ closers, s ≠ "." ∧ s ≠ "[" ∧ s ≠ "(" ∧ binaryOp? s = none := by decide
  obtain ⟨hdot, hbracket, hparen, hop⟩ := hnone s hs
  refine ⟨⟨if_neg hdot, if_neg hbracket, if_neg hparen⟩, binary?_eq_none_iff.2 ?_⟩
  rw [hop]
  nofun

theorem BinaryOp.precedence_lt (op : BinaryOp) : op.precedence < 6 := by
  cases op <;> decide

theorem binaryOp?_symbol (op : BinaryOp) : binaryOp? op.symbol = some op := by
  cases op <;> decide

theorem stops_binary (op : BinaryOp) (rest : List Lexeme) :
    Stops (op.precedence + 1) (symbol op.symbol :: rest) := by
  have hposts : op.symbol ≠ "." ∧ op.symbol ≠ "[" ∧ op.symbol ≠ "(" := by cases op <;> decide
  refine ⟨⟨if_neg hposts.1, if_neg hposts.2.1, if_neg hposts.2.2⟩, binary?_eq_none_iff.2 ?_⟩
  rw [binaryOp?_symbol]
  rintro _ ⟨⟩
  exact Nat.lt_succ_self _

theorem binary?_symbol (op : BinaryOp) {p : Nat} (hp : p ≤ op.precedence) (rest : List Lexeme) :
    binary? p (symbol op.symbol :: rest) = some (op, rest) := by
  rw [binary?, binaryOp?_symbol, Option.filter_some, if_pos (decide_eq_true hp),
    Option.map_some]

theorem Stops.mono {p q : Nat} {ts : List Lexeme} (h : Stops p ts) (hpq : p ≤ q) : Stops q ts := by
  refine ⟨h.1, ?_⟩
  have hnone := h.2
  match ts, hnone with
  | [], _ => rfl
  | word _ :: _, _ => rfl
  | symbol s :: rest, hnone =>
    exact binary?_eq_none_iff.2 fun op hop =>
      Nat.lt_of_lt_of_le (binary?_eq_none_iff.1 hnone op hop) hpq

/-- Lexemes that the reader takes for this expression of strength `p`, whatever comes after them. -/
structure Heard (p : Nat) (ts : List Lexeme) (e : Expr) : Prop where
  -- what comes after may still be a postfix of it, or an operator behind it
  primary : 7 ≤ p → ∀ rest r, Yields (readPostfix · e rest) r → Yields (readUnary · (ts ++ rest)) r
  unary : 6 ≤ p → ∀ rest, EndsPrimary rest → Yields (readUnary · (ts ++ rest)) (e, rest)
  expr : ∀ q ≤ p, ∀ rest r, Stops (p + 1) rest → Yields (readOperators · q e rest) r →
    Yields (readExpr · q (ts ++ rest)) r

namespace Heard

variable {p q : Nat} {ts : List Lexeme} {e : Expr}

theorem of_primary
    (h : ∀ rest r, Yields (readPostfix · e rest) r → Yields (readUnary · (ts ++ rest)) r) :
    Heard 7 ts e where
  primary _ := h
  unary _ rest hrest := h rest _ (yields_readPostfix_nil hrest)
  expr _ _ rest _ hrest := yields_readExpr (h rest _ (yields_readPostfix_nil hrest.1))

theorem of_unary (h : ∀ rest, EndsPrimary rest → Yields (readUnary · (ts ++ rest)) (e, rest)) :
    Heard 6 ts e where
  primary h7 := absurd h7 (by decide)
  unary _ := h
  expr _ _ rest _ hrest := yields_readExpr (h rest hrest.1)

theorem weaken (h : Heard q ts e) (hpq : p ≤ q) : Heard p ts e where
  primary h7 := h.primary (Nat.le_trans h7 hpq)
  unary h6 := h.unary (Nat.le_trans h6 hpq)
  expr q' hq' rest r hrest := h.expr q' (Nat.le_trans hq' hpq) rest r
    (hrest.mono (Nat.succ_le_succ hpq))

theorem whole (h : Heard p ts e) {rest : List Lexeme} (hrest : Stops 0 rest) :
    Yields (readExpr · 0 (ts ++ rest)) (e, rest) :=
  h.expr 0 (Nat.zero_le p) rest _ (hrest.mono (Nat.zero_le _)) (yields_readOperators_nil hrest.2)

theorem binary {us : List Lexeme} {y : Expr} {s : String} {op : BinaryOp} (hop : (s, op) ∈ binaryAt p)
    (hx : Heard p ts e) (hy : Heard (p + 1) us y) :
    Heard p (ts ++ symbol s :: us) (.binary e noPos op y) := by
  obtain ⟨rfl, rfl⟩ := mem_binaryAt_iff.1 hop
  have hlt : op.precedence < 6 := op.precedence_lt
  refine ⟨fun h7 => absurd h7 (by omega), fun h6 => absurd h6 (by omega), ?_⟩
  intro q hq rest r hrest hr
  -- the left operand stops at this operator, the right one before all others as weak
  rw [List.append_assoc]
  refine hx.expr q hq _ r (stops_binary op _) ?_
  refine yields_readOperators_cons (binary?_symbol op hq _) ?_ hr
  exact hy.expr _ (Nat.le_refl _) rest _ (hrest.mono (Nat.le_succ _))
    (yields_readOperators_nil hrest.2)

end Heard

section Complete

variable {A : Alphabet}

/-- The first lexeme of an expression is none that could end one. -/
theorem Reads.expect_eq_none {s : String} (hs : s ∈ closers) (rest : List Lexeme) {p : Nat}
    {ts : List Lexeme} {e : Expr} : Reads A p ts e → expect s (ts ++ rest) = none
  | .ident _ => rfl
  | .paren _ => expect_ne (by rintro rfl; revert hs; decide) _
  | .selector h _ | .index h _ | .slice h _ _ | .sliceThree h _ _ _ | .callNone h
  | .call _ _ h _ | .binary _ h _ => by
    rw [List.append_assoc]
    exact h.expect_eq_none hs _
  | @Reads.unary _ _ op _ _ hop _ => by
    obtain rfl := mem_unaryOps_iff.1 hop
    exact expect_ne (by rintro rfl; revert hs; cases op <;> decide) _
  | .star _ => expect_ne (by rintro rfl; revert hs; decide) _
  | .weaken _ h => h.expect_eq_none hs rest

theorem ReadsArgs.expect_eq_none {s : String} (hs : s ∈ closers) (rest : List Lexeme) {ts : List Lexeme}
    {args : List Expr} : ReadsArgs A ts args → expect s (ts ++ rest) = none
  | .one h => h.expect_eq_none hs rest
  | .more h _ => by
    rw [List.append_assoc]
    exact h.expect_eq_none hs _

theorem Heard.yields_readBound {p : Nat} {ts : List Lexeme} {e : Expr} {s : String} (h : Heard p ts e)
    (he : Reads A p ts e) (hs : s ∈ closers) (rest : List Lexeme) :
    Yields (readBound · (ts ++ symbol s :: rest)) (some e, symbol s :: rest) := by
  refine yields_readBound_some ?_ (h.whole (stops_closer hs 0 rest))
  rw [he.expect_eq_none (by decide), he.expect_eq_none (by decide)]
  rfl

theorem front?_symbol (op : UnaryOp) : front? op.symbol = some (.unary noPos op) := by
  cases op <;> rfl

mutual

/-- The reader finds every expression that the grammar has. -/
theorem Reads.heard {p : Nat} {ts : List Lexeme} {e : Expr} : Reads A p ts e → Heard p ts e
  | .ident _ => .of_primary fun _ _ h => yields_readUnary_word h
  | .paren hx => .of_primary fun rest r hr => by
    rw [List.cons_append, List.append_assoc]
    exact yields_readUnary_paren (hx.heard.whole (stops_closer (by decide) 0 _)) hr
  | .selector hx _ => .of_primary fun rest r hr => by
    rw [List.append_assoc]
    exact hx.heard.primary (Nat.le_refl 7) _ r (yields_readPostfix_selector hr)
  | .index hx hi => .of_primary fun rest r hr => by
    have hindex := hi.heard.yields_readBound hi (s := "]") (by decide) rest
    simp only [List.append_assoc, List.cons_append, List.nil_append]
    exact hx.heard.primary (Nat.le_refl 7) _ r
      (yields_readPostfix_brackets (yields_readBrackets_index hindex) hr)
  | .slice hx hlow hhigh => .of_primary fun rest r hr => by
    simp only [List.append_assoc, List.cons_append, List.nil_append]
    refine hx.heard.primary (Nat.le_refl 7) _ r (yields_readPostfix_brackets ?_ hr)
    exact yields_readBrackets_slice (hlow.heard (.inr rfl) _) (hhigh.heard (.inl rfl) rest)
  | .sliceThree hx hlow hhigh hmax => .of_primary fun rest r hr => by
    simp only [List.append_assoc, List.cons_append, List.nil_append]
    refine hx.heard.primary (Nat.le_refl 7) _ r (yields_readPostfix_brackets ?_ hr)
    exact yields_readBrackets_sliceThree (hlow.heard (.inr rfl) _)
      (hhigh.heard.yields_readBound hhigh (by decide) _)
      (hmax.heard.yields_readBound hmax (by decide) rest)
  | .callNone hf => .of_primary fun rest r hr => by
    rw [List.append_assoc]
    exact hf.heard.primary (Nat.le_refl 7) _ r (yields_readPostfix_call yields_readCall_none hr)
  | .call spread comma hf hargs => .of_primary fun rest r hr => by
    simp only [List.append_assoc, List.cons_append, List.nil_append]
    refine hf.heard.primary (Nat.le_refl 7) _ r (yields_readPostfix_call ?_ hr)
    exact yields_readCall (hargs.expect_eq_none (by decide) _) (hargs.heard spread comma rest)
  | @Reads.unary _ _ op _ _ hop hx => .of_unary fun rest hrest => by
    obtain rfl := mem_unaryOps_iff.1 hop
    exact yields_readUnary_front (by cases op <;> decide) (front?_symbol op)
      (hx.heard.unary (Nat.le_refl 6) rest hrest)
  | .star hx => .of_unary fun rest hrest =>
    yields_readUnary_front (by decide) rfl (hx.heard.unary (Nat.le_refl 6) rest hrest)
  | .binary hop hx hy => .binary hop hx.heard hy.heard
  | .weaken hpq hx => hx.heard.weaken hpq

theorem ReadsBound.heard {ts : List Lexeme} {e? : Option Expr} {s : String} (hs : s = "]" ∨ s = ":")
    (rest : List Lexeme) : ReadsBound A ts e? →
      Yields (readBound · (ts ++ symbol s :: rest)) (e?, symbol s :: rest)
  | .none => yields_readBound_none (by rcases hs with rfl | rfl <;> rfl)
  | .some hx => hx.heard.yields_readBound hx (by rcases hs with rfl | rfl <;> decide) rest

theorem ReadsArgs.heard {ts : List Lexeme} {args : List Expr} (spread comma : Bool)
    (rest : List Lexeme) : ReadsArgs A ts args →
      Yields (readArgs · (ts ++ (optionally spread "..." ++ (optionally comma "," ++
        symbol ")" :: rest)))) (args, spread, rest)
  | .one hx => by
    refine yields_readArgs_one spread comma (hx.heard.whole ?_)
    cases spread <;> cases comma <;> exact stops_closer (by decide) 0 _
  | .more hx hrest => by
    rw [List.append_assoc, List.cons_append]
    exact yields_readArgs_more (hx.heard.whole (stops_closer (by decide) 0 _))
      (hrest.expect_eq_none (by decide) _) (hrest.heard spread comma rest)

end

/-- No line of lexemes reads as two expressions. -/
theorem Reads.unique {p q : Nat} {ts : List Lexeme} {e e' : Expr} (h : Reads A p ts e)
    (h' : Reads A q ts e') : e = e' :=
  (Prod.mk.inj ((h.heard.whole (stops_nil 0)).unique (h'.heard.whole (stops_nil 0)))).1

end Complete

end LiteralFill
