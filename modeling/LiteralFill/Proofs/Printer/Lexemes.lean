import LiteralFill.Printer
import LiteralFill.Proofs.Grammar.Stars
import LiteralFill.Proofs.Printer.Spelling
import Mathlib.Data.List.Forall2
import Mathlib.Data.Option.Defs

namespace LiteralFill

open Lexeme (symbol word)

open Alphabet.Spells (startsWith_symbol startsWith_operator)

def parenthesized (wrap : Bool) (ts : List Lexeme) : List Lexeme :=
  if wrap then symbol "(" :: (ts ++ [symbol ")"]) else ts

mutual

/-- The lexemes of an expression of identifiers, operators, stars, parentheses, calls, selectors, indices
and slices at a place of binding strength `prec`. -/
def Expr.lexemes (prec : Nat) : Expr → List Lexeme
  | .ident name _ => [word name]
  | .binary x _ op y =>
    parenthesized (op.precedence < prec)
      (x.lexemes op.precedence ++ symbol op.symbol :: y.lexemes (op.precedence + 1))
  | .unary _ op x => parenthesized (unaryPrec < prec) (symbol op.symbol :: x.lexemes unaryPrec)
  | .star _ x => parenthesized (unaryPrec < prec) (symbol "*" :: x.lexemes lowestPrec)
  | .paren _ x _ => symbol "(" :: (x.lexemes lowestPrec ++ [symbol ")"])
  | .call callee _ args spread _ =>
    callee.lexemes highestPrec ++ symbol "(" ::
      ([symbol ","].intercalate (lexemesAll args) ++ (optionally spread "..." ++ [symbol ")"]))
  | .selector x name _ => x.lexemes highestPrec ++ [symbol ".", word name]
  | .index x _ index _ =>
    x.lexemes highestPrec ++ symbol "[" :: (index.lexemes lowestPrec ++ [symbol "]"])
  | .slice x _ low? high? max? threeIndex _ =>
    x.lexemes highestPrec ++ symbol "[" :: ((lexemesOpt low?).getD [] ++ symbol ":" ::
      ((lexemesOpt high?).getD [] ++
        ((if threeIndex then symbol ":" :: (lexemesOpt max?).getD [] else []) ++ [symbol "]"])))
  | _ => []

def lexemesOpt : Option Expr → Option (List Lexeme)
  | none => none
  | some e => some (e.lexemes lowestPrec)

def lexemesAll : List Expr → List (List Lexeme)
  | [] => []
  | e :: rest => e.lexemes lowestPrec :: lexemesAll rest

end

/-- A text that starts with an operand and is spelled with these lexemes. -/
structure Spelled (A : Alphabet) (text : String) (ts : List Lexeme) : Prop where
  starts : StartsWith A.StartsOperand text.toList
  spells : A.Spells text.toList ts

theorem BinaryOp.symbol_mem (op : BinaryOp) :
    op.symbol ∈ operators ∧ op.symbol ∈ Alphabet.beforeOperand := by
  cases op <;> decide +kernel

theorem UnaryOp.symbol_mem (op : UnaryOp) :
    op.symbol ∈ operators ∧ op.symbol ∈ Alphabet.beforeOperand := by
  cases op <;> decide +kernel

/-- What may come after a bound: it goes on with neither a word nor a colon. -/
def EndsBound (A : Alphabet) (c : Char) : Prop := A.inWord c = false ∧ runsOn ":" c = false

theorem spells_sliceColon {A : Alphabet} (blanks : Bool) (before after : Option String) {t : List Char}
    {us : List Lexeme} (h : A.Spells t us) (ht : StartsWith (runsOn ":" · = false) t) :
    A.Spells ((sliceColon blanks before after).toList ++ t) (symbol ":" :: us) ∧
      StartsWith (EndsBound A) ((sliceColon blanks before after).toList ++ t) := by
  have hcolon : ∀ blank : Bool,
      A.Spells (":".toList ++ ((if blank then " " else "").toList ++ t)) (symbol ":" :: us) := by
    intro blank
    cases blank with
    | true => exact .symbol (by decide) h.blank ⟨' ', t, rfl, runsOn_blank ":"⟩
    | false => exact .symbol (by decide) h ht
  have hhead : EndsBound A ':' :=
    ⟨(A.of_mem_mark (m := ":") (by decide) List.mem_cons_self).1, by decide +kernel⟩
  rw [sliceColon, String.toList_append, String.toList_append, List.append_assoc, List.append_assoc]
  cases blanks && before.isSome with
  | true => exact ⟨(hcolon _).blank, ' ', _, rfl, A.inWord_blank (.inl rfl), runsOn_blank ":"⟩
  | false => exact ⟨hcolon _, ':', _, rfl, hhead⟩

namespace Spelled

variable {A : Alphabet} {text left right : String} {ts us : List Lexeme}

theorem ident {name : String} (h : A.IsIdentifier name) : Spelled A name [word name] := by
  obtain ⟨c, rest, hname, hc, -⟩ := id h.1
  exact ⟨⟨c, rest, hname, .inl hc⟩, .word h.1⟩

theorem paren (h : Spelled A text ts) :
    Spelled A ("(" ++ text ++ ")") (symbol "(" :: (ts ++ [symbol ")"])) where
  starts := ⟨'(', _, by simp only [String.toList_append, List.append_assoc]; rfl, .inr (by decide)⟩
  spells := by
    simp only [String.toList_append, List.append_assoc]
    exact .bracket (by decide)
      (h.spells.append (.closing (by decide)) (startsWith_symbol (by decide)))

theorem parenthesize (h : Spelled A text ts) (wrap : Bool) :
    Spelled A (parenthesize wrap text) (parenthesized wrap ts) := by
  cases wrap with
  | true => exact h.paren
  | false => exact h

/-- An operator in front of its operand. -/
theorem front {op : String} (hop : op ∈ operators) (hbefore : op ∈ Alphabet.beforeOperand)
    (hstart : StartsWith A.StartsOperand op.toList) (h : Spelled A text ts) :
    Spelled A (glue op text) (symbol op :: ts) where
  starts := by
    rw [glue, String.append_assoc, String.toList_append]
    exact hstart.append _
  spells := .glue hop hbefore h.spells h.starts

/-- An operand goes on with a symbol. -/
theorem append {rest : String} (h : Spelled A text ts) (hrest : A.Spells rest.toList us)
    (hstart : StartsWith (A.inWord · = false) rest.toList) : Spelled A (text ++ rest) (ts ++ us) := by
  refine ⟨?_, ?_⟩ <;> rw [String.toList_append]
  · exact h.starts.append _
  · exact h.spells.append hrest hstart

theorem binary (op : BinaryOp) (hx : Spelled A left ts) (hy : Spelled A right us) (spaced : Prop)
    [Decidable spaced] :
    Spelled A (left ++ if spaced then " " ++ op.symbol ++ " " ++ right else glue op.symbol right)
      (ts ++ symbol op.symbol :: us) :=
  hx.append (.operator op.symbol_mem.1 op.symbol_mem.2 hy.spells hy.starts spaced)
    (startsWith_operator op.symbol_mem.1 right spaced)

theorem selector {name : String} (h : Spelled A text ts) (hname : A.IsIdentifier name) :
    Spelled A (text ++ "." ++ name) (ts ++ [symbol ".", word name]) := by
  obtain ⟨c, rest, hc, hletter, -⟩ := id hname.1
  have hdot : StartsWith (runsOn "." · = false) name.toList := by
    refine ⟨c, rest, hc, A.runsOn_inWord "." ?_⟩
    rw [Alphabet.inWord, hletter, Bool.true_or]
  rw [String.append_assoc]
  refine h.append ?_ ?_ <;> rw [String.toList_append]
  · exact .symbol (by decide) (.word hname.1) hdot
  · exact (startsWith_symbol (by decide)).append _

/-- Brackets around what stands behind an operand. -/
theorem bracketed {op close inside : String} (hop : op ∈ ["(", "["]) (h : Spelled A text ts)
    (hinside : A.Spells (inside.toList ++ close.toList) us) :
    Spelled A (text ++ op ++ inside ++ close) (ts ++ symbol op :: us) := by
  have hmem : ∀ op ∈ ["(", "["], op ∈ ["(", ")", "[", "]", ","] ∧ op ∈ operators := by decide +kernel
  simp only [String.append_assoc]
  refine h.append ?_ ?_ <;> rw [String.toList_append]
  · rw [String.toList_append]
    exact .bracket (hmem op hop).1 hinside
  · exact (startsWith_symbol (hmem op hop).2).append _

theorem index {inside : String} (hx : Spelled A text ts) (hi : Spelled A inside us) :
    Spelled A (text ++ "[" ++ inside ++ "]") (ts ++ symbol "[" :: (us ++ [symbol "]"])) :=
  hx.bracketed (by decide) (hi.spells.append (.closing (by decide)) (startsWith_symbol (by decide)))

theorem spells_intercalate {texts : List String} {tss : List (List Lexeme)}
    (h : List.Forall₂ (Spelled A) texts tss) :
    A.Spells (", ".intercalate texts).toList ([symbol ","].intercalate tss) := by
  induction h with
  | nil => exact .nil
  | cons hx hrest ih =>
    cases hrest with
    | nil =>
      rw [String.intercalate_singleton, List.intercalate_singleton]
      exact hx.spells
    | cons hx' hrest =>
      have hcomma : A.Spells (",".toList ++ ' ' :: (", ".intercalate _).toList) (symbol "," :: _) :=
        .bracket (by decide) ih.blank
      have hall := hx.spells.append hcomma ((startsWith_symbol (by decide)).append _)
      rw [String.intercalate_cons_cons, List.intercalate_cons_cons, String.toList_append,
        String.toList_append, List.append_assoc, List.append_assoc]
      exact hall

theorem call {texts : List String} {tss : List (List Lexeme)} (hf : Spelled A text ts)
    (hargs : List.Forall₂ (Spelled A) texts tss) (spread : Bool) :
    Spelled A (text ++ "(" ++ ", ".intercalate texts ++ (if spread then "..." else "") ++ ")")
      (ts ++ symbol "(" ::
        ([symbol ","].intercalate tss ++ (optionally spread "..." ++ [symbol ")"]))) := by
  have hclose : A.Spells ")".toList [symbol ")"] := .closing (by decide)
  have hparen : StartsWith (A.inWord · = false) ")".toList := startsWith_symbol (by decide)
  have hend : A.Spells ((if spread then "..." else "").toList ++ ")".toList)
      (optionally spread "..." ++ [symbol ")"]) ∧
      StartsWith (A.inWord · = false) ((if spread then "..." else "").toList ++ ")".toList) := by
    cases spread with
    | false => exact ⟨hclose, hparen⟩
    | true =>
      have hdots : A.Spells ("...".toList ++ ")".toList) [symbol "...", symbol ")"] :=
        .symbol (by decide) hclose ⟨')', [], rfl, by decide +kernel⟩
      exact ⟨hdots, (startsWith_symbol (by decide)).append _⟩
  have hassoc : text ++ "(" ++ ", ".intercalate texts ++ (if spread then "..." else "") =
      text ++ "(" ++ (", ".intercalate texts ++ if spread then "..." else "") := String.append_assoc
  rw [hassoc]
  refine hf.bracketed (by decide) ?_
  rw [String.toList_append, List.append_assoc]
  exact (spells_intercalate hargs).append hend.1 hend.2

/-- A bound in front of what may come after one. -/
theorem spells_bound {text? : Option String} {ts? : Option (List Lexeme)} {t : List Char}
    (h : Option.Rel (Spelled A) text? ts?) (ht : A.Spells t us) (hstart : StartsWith (EndsBound A) t) :
    A.Spells ((text?.getD "").toList ++ t) (ts?.getD [] ++ us) ∧
      StartsWith (runsOn ":" · = false) ((text?.getD "").toList ++ t) := by
  cases h with
  | none => exact ⟨ht, hstart.imp fun _ hc => hc.2⟩
  | some h =>
    refine ⟨h.spells.append ht (hstart.imp fun _ hc => hc.1), (h.starts.imp fun c hc => ?_).append t⟩
    exact hc.runsOn_eq_false A (by decide) (by simp [mayCombine])

theorem slice {low high max : Option String} {us vs ws : Option (List Lexeme)} (hx : Spelled A text ts)
    (hlow : Option.Rel (Spelled A) low us) (hhigh : Option.Rel (Spelled A) high vs)
    (hmax : Option.Rel (Spelled A) max ws) (blanks three : Bool) :
    Spelled A (text ++ "[" ++ sliceBounds blanks three low high max ++ "]")
      (ts ++ symbol "[" :: (us.getD [] ++ symbol ":" :: (vs.getD [] ++
        ((if three then symbol ":" :: ws.getD [] else []) ++ [symbol "]"])))) := by
  have hclose : A.Spells "]".toList [symbol "]"] := .closing (by decide)
  have hend : StartsWith (EndsBound A) "]".toList :=
    ⟨']', [], rfl, (A.of_mem_mark (m := "]") (by decide) List.mem_cons_self).1, by decide +kernel⟩
  refine hx.bracketed (by decide) ?_
  -- the text is built up from the closing bracket to the left
  cases three with
  | false =>
    have hhigh := spells_bound hhigh hclose hend
    have hcolon := spells_sliceColon blanks low high hhigh.1 hhigh.2
    have hlow := spells_bound hlow hcolon.1 hcolon.2
    simpa only [sliceBounds, Bool.false_eq_true, ↓reduceIte, String.append_empty,
      String.toList_append, List.append_assoc, List.nil_append] using hlow.1
  | true =>
    have hmax := spells_bound hmax hclose hend
    have hcolonMax := spells_sliceColon blanks high max hmax.1 hmax.2
    have hhigh := spells_bound hhigh hcolonMax.1 hcolonMax.2
    have hcolon := spells_sliceColon blanks low high hhigh.1 hhigh.2
    have hlow := spells_bound hlow hcolon.1 hcolon.2
    simpa only [sliceBounds, ↓reduceIte, String.toList_append, List.append_assoc,
      List.cons_append] using hlow.1

end Spelled

theorem forall₂_printArgs {A : Alphabet} (lines depth indent : Nat) {args : List Expr}
    (h : ∀ e ∈ args, Spelled A (e.print lines lowestPrec depth indent) (e.lexemes lowestPrec)) :
    List.Forall₂ (Spelled A) (printArgs lines depth indent args) (lexemesAll args) := by
  induction args with
  | nil => exact .nil
  | cons e rest ih =>
    obtain ⟨he, hrest⟩ := List.forall_mem_cons.1 h
    exact .cons he (ih hrest)

theorem rel_printOpt {A : Alphabet} (lines depth indent : Nat) {e? : Option Expr}
    (h : ∀ e ∈ e?, Spelled A (e.print lines lowestPrec depth indent) (e.lexemes lowestPrec)) :
    Option.Rel (Spelled A) (printOpt lines lowestPrec depth indent e?) (lexemesOpt e?) := by
  cases e? with
  | none => exact .none
  | some e => exact .some (h e rfl)

/-- At every place, however deep, the blanks keep the lexemes of an expression apart. -/
theorem Expr.Starred.spelled {A : Alphabet} {e : Expr} (h : e.Starred A) (lines prec depth indent : Nat) :
    Spelled A (e.print lines prec depth indent) (e.lexemes prec) := by
  induction h generalizing prec depth with
  | ident _ hname => exact .ident hname
  | binary _ op _ _ ihx ihy => exact (Spelled.binary op (ihx _ _) (ihy _ _) _).parenthesize _
  | unary _ op _ ih =>
    have hstart : StartsWith A.StartsOperand op.symbol.toList := by
      cases op <;> exact ⟨_, _, rfl, .inr (by decide)⟩
    exact (Spelled.front op.symbol_mem.1 op.symbol_mem.2 hstart (ih _ _)).parenthesize _
  | star _ _ ih =>
    -- no symbol begins with a star and another character that an operand can start with
    have hglue : ∀ text : String, glue "*" text = "*" ++ text := by simp [glue, mayCombine]
    have hstart : StartsWith A.StartsOperand "*".toList := ⟨'*', [], rfl, .inr (by decide)⟩
    rw [Expr.print, ← hglue]
    exact (Spelled.front (by decide) (by decide) hstart (ih _ _)).parenthesize _
  | paren _ _ _ ih => exact (ih _ _).paren
  | call _ _ _ _ _ ihf ihargs =>
    exact (ihf _ _).call (forall₂_printArgs lines _ indent fun e he => ihargs e he _ _) _
  | selector _ _ hname ih => exact (ih _ _).selector hname
  | index _ _ _ _ ihx ihi => exact (ihx _ _).index (ihi _ _)
  | slice _ _ _ _ _ _ hthree _ ihx ihlow ihhigh ihmax =>
    have hslice := (ihx highestPrec 1).slice
      (rel_printOpt lines (depth + 1) indent fun e he => ihlow e he _ _)
      (rel_printOpt lines (depth + 1) indent fun e he => ihhigh e he _ _)
      (rel_printOpt lines (depth + 1) indent fun e he => ihmax e he _ _)
    subst hthree
    rw [Expr.print, Bool.or_self]
    exact hslice _ _

end LiteralFill
