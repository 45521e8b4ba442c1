import LiteralFill.Printer
import LiteralFill.Proofs.Printer.Rows

namespace LiteralFill

theorem lineOf_of_le {lines pos : Nat} (h : pos ≤ max lines 1) : lineOf lines pos = pos :=
  Nat.min_eq_left h

namespace Prints

variable {l m n : Nat} {ts us : List Token} {s right : String}

theorem parenthesize (h : Prints l ts s.toList m) (wrap : Bool) :
    Prints l ts (parenthesize wrap s).toList m := by
  cases wrap with
  | false => exact h
  | true =>
    have hclose : Prints l ts (s.toList ++ [')']) m := before rfl h
    simp only [LiteralFill.parenthesize, ↓reduceIte, String.toList_append, List.append_assoc]
    exact .filler rfl hclose

/-- An operator and its right operand, with or without a blank between them. -/
theorem glue (h : Prints l ts right.toList m) (depth : Nat) (op : String) :
    Prints l (.mark depth op l :: ts) (glue op right).toList m := by
  rw [LiteralFill.glue, String.toList_append, String.toList_append, List.append_assoc]
  refine (Prints.mark depth op l).append (h.after ?_)
  split <;> rfl

theorem spacedOperator (h : Prints l ts right.toList m) (depth : Nat) (op : String) (spaced : Prop)
    [Decidable spaced] :
    Prints l (.mark depth op l :: ts)
      (if spaced then " " ++ op ++ " " ++ right else LiteralFill.glue op right).toList m := by
  split
  · simp only [String.toList_append, List.append_assoc]
    exact .filler rfl ((Prints.mark depth op l).append (.filler rfl h))
  · exact h.glue depth op

end Prints

theorem isFiller_sliceColon (blanks : Bool) (left right : Option String) :
    (sliceColon blanks left right).toList.all isFiller = true := by
  unfold sliceColon
  split <;> split <;> rfl

namespace Prints

theorem sliceBounds {l m n k : Nat} {ts us vs : List Token} {low? high? max? : Option String}
    {three : Bool} (blanks : Bool) (hlow : Prints l ts (low?.getD "").toList m)
    (hhigh : Prints m us (high?.getD "").toList n) (hmax : Prints n vs (max?.getD "").toList k)
    (hthree : max?.isSome → three = true) :
    Prints l (ts ++ us ++ vs) (sliceBounds blanks three low? high? max?).toList k := by
  have htwo := hlow.append (hhigh.after (isFiller_sliceColon blanks low? high?))
  cases three with
  | true =>
    simpa only [LiteralFill.sliceBounds, ↓reduceIte, String.toList_append, List.append_assoc] using
      htwo.append (hmax.after (isFiller_sliceColon blanks high? max?))
  | false =>
    obtain rfl : max? = none := by
      cases max? with
      | none => rfl
      | some _ => cases hthree rfl
    simpa only [LiteralFill.sliceBounds, Bool.false_eq_true, ↓reduceIte, String.toList_append,
      List.append_assoc, Option.getD_none] using htwo.append hmax

end Prints

theorem isSome_layOutOpt (p : Nat) (e? : Option Expr) : (layOutOpt p e?).isSome = e?.isSome := by
  cases e? <;> rfl

theorem printCells_cons (lines indent : Nat) (e : Expr) (rest : List Expr) :
    ∃ c, printCells lines indent (e :: rest) = c :: printCells lines indent rest ∧
      c.firstLine = lineOf lines e.firstPos ∧ c.lastLine = lineOf lines e.lastPos ∧
      ∀ blanks, c.spaced blanks = match e with
        | .keyValue key _ value => (key.print lines lowestPrec 1 indent).toList ++
          ':' :: (List.replicate blanks ' ' ++ (value.print lines lowestPrec 1 indent).toList)
        | e => (e.print lines lowestPrec 1 indent).toList := by
  cases e <;> exact ⟨_, rfl, rfl, rfl, fun _ => rfl⟩

theorem printCells_ne_nil (lines indent : Nat) (e : Expr) (rest : List Expr) :
    printCells lines indent (e :: rest) ≠ [] := by
  obtain ⟨c, hc, -⟩ := printCells_cons lines indent e rest
  rw [hc]
  exact List.cons_ne_nil _ _

/-- No layout leaves the elements of a literal on the line of its brace. -/
theorem onOneLine_layOutElements {lines p : Nat} {e : Expr} {rest : List Expr}
    (h : p + 1 ≤ max lines 1) : onOneLine lines p (layOutElements p (e :: rest)) = false := by
  simp only [onOneLine, layOutElements, List.head?_cons, Option.map_some, Expr.firstPos_layOut,
    lineOf_of_le h, lineOf_of_le (Nat.le_of_succ_le h)]
  simp

/-- The closing brace of a literal lies below the lines of its elements. -/
theorem Expr.layOut_compositeLit_cons (p : Nat) (type? : Option Expr) (lbrace rbrace : Nat) (e : Expr)
    (rest : List Expr) :
    (Expr.compositeLit type? lbrace (e :: rest) rbrace).layOut p =
      .compositeLit (layOutOpt p type?) (p + advancesOpt type?)
        (layOutElements (p + advancesOpt type?) (e :: rest))
        (p + advancesOpt type? + ((e :: rest).length + advancesAll (e :: rest)) + 1) := by
  have hend : p + advancesOpt type? + ((e :: rest).length + 1) + advancesAll (e :: rest) =
      p + advancesOpt type? + ((e :: rest).length + advancesAll (e :: rest)) + 1 := by omega
  rw [layOut, List.isEmpty_cons, if_neg Bool.false_ne_true, hend]

theorem Expr.advances_compositeLit_cons (type? : Option Expr) (lbrace rbrace : Nat) (e : Expr)
    (rest : List Expr) : (Expr.compositeLit type? lbrace (e :: rest) rbrace).advances =
      advancesOpt type? + ((e :: rest).length + advancesAll (e :: rest)) + 1 := by
  rw [advances, List.isEmpty_cons, if_neg Bool.false_ne_true]
  omega

/-- Printed with room for all its lines, a literal has each of its elements on lines of its own. -/
theorem Expr.print_layOut_compositeLit_cons {lines p : Nat} (prec depth indent : Nat) (hp : 0 < p)
    (type? : Option Expr) (lbrace rbrace : Nat) (e : Expr) (rest : List Expr)
    (hroom : p + advancesOpt type? + ((e :: rest).length + advancesAll (e :: rest)) + 1 ≤ max lines 1) :
    ((Expr.compositeLit type? lbrace (e :: rest) rbrace).layOut p).print lines prec depth indent =
      (printOpt lines highestPrec depth indent (layOutOpt p type?)).getD "" ++ "\x7b" ++
        brokenList ⟨p + advancesOpt type?,
          p + advancesOpt type? + ((e :: rest).length + advancesAll (e :: rest)) + 1, true⟩ indent
          (printCells lines (indent + 1) (layOutElements (p + advancesOpt type?) (e :: rest))) ++
        "\x7d" := by
  -- the hint clamps no position here, and the first element lies below the brace
  rw [layOut_compositeLit_cons, print, isEmpty_layOutElements, List.isEmpty_cons,
    if_neg Bool.false_ne_true, onOneLine_layOutElements (by omega), if_neg Bool.false_ne_true,
    lineOf_of_le (by omega), lineOf_of_le hroom,
    decide_eq_true (Nat.lt_of_lt_of_le hp (Nat.le_add_right p _)),
    decide_eq_true (Nat.succ_pos _), Bool.and_self]

section Layout

variable {lines : Nat}

mutual

/-- Printed with room for all its lines, an expression that is laid out from the line `p` on shows every
token on the line of its position. -/
theorem Expr.prints_layOut (prec depth indent : Nat) {p : Nat} (hp : 0 < p) :
    (e : Expr) → p + e.advances ≤ max lines 1 →
      Prints p ((e.layOut p).tokens indent) ((e.layOut p).print lines prec depth indent).toList
        (p + e.advances)
  | .ident _ _, _ | .basicLit _ _ _, _ | .funcLit _ _, _ => .mark indent _ p
  | .compositeLit type? _ [] _, hroom => by
    have htype := prints_layOutOpt highestPrec depth indent hp type? hroom
    simp only [Expr.layOut, Expr.tokens, Expr.print, String.toList_append, List.append_assoc]
    exact htype.append ((Prints.mark indent "\x7b" _).append (.mark indent "\x7d" _))
  | .compositeLit type? lbrace (e :: rest) rbrace, hroom => by
    rw [Expr.advances_compositeLit_cons, ← Nat.add_assoc, ← Nat.add_assoc] at hroom ⊢
    have htype := prints_layOutOpt highestPrec depth indent hp type? (by omega)
    have helts := printsCells_layOutElements (indent + 1) (p := p + advancesOpt type?) (by omega)
      (e :: rest) (by omega)
    have hlist := helts.prints_brokenList (by omega) (printCells_ne_nil _ _ _ _) true
    rw [Expr.print_layOut_compositeLit_cons prec depth indent hp type? lbrace rbrace e rest hroom,
      Expr.layOut_compositeLit_cons]
    simp only [Expr.tokens, isEmpty_layOutElements, String.toList_append, List.append_assoc]
    exact htype.append ((Prints.mark indent "\x7b" _).append hlist)
  | .keyValue key _ value, hroom => by
    rw [Expr.advances] at hroom
    have hkey := key.prints_layOut lowestPrec 1 indent hp (by omega)
    have hvalue := value.prints_layOut lowestPrec 1 indent (p := p + key.advances) (by omega)
      (by omega)
    simp only [Expr.layOut, Expr.tokens, Expr.print, Expr.advances, ← Nat.add_assoc,
      String.toList_append, List.append_assoc]
    exact hkey.append ((Prints.mark indent ":" _).append (.filler rfl hvalue))
  | .binary x _ op y, hroom => by
    rw [Expr.advances] at hroom
    simp only [Expr.layOut, Expr.tokens, Expr.print, Expr.advances, ← Nat.add_assoc]
    apply Prints.parenthesize
    rw [String.toList_append]
    exact (x.prints_layOut _ _ indent hp (by omega)).append
      ((y.prints_layOut _ _ indent (by omega) (by omega)).spacedOperator indent op.symbol _)
  | .unary _ op x, hroom =>
    ((x.prints_layOut _ _ indent hp hroom).glue indent op.symbol).parenthesize _
  | .call callee _ args spread _, hroom => by
    rw [Expr.advances] at hroom
    have hargs := prints_layOutArgs (if 1 < (layOutArgs (p + callee.advances) args).length then
      depth + 1 else depth) indent (p := p + callee.advances) (by omega) args (by omega)
    simp only [Expr.layOut, Expr.tokens, Expr.print, Expr.advances, ← Nat.add_assoc,
      String.toList_append, List.append_assoc, List.cons_append]
    refine (callee.prints_layOut _ _ indent hp (by omega)).append
      ((Prints.mark indent "(" _).append (hargs.append (.after ?_ (.mark indent ")" _))))
    split <;> rfl
  | .selector x name _, hroom => by
    simp only [Expr.layOut, Expr.tokens, Expr.print, Expr.advances, String.toList_append,
      List.append_assoc]
    exact (x.prints_layOut _ _ indent hp hroom).append (.filler rfl (.mark indent name _))
  | .index x _ index _, hroom => by
    rw [Expr.advances] at hroom
    simp only [Expr.layOut, Expr.tokens, Expr.print, Expr.advances, ← Nat.add_assoc,
      String.toList_append, List.append_assoc, List.cons_append]
    exact (x.prints_layOut _ _ indent hp (by omega)).append ((Prints.mark indent "[" _).append
      ((index.prints_layOut _ _ indent (by omega) (by omega)).append (.mark indent "]" _)))
  | .slice x _ low? high? max? threeIndex _, hroom => by
    rw [Expr.advances] at hroom
    simp only [Expr.layOut, Expr.tokens, Expr.print, Expr.advances, ← Nat.add_assoc,
      String.toList_append, List.append_assoc, List.cons_append, isSome_layOutOpt]
    refine (x.prints_layOut _ _ indent hp (by omega)).append ((Prints.mark indent "[" _).append ?_)
    have hlow := prints_layOutOpt lowestPrec (depth + 1) indent (p := p + x.advances) (by omega) low?
      (by omega)
    have hhigh := prints_layOutOpt lowestPrec (depth + 1) indent
      (p := p + x.advances + advancesOpt low?) (by omega) high? (by omega)
    have hmax := prints_layOutOpt lowestPrec (depth + 1) indent
      (p := p + x.advances + advancesOpt low? + advancesOpt high?) (by omega) max? (by omega)
    have hthree : (printOpt lines lowestPrec (depth + 1) indent (layOutOpt
        (p + x.advances + advancesOpt low? + advancesOpt high?) max?)).isSome →
        (threeIndex || max?.isSome) = true := by
      cases max? with
      | none => nofun
      | some _ => exact fun _ => Bool.or_true _
    have hbounds := fun blanks =>
      (Prints.sliceBounds blanks hlow hhigh hmax hthree).append (.mark indent "]" _)
    simp only [List.append_assoc] at hbounds
    exact hbounds _
  | .star _ x, hroom => by
    apply Prints.parenthesize
    rw [String.toList_append]
    exact (Prints.mark indent "*" p).append (x.prints_layOut _ _ indent hp hroom)
  | .paren _ x _, hroom => by
    simp only [Expr.layOut, Expr.tokens, Expr.print, Expr.advances, String.toList_append,
      List.append_assoc, List.cons_append]
    exact (Prints.mark indent "(" p).append ((x.prints_layOut _ _ indent hp hroom).append
      (.mark indent ")" _))
  | .ellipsis _ elt?, hroom => by
    simp only [Expr.layOut, Expr.tokens, Expr.print, Expr.advances, String.toList_append]
    exact (Prints.mark indent "..." p).append (prints_layOutOpt _ _ indent hp elt? hroom)
  | .arrayType _ len? elt, hroom => by
    rw [Expr.advances] at hroom
    simp only [Expr.layOut, Expr.tokens, Expr.print, Expr.advances, ← Nat.add_assoc,
      String.toList_append, List.append_assoc, List.cons_append]
    exact (Prints.mark indent "[" p).append ((prints_layOutOpt _ _ indent hp len? (by omega)).append
      (.filler rfl (elt.prints_layOut _ _ indent (by omega) (by omega))))
  | .mapType _ key value, hroom => by
    rw [Expr.advances] at hroom
    simp only [Expr.layOut, Expr.tokens, Expr.print, Expr.advances, ← Nat.add_assoc,
      String.toList_append, List.append_assoc, List.cons_append]
    exact (Prints.mark indent "map" p).append (.filler rfl
      ((key.prints_layOut _ _ indent hp (by omega)).append
        (.filler rfl (value.prints_layOut _ _ indent (by omega) (by omega)))))

theorem prints_layOutOpt (prec depth indent : Nat) {p : Nat} (hp : 0 < p) :
    (e? : Option Expr) → p + advancesOpt e? ≤ max lines 1 →
      Prints p (tokensOpt indent (layOutOpt p e?))
        ((printOpt lines prec depth indent (layOutOpt p e?)).getD "").toList (p + advancesOpt e?)
  | none, _ => .nil p
  | some e, hroom => e.prints_layOut prec depth indent hp hroom

theorem prints_layOutArgs (depth indent : Nat) {p : Nat} (hp : 0 < p) :
    (es : List Expr) → p + advancesAll es ≤ max lines 1 →
      Prints p (tokensArgs indent (layOutArgs p es))
        (", ".intercalate (printArgs lines depth indent (layOutArgs p es))).toList (p + advancesAll es)
  | [], _ => .nil p
  | [e], hroom => by
    simpa only [layOutArgs, tokensArgs, printArgs, String.intercalate_singleton, advancesAll,
      List.append_nil, Nat.add_zero] using e.prints_layOut lowestPrec depth indent hp hroom
  | e :: e' :: rest, hroom => by
    rw [advancesAll] at hroom
    have hrest := prints_layOutArgs depth indent (p := p + e.advances) (by omega) (e' :: rest)
      (by omega)
    rw [layOutArgs, tokensArgs, printArgs, advancesAll, ← Nat.add_assoc,
      String.intercalate_cons_of_ne_nil (by simp [layOutArgs, printArgs]), String.toList_append,
      String.toList_append, List.append_assoc]
    exact (e.prints_layOut _ _ indent hp (by omega)).append (.filler rfl (.filler rfl hrest))

theorem printsCells_layOutElements (indent : Nat) {p : Nat} (hp : 0 < p) :
    (es : List Expr) → p + (es.length + advancesAll es) ≤ max lines 1 →
      PrintsCells indent p (printCells lines indent (layOutElements p es))
        (tokensElements indent (layOutElements p es)) (p + (es.length + advancesAll es))
  | [], _ => .nil p
  | e :: rest, hroom => by
    simp only [List.length_cons, advancesAll] at hroom
    have hrest := printsCells_layOutElements indent (p := p + 1 + e.advances) (by omega) rest
      (by omega)
    obtain ⟨c, hc, hfirst, hlast, hspaced⟩ := printCells_cons lines indent (e.layOut (p + 1))
      (layOutElements (p + 1 + e.advances) rest)
    rw [Expr.firstPos_layOut, lineOf_of_le (by omega)] at hfirst
    rw [Expr.lastPos_layOut, lineOf_of_le (by omega)] at hlast
    have hprints : ∀ blanks, Prints (p + 1) ((e.layOut (p + 1)).tokens indent) (c.spaced blanks)
        (p + 1 + e.advances) := by
      intro blanks
      rw [hspaced]
      have he := e.prints_layOut lowestPrec 1 indent (p := p + 1) (by omega)
        (by omega)
      -- only an element with a key has blanks to set, between the colon and its value
      cases e with
      | keyValue key _ value =>
        rw [Expr.advances] at hroom
        have hkey := key.prints_layOut lowestPrec 1 indent (p := p + 1) (by omega) (by omega)
        have hvalue := value.prints_layOut lowestPrec 1 indent (p := p + 1 + key.advances) (by omega)
          (by omega)
        rw [Expr.layOut, Expr.tokens, Expr.advances, ← Nat.add_assoc]
        refine hkey.append ((Prints.mark indent ":" _).append (.after ?_ hvalue))
        rw [List.all_replicate]
        split <;> rfl
      | _ => exact he
    obtain ⟨text, ts, hts⟩ := (e.layOut (p + 1)).exists_tokens_eq_cons indent
    have hend : p + ((e :: rest).length + advancesAll (e :: rest)) =
        p + 1 + e.advances + (rest.length + advancesAll rest) := by
      simp only [List.length_cons, advancesAll]
      omega
    rw [layOutElements, hc, tokensElements, hts, hend]
    rw [hts] at hprints
    exact .cons hfirst hlast rfl rfl hprints hrest

end

end Layout

end LiteralFill
