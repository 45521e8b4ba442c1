import LiteralFill.Proofs.Layout.Tokens

namespace LiteralFill

/-- Positions that lead from the line `p` to the line `q`, one line at a time. -/
inductive Climb : Nat → List Nat → Nat → Prop where
  | nil (p : Nat) : Climb p [] p
  | stay {p q : Nat} {ps : List Nat} : Climb p ps q → Climb p (p :: ps) q
  | next {p q : Nat} {ps : List Nat} : Climb (p + 1) ps q → Climb p ((p + 1) :: ps) q

namespace Climb

variable {p q r : Nat} {ps qs : List Nat}

theorem append (h : Climb p ps q) (h' : Climb q qs r) : Climb p (ps ++ qs) r := by
  induction h with
  | nil => exact h'
  | stay _ ih => exact stay (ih h')
  | next _ ih => exact next (ih h')

/-- Positions that start a line below lead there from the line above. -/
theorem rise (h : Climb (p + 1) ps q) (hhead : ps.head? = some (p + 1)) : Climb p ps q := by
  cases h with
  | nil => cases hhead
  | stay h => exact next h
  | next h => simp at hhead

theorem isChain (h : Climb p ps q) : (p :: ps).IsChain fun a b => a ≤ b ∧ b ≤ a + 1 := by
  induction h with
  | nil => exact .singleton _
  | stay _ ih => exact List.isChain_cons_cons.2 ⟨⟨Nat.le_refl _, Nat.le_succ _⟩, ih⟩
  | next _ ih => exact List.isChain_cons_cons.2 ⟨⟨Nat.le_succ _, Nat.le_refl _⟩, ih⟩

theorem getLast? (h : Climb p ps q) : (p :: ps).getLast? = some q := by
  induction h with
  | nil => rfl
  | stay _ ih => rw [List.getLast?_cons_cons, ih]
  | next _ ih => rw [List.getLast?_cons_cons, ih]

theorem bounds (h : Climb p ps q) : p ≤ q ∧ ∀ a ∈ ps, p ≤ a ∧ a ≤ q := by
  induction h with
  | nil => exact ⟨Nat.le_refl _, nofun⟩
  | stay _ ih =>
    obtain ⟨hle, ih⟩ := ih
    refine ⟨hle, fun a ha => ?_⟩
    rcases List.mem_cons.1 ha with rfl | ha
    · exact ⟨Nat.le_refl _, hle⟩
    · exact ih a ha
  | next _ ih =>
    obtain ⟨hle, ih⟩ := ih
    refine ⟨Nat.le_of_succ_le hle, fun a ha => ?_⟩
    rcases List.mem_cons.1 ha with rfl | ha
    · exact ⟨Nat.le_succ _, hle⟩
    · exact ⟨Nat.le_of_succ_le (ih a ha).1, (ih a ha).2⟩

end Climb

open Climb

theorem map_pos_modifyHead_opened (ts : List Token) :
    (ts.modifyHead Token.opened).map Token.pos = ts.map Token.pos := by
  cases ts <;> rfl

mutual

/-- A layout leads from its first line to the last one that the expression advances to. -/
theorem Expr.climb_layOut (depth p : Nat) :
    (e : Expr) → Climb p (((e.layOut p).tokens depth).map Token.pos) (p + e.advances)
  | .ident _ _ | .basicLit _ _ _ | .funcLit _ _ => stay (nil p)
  | .compositeLit type? _ elts _ => by
    have hbrace := climb_layOutElements (depth + 1) (p + advancesOpt type?) elts
    simp only [Expr.layOut, Expr.tokens, List.map_append, List.map_cons, Token.pos_mark,
      List.append_assoc, List.cons_append, Expr.advances, ← Nat.add_assoc]
    refine (climb_layOutOpt depth p type?).append (stay (hbrace.append ?_))
    cases elts with
    | nil => exact stay (nil _)
    | cons e rest =>
      have hend : p + advancesOpt type? + ((e :: rest).length + 1) + advancesAll (e :: rest) =
          p + advancesOpt type? + ((e :: rest).length + advancesAll (e :: rest)) + 1 := by omega
      simp only [List.isEmpty_cons, Bool.false_eq_true, ↓reduceIte, List.map_nil, hend]
      exact next (nil _)
  | .keyValue x _ y | .binary x _ _ y => by
    simp only [Expr.layOut, Expr.tokens, List.map_append, List.map_cons, Token.pos_mark,
      Expr.advances, ← Nat.add_assoc]
    exact (x.climb_layOut depth p).append (stay (y.climb_layOut depth _))
  | .unary _ _ x | .star _ x => stay (x.climb_layOut depth p)
  | .call callee _ args _ _ => by
    simp only [Expr.layOut, Expr.tokens, List.map_append, List.map_cons, Token.pos_mark,
      Expr.advances, ← Nat.add_assoc, List.append_assoc, List.cons_append]
    exact (callee.climb_layOut depth p).append
      (stay ((climb_layOutArgs depth _ args).append (stay (nil _))))
  | .selector x _ _ => by
    simp only [Expr.layOut, Expr.tokens, List.map_append, List.map_cons, Token.pos_mark,
      Expr.advances]
    exact (x.climb_layOut depth p).append (stay (nil _))
  | .index x _ index _ => by
    simp only [Expr.layOut, Expr.tokens, List.map_append, List.map_cons, Token.pos_mark,
      Expr.advances, ← Nat.add_assoc, List.append_assoc, List.cons_append]
    exact (x.climb_layOut depth p).append
      (stay ((index.climb_layOut depth _).append (stay (nil _))))
  | .slice x _ low? high? max? _ _ => by
    simp only [Expr.layOut, Expr.tokens, List.map_append, List.map_cons, Token.pos_mark,
      Expr.advances, ← Nat.add_assoc, List.append_assoc, List.cons_append]
    exact (x.climb_layOut depth p).append (stay ((climb_layOutOpt depth _ low?).append
      ((climb_layOutOpt depth _ high?).append
        ((climb_layOutOpt depth _ max?).append (stay (nil _))))))
  | .paren _ x _ => by
    simp only [Expr.layOut, Expr.tokens, List.map_append, List.map_cons, Token.pos_mark,
      Expr.advances, List.cons_append]
    exact stay ((x.climb_layOut depth p).append (stay (nil _)))
  | .ellipsis _ elt? => stay (climb_layOutOpt depth p elt?)
  | .arrayType _ len? elt => by
    simp only [Expr.layOut, Expr.tokens, List.map_append, List.map_cons, Token.pos_mark,
      Expr.advances, ← Nat.add_assoc, List.cons_append]
    exact stay ((climb_layOutOpt depth p len?).append (elt.climb_layOut depth _))
  | .mapType _ key value => by
    simp only [Expr.layOut, Expr.tokens, List.map_append, List.map_cons, Token.pos_mark,
      Expr.advances, ← Nat.add_assoc, List.cons_append]
    exact stay ((key.climb_layOut depth p).append (value.climb_layOut depth _))

theorem climb_layOutOpt (depth p : Nat) : (e? : Option Expr) →
    Climb p ((tokensOpt depth (layOutOpt p e?)).map Token.pos) (p + advancesOpt e?)
  | none => nil p
  | some e => e.climb_layOut depth p

theorem climb_layOutArgs (depth p : Nat) : (es : List Expr) →
    Climb p ((tokensArgs depth (layOutArgs p es)).map Token.pos) (p + advancesAll es)
  | [] => nil p
  | e :: rest => by
    simp only [layOutArgs, tokensArgs, List.map_append, advancesAll, ← Nat.add_assoc]
    exact (e.climb_layOut depth p).append (climb_layOutArgs depth _ rest)

/-- Each element starts one line below what precedes it. -/
theorem climb_layOutElements (depth p : Nat) : (es : List Expr) →
    Climb p ((tokensElements depth (layOutElements p es)).map Token.pos)
      (p + (es.length + advancesAll es))
  | [] => nil p
  | e :: rest => by
    -- the element is a climb from its own line on, and its first token leads there from `p`
    obtain ⟨text, ts, hcons⟩ := (e.layOut (p + 1)).exists_tokens_eq_cons depth
    have he := (e.climb_layOut depth (p + 1)).rise
      (by rw [hcons, Expr.firstPos_layOut]; rfl)
    have hend : p + ((e :: rest).length + advancesAll (e :: rest)) =
        p + 1 + e.advances + (rest.length + advancesAll rest) := by
      simp only [List.length_cons, advancesAll]
      omega
    simp only [layOutElements, tokensElements, List.map_append, map_pos_modifyHead_opened, hend]
    exact he.append (climb_layOutElements depth _ rest)

end

section Positions

variable (e : Expr) (p : Nat)

theorem Expr.exists_positions_layOut_eq_cons : ∃ rest, (e.layOut p).positions = p :: rest := by
  rw [← List.head?_eq_some_iff, Expr.head?_positions, Expr.firstPos_layOut]

/-- Read in print order, the positions of a layout never go back, nor on by more than a line. -/
theorem Expr.isChain_positions_layOut :
    (e.layOut p).positions.IsChain fun a b => a ≤ b ∧ b ≤ a + 1 := by
  obtain ⟨rest, h⟩ := e.exists_positions_layOut_eq_cons p
  have hchain := (e.climb_layOut 0 p).isChain
  rw [← Expr.positions, h] at hchain
  rw [h]
  exact (List.isChain_cons_cons.1 hchain).2

theorem Expr.getLast?_positions_layOut :
    (e.layOut p).positions.getLast? = some (p + e.advances) := by
  obtain ⟨rest, h⟩ := e.exists_positions_layOut_eq_cons p
  rw [← (e.climb_layOut 0 p).getLast?, ← Expr.positions, h, List.getLast?_cons_cons]

end Positions

end LiteralFill
