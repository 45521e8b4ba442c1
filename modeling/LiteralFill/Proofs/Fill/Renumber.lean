import LiteralFill.Fill.Draft
import LiteralFill.Proofs.Layout.Lemmas

namespace LiteralFill

namespace Filler

variable {α β : Type}

@[simp] theorem pure_apply (a : α) (d : Draft) : (pure a : Filler α) d = (.ok a, d) := rfl

@[simp] theorem throw_apply (e : FillError) (d : Draft) : (throw e : Filler α) d = (.error e, d) := rfl

theorem bind_apply (x : Filler α) (f : α → Filler β) (d : Draft) :
    (x >>= f) d = match x d with
      | (.ok a, d') => f a d'
      | (.error e, d') => (.error e, d') := by
  change (match x d with | (r, d') => ExceptT.bindCont f r d') = _
  obtain ⟨_ | a, d'⟩ := x d <;> rfl

theorem bind_of_ok {x : Filler α} {f : α → Filler β} {d d' : Draft} {a : α}
    (h : x d = (.ok a, d')) : (x >>= f) d = f a d' := by
  rw [bind_apply, h]

theorem bind_of_error {x : Filler α} {f : α → Filler β} {d d' : Draft} {e : FillError}
    (h : x d = (.error e, d')) : (x >>= f) d = (.error e, d') := by
  rw [bind_apply, h]

theorem fst_bind_of_error {x : Filler α} {f : α → Filler β} {d : Draft} {e : FillError}
    (h : (x d).1 = .error e) : ((x >>= f) d).1 = .error e := by
  have hx : x d = (.error e, (x d).2) := Prod.ext h rfl
  rw [bind_of_error hx]

@[simp] theorem here_apply (d : Draft) : here d = (.ok d.pos, d) := rfl

@[simp] theorem advance_apply (d : Draft) :
    advance d = (.ok (d.pos + 1), { d with pos := d.pos + 1 }) := rfl

@[simp] theorem ofExcept_apply (r : Except FillError α) (d : Draft) : ofExcept r d = (r, d) := by
  cases r <;> rfl

@[simp] theorem get_apply (d : Draft) : (get : Filler Draft) d = (.ok d, d) := rfl

@[simp] theorem modify_apply (f : Draft → Draft) (d : Draft) :
    (modify f : Filler PUnit) d = (.ok ⟨⟩, f d) := rfl

@[simp] theorem modifyGet_apply (f : Draft → α × Draft) (d : Draft) :
    (modifyGet f : Filler α) d = (.ok (f d).1, (f d).2) := rfl

theorem tryCatch_apply (x : Filler α) (handle : FillError → Filler α) (d : Draft) :
    tryCatch x handle d = match x d with
      | (.ok a, d') => (.ok a, d')
      | (.error e, d') => handle e d' := by
  simp only [tryCatch, tryCatchThe, MonadExceptOf.tryCatch, ExceptT.tryCatch, ExceptT.mk, bind,
    StateT.bind]
  cases x d with
  | mk r d' => cases r <;> rfl

theorem inside_apply (place : Place) (x : Filler α) (d : Draft) :
    inside place x d = match x { d with path := place :: d.path } with
      | (r, d') => (r, { d' with path := d'.path.tail }) := by
  simp only [inside, observing, bind_apply, modify_apply, tryCatch_apply, pure_apply,
    ofExcept_apply]
  cases x { d with path := place :: d.path } with
  | mk r d' => cases r <;> rfl

end Filler

/-- The draft some lines further on. -/
def Draft.move (d : Draft) (advances lines : Nat) : Draft :=
  { d with pos := d.pos + advances, lines := d.lines + lines }

namespace Draft

@[simp] theorem move_zero (d : Draft) : d.move 0 0 = d := rfl

@[simp] theorem move_move (d : Draft) (a a' l l' : Nat) :
    (d.move a l).move a' l' = d.move (a + a') (l + l') := by
  simp [move, Nat.add_assoc]

@[simp] theorem pos_move (d : Draft) (a l : Nat) : (d.move a l).pos = d.pos + a := rfl

end Draft

/-- A literal of no elements closes where it opens, any other on the next line. -/
theorem Filler.close_apply (n : Nat) (d : Draft) :
    close n d = (.ok (d.pos + if n = 0 then 0 else 1),
      d.move (if n = 0 then 0 else 1) (if n = 0 then 0 else n + 2)) := by
  by_cases h : n = 0
  · simp [close, h]
  · simp only [close, h, ↓reduceIte]
    rfl

open Filler

mutual

/-- Renumbering lays an expression out from the line of the draft on, and counts what it passes. -/
theorem Expr.renumber_apply (d : Draft) :
    (e : Expr) → e.renumber d = (.ok (e.layOut d.pos), d.move e.advances e.lineCount)
  | .ident _ _ | .basicLit _ _ _ | .funcLit _ _ => rfl
  | .compositeLit type? _ elts _ => by
    simp only [Expr.renumber, bind_apply, renumberOpt_apply, here_apply, renumberElements_apply,
      close_apply, pure_apply, Expr.layOut, Expr.advances, Expr.lineCount, length_layOutElements,
      Draft.move_move, Draft.pos_move, List.isEmpty_iff_length_eq_zero]
    by_cases h : elts.length = 0 <;> simp only [h, ↓reduceIte]
    · simp [List.eq_nil_of_length_eq_zero h, advancesAll, lineCountAll]
    · rw [Prod.mk.injEq, Except.ok.injEq]
      constructor <;> congr 1 <;> omega
  | .keyValue x _ y | .binary x _ _ y | .index x _ y _ | .mapType _ x y => by
    simp only [Expr.renumber, bind_apply, x.renumber_apply, y.renumber_apply, here_apply,
      pure_apply, Expr.layOut, Expr.advances, Expr.lineCount, Draft.move_move, Draft.pos_move,
      Nat.add_assoc]
  | .unary _ _ x | .selector x _ _ | .star _ x | .paren _ x _ => by
    simp only [Expr.renumber, bind_apply, x.renumber_apply, here_apply, pure_apply, Expr.layOut,
      Expr.advances, Expr.lineCount, Draft.pos_move]
  | .call callee _ args _ _ => by
    simp only [Expr.renumber, bind_apply, callee.renumber_apply, renumberArgs_apply, here_apply,
      pure_apply, Expr.layOut, Expr.advances, Expr.lineCount, Draft.move_move, Draft.pos_move,
      Nat.add_assoc]
  | .slice x _ low? high? max? _ _ => by
    simp only [Expr.renumber, bind_apply, x.renumber_apply, renumberOpt_apply, here_apply,
      pure_apply, Expr.layOut, Expr.advances, Expr.lineCount, Draft.move_move, Draft.pos_move,
      Nat.add_assoc]
  | .ellipsis _ elt? => by
    simp only [Expr.renumber, bind_apply, renumberOpt_apply, here_apply, pure_apply, Expr.layOut,
      Expr.advances, Expr.lineCount]
  | .arrayType _ len? elt => by
    simp only [Expr.renumber, bind_apply, renumberOpt_apply, elt.renumber_apply, here_apply,
      pure_apply, Expr.layOut, Expr.advances, Expr.lineCount, Draft.move_move, Draft.pos_move]

theorem renumberOpt_apply (d : Draft) : (e? : Option Expr) →
    renumberOpt e? d = (.ok (layOutOpt d.pos e?), d.move (advancesOpt e?) (lineCountOpt e?))
  | none => rfl
  | some e => by
    simp only [renumberOpt, bind_apply, e.renumber_apply, pure_apply, layOutOpt, advancesOpt,
      lineCountOpt]

theorem renumberArgs_apply (d : Draft) : (es : List Expr) →
    renumberArgs es d = (.ok (layOutArgs d.pos es), d.move (advancesAll es) (lineCountAll es))
  | [] => rfl
  | e :: rest => by
    simp only [renumberArgs, bind_apply, e.renumber_apply, renumberArgs_apply, pure_apply,
      layOutArgs, advancesAll, lineCountAll, Draft.move_move, Draft.pos_move]

/-- The elements advance the line once each, on top of what they advance it inside. -/
theorem renumberElements_apply (d : Draft) : (es : List Expr) →
    renumberElements es d =
      (.ok (layOutElements d.pos es), d.move (es.length + advancesAll es) (lineCountAll es))
  | [] => rfl
  | e :: rest => by
    simp only [renumberElements, bind_apply, advance_apply, e.renumber_apply,
      renumberElements_apply, pure_apply, layOutElements, advancesAll, lineCountAll, Draft.move,
      List.length_cons]
    refine Prod.ext rfl ?_
    simp only [Draft.mk.injEq, and_true]
    omega

end

end LiteralFill
