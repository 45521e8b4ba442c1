import LiteralFill.Proofs.Layout.Basic

namespace LiteralFill

@[simp] theorem length_layOutElements (p : Nat) (es : List Expr) :
    (layOutElements p es).length = es.length := by
  induction es generalizing p with
  | nil => rfl
  | cons e rest ih => simp [layOutElements, ih]

@[simp] theorem isEmpty_layOutElements (p : Nat) (es : List Expr) :
    (layOutElements p es).isEmpty = es.isEmpty := by
  cases es <;> rfl

mutual

/-- Numbering does not change how often the line advances. -/
@[simp] theorem Expr.advances_layOut (p : Nat) : (e : Expr) → (e.layOut p).advances = e.advances
  | .ident _ _ | .basicLit _ _ _ | .funcLit _ _ => rfl
  | .compositeLit type? _ elts _ => by
    simp only [Expr.layOut, Expr.advances, advancesOpt_layOutOpt, advancesAll_layOutElements,
      isEmpty_layOutElements, length_layOutElements]
  | .keyValue key _ value => by
    simp only [Expr.layOut, Expr.advances, key.advances_layOut, value.advances_layOut]
  | .binary x _ _ y => by simp only [Expr.layOut, Expr.advances, x.advances_layOut, y.advances_layOut]
  | .unary _ _ x => by simp only [Expr.layOut, Expr.advances, x.advances_layOut]
  | .call callee _ args _ _ => by
    simp only [Expr.layOut, Expr.advances, callee.advances_layOut, advancesAll_layOutArgs]
  | .selector x _ _ => by simp only [Expr.layOut, Expr.advances, x.advances_layOut]
  | .index x _ index _ => by
    simp only [Expr.layOut, Expr.advances, x.advances_layOut, index.advances_layOut]
  | .slice x _ _ _ _ _ _ => by
    simp only [Expr.layOut, Expr.advances, x.advances_layOut, advancesOpt_layOutOpt]
  | .star _ x => by simp only [Expr.layOut, Expr.advances, x.advances_layOut]
  | .paren _ x _ => by simp only [Expr.layOut, Expr.advances, x.advances_layOut]
  | .ellipsis _ _ => by simp only [Expr.layOut, Expr.advances, advancesOpt_layOutOpt]
  | .arrayType _ _ elt => by
    simp only [Expr.layOut, Expr.advances, advancesOpt_layOutOpt, elt.advances_layOut]
  | .mapType _ key value => by
    simp only [Expr.layOut, Expr.advances, key.advances_layOut, value.advances_layOut]

theorem advancesOpt_layOutOpt (p : Nat) :
    (e? : Option Expr) → advancesOpt (layOutOpt p e?) = advancesOpt e?
  | none => rfl
  | some e => e.advances_layOut p

theorem advancesAll_layOutArgs (p : Nat) :
    (es : List Expr) → advancesAll (layOutArgs p es) = advancesAll es
  | [] => rfl
  | e :: rest => by simp only [layOutArgs, advancesAll, e.advances_layOut, advancesAll_layOutArgs]

theorem advancesAll_layOutElements (p : Nat) :
    (es : List Expr) → advancesAll (layOutElements p es) = advancesAll es
  | [] => rfl
  | e :: rest => by
    simp only [layOutElements, advancesAll, e.advances_layOut, advancesAll_layOutElements]

end

mutual

/-- The first token stands on the line that the layout starts from. -/
@[simp] theorem Expr.firstPos_layOut (p : Nat) : (e : Expr) → (e.layOut p).firstPos = p
  | .ident _ _ | .basicLit _ _ _ | .funcLit _ _ | .unary _ _ _ | .star _ _ | .paren _ _ _
  | .ellipsis _ _ | .arrayType _ _ _ | .mapType _ _ _ => rfl
  | .compositeLit type? _ _ _ => firstPosOr_layOutOpt p type?
  | .keyValue key _ _ => key.firstPos_layOut p
  | .binary x _ _ _ => x.firstPos_layOut p
  | .call callee _ _ _ _ => callee.firstPos_layOut p
  | .selector x _ _ => x.firstPos_layOut p
  | .index x _ _ _ => x.firstPos_layOut p
  | .slice x _ _ _ _ _ _ => x.firstPos_layOut p

theorem firstPosOr_layOutOpt (p : Nat) :
    (type? : Option Expr) → firstPosOr (p + advancesOpt type?) (layOutOpt p type?) = p
  | none => rfl
  | some e => e.firstPos_layOut p

end

mutual

/-- The last token stands as many lines further on as the line advances. -/
@[simp] theorem Expr.lastPos_layOut (p : Nat) : (e : Expr) → (e.layOut p).lastPos = p + e.advances
  | .ident _ _ | .basicLit _ _ _ | .funcLit _ _ => rfl
  | .compositeLit _ _ _ _ => by simp only [Expr.layOut, Expr.lastPos, Expr.advances]; omega
  | .keyValue _ _ value => by
    simp only [Expr.layOut, Expr.lastPos, Expr.advances, value.lastPos_layOut]; omega
  | .binary _ _ _ y => by simp only [Expr.layOut, Expr.lastPos, Expr.advances, y.lastPos_layOut]; omega
  | .unary _ _ x => by simp only [Expr.layOut, Expr.lastPos, Expr.advances, x.lastPos_layOut]
  | .call _ _ _ _ _ => by simp only [Expr.layOut, Expr.lastPos, Expr.advances]; omega
  | .selector _ _ _ => rfl
  | .index _ _ _ _ => by simp only [Expr.layOut, Expr.lastPos, Expr.advances]; omega
  | .slice _ _ _ _ _ _ _ => by simp only [Expr.layOut, Expr.lastPos, Expr.advances]; omega
  | .star _ x => by simp only [Expr.layOut, Expr.lastPos, Expr.advances, x.lastPos_layOut]
  | .paren _ _ _ => rfl
  | .ellipsis _ elt? => by simp only [Expr.layOut, Expr.lastPos, Expr.advances, lastPosOr_layOutOpt]
  | .arrayType _ _ elt => by
    simp only [Expr.layOut, Expr.lastPos, Expr.advances, elt.lastPos_layOut]; omega
  | .mapType _ _ value => by
    simp only [Expr.layOut, Expr.lastPos, Expr.advances, value.lastPos_layOut]; omega

theorem lastPosOr_layOutOpt (p : Nat) :
    (elt? : Option Expr) → lastPosOr p (layOutOpt p elt?) = p + advancesOpt elt?
  | none => rfl
  | some e => e.lastPos_layOut p

end

mutual

/-- A layout leaves nothing of the numbers that were there before. -/
@[simp] theorem Expr.layOut_layOut (p q : Nat) : (e : Expr) → (e.layOut p).layOut q = e.layOut q
  | .ident _ _ | .basicLit _ _ _ | .funcLit _ _ => rfl
  | .compositeLit _ _ _ _ => by
    simp only [Expr.layOut, layOutOpt_layOutOpt, layOutElements_layOutElements, advancesOpt_layOutOpt,
      advancesAll_layOutElements, isEmpty_layOutElements, length_layOutElements]
  | .keyValue key _ value => by
    simp only [Expr.layOut, key.layOut_layOut, value.layOut_layOut, key.advances_layOut]
  | .binary x _ _ y => by simp only [Expr.layOut, x.layOut_layOut, y.layOut_layOut, x.advances_layOut]
  | .unary _ _ x => by simp only [Expr.layOut, x.layOut_layOut]
  | .call callee _ _ _ _ => by
    simp only [Expr.layOut, callee.layOut_layOut, layOutArgs_layOutArgs, callee.advances_layOut,
      advancesAll_layOutArgs]
  | .selector x _ _ => by simp only [Expr.layOut, x.layOut_layOut, x.advances_layOut]
  | .index x _ index _ => by
    simp only [Expr.layOut, x.layOut_layOut, index.layOut_layOut, x.advances_layOut, index.advances_layOut]
  | .slice x _ _ _ _ _ _ => by
    simp only [Expr.layOut, x.layOut_layOut, layOutOpt_layOutOpt, x.advances_layOut, advancesOpt_layOutOpt]
  | .star _ x => by simp only [Expr.layOut, x.layOut_layOut]
  | .paren _ x _ => by simp only [Expr.layOut, x.layOut_layOut, x.advances_layOut]
  | .ellipsis _ _ => by simp only [Expr.layOut, layOutOpt_layOutOpt]
  | .arrayType _ _ elt => by
    simp only [Expr.layOut, layOutOpt_layOutOpt, elt.layOut_layOut, advancesOpt_layOutOpt]
  | .mapType _ key value => by
    simp only [Expr.layOut, key.layOut_layOut, value.layOut_layOut, key.advances_layOut]

theorem layOutOpt_layOutOpt (p q : Nat) :
    (e? : Option Expr) → layOutOpt q (layOutOpt p e?) = layOutOpt q e?
  | none => rfl
  | some e => by simp only [layOutOpt, e.layOut_layOut]

theorem layOutArgs_layOutArgs (p q : Nat) :
    (es : List Expr) → layOutArgs q (layOutArgs p es) = layOutArgs q es
  | [] => rfl
  | e :: rest => by
    simp only [layOutArgs, e.layOut_layOut, e.advances_layOut, layOutArgs_layOutArgs]

theorem layOutElements_layOutElements (p q : Nat) :
    (es : List Expr) → layOutElements q (layOutElements p es) = layOutElements q es
  | [] => rfl
  | e :: rest => by
    simp only [layOutElements, e.layOut_layOut, e.advances_layOut, layOutElements_layOutElements]

end

mutual

/-- A layout changes nothing but positions. -/
@[simp] theorem Expr.unplaced_layOut (p : Nat) : (e : Expr) → (e.layOut p).unplaced = e.unplaced
  | .ident _ _ | .basicLit _ _ _ | .funcLit _ _ => rfl
  | .compositeLit _ _ _ _ => by
    simp only [Expr.layOut, Expr.unplaced, unplacedOpt_layOutOpt, unplacedAll_layOutElements]
  | .keyValue x _ y | .binary x _ _ y | .index x _ y _ | .mapType _ x y => by
    simp only [Expr.layOut, Expr.unplaced, x.unplaced_layOut, y.unplaced_layOut]
  | .unary _ _ x | .selector x _ _ | .star _ x | .paren _ x _ => by
    simp only [Expr.layOut, Expr.unplaced, x.unplaced_layOut]
  | .call callee _ _ _ _ => by
    simp only [Expr.layOut, Expr.unplaced, callee.unplaced_layOut, unplacedAll_layOutArgs]
  | .slice x _ _ _ _ _ _ => by
    simp only [Expr.layOut, Expr.unplaced, x.unplaced_layOut, unplacedOpt_layOutOpt]
  | .ellipsis _ _ => by simp only [Expr.layOut, Expr.unplaced, unplacedOpt_layOutOpt]
  | .arrayType _ _ elt => by
    simp only [Expr.layOut, Expr.unplaced, unplacedOpt_layOutOpt, elt.unplaced_layOut]

theorem unplacedOpt_layOutOpt (p : Nat) :
    (e? : Option Expr) → unplacedOpt (layOutOpt p e?) = unplacedOpt e?
  | none => rfl
  | some e => by simp only [layOutOpt, unplacedOpt, e.unplaced_layOut]

theorem unplacedAll_layOutArgs (p : Nat) :
    (es : List Expr) → unplacedAll (layOutArgs p es) = unplacedAll es
  | [] => rfl
  | e :: rest => by simp only [layOutArgs, unplacedAll, e.unplaced_layOut, unplacedAll_layOutArgs]

theorem unplacedAll_layOutElements (p : Nat) :
    (es : List Expr) → unplacedAll (layOutElements p es) = unplacedAll es
  | [] => rfl
  | e :: rest => by
    simp only [layOutElements, unplacedAll, e.unplaced_layOut, unplacedAll_layOutElements]

end

@[simp] theorem length_unplacedAll (es : List Expr) : (unplacedAll es).length = es.length := by
  induction es with
  | nil => rfl
  | cons e rest ih => simp only [unplacedAll, List.length_cons, ih]

@[simp] theorem isEmpty_unplacedAll (es : List Expr) : (unplacedAll es).isEmpty = es.isEmpty := by
  cases es <;> rfl

mutual

@[simp] theorem Expr.advances_unplaced : (e : Expr) → e.unplaced.advances = e.advances
  | .ident _ _ | .basicLit _ _ _ | .funcLit _ _ => rfl
  | .compositeLit _ _ _ _ => by
    simp only [Expr.unplaced, Expr.advances, advancesOpt_unplacedOpt, advancesAll_unplacedAll,
      isEmpty_unplacedAll, length_unplacedAll]
  | .keyValue x _ y | .binary x _ _ y | .index x _ y _ | .mapType _ x y => by
    simp only [Expr.unplaced, Expr.advances, x.advances_unplaced, y.advances_unplaced]
  | .unary _ _ x | .selector x _ _ | .star _ x | .paren _ x _ => by
    simp only [Expr.unplaced, Expr.advances, x.advances_unplaced]
  | .call callee _ _ _ _ => by
    simp only [Expr.unplaced, Expr.advances, callee.advances_unplaced, advancesAll_unplacedAll]
  | .slice x _ _ _ _ _ _ => by
    simp only [Expr.unplaced, Expr.advances, x.advances_unplaced, advancesOpt_unplacedOpt]
  | .ellipsis _ _ => by simp only [Expr.unplaced, Expr.advances, advancesOpt_unplacedOpt]
  | .arrayType _ _ elt => by
    simp only [Expr.unplaced, Expr.advances, advancesOpt_unplacedOpt, elt.advances_unplaced]

theorem advancesOpt_unplacedOpt : (e? : Option Expr) → advancesOpt (unplacedOpt e?) = advancesOpt e?
  | none => rfl
  | some e => e.advances_unplaced

theorem advancesAll_unplacedAll : (es : List Expr) → advancesAll (unplacedAll es) = advancesAll es
  | [] => rfl
  | e :: rest => by simp only [unplacedAll, advancesAll, e.advances_unplaced, advancesAll_unplacedAll]

end

mutual

/-- A layout looks at no position. -/
@[simp] theorem Expr.layOut_unplaced (p : Nat) : (e : Expr) → e.unplaced.layOut p = e.layOut p
  | .ident _ _ | .basicLit _ _ _ | .funcLit _ _ => rfl
  | .compositeLit _ _ _ _ => by
    simp only [Expr.unplaced, Expr.layOut, layOutOpt_unplacedOpt, layOutElements_unplacedAll,
      advancesOpt_unplacedOpt, advancesAll_unplacedAll, isEmpty_unplacedAll, length_unplacedAll]
  | .keyValue x _ y | .binary x _ _ y | .index x _ y _ | .mapType _ x y => by
    simp only [Expr.unplaced, Expr.layOut, x.layOut_unplaced, y.layOut_unplaced, x.advances_unplaced,
      y.advances_unplaced]
  | .unary _ _ x | .selector x _ _ | .star _ x | .paren _ x _ => by
    simp only [Expr.unplaced, Expr.layOut, x.layOut_unplaced, x.advances_unplaced]
  | .call callee _ _ _ _ => by
    simp only [Expr.unplaced, Expr.layOut, callee.layOut_unplaced, layOutArgs_unplacedAll,
      callee.advances_unplaced, advancesAll_unplacedAll]
  | .slice x _ _ _ _ _ _ => by
    simp only [Expr.unplaced, Expr.layOut, x.layOut_unplaced, layOutOpt_unplacedOpt,
      x.advances_unplaced, advancesOpt_unplacedOpt]
  | .ellipsis _ _ => by simp only [Expr.unplaced, Expr.layOut, layOutOpt_unplacedOpt]
  | .arrayType _ _ elt => by
    simp only [Expr.unplaced, Expr.layOut, layOutOpt_unplacedOpt, elt.layOut_unplaced,
      advancesOpt_unplacedOpt]

theorem layOutOpt_unplacedOpt (p : Nat) :
    (e? : Option Expr) → layOutOpt p (unplacedOpt e?) = layOutOpt p e?
  | none => rfl
  | some e => by simp only [unplacedOpt, layOutOpt, e.layOut_unplaced]

theorem layOutArgs_unplacedAll (p : Nat) :
    (es : List Expr) → layOutArgs p (unplacedAll es) = layOutArgs p es
  | [] => rfl
  | e :: rest => by
    simp only [unplacedAll, layOutArgs, e.layOut_unplaced, e.advances_unplaced, layOutArgs_unplacedAll]

theorem layOutElements_unplacedAll (p : Nat) :
    (es : List Expr) → layOutElements p (unplacedAll es) = layOutElements p es
  | [] => rfl
  | e :: rest => by
    simp only [unplacedAll, layOutElements, e.layOut_unplaced, e.advances_unplaced,
      layOutElements_unplacedAll]

end

theorem advancesAll_append (es es' : List Expr) :
    advancesAll (es ++ es') = advancesAll es + advancesAll es' := by
  induction es with
  | nil => simp only [List.nil_append, advancesAll, Nat.zero_add]
  | cons e rest ih => simp only [List.cons_append, advancesAll, ih, Nat.add_assoc]

theorem lineCountAll_append (es es' : List Expr) :
    lineCountAll (es ++ es') = lineCountAll es + lineCountAll es' := by
  induction es with
  | nil => simp only [List.nil_append, lineCountAll, Nat.zero_add]
  | cons e rest ih => simp only [List.cons_append, lineCountAll, ih, Nat.add_assoc]

theorem layOutElements_append (p : Nat) (es es' : List Expr) :
    layOutElements p (es ++ es') =
      layOutElements p es ++ layOutElements (p + (es.length + advancesAll es)) es' := by
  induction es generalizing p with
  | nil => rfl
  | cons e rest ih =>
    simp only [List.cons_append, layOutElements, ih, List.length_cons, advancesAll]
    congr 3
    omega

end LiteralFill
