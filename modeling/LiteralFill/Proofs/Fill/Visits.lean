import LiteralFill.Fill.Zero
import LiteralFill.Proofs.Fill.Follows

namespace LiteralFill

/-- One step of the descent into a type. What it asks for further down is left to `self`. -/
def zeroBy (v : Viewpoint) (self : Style → Node → Filler Expr) (style : Style) (node : Node) :
    Filler Expr :=
  match node.ty with
  | .basic kind => basicZero kind
  | .chan _ _ | .func _ | .slice _ | .interface _ => return nilAt (← Filler.here)
  | .array len elem =>
    literal style (arrayTypeAt v · len elem) (elements (self .elidedType (node.child 0 elem)) len)
  | .map key value =>
    literal .plain (mapTypeAt v · key value)
      (mapEntry (self .elidedType (node.child 0 key)) (self .elidedType (node.child 1 value)))
  | .struct fields =>
    literal style (structTypeAt v style · fields)
      (structEntries v node.place fields fun i f => self .plain (node.child i f.ty))
  | .named decl => do
    let target ← .ofExcept ((v.table.underlyingNode node).mapError .fault)
    self { style with decl? := if target.ty.isStruct then some decl else none } target
  | .pointer elem => do
    let target ← .ofExcept ((v.table.underlying elem).mapError .fault)
    if target.isStruct then self { style with addressed := true } (node.child 0 elem)
    else return nilAt (← Filler.here)
  | .tuple _ => .ofExcept (v.describe node.ty >>= fun name => .error (.unexpectedType name))

theorem zero_succ (v : Viewpoint) (depth : Nat) : zero v (depth + 1) = zeroBy v (zero v depth) := by
  funext style node
  rw [zero]
  rfl

/-- The structs that a step down from a node is taken inside of. -/
def Node.opens (node : Node) (path : List Place) : List Place :=
  if node.ty.isStruct then node.place :: path else path

namespace Filler

variable {α β : Type} {path : List Place}

/-- The step ends inside the structs that it starts in, whatever comes of it. -/
def KeepsPath (x : Filler α) : Prop := ∀ d, (x d).2.path = d.path

/-- Inside these structs the steps do the same, and end there too. -/
def AgreeInside (path : List Place) (x y : Filler α) : Prop :=
  ∀ d, d.path = path → x d = y d ∧ (x d).2.path = path

theorem KeepsPath.agree {x : Filler α} (h : KeepsPath x) : AgreeInside path x x :=
  fun d hd => ⟨rfl, (h d).trans hd⟩

theorem keepsPath_iff {x : Filler α} : KeepsPath x ↔ ∀ path, AgreeInside path x x :=
  ⟨fun h _ => h.agree, fun h d => (h d.path d rfl).2⟩

theorem keepsPath_close (n : Nat) : KeepsPath (close n) := fun d => by rw [close_apply]; rfl

theorem keepsPath_ofExcept (r : Except FillError α) : KeepsPath (ofExcept r) :=
  fun d => by rw [ofExcept_apply]

theorem keepsPath_renumber (e : Expr) : KeepsPath e.renumber :=
  fun d => by rw [Expr.renumber_apply]; rfl

theorem keepsPath_takeValue? (outermost : Bool) (field : String) :
    KeepsPath (takeValue? outermost field) := fun d => by cases outermost <;> rfl

theorem keepsPath_nilAt : KeepsPath (return nilAt (← here)) := fun _ => rfl

theorem keepsPath_basicZero (kind : BasicKind) : KeepsPath (basicZero kind) :=
  fun _ => by cases kind <;> rfl

namespace AgreeInside

theorem bind {x y : Filler α} {f g : α → Filler β} (h : AgreeInside path x y)
    (hf : ∀ a, AgreeInside path (f a) (g a)) : AgreeInside path (x >>= f) (y >>= g) := by
  intro d hd
  obtain ⟨heq, hkept⟩ := h d hd
  rw [bind_apply, bind_apply, ← heq]
  rcases hx : x d with ⟨e | a, d'⟩
  · rw [hx] at hkept
    exact ⟨rfl, hkept⟩
  · rw [hx] at hkept
    exact hf a d' hkept

theorem map {x y : Filler α} (h : AgreeInside path x y) (f : α → β) :
    AgreeInside path (do return f (← x)) (do return f (← y)) :=
  h.bind fun _ => KeepsPath.agree fun _ => rfl

/-- A first step that looks at nothing further down. -/
theorem after {x : Filler α} (hx : KeepsPath x) {f g : α → Filler β}
    (hf : ∀ a, AgreeInside path (f a) (g a)) : AgreeInside path (x >>= f) (x >>= g) :=
  hx.agree.bind hf

theorem elements {x y : Filler Expr} (h : AgreeInside path x y) (n : Nat) :
    AgreeInside path (elements x n) (elements y n) := by
  induction n with
  | zero => exact KeepsPath.agree fun _ => rfl
  | succ n ih => exact after (fun _ => rfl) fun _ => h.bind fun e => ih.map (e :: ·)

theorem mapEntry {key key' value value' : Filler Expr} (hkey : AgreeInside path key key')
    (hvalue : AgreeInside path value value') :
    AgreeInside path (mapEntry key value) (mapEntry key' value') :=
  after (fun _ => rfl) fun _ => hkey.bind fun k => after (fun _ => rfl) fun colon =>
    hvalue.map fun e => [Expr.keyValue k colon e]

/-- A field that is left out leaves the structs around it open. -/
theorem freshEntry {x y : Filler Expr} (h : AgreeInside path x y) (name : String) :
    AgreeInside path (freshEntry name x) (freshEntry name y) := by
  intro d hd
  obtain ⟨heq, hkept⟩ := h { d with pos := d.pos + 1 } hd
  rw [freshEntry_apply, freshEntry_apply, ← heq]
  refine ⟨rfl, ?_⟩
  split <;> rename_i hx <;> rw [hx] at hkept <;> exact hkept

theorem fieldEntries {v : Viewpoint} {valueOf valueOf' : Nat → Field → Filler Expr}
    (h : ∀ i f, AgreeInside path (valueOf i f) (valueOf' i f)) (outermost : Bool) (i : Nat)
    (fields : List Field) :
    AgreeInside path (fieldEntries v valueOf outermost i fields)
      (fieldEntries v valueOf' outermost i fields) := by
  induction fields generalizing i with
  | nil => exact KeepsPath.agree fun _ => rfl
  | cons f rest ih =>
    rw [LiteralFill.fieldEntries, LiteralFill.fieldEntries]
    refine after (keepsPath_takeValue? outermost f.name) fun value? => ?_
    cases value? with
    | some value =>
      refine after (fun _ => rfl) fun _ => after (keepsPath_renumber _) fun entry => ?_
      exact (ih (i + 1)).map (entry :: ·)
    | none =>
      dsimp only
      split
      · exact ((h i f).freshEntry f.name).bind fun entry? =>
          (ih (i + 1)).map fun entries => entry?.toList ++ entries
      · exact ih (i + 1)

/-- The struct that a step opens is closed after it, on an error too. -/
theorem inside {x y : Filler α} {place : Place} (h : AgreeInside (place :: path) x y) :
    AgreeInside path (inside place x) (inside place y) := by
  intro d hd
  obtain ⟨heq, hkept⟩ := h { d with path := place :: d.path } (congrArg (place :: ·) hd)
  rw [inside_apply, inside_apply, ← heq]
  exact ⟨rfl, congrArg List.tail hkept⟩

/-- A struct that is open already looks at no field. -/
theorem structEntries {v : Viewpoint} {place : Place} {valueOf valueOf' : Nat → Field → Filler Expr}
    (h : place ∉ path → ∀ i f, AgreeInside (place :: path) (valueOf i f) (valueOf' i f))
    (fields : List Field) :
    AgreeInside path (structEntries v place fields valueOf)
      (structEntries v place fields valueOf') := by
  intro d hd
  simp only [LiteralFill.structEntries, bind_apply, get_apply]
  by_cases hplace : place ∈ d.path
  · rw [if_pos hplace, if_pos hplace]
    exact ⟨rfl, hd⟩
  · rw [if_neg hplace, if_neg hplace]
    rw [hd] at hplace
    refine after (fun _ => rfl) (fun first => ?_) d hd
    exact (fieldEntries (h hplace) first 0 fields).inside

theorem literal {x y : Filler (List Expr)} (h : AgreeInside path x y) (style : Style)
    (typeAt : Nat → Except FillError Expr) :
    AgreeInside path (literal style typeAt x) (literal style typeAt y) := by
  refine after ?_ fun type? => after (fun _ => rfl) fun lbrace => h.bind fun elts =>
    (keepsPath_close _).agree.map (Expr.compositeLit type? lbrace elts)
  intro d
  unfold Style.typeExpr?
  split
  · rfl
  · rw [bind_of_ok (here_apply d), bind_apply, ofExcept_apply]
    cases typeAt d.pos <;> rfl

/-- A step of the descent looks further down inside the structs that its node opens and nowhere else,
and not at all if its node is a struct that is open already. -/
theorem zeroBy {v : Viewpoint} {self self' : Style → Node → Filler Expr} {style : Style} {node : Node}
    (h : (node.ty.isStruct = true → node.place ∉ path) →
      ∀ style' node', AgreeInside (node.opens path) (self style' node') (self' style' node')) :
    AgreeInside path (zeroBy v self style node) (zeroBy v self' style node) := by
  unfold LiteralFill.zeroBy
  unfold Node.opens at h
  cases hty : node.ty with
  | basic kind => exact (keepsPath_basicZero kind).agree
  | chan _ _ | func _ | slice _ | interface _ => exact keepsPath_nilAt.agree
  | array len elem =>
    rw [hty] at h
    exact (elements (h nofun _ _) len).literal style _
  | map key value =>
    rw [hty] at h
    exact (mapEntry (h nofun _ _) (h nofun _ _)).literal .plain _
  | struct fields =>
    rw [hty] at h
    exact (structEntries (fun hplace i f => h (fun _ => hplace) _ _) fields).literal style _
  | named decl =>
    rw [hty] at h
    exact after (keepsPath_ofExcept _) fun target => h nofun _ _
  | pointer elem =>
    rw [hty] at h
    refine after (keepsPath_ofExcept _) fun target => ?_
    split
    · exact h nofun _ _
    · exact keepsPath_nilAt.agree
  | tuple elems => exact (keepsPath_ofExcept _).agree

end AgreeInside

end Filler

open Filler (KeepsPath AgreeInside)

/-- Whatever comes of the descent, the structs that are open after it are those that were before. -/
theorem keepsPath_zero (v : Viewpoint) (depth : Nat) (style : Style) (node : Node) :
    KeepsPath (zero v depth style node) := by
  induction depth generalizing style node with
  | zero => exact fun _ => rfl
  | succ depth ih =>
    rw [zero_succ, Filler.keepsPath_iff]
    exact fun path => AgreeInside.zeroBy fun _ style' node' => (ih style' node').agree

/-- The descent into a type at some moment. -/
structure Visit where
  depth : Nat
  style : Style
  node : Node
  draft : Draft

namespace Visit

def run (v : Viewpoint) (w : Visit) : Except FillError Expr × Draft :=
  zero v w.depth w.style w.node w.draft

/-- From one visit the descent goes on to another if its outcome hangs on that of the other: were that
one different, and no other, it could come to something else. -/
def Makes (v : Viewpoint) (w w' : Visit) : Prop :=
  w.depth = w'.depth + 1 ∧ ∃ self : Style → Node → Filler Expr,
    (∀ style node d, (style, node, d) ≠ (w'.style, w'.node, w'.draft) →
      self style node d = zero v w'.depth style node d) ∧
    zeroBy v self w.style w.node w.draft ≠ w.run v

variable {v : Viewpoint} {w w' : Visit}

theorem path_run (v : Viewpoint) (w : Visit) : (w.run v).2.path = w.draft.path :=
  keepsPath_zero v w.depth w.style w.node w.draft

/-- A visit goes on inside the structs that its node opens, and never if its node is a struct that is
open already. -/
theorem Makes.path_eq (h : w.Makes v w') :
    (w.node.ty.isStruct = true → w.node.place ∉ w.draft.path) ∧
      w'.draft.path = w.node.opens w.draft.path := by
  obtain ⟨hdepth, self, hself, hne⟩ := h
  refine Classical.byContradiction fun hno => hne ?_
  rw [run, hdepth, zero_succ]
  refine (AgreeInside.zeroBy (fun hplace style node d hd => ?_) w.draft rfl).1
  -- the only moment at which `self` differs is one that has other structs open
  have hother : (style, node, d) ≠ (w'.style, w'.node, w'.draft) := by
    intro heq
    rw [Prod.mk.injEq, Prod.mk.injEq] at heq
    exact hno ⟨hplace, heq.2.2 ▸ hd⟩
  rw [hself style node d hother, keepsPath_zero]
  exact ⟨rfl, hd⟩

/-- A visit makes those that it cannot go on without: where they fail, it fails with them. -/
theorem makes_of_error (hdepth : w.depth = w'.depth + 1)
    (h : ∀ (self : Style → Node → Filler Expr) (e : FillError), (∀ hidden, e ≠ .unrenderable hidden) →
      (self w'.style w'.node w'.draft).1 = .error e →
      (zeroBy v self w.style w.node w.draft).1 = .error e) : w.Makes v w' := by
  classical
  let failing (e : FillError) : Style → Node → Filler Expr := fun style node d =>
    if (style, node, d) = (w'.style, w'.node, w'.draft) then (.error e, d)
    else zero v w'.depth style node d
  have hfails (e : FillError) (he : ∀ hidden, e ≠ .unrenderable hidden) :
      (zeroBy v (failing e) w.style w.node w.draft).1 = .error e :=
    h (failing e) e he (congrArg Prod.fst (if_pos rfl))
  refine ⟨hdepth, ?_⟩
  -- at least one of two errors is not what the visit comes to as it is
  by_cases heq : zeroBy v (failing .tooDeep) w.style w.node w.draft = w.run v
  · refine ⟨failing .nonIdentifierKey, fun _ _ _ hother => if_neg hother, fun heq' => ?_⟩
    have htooDeep := hfails .tooDeep nofun
    rw [heq, ← heq', hfails .nonIdentifierKey nofun] at htooDeep
    cases htooDeep
  · exact ⟨failing .tooDeep, fun _ _ _ hother => if_neg hother, heq⟩

end Visit

end LiteralFill
