import LiteralFill.Proofs.Fill.Bare

namespace LiteralFill

/-- What `x` has come to is what `y` comes to, unless `x` ran out of depth. -/
def Attempt.Settled {α : Type} (x y : Attempt α) : Prop :=
  x.outcome ≠ .error .tooDeep → y = x

namespace Attempt.Settled

variable {α β : Type} {x y z : Attempt α}

theorem refl (x : Attempt α) : x.Settled x := fun _ => rfl

theorem trans (h : x.Settled y) (h' : y.Settled z) : x.Settled z := fun hx => by
  have hy : y = x := h hx
  subst hy
  exact h' hx

theorem bind {f g : α → Attempt β} (h : x.Settled y) (h' : ∀ a, (f a).Settled (g a)) :
    (x >>= f).Settled (y >>= g) := by
  intro hx
  cases ho : x.outcome with
  | error e =>
    rw [Attempt.bind_of_error ho] at hx ⊢
    have hne : x.outcome ≠ .error .tooDeep := by
      rw [ho]
      rintro ⟨⟩
      exact hx rfl
    have hy : y = x := h hne
    subst hy
    exact Attempt.bind_of_error ho
  | ok a =>
    have hy : y = x := h (by rw [ho]; nofun)
    subst hy
    rw [Attempt.bind_of_ok ho] at hx ⊢
    rw [Attempt.bind_of_ok ho, h' a hx]

theorem copies (h : x.Settled y) (n : Nat) : (x.copies n).Settled (y.copies n) := by
  induction n with
  | zero => exact refl _
  | succ n ih => exact h.bind fun _ => ih.bind fun _ => refl _

theorem orOmit (h : x.Settled y) (field : String) : (x.orOmit field).Settled (y.orOmit field) := by
  intro hx
  have hne : x.outcome ≠ .error .tooDeep := fun ho => hx (by simp only [Attempt.orOmit, ho])
  rw [h hne]

end Attempt.Settled

open Attempt (Settled)

variable {v : Viewpoint}

theorem settled_bareEntries {valueOf valueOf' : Nat → Field → Attempt Expr}
    (h : ∀ i f, (valueOf i f).Settled (valueOf' i f)) (entries : Entries) (i : Nat)
    (fields : List Field) :
    (bareEntries v valueOf entries i fields).Settled (bareEntries v valueOf' entries i fields) := by
  induction fields generalizing entries i with
  | nil => exact Settled.refl _
  | cons f rest ih =>
    rw [bareEntries, bareEntries]
    split
    · exact (ih _ _).bind fun _ => Settled.refl _
    · split
      · exact ((h i f).orOmit f.name).bind fun _ => (ih _ _).bind fun _ => Settled.refl _
      · exact ih _ _

theorem settled_bareLiteral {inner inner' : Attempt (List Expr)} (h : inner.Settled inner')
    (style : Style) (typeAt : Nat → Except FillError Expr) :
    (bareLiteral style typeAt inner).Settled (bareLiteral style typeAt inner') :=
  (Settled.refl _).bind fun _ => h.bind fun _ => Settled.refl _

/-- One more step down changes nothing for a value that was reached. -/
theorem settled_bareZero_succ (depth : Nat) (path : List Place) (style : Style) (node : Node) :
    (bareZero v depth path style node).Settled (bareZero v (depth + 1) path style node) := by
  induction depth generalizing path style node with
  | zero => exact fun h => absurd rfl h
  | succ depth ih =>
    -- one step on both sides, so that the calls below differ by one step again
    rw [bareZero.eq_2 v path style node depth, bareZero.eq_2 v path style node (depth + 1)]
    cases node.ty with
    | array len elem => exact settled_bareLiteral ((ih path _ _).copies len) _ _
    | map key value =>
      exact settled_bareLiteral ((ih path _ _).bind fun _ => (ih path _ _).bind fun _ =>
        Settled.refl _) _ _
    | struct fields =>
      refine settled_bareLiteral ?_ _ _
      unfold bareStructEntries
      split
      · exact Settled.refl _
      · exact settled_bareEntries (fun i f => ih _ _ _) _ _ _
    | named decl => exact (Settled.refl _).bind fun _ => ih _ _ _
    | pointer elem =>
      refine (Settled.refl _).bind fun target => ?_
      split
      · exact ih _ _ _
      · exact Settled.refl _
    | _ => exact Settled.refl _

theorem settled_bareZero {depth depth' : Nat} (h : depth ≤ depth') (path : List Place) (style : Style)
    (node : Node) :
    (bareZero v depth path style node).Settled (bareZero v depth' path style node) := by
  induction h with
  | refl => exact Settled.refl _
  | step _ ih => exact ih.trans (settled_bareZero_succ _ path style node)

section Names

variable {e : FillError} (he : ∀ s : SpellError, s.toFillError ≠ e)

include he

/-- An error that is not one of names is not met where a type is named. -/
theorem Viewpoint.nameOf_ne_of (v : Viewpoint) (ty : Ty) : v.nameOf ty ≠ .error e := fun h => by
  obtain ⟨s, -, hs⟩ := mapError_eq_error.1 h
  exact he s hs

theorem Viewpoint.describe_ne_of (v : Viewpoint) (ty : Ty) : v.describe ty ≠ .error e := by
  unfold describe
  split
  · nofun
  · nofun
  · rename_i decl _
    exact fun h => he (.dangling decl) (Except.error.inj h)

theorem arrayTypeAt_ne_of (pos len : Nat) (elem : Ty) : arrayTypeAt v pos len elem ≠ .error e := fun h =>
  v.nameOf_ne_of he elem (of_arrayTypeAt_eq_error h)

theorem mapTypeAt_ne_of (pos : Nat) (key value : Ty) : mapTypeAt v pos key value ≠ .error e := fun h =>
  (of_mapTypeAt_eq_error h).elim (v.nameOf_ne_of he key) (v.nameOf_ne_of he value)

theorem structTypeAt_ne_of (style : Style) (pos : Nat) (fields : List Field) :
    structTypeAt v style pos fields ≠ .error e := fun h =>
  v.nameOf_ne_of he _ (of_structTypeAt_eq_error h)

end Names

theorem SpellError.toFillError_ne_tooDeep (s : SpellError) : s.toFillError ≠ .tooDeep := by
  cases s <;> nofun

theorem Viewpoint.describe_ne_tooDeep (v : Viewpoint) (ty : Ty) : v.describe ty ≠ .error .tooDeep :=
  v.describe_ne_of SpellError.toFillError_ne_tooDeep ty

end LiteralFill
