import LiteralFill.TypeName

namespace LiteralFill

/-- Two views in which the names of declarations are written alike. -/
structure Viewpoint.SpellsAs (v v' : Viewpoint) : Prop where
  current : v.current = v'.current
  decl (decl : Nat) : v.spellDecl decl = v'.spellDecl decl

variable {v v' : Viewpoint}

theorem Viewpoint.SpellsAs.hiddenField? (h : v.SpellsAs v') (fields : List Field) :
    hiddenField? v fields = hiddenField? v' fields := by
  rw [LiteralFill.hiddenField?, h.current, LiteralFill.hiddenField?]

/-- Only the last parameter may be written by its elements. -/
theorem spellParams_cons_cons (variadic : Bool) (ty ty' : Ty) (more : List Ty) :
    spellParams v variadic (ty :: ty' :: more) = (do
      let text ← ty.spell v
      return text :: (← spellParams v variadic (ty' :: more))) := by
  cases ty <;> rfl

mutual

/-- A spelling asks the table for the names of declarations only. -/
theorem Ty.spell_congr (h : v.SpellsAs v') (ty : Ty) : ty.spell v = ty.spell v' := by
  cases ty with
  | basic kind => rfl
  | chan dir elem => simp only [Ty.spell, elem.spell_congr h]
  | func signature => simp only [Ty.spell, signature.spell_congr h]
  | slice elem => simp only [Ty.spell, elem.spell_congr h]
  | interface methods => simp only [Ty.spell, spellMethods_congr h methods]
  | array len elem => simp only [Ty.spell, elem.spell_congr h]
  | map key value => simp only [Ty.spell, key.spell_congr h, value.spell_congr h]
  | struct fields => simp only [Ty.spell, h.hiddenField?, spellFields_congr h fields]
  | named decl => exact h.decl decl
  | pointer elem => simp only [Ty.spell, elem.spell_congr h]
  | tuple elems => simp only [Ty.spell, spellTypes_congr h elems]
termination_by structural ty

theorem Signature.spell_congr (h : v.SpellsAs v') (signature : Signature) :
    signature.spell v = signature.spell v' := by
  cases signature with
  | mk params results variadic =>
    simp only [Signature.spell, spellParams_congr h variadic params, spellTypes_congr h results]
termination_by structural signature

theorem spellTypes_congr (h : v.SpellsAs v') (tys : List Ty) : spellTypes v tys = spellTypes v' tys := by
  cases tys with
  | nil => rfl
  | cons ty rest => simp only [spellTypes, ty.spell_congr h, spellTypes_congr h rest]
termination_by structural tys

theorem spellParams_congr (h : v.SpellsAs v') (variadic : Bool) (tys : List Ty) :
    spellParams v variadic tys = spellParams v' variadic tys := by
  cases tys with
  | nil => rfl
  | cons ty rest =>
    have hty := ty.spell_congr h
    have hrest := spellParams_congr h variadic rest
    cases rest with
    | nil =>
      cases ty with
      | slice elem => simp only [spellParams, elem.spell_congr h]
      | _ => exact congrArg (· >>= fun text => return [text]) hty
    | cons ty' more => rw [spellParams_cons_cons, hty, hrest, spellParams_cons_cons]
termination_by structural tys

theorem spellMethods_congr (h : v.SpellsAs v') (methods : List Method) :
    spellMethods v methods = spellMethods v' methods := by
  cases methods with
  | nil => rfl
  | cons m rest =>
    cases m with
    | mk name signature =>
      simp only [spellMethods, signature.spell_congr h, spellMethods_congr h rest]
termination_by structural methods

theorem spellFields_congr (h : v.SpellsAs v') (fields : List Field) :
    spellFields v fields = spellFields v' fields := by
  cases fields with
  | nil => rfl
  | cons f rest =>
    cases f with
    | mk name exported embedded home ty =>
      simp only [spellFields, ty.spell_congr h, spellFields_congr h rest]
termination_by structural fields

end

end LiteralFill
