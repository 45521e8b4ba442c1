import LiteralFill.Proofs.Outcome
import LiteralFill.Proofs.TypeName.Agree
import LiteralFill.Proofs.TypeName.Token

namespace LiteralFill

open TypeToken (word symbol number)

/-- Kinds that a written type can have. The others describe constants or stand for errors. -/
def BasicKind.isTyped : BasicKind → Bool
  | .untyped _ | .invalid => false
  | _ => true

/-- What can be embedded in a struct: a declared type or a pointer to one. -/
def Ty.isEmbeddable : Ty → Bool
  | .named _ | .pointer (.named _) => true
  | _ => false

/-- Types as they occur in programs that compile, written with identifiers over this alphabet. -/
inductive Ty.WellFormed (A : Alphabet) : Ty → Prop
  | basic {kind : BasicKind} : kind.isTyped = true → WellFormed A (.basic kind)
  | chan {dir : ChanDir} {elem : Ty} : WellFormed A elem → WellFormed A (.chan dir elem)
  | func {params results : List Ty} {variadic : Bool} :
    (∀ ty ∈ params, WellFormed A ty) → (∀ ty ∈ results, WellFormed A ty) →
      (variadic = true → ∃ elem, params.getLast? = some (.slice elem)) →
      WellFormed A (.func ⟨params, results, variadic⟩)
  | slice {elem : Ty} : WellFormed A elem → WellFormed A (.slice elem)
  | interface {methods : List Method} :
    (∀ m ∈ methods, A.IsIdentifier m.name) → (∀ m ∈ methods, WellFormed A (.func m.signature)) →
      WellFormed A (.interface methods)
  | array {len : Nat} {elem : Ty} : WellFormed A elem → WellFormed A (.array len elem)
  | map {key value : Ty} : WellFormed A key → WellFormed A value → WellFormed A (.map key value)
  | struct {fields : List Field} :
    (∀ f ∈ fields, if f.embedded then f.ty.isEmbeddable = true else A.IsIdentifier f.name) →
      (∀ f ∈ fields, WellFormed A f.ty) → WellFormed A (.struct fields)
  | named {decl : Nat} : WellFormed A (.named decl)
  | pointer {elem : Ty} : WellFormed A elem → WellFormed A (.pointer elem)

/-- An identifier, or two joined by a dot. -/
def Alphabet.IsTypeName (A : Alphabet) (name : String) : Prop :=
  A.IsIdentifier name ∨ ∃ lead rest, name = lead ++ "." ++ rest ∧ A.IsIdentifier lead ∧ A.IsIdentifier rest

/-- The tokens of a name, which a dot may part in two. -/
def nameTokens (name : String) : List TypeToken :=
  match name.toList.dropWhile (· ≠ '.') with
  | [] => [word name]
  | _ :: rest =>
    [word (String.ofList (name.toList.takeWhile (· ≠ '.'))), symbol ".", word (String.ofList rest)]

/-- The tokens of a declared type. One that cannot be named here has its number for a name. -/
def Viewpoint.declTokens (v : Viewpoint) (decl : Nat) : List TypeToken :=
  match v.spellDecl decl with
  | .ok name => nameTokens name
  | .error _ => [number (toString decl)]

def listTokens (sep : String) (items : List (List TypeToken)) : List TypeToken :=
  [symbol sep].intercalate items

def enclosed (left sep right : String) (items : List (List TypeToken)) : List TypeToken :=
  symbol left :: (listTokens sep items ++ [symbol right])

def chanTokens : ChanDir → Bool → List TypeToken → List TypeToken
  | .both, true, elem => word "chan" :: symbol "(" :: (elem ++ [symbol ")"])
  | .both, false, elem => word "chan" :: elem
  | .send, _, elem => word "chan" :: symbol "<-" :: elem
  | .recv, _, elem => symbol "<-" :: word "chan" :: elem

def resultTokens : List (List TypeToken) → List TypeToken
  | [] => []
  | [result] => result
  | results => enclosed "(" "," ")" results

mutual

/-- The tokens of a type as the file writes it. -/
def Ty.tokens (v : Viewpoint) : Ty → List TypeToken
  | .basic kind => nameTokens kind.name
  | .chan dir elem => chanTokens dir elem.isReceiveOnly (elem.tokens v)
  | .func signature => word "func" :: signature.tokens v
  | .slice elem => symbol "[" :: symbol "]" :: elem.tokens v
  | .interface methods => word "interface" :: enclosed "\x7b" ";" "\x7d" (methodTokens v methods)
  | .array len elem => symbol "[" :: number (toString len) :: symbol "]" :: elem.tokens v
  | .map key value => word "map" :: symbol "[" :: (key.tokens v ++ symbol "]" :: value.tokens v)
  | .struct fields => word "struct" :: enclosed "\x7b" ";" "\x7d" (fieldTokens v fields)
  | .named decl => v.declTokens decl
  | .pointer elem => symbol "*" :: elem.tokens v
  | .tuple elems => enclosed "(" "," ")" (tyTokens v elems)

def Signature.tokens (v : Viewpoint) : Signature → List TypeToken
  | ⟨params, results, variadic⟩ =>
    enclosed "(" "," ")" (paramTokens v variadic params) ++ resultTokens (tyTokens v results)

def tyTokens (v : Viewpoint) : List Ty → List (List TypeToken)
  | [] => []
  | ty :: rest => ty.tokens v :: tyTokens v rest

def paramTokens (v : Viewpoint) (variadic : Bool) : List Ty → List (List TypeToken)
  | [] => []
  | [.slice elem] => [(if variadic then [symbol "..."] else [symbol "[", symbol "]"]) ++ elem.tokens v]
  | ty :: rest => ty.tokens v :: paramTokens v variadic rest

def methodTokens (v : Viewpoint) : List Method → List (List TypeToken)
  | [] => []
  | ⟨name, signature⟩ :: rest => (word name :: signature.tokens v) :: methodTokens v rest

def fieldTokens (v : Viewpoint) : List Field → List (List TypeToken)
  | [] => []
  | ⟨name, _, embedded, _, ty⟩ :: rest =>
    (if embedded then ty.tokens v else word name :: ty.tokens v) :: fieldTokens v rest

end

/-- A parameter as it is written: whether by its elements, and the type that is written. -/
def paramItems (variadic : Bool) : List Ty → List (Bool × Ty)
  | [] => []
  | [.slice elem] => [(variadic, if variadic then elem else .slice elem)]
  | ty :: rest => (false, ty) :: paramItems variadic rest

/-- The parameter behind what is written. -/
def Ty.ofItem (item : Bool × Ty) : Ty := if item.1 then .slice item.2 else item.2

theorem paramItems_cons_cons (variadic : Bool) (ty ty' : Ty) (more : List Ty) :
    paramItems variadic (ty :: ty' :: more) = (false, ty) :: paramItems variadic (ty' :: more) := by
  cases ty <;> rfl

def itemTokens (v : Viewpoint) (item : Bool × Ty) : List TypeToken :=
  if item.1 then symbol "..." :: item.2.tokens v else item.2.tokens v

def Method.tokens (v : Viewpoint) (m : Method) : List TypeToken := word m.name :: m.signature.tokens v

def Field.tokens (v : Viewpoint) (f : Field) : List TypeToken :=
  if f.embedded then f.ty.tokens v else word f.name :: f.ty.tokens v

theorem tyTokens_eq_map (v : Viewpoint) (tys : List Ty) : tyTokens v tys = tys.map (·.tokens v) := by
  induction tys with
  | nil => rfl
  | cons ty rest ih => rw [tyTokens, ih, List.map_cons]

theorem methodTokens_eq_map (v : Viewpoint) (methods : List Method) :
    methodTokens v methods = methods.map (·.tokens v) := by
  induction methods with
  | nil => rfl
  | cons m rest ih =>
    obtain ⟨name, signature⟩ := m
    rw [methodTokens, ih, List.map_cons, Method.tokens]

theorem fieldTokens_eq_map (v : Viewpoint) (fields : List Field) :
    fieldTokens v fields = fields.map (·.tokens v) := by
  induction fields with
  | nil => rfl
  | cons f rest ih =>
    obtain ⟨name, exported, embedded, scope, ty⟩ := f
    rw [fieldTokens, ih, List.map_cons, Field.tokens]

theorem paramTokens_eq_map (v : Viewpoint) (variadic : Bool) (params : List Ty) :
    paramTokens v variadic params = (paramItems variadic params).map (itemTokens v) := by
  induction params with
  | nil => rfl
  | cons ty rest ih =>
    cases rest with
    | nil =>
      cases ty with
      | slice elem => cases variadic <;> rfl
      | _ => rfl
    | cons ty' more =>
      rw [paramItems_cons_cons, List.map_cons, ← ih]
      cases ty <;> rfl

theorem map_ofItem_paramItems (variadic : Bool) (params : List Ty) :
    (paramItems variadic params).map Ty.ofItem = params := by
  induction params with
  | nil => rfl
  | cons ty rest ih =>
    cases rest with
    | nil =>
      cases ty with
      | slice elem => cases variadic <;> rfl
      | _ => rfl
    | cons ty' more => rw [paramItems_cons_cons, List.map_cons, ih, Ty.ofItem, if_neg Bool.false_ne_true]

/-- A signature is variadic if a parameter of it is written by its elements. -/
theorem any_paramItems {variadic : Bool} {params : List Ty}
    (h : variadic = true → ∃ elem, params.getLast? = some (.slice elem)) :
    (paramItems variadic params).any (·.1) = variadic := by
  induction params with
  | nil =>
    cases variadic with
    | true => obtain ⟨elem, h⟩ := h rfl; cases h
    | false => rfl
  | cons ty rest ih =>
    cases rest with
    | nil =>
      cases variadic with
      | true =>
        obtain ⟨elem, h⟩ := h rfl
        cases h
        rfl
      | false => cases ty <;> rfl
    | cons ty' more =>
      rw [paramItems_cons_cons, List.any_cons, Bool.false_or]
      exact ih h

section Spelled

variable {v : Viewpoint}

theorem forall₂_spellTypes {tys : List Ty} {texts : List String} (h : spellTypes v tys = .ok texts) :
    List.Forall₂ (fun ty text => ty.spell v = .ok text) tys texts := by
  induction tys generalizing texts with
  | nil =>
    cases h
    exact .nil
  | cons ty rest ih =>
    obtain ⟨text, htext, h⟩ := bind_eq_ok h
    obtain ⟨more, hmore, h⟩ := bind_eq_ok h
    cases h
    exact .cons htext (ih hmore)

theorem forall₂_spellParams {variadic : Bool} {params : List Ty} {texts : List String}
    (h : spellParams v variadic params = .ok texts) :
    List.Forall₂ (fun item text => ∃ t, item.2.spell v = .ok t ∧
      text = if item.1 then "..." ++ t else t) (paramItems variadic params) texts := by
  induction params generalizing texts with
  | nil =>
    cases h
    exact .nil
  | cons ty rest ih =>
    cases rest with
    | nil =>
      cases ty with
      | slice elem =>
        obtain ⟨text, htext, h⟩ := bind_eq_ok h
        cases h
        cases variadic with
        | true => exact .cons ⟨text, htext, rfl⟩ .nil
        | false =>
          have hslice : (Ty.slice elem).spell v = .ok ("[]" ++ text) := by rw [Ty.spell, htext]; rfl
          exact .cons ⟨_, hslice, rfl⟩ .nil
      | _ =>
        obtain ⟨text, htext, h⟩ := bind_eq_ok h
        cases h
        exact .cons ⟨text, htext, rfl⟩ .nil
    | cons ty' more =>
      rw [spellParams_cons_cons] at h
      obtain ⟨text, htext, h⟩ := bind_eq_ok h
      obtain ⟨more, hmore, h⟩ := bind_eq_ok h
      cases h
      rw [paramItems_cons_cons]
      exact .cons ⟨text, htext, rfl⟩ (ih hmore)

theorem forall₂_spellMethods {methods : List Method} {texts : List String}
    (h : spellMethods v methods = .ok texts) :
    List.Forall₂ (fun m text => ∃ t, m.signature.spell v = .ok t ∧ text = m.name ++ t) methods texts := by
  induction methods generalizing texts with
  | nil =>
    cases h
    exact .nil
  | cons m rest ih =>
    obtain ⟨name, signature⟩ := m
    obtain ⟨text, htext, h⟩ := bind_eq_ok h
    obtain ⟨more, hmore, h⟩ := bind_eq_ok h
    cases h
    exact .cons ⟨text, htext, rfl⟩ (ih hmore)

theorem forall₂_spellFields {fields : List Field} {texts : List String}
    (h : spellFields v fields = .ok texts) :
    List.Forall₂ (fun f text => ∃ t, f.ty.spell v = .ok t ∧
      text = if f.embedded then t else f.name ++ " " ++ t) fields texts := by
  induction fields generalizing texts with
  | nil =>
    cases h
    exact .nil
  | cons f rest ih =>
    obtain ⟨name, exported, embedded, scope, ty⟩ := f
    obtain ⟨text, htext, h⟩ := bind_eq_ok h
    obtain ⟨more, hmore, h⟩ := bind_eq_ok h
    cases h
    exact .cons ⟨text, htext, rfl⟩ (ih hmore)

end Spelled

end LiteralFill
