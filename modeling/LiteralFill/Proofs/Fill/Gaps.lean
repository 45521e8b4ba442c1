import LiteralFill.Proofs.Fill.Renderable
import Mathlib.Logic.Function.Basic

namespace LiteralFill

/-- A field that is missing from a literal, with what its value had left out before it failed. -/
structure Gap where
  omission : Omission
  inside : List Omission

/-- What is put on record while literals with these gaps are written. -/
def reports (gaps : List Gap) : List Omission := gaps.flatMap fun g => g.inside ++ [g.omission]

theorem reports_append (gaps gaps' : List Gap) : reports (gaps ++ gaps') = reports gaps ++ reports gaps' :=
  List.flatMap_append

theorem reports_cons (g : Gap) (gaps : List Gap) :
    reports (g :: gaps) = g.inside ++ g.omission :: reports gaps := by
  rw [reports, List.flatMap_cons, List.append_assoc, List.singleton_append, ← reports]

theorem length_le_length_reports (gaps : List Gap) : gaps.length ≤ (reports gaps).length := by
  induction gaps with
  | nil => exact Nat.le_refl 0
  | cons g rest ih =>
    simp only [reports_cons, List.length_append, List.length_cons]
    omega

/-- The record names the gaps and nothing else if no value that failed had left anything out. -/
theorem reports_eq_map_iff {gaps : List Gap} :
    reports gaps = gaps.map (·.omission) ↔ ∀ g ∈ gaps, g.inside = [] := by
  induction gaps with
  | nil => exact ⟨fun _ => nofun, fun _ => rfl⟩
  | cons g rest ih =>
    rw [reports_cons, List.map_cons, List.forall_mem_cons, ← ih]
    constructor
    · intro h
      -- what is inside would make the record longer than there are gaps
      have hlength := congrArg List.length h
      simp only [List.length_append, List.length_cons, List.length_map] at hlength
      have hle := length_le_length_reports rest
      have hnil : g.inside = [] := List.length_eq_zero_iff.1 (by omega)
      rw [hnil] at h
      exact ⟨hnil, List.tail_eq_of_cons_eq h⟩
    · rintro ⟨hnil, hrest⟩
      rw [hnil, hrest, List.nil_append]

mutual

/-- A zero value of the type at a node, and the gaps of the literals it is made of in the order in which
they are written. The structs of `path` are being written around it. -/
inductive Lacks (v : Viewpoint) : List Place → Style → Node → Expr → List Gap → Prop
  | basic {path : List Place} {style : Style} {node : Node} {kind : BasicKind} {e : Expr} :
    node.ty = .basic kind → kind.zeroAt? noPos = some e → Lacks v path style node e []
  | nil {path : List Place} {style : Style} {node : Node} :
    node.ty.hasNil = true → Lacks v path style node (nilAt noPos) []
  | array {path : List Place} {style : Style} {node : Node} {len : Nat} {elem : Ty}
    {type? : Option Expr} {elts : List Expr} {gaps : List Gap} :
    node.ty = .array len elem → (style.bareType? (arrayTypeAt v · len elem)).outcome = .ok type? →
      elts.length = len → ElementsLack v path (node.child 0 elem) elts gaps →
      Lacks v path style node (.compositeLit type? noPos elts noPos) gaps
  | map {path : List Place} {style : Style} {node : Node} {key value : Ty} {type? : Option Expr}
    {k e : Expr} {gaps gaps' : List Gap} :
    node.ty = .map key value → (Style.plain.bareType? (mapTypeAt v · key value)).outcome = .ok type? →
      Lacks v path .elidedType (node.child 0 key) k gaps →
      Lacks v path .elidedType (node.child 1 value) e gaps' →
      Lacks v path style node (.compositeLit type? noPos [.keyValue k noPos e] noPos) (gaps ++ gaps')
  | innerStruct {path : List Place} {style : Style} {node : Node} {fields : List Field}
    {type? : Option Expr} :
    node.ty = .struct fields → (style.bareType? (structTypeAt v style · fields)).outcome = .ok type? →
      node.place ∈ path → Lacks v path style node (.compositeLit type? noPos [] noPos) []
  | struct {path : List Place} {style : Style} {node : Node} {fields : List Field}
    {type? : Option Expr} {elts : List Expr} {gaps : List Gap} :
    node.ty = .struct fields → (style.bareType? (structTypeAt v style · fields)).outcome = .ok type? →
      node.place ∉ path → FieldsLack v (node.place :: path) node (fun _ => none) 0 fields elts gaps →
      Lacks v path style node (.compositeLit type? noPos elts noPos) gaps
  | named {path : List Place} {style : Style} {node target : Node} {decl : Nat} {e : Expr}
    {gaps : List Gap} :
    node.ty = .named decl → v.table.underlyingNode node = .ok target →
      Lacks v path { style with decl? := if target.ty.isStruct then some decl else none } target e gaps →
      Lacks v path style node e gaps
  | structPointer {path : List Place} {style : Style} {node : Node} {elem target : Ty} {e : Expr}
    {gaps : List Gap} :
    node.ty = .pointer elem → v.table.underlying elem = .ok target → target.isStruct = true →
      Lacks v path { style with addressed := true } (node.child 0 elem) e gaps →
      Lacks v path style node e gaps
  | pointer {path : List Place} {style : Style} {node : Node} {elem target : Ty} :
    node.ty = .pointer elem → v.table.underlying elem = .ok target → target.isStruct = false →
      Lacks v path style node (nilAt noPos) []

/-- The elements of an array, with their gaps one after the other. -/
inductive ElementsLack (v : Viewpoint) : List Place → Node → List Expr → List Gap → Prop
  | nil {path : List Place} {node : Node} : ElementsLack v path node [] []
  | cons {path : List Place} {node : Node} {e : Expr} {elts : List Expr} {gaps gaps' : List Gap} :
    Lacks v path .elidedType node e gaps → ElementsLack v path node elts gaps' →
      ElementsLack v path node (e :: elts) (gaps ++ gaps')

/-- The entries of a struct literal for the fields from number `i` on, with their gaps. A field has an
entry with what is written for it, which the first field of that name takes over, or with a zero value, or
it is a gap since its value cannot be written, or it may not be named itself. -/
inductive FieldsLack (v : Viewpoint) : List Place → Node → (String → Option Expr) → Nat →
    List Field → List Expr → List Gap → Prop
  | nil {path : List Place} {node : Node} {written : String → Option Expr} {i : Nat} :
    FieldsLack v path node written i [] [] []
  | written {path : List Place} {node : Node} {written : String → Option Expr} {i : Nat} {f : Field}
    {fields : List Field} {value : Expr} {elts : List Expr} {gaps : List Gap} :
    written f.name = some value →
      FieldsLack v path node (Function.update written f.name none) (i + 1) fields elts gaps →
      FieldsLack v path node written i (f :: fields) (.entry f.name value :: elts) gaps
  | filled {path : List Place} {node : Node} {written : String → Option Expr} {i : Nat} {f : Field}
    {fields : List Field} {value : Expr} {elts : List Expr} {gaps gaps' : List Gap} :
    written f.name = none → f.visibleFrom v.current = true →
      Lacks v path .plain (node.child i f.ty) value gaps →
      FieldsLack v path node written (i + 1) fields elts gaps' →
      FieldsLack v path node written i (f :: fields) (.entry f.name value :: elts) (gaps ++ gaps')
  | missing {path : List Place} {node : Node} {written : String → Option Expr} {i : Nat} {f : Field}
    {fields : List Field} {elts : List Expr} {hidden : String} {inside : List Omission}
    {gaps : List Gap} :
    written f.name = none → f.visibleFrom v.current = true →
      NotSpelled v path .plain (node.child i f.ty) hidden inside →
      FieldsLack v path node written (i + 1) fields elts gaps →
      FieldsLack v path node written i (f :: fields) elts (⟨⟨f.name, hidden⟩, inside⟩ :: gaps)
  | unseen {path : List Place} {node : Node} {written : String → Option Expr} {i : Nat} {f : Field}
    {fields : List Field} {elts : List Expr} {gaps : List Gap} :
    written f.name = none → f.visibleFrom v.current = false →
      FieldsLack v path node written (i + 1) fields elts gaps →
      FieldsLack v path node written i (f :: fields) elts gaps

/-- The zero value at a node cannot be written for the name of a type in it, after parts of it with
these omissions have been. A map is the only type with a part that comes before the one that fails. -/
inductive NotSpelled (v : Viewpoint) : List Place → Style → Node → String → List Omission → Prop
  | arrayType {path : List Place} {style : Style} {node : Node} {len : Nat} {elem : Ty}
    {hidden : String} :
    node.ty = .array len elem →
      (style.bareType? (arrayTypeAt v · len elem)).outcome = .error (.unrenderable hidden) →
      NotSpelled v path style node hidden []
  | arrayElement {path : List Place} {style : Style} {node : Node} {len : Nat} {elem : Ty}
    {type? : Option Expr} {hidden : String} {inside : List Omission} :
    node.ty = .array len elem → (style.bareType? (arrayTypeAt v · len elem)).outcome = .ok type? →
      0 < len → NotSpelled v path .elidedType (node.child 0 elem) hidden inside →
      NotSpelled v path style node hidden inside
  | mapType {path : List Place} {style : Style} {node : Node} {key value : Ty} {hidden : String} :
    node.ty = .map key value →
      (Style.plain.bareType? (mapTypeAt v · key value)).outcome = .error (.unrenderable hidden) →
      NotSpelled v path style node hidden []
  | mapKey {path : List Place} {style : Style} {node : Node} {key value : Ty} {type? : Option Expr}
    {hidden : String} {inside : List Omission} :
    node.ty = .map key value → (Style.plain.bareType? (mapTypeAt v · key value)).outcome = .ok type? →
      NotSpelled v path .elidedType (node.child 0 key) hidden inside →
      NotSpelled v path style node hidden inside
  | mapValue {path : List Place} {style : Style} {node : Node} {key value : Ty} {type? : Option Expr}
    {k : Expr} {gaps : List Gap} {hidden : String} {inside : List Omission} :
    node.ty = .map key value → (Style.plain.bareType? (mapTypeAt v · key value)).outcome = .ok type? →
      Lacks v path .elidedType (node.child 0 key) k gaps →
      NotSpelled v path .elidedType (node.child 1 value) hidden inside →
      NotSpelled v path style node hidden (reports gaps ++ inside)
  | structType {path : List Place} {style : Style} {node : Node} {fields : List Field}
    {hidden : String} :
    node.ty = .struct fields →
      (style.bareType? (structTypeAt v style · fields)).outcome = .error (.unrenderable hidden) →
      NotSpelled v path style node hidden []
  | named {path : List Place} {style : Style} {node target : Node} {decl : Nat} {hidden : String}
    {inside : List Omission} :
    node.ty = .named decl → v.table.underlyingNode node = .ok target →
      NotSpelled v path { style with decl? := if target.ty.isStruct then some decl else none } target
        hidden inside →
      NotSpelled v path style node hidden inside
  | structPointer {path : List Place} {style : Style} {node : Node} {elem target : Ty}
    {hidden : String} {inside : List Omission} :
    node.ty = .pointer elem → v.table.underlying elem = .ok target → target.isStruct = true →
      NotSpelled v path { style with addressed := true } (node.child 0 elem) hidden inside →
      NotSpelled v path style node hidden inside

end

section Unique

variable {v : Viewpoint}

/-- A type whose zero value cannot be written has none. -/
theorem NotSpelled.not_lacks {path : List Place} {style : Style} {node : Node} {hidden : String}
    {inside : List Omission} {e : Expr} {gaps : List Gap} :
    NotSpelled v path style node hidden inside → ¬Lacks v path style node e gaps
  | .arrayType hty htype, h => by cases h <;> simp_all [Ty.hasNil]
  -- a value of the same form fails where this one does, and no other form has this type
  | .arrayElement hty htype hpos helem, h => by
    cases h with
    | array hty' _ hlength helts =>
      cases hty.symm.trans hty'
      cases helts with
      | nil => exact absurd hlength (Nat.ne_of_lt hpos)
      | cons he _ => exact helem.not_lacks he
    | _ => simp_all [Ty.hasNil]
  | .mapType hty htype, h => by cases h <;> simp_all [Ty.hasNil]
  | .mapKey hty htype hkey, h => by
    cases h with
    | map hty' _ hk _ =>
      cases hty.symm.trans hty'
      exact hkey.not_lacks hk
    | _ => simp_all [Ty.hasNil]
  | .mapValue hty htype _ hvalue, h => by
    cases h with
    | map hty' _ _ he =>
      cases hty.symm.trans hty'
      exact hvalue.not_lacks he
    | _ => simp_all [Ty.hasNil]
  | .structType hty htype, h => by cases h <;> simp_all [Ty.hasNil]
  | .named hty htarget hvalue, h => by
    cases h with
    | named hty' htarget' he =>
      cases hty.symm.trans hty'
      cases htarget.symm.trans htarget'
      exact hvalue.not_lacks he
    | _ => simp_all [Ty.hasNil]
  | .structPointer hty htarget hstruct hvalue, h => by
    cases h with
    | structPointer hty' _ _ he =>
      cases hty.symm.trans hty'
      exact hvalue.not_lacks he
    | _ => simp_all [Ty.hasNil]

mutual

/-- A type has at most one zero value at its place, which has its gaps and no others. -/
theorem Lacks.unique {path : List Place} {style : Style} {node : Node} {e e' : Expr}
    {gaps gaps' : List Gap} :
    Lacks v path style node e gaps → Lacks v path style node e' gaps' → e = e' ∧ gaps = gaps'
  | .basic hty hzero, h => by cases h <;> simp_all [Ty.hasNil]
  | .nil hn, h => by
    cases h with
    | nil => exact ⟨rfl, rfl⟩
    | _ => simp_all [Ty.hasNil]
  | .array hty htype hlength helts, h => by
    cases h with
    | array hty' htype' hlength' helts' =>
      cases hty.symm.trans hty'
      cases htype.symm.trans htype'
      obtain ⟨rfl, rfl⟩ := helts.unique helts' (hlength.trans hlength'.symm)
      exact ⟨rfl, rfl⟩
    | _ => simp_all [Ty.hasNil]
  | .map hty htype hk he, h => by
    cases h with
    | map hty' htype' hk' he' =>
      cases hty.symm.trans hty'
      cases htype.symm.trans htype'
      obtain ⟨rfl, rfl⟩ := hk.unique hk'
      obtain ⟨rfl, rfl⟩ := he.unique he'
      exact ⟨rfl, rfl⟩
    | _ => simp_all [Ty.hasNil]
  | .innerStruct hty htype hmem, h => by cases h <;> simp_all [Ty.hasNil]
  | .struct hty htype hmem helts, h => by
    cases h with
    | struct hty' htype' _ helts' =>
      cases hty.symm.trans hty'
      cases htype.symm.trans htype'
      obtain ⟨rfl, rfl⟩ := helts.unique helts'
      exact ⟨rfl, rfl⟩
    | _ => simp_all [Ty.hasNil]
  | .named hty htarget he, h => by
    cases h with
    | named hty' htarget' he' =>
      cases hty.symm.trans hty'
      cases htarget.symm.trans htarget'
      exact he.unique he'
    | _ => simp_all [Ty.hasNil]
  | .structPointer hty htarget hstruct he, h => by
    cases h with
    | structPointer hty' _ _ he' =>
      cases hty.symm.trans hty'
      exact he.unique he'
    | _ => simp_all [Ty.hasNil]
  | .pointer hty htarget hstruct, h => by cases h <;> simp_all [Ty.hasNil]
termination_by structural h => h

theorem ElementsLack.unique {path : List Place} {node : Node} {elts elts' : List Expr}
    {gaps gaps' : List Gap} :
    ElementsLack v path node elts gaps → ElementsLack v path node elts' gaps' →
      elts.length = elts'.length → elts = elts' ∧ gaps = gaps'
  | .nil, .nil, _ => ⟨rfl, rfl⟩
  | .cons he helts, .cons he' helts', hlength => by
    obtain ⟨rfl, rfl⟩ := he.unique he'
    obtain ⟨rfl, rfl⟩ := helts.unique helts' (Nat.succ.inj hlength)
    exact ⟨rfl, rfl⟩
termination_by structural h => h

/-- What a struct literal has and lacks goes by its fields and what is written for them. -/
theorem FieldsLack.unique {path : List Place} {node : Node} {written : String → Option Expr} {i : Nat}
    {fields : List Field} {elts elts' : List Expr} {gaps gaps' : List Gap} :
    FieldsLack v path node written i fields elts gaps →
      FieldsLack v path node written i fields elts' gaps' → elts = elts' ∧ gaps = gaps'
  | .nil, .nil => ⟨rfl, rfl⟩
  | .written hw helts, h => by
    cases h with
    | written hw' helts' =>
      cases hw.symm.trans hw'
      obtain ⟨rfl, rfl⟩ := helts.unique helts'
      exact ⟨rfl, rfl⟩
    | _ => simp_all
  | .filled hw hvis he helts, h => by
    cases h with
    | filled _ _ he' helts' =>
      obtain ⟨rfl, rfl⟩ := he.unique he'
      obtain ⟨rfl, rfl⟩ := helts.unique helts'
      exact ⟨rfl, rfl⟩
    | missing _ _ hnot _ => exact (hnot.not_lacks he).elim
    | _ => simp_all
  | .missing hw hvis hnot helts, h => by
    cases h with
    | filled _ _ he' _ => exact (hnot.not_lacks he').elim
    | missing _ _ hnot' helts' =>
      obtain ⟨rfl, rfl⟩ := hnot.unique hnot'
      obtain ⟨rfl, rfl⟩ := helts.unique helts'
      exact ⟨rfl, rfl⟩
    | _ => simp_all
  | .unseen hw hvis helts, h => by
    cases h with
    | unseen _ _ helts' => exact helts.unique helts'
    | _ => simp_all
termination_by structural h => h

theorem NotSpelled.unique {path : List Place} {style : Style} {node : Node} {hidden hidden' : String}
    {inside inside' : List Omission} :
    NotSpelled v path style node hidden inside → NotSpelled v path style node hidden' inside' →
      hidden = hidden' ∧ inside = inside'
  | .arrayType hty htype, h => by cases h <;> simp_all
  | .arrayElement hty htype hpos helem, h => by
    cases h with
    | arrayElement hty' _ _ helem' =>
      cases hty.symm.trans hty'
      exact helem.unique helem'
    | _ => simp_all
  | .mapType hty htype, h => by cases h <;> simp_all
  | .mapKey hty htype hkey, h => by
    cases h with
    | mapKey hty' _ hkey' =>
      cases hty.symm.trans hty'
      exact hkey.unique hkey'
    | mapValue hty' _ hk' _ =>
      cases hty.symm.trans hty'
      exact (hkey.not_lacks hk').elim
    | _ => simp_all
  | .mapValue hty htype hk hvalue, h => by
    cases h with
    | mapKey hty' _ hkey' =>
      cases hty.symm.trans hty'
      exact (hkey'.not_lacks hk).elim
    | mapValue hty' _ hk' hvalue' =>
      cases hty.symm.trans hty'
      obtain ⟨-, rfl⟩ := hk.unique hk'
      obtain ⟨rfl, rfl⟩ := hvalue.unique hvalue'
      exact ⟨rfl, rfl⟩
    | _ => simp_all
  | .structType hty htype, h => by cases h <;> simp_all
  | .named hty htarget hvalue, h => by
    cases h with
    | named hty' htarget' hvalue' =>
      cases hty.symm.trans hty'
      cases htarget.symm.trans htarget'
      exact hvalue.unique hvalue'
    | _ => simp_all
  | .structPointer hty htarget hstruct hvalue, h => by
    cases h with
    | structPointer hty' _ _ hvalue' =>
      cases hty.symm.trans hty'
      exact hvalue.unique hvalue'
    | _ => simp_all
termination_by structural h => h

end

end Unique

end LiteralFill
