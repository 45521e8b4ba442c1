import LiteralFill.Proofs.TypeTable.Nodes

namespace LiteralFill

/-- The types of the parameters and of the results. -/
def Signature.types (s : Signature) : List Ty := s.params ++ s.results

/-- The types that a type is written with, one step down and in the order of writing. A name is written
without what it stands for. -/
def Ty.components : Ty → List Ty
  | .basic _ | .named _ => []
  | .chan _ elem | .slice elem | .array _ elem | .pointer elem => [elem]
  | .func signature => signature.types
  | .interface methods => methods.flatMap (·.signature.types)
  | .map key value => [key, value]
  | .struct fields => fields.map (·.ty)
  | .tuple elems => elems

theorem Signature.sizeOf_lt_of_mem_types {s : Signature} {ty : Ty} (h : ty ∈ s.types) :
    sizeOf ty < sizeOf s := by
  obtain ⟨params, results, variadic⟩ := s
  rw [Signature.mk.sizeOf_spec]
  rcases List.mem_append.1 h with h | h
  · have hparam : sizeOf ty < sizeOf params := List.sizeOf_lt_of_mem h
    omega
  · have hresult : sizeOf ty < sizeOf results := List.sizeOf_lt_of_mem h
    omega

theorem Method.sizeOf_signature_lt (m : Method) : sizeOf m.signature < sizeOf m := by
  obtain ⟨name, signature⟩ := m
  simp only [Method.mk.sizeOf_spec]
  omega

theorem Ty.sizeOf_lt_of_mem_components {c ty : Ty} (h : c ∈ ty.components) : sizeOf c < sizeOf ty := by
  cases ty with
  | basic _ | named _ => cases h
  | chan _ elem | slice elem | array _ elem | pointer elem =>
    obtain rfl := List.mem_singleton.1 h
    simp only [Ty.chan.sizeOf_spec, Ty.slice.sizeOf_spec, Ty.array.sizeOf_spec, Ty.pointer.sizeOf_spec]
    omega
  | func signature =>
    have hsignature := Signature.sizeOf_lt_of_mem_types h
    rw [Ty.func.sizeOf_spec]
    omega
  | interface methods =>
    obtain ⟨m, hm, h⟩ := List.mem_flatMap.1 h
    have hsignature := Signature.sizeOf_lt_of_mem_types h
    have hmethod := m.sizeOf_signature_lt
    have hmethods := List.sizeOf_lt_of_mem hm
    rw [Ty.interface.sizeOf_spec]
    omega
  | map key value =>
    simp only [components, List.mem_cons, List.not_mem_nil, or_false] at h
    rw [Ty.map.sizeOf_spec]
    rcases h with rfl | rfl <;> omega
  | struct fields =>
    obtain ⟨f, hf, rfl⟩ := List.mem_map.1 h
    exact Field.sizeOf_ty_lt hf
  | tuple elems =>
    have helem : sizeOf c < sizeOf elems := List.sizeOf_lt_of_mem h
    rw [Ty.tuple.sizeOf_spec]
    omega

/-- A type and all types inside it, each before its own components. -/
def Ty.subterms (ty : Ty) : List Ty := ty :: ty.components.attach.flatMap fun c => c.1.subterms
termination_by sizeOf ty
decreasing_by exact Ty.sizeOf_lt_of_mem_components c.2

theorem Ty.subterms_eq (ty : Ty) : ty.subterms = ty :: ty.components.flatMap Ty.subterms := by
  rw [subterms, List.flatMap_subtype (g := Ty.subterms) fun _ _ => rfl, List.unattach_attach]

/-- What holds of a type as soon as it holds of its components holds of all types. -/
theorem Ty.induction_components {motive : Ty → Prop}
    (h : ∀ ty, (∀ c ∈ ty.components, motive c) → motive ty) (ty : Ty) : motive ty :=
  h ty fun c _ => Ty.induction_components h c
termination_by sizeOf ty
decreasing_by exact Ty.sizeOf_lt_of_mem_components ‹_›

theorem tyRefs_eq_flatMap (tys : List Ty) : tyRefs tys = tys.flatMap Ty.refs := by
  induction tys with
  | nil => rfl
  | cons ty rest ih => rw [tyRefs, ih, List.flatMap_cons]

theorem Signature.refs_eq_flatMap (s : Signature) : s.refs = s.types.flatMap Ty.refs := by
  obtain ⟨params, results, variadic⟩ := s
  rw [Signature.refs, tyRefs_eq_flatMap, tyRefs_eq_flatMap, types, List.flatMap_append]

theorem methodRefs_eq_flatMap (methods : List Method) :
    methodRefs methods = (methods.flatMap (·.signature.types)).flatMap Ty.refs := by
  induction methods with
  | nil => rfl
  | cons m rest ih =>
    obtain ⟨name, signature⟩ := m
    rw [methodRefs, ih, signature.refs_eq_flatMap, List.flatMap_cons, List.flatMap_append]

theorem fieldRefs_eq_flatMap (fields : List Field) :
    fieldRefs fields = (fields.map (·.ty)).flatMap Ty.refs := by
  induction fields with
  | nil => rfl
  | cons f rest ih =>
    obtain ⟨name, exported, embedded, scope, ty⟩ := f
    rw [fieldRefs, ih, List.map_cons, List.flatMap_cons]

theorem Ty.refs_eq_components (ty : Ty) : ty.refs = ty.decl?.toList ++ ty.components.flatMap Ty.refs := by
  cases ty with
  | basic _ | named _ => rfl
  | chan _ elem | slice elem | array _ elem | pointer elem => exact (List.append_nil elem.refs).symm
  | func signature => exact signature.refs_eq_flatMap
  | interface methods => exact methodRefs_eq_flatMap methods
  | map key value => simp [refs, decl?, components]
  | struct fields => exact fieldRefs_eq_flatMap fields
  | tuple elems => exact tyRefs_eq_flatMap elems

/-- The references of a type are the names among its subterms. -/
theorem Ty.refs_eq_filterMap (ty : Ty) : ty.refs = ty.subterms.filterMap Ty.decl? := by
  induction ty using Ty.induction_components with
  | h ty ih =>
    have hrest : ty.components.flatMap Ty.refs =
        ty.components.flatMap fun c => c.subterms.filterMap Ty.decl? :=
      List.flatMap_congr ih
    rw [refs_eq_components, subterms_eq, List.filterMap_cons, List.filterMap_flatMap, hrest]
    cases ty.decl? <;> rfl

end LiteralFill
