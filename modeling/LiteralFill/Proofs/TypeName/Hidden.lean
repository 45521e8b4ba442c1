import LiteralFill.Proofs.Outcome
import LiteralFill.Proofs.Ty.Subterms
import LiteralFill.Proofs.TypeName.Agree
import LiteralFill.Proofs.TypeName.References

namespace LiteralFill

section First

variable {α β γ : Type}

theorem findSome?_cons_eq_or (f : α → Option β) (x : α) (xs : List α) :
    (x :: xs).findSome? f = (f x).or (xs.findSome? f) := by
  rw [List.findSome?_cons]
  cases f x <;> rfl

/-- The first hit in a row of lists is the first one in the first list that has any. -/
theorem findSome?_flatMap {f : β → Option γ} {g : α → List β} {hit : α → Option γ} {xs : List α}
    (h : ∀ x ∈ xs, (g x).findSome? f = hit x) : (xs.flatMap g).findSome? f = xs.findSome? hit := by
  induction xs with
  | nil => rfl
  | cons x rest ih =>
    obtain ⟨hx, hrest⟩ := List.forall_mem_cons.1 h
    rw [List.flatMap_cons, List.findSome?_append, hx, ih hrest, findSome?_cons_eq_or]

end First

/-- A type that may not be written here for what it is itself, whatever is inside it, and the name by
which it is reported. -/
inductive Viewpoint.Hides (v : Viewpoint) : Ty → String → Prop
  | unexported {decl : Nat} {d : TypeDecl} {scope : Scope} :
    v.table.get? decl = some d → d.scope? = some scope → scope ≠ v.current → d.exported = false →
      v.Hides (.named decl) (scope.name ++ "." ++ d.name)
  | blankImport {decl : Nat} {d : TypeDecl} {scope : Scope} :
    v.table.get? decl = some d → d.scope? = some scope → scope ≠ v.current →
      v.qualifier.lead? scope = none → v.Hides (.named decl) (scope.name ++ "." ++ d.name)
  | field {before after : List Field} {f : Field} :
    (∀ g ∈ before, g.visibleFrom v.current = true) → f.visibleFrom v.current = false →
      v.Hides (.struct (before ++ f :: after)) ("struct\x7b... " ++ f.name ++ " ...\x7d")

/-- What keeps a type from being written before anything inside it is looked at. -/
def Viewpoint.ownError? (v : Viewpoint) : Ty → Option SpellError
  | .named decl => failure? (v.spellDecl decl)
  | .struct fields => hiddenField? v fields
  | _ => none

variable {v : Viewpoint} {ty : Ty} {name : String}

theorem TypeDecl.spell_eq_hidden_iff {d : TypeDecl} :
    d.spell v = .error (.hidden name) ↔ ∃ scope, d.scope? = some scope ∧ scope ≠ v.current ∧
      (d.exported = false ∨ v.qualifier.lead? scope = none) ∧ name = scope.name ++ "." ++ d.name := by
  unfold TypeDecl.spell
  cases hscope : d.scope? with
  | none => simp
  | some scope =>
    by_cases hcurrent : scope = v.current
    -- names of the package itself are written alone
    · have hlead : v.qualifier.lead? scope = some .bare := if_pos hcurrent
      simp [isForeignTo, hscope, hcurrent ▸ hlead, hcurrent]
    · cases hexported : d.exported with
      | false => simp [isForeignTo, hscope, hcurrent, eq_comm]
      | true =>
        cases hlead : v.qualifier.lead? scope with
        | none => simp [hcurrent, eq_comm, hlead]
        | some lead => cases lead <;> simp [hlead]

theorem Viewpoint.spellDecl_eq_hidden_iff {decl : Nat} :
    v.spellDecl decl = .error (.hidden name) ↔
      ∃ d, v.table.get? decl = some d ∧ d.spell v = .error (.hidden name) := by
  unfold spellDecl
  cases v.table.get? decl <;> simp

theorem hiddenField?_eq_some_iff {fields : List Field} {e : SpellError} :
    hiddenField? v fields = some e ↔ ∃ before f after, fields = before ++ f :: after ∧
      (∀ g ∈ before, g.visibleFrom v.current = true) ∧ f.visibleFrom v.current = false ∧
      e = .hidden ("struct\x7b... " ++ f.name ++ " ...\x7d") := by
  simp only [hiddenField?, Option.map_eq_some_iff, List.find?_eq_some_iff_append, Bool.not_eq_true',
    Bool.not_eq_false']
  constructor
  · rintro ⟨f, ⟨hf, before, after, rfl, hbefore⟩, rfl⟩
    exact ⟨before, f, after, rfl, hbefore, hf, rfl⟩
  · rintro ⟨before, f, after, rfl, hbefore, hf, rfl⟩
    exact ⟨f, ⟨hf, before, after, rfl, hbefore⟩, rfl⟩

theorem Viewpoint.ownError?_eq_hidden_iff : v.ownError? ty = some (.hidden name) ↔ v.Hides ty name := by
  constructor
  · intro h
    cases ty with
    | named decl =>
      obtain ⟨d, hd, hspell⟩ := spellDecl_eq_hidden_iff.1 (failure?_eq_some_iff.1 h)
      obtain ⟨scope, hscope, hcurrent, hexported | hlead, rfl⟩ := TypeDecl.spell_eq_hidden_iff.1 hspell
      · exact .unexported hd hscope hcurrent hexported
      · exact .blankImport hd hscope hcurrent hlead
    | struct fields =>
      obtain ⟨before, f, after, rfl, hbefore, hf, ⟨⟩⟩ := hiddenField?_eq_some_iff.1 h
      exact .field hbefore hf
    | _ => cases h
  · rintro (⟨hd, hscope, hcurrent, hexported⟩ | ⟨hd, hscope, hcurrent, hlead⟩ | ⟨hbefore, hf⟩)
    · exact failure?_eq_some_iff.2 (spellDecl_eq_hidden_iff.2 ⟨_, hd,
        TypeDecl.spell_eq_hidden_iff.2 ⟨_, hscope, hcurrent, .inl hexported, rfl⟩⟩)
    · exact failure?_eq_some_iff.2 (spellDecl_eq_hidden_iff.2 ⟨_, hd,
        TypeDecl.spell_eq_hidden_iff.2 ⟨_, hscope, hcurrent, .inr hlead, rfl⟩⟩)
    · exact hiddenField?_eq_some_iff.2 ⟨_, _, _, rfl, hbefore, hf, rfl⟩

section Failure

variable (v)

theorem failure?_spellTypes (tys : List Ty) :
    failure? (spellTypes v tys) = tys.findSome? fun ty => failure? (ty.spell v) := by
  induction tys with
  | nil => rfl
  | cons ty rest ih =>
    rw [spellTypes, failure?_bind fun _ => failure?_bind_pure, ih, findSome?_cons_eq_or]

/-- A last parameter that is written by its elements fails as they do. -/
theorem failure?_spellParams (variadic : Bool) (tys : List Ty) :
    failure? (spellParams v variadic tys) = tys.findSome? fun ty => failure? (ty.spell v) := by
  induction tys with
  | nil => rfl
  | cons ty rest ih =>
    rw [findSome?_cons_eq_or, ← ih]
    cases rest with
    | nil =>
      rw [spellParams, failure?, Option.or_none]
      cases ty with
      | slice elem => rw [spellParams, Ty.spell, failure?_bind_pure, failure?_bind_pure]
      | _ => exact failure?_bind_pure
    | cons ty' more => rw [spellParams_cons_cons, failure?_bind fun _ => failure?_bind_pure]

theorem Signature.failure?_spell (s : Signature) :
    failure? (s.spell v) = s.types.findSome? fun ty => failure? (ty.spell v) := by
  obtain ⟨params, results, variadic⟩ := s
  rw [Signature.spell, failure?_bind fun _ => failure?_bind_pure, failure?_spellParams,
    failure?_spellTypes, types, List.findSome?_append]

theorem failure?_spellMethods (methods : List Method) :
    failure? (spellMethods v methods) =
      (methods.flatMap (·.signature.types)).findSome? fun ty => failure? (ty.spell v) := by
  induction methods with
  | nil => rfl
  | cons m rest ih =>
    obtain ⟨name, signature⟩ := m
    rw [spellMethods, failure?_bind fun _ => failure?_bind_pure, signature.failure?_spell, ih,
      List.flatMap_cons, List.findSome?_append]

theorem failure?_spellFields (fields : List Field) :
    failure? (spellFields v fields) =
      (fields.map (·.ty)).findSome? fun ty => failure? (ty.spell v) := by
  induction fields with
  | nil => rfl
  | cons f rest ih =>
    obtain ⟨name, exported, embedded, scope, ty⟩ := f
    rw [spellFields, failure?_bind fun _ => failure?_bind_pure, ih, List.map_cons,
      findSome?_cons_eq_or]

/-- A type is written unless it is hidden itself, or else for the first of its components that is not. -/
theorem Ty.failure?_spell_components (ty : Ty) :
    failure? (ty.spell v) =
      (v.ownError? ty).or (ty.components.findSome? fun c => failure? (c.spell v)) := by
  cases ty with
  | basic kind => rfl
  | named decl => exact (Option.or_none).symm
  | chan _ elem | slice elem | array _ elem | pointer elem =>
    rw [Ty.spell, failure?_bind_pure, components, findSome?_cons_eq_or, List.findSome?_nil,
      Option.or_none]
    rfl
  | func signature => rw [Ty.spell, failure?_bind_pure, signature.failure?_spell]; rfl
  | interface methods => rw [Ty.spell, failure?_bind_pure, failure?_spellMethods]; rfl
  | map key value =>
    rw [Ty.spell, failure?_bind fun _ => failure?_bind_pure, components, findSome?_cons_eq_or,
      findSome?_cons_eq_or, List.findSome?_nil, Option.or_none]
    rfl
  | struct fields =>
    have hown : failure? ((hiddenField? v fields).elim (.ok ()) .error) = hiddenField? v fields := by
      cases hiddenField? v fields <;> rfl
    rw [Ty.spell, failure?_bind fun _ => failure?_bind_pure, failure?_spellFields, hown]
    rfl
  | tuple elems => rw [Ty.spell, failure?_bind_pure, failure?_spellTypes]; rfl

/-- The error of a spelling is that of the first subterm with one of its own. -/
theorem Ty.failure?_spell (ty : Ty) : failure? (ty.spell v) = ty.subterms.findSome? v.ownError? := by
  induction ty using Ty.induction_components with
  | h ty ih =>
    rw [ty.failure?_spell_components, subterms_eq, findSome?_cons_eq_or,
      findSome?_flatMap fun c hc => (ih c hc).symm]

end Failure

/-- A table in which declarations stand for other types, but are called what they were. -/
def TypeTable.Redefines (t' t : TypeTable) : Prop :=
  t'.size = t.size ∧ ∀ decl d, t.get? decl = some d → ∃ underlying, t'.get? decl = some { d with underlying }

theorem TypeTable.Redefines.spellsAs {t' : TypeTable} (h : t'.Redefines v.table) :
    Viewpoint.SpellsAs ⟨t', v.qualifier⟩ v where
  current := rfl
  decl decl := by
    unfold Viewpoint.spellDecl
    cases hd : v.table.get? decl with
    | none =>
      have hnone : t'.get? decl = none := by
        rw [← Option.not_isSome_iff_eq_none, isSome_get?_iff, h.1, ← isSome_get?_iff, hd]
        exact Bool.false_ne_true
      simp only [hnone]
    | some d =>
      obtain ⟨underlying, hd'⟩ := h.2 decl d hd
      simp only [hd']
      rfl

theorem Viewpoint.ownError?_ne_dangling (h : v.table.HasRefs ty) {part : Ty}
    (hpart : part ∈ ty.subterms) (decl : Nat) : v.ownError? part ≠ some (.dangling decl) := by
  intro hown
  cases part with
  | named start =>
    obtain ⟨rfl, hsize⟩ := v.eq_of_spellDecl_eq_dangling (failure?_eq_some_iff.1 hown)
    have hmem : start ∈ ty.refs := by
      rw [ty.refs_eq_filterMap]
      exact List.mem_filterMap.2 ⟨_, hpart, rfl⟩
    exact absurd (h start hmem) (not_lt.2 hsize)
  | struct fields =>
    obtain ⟨_, _, _, _, _, _, ⟨⟩⟩ := hiddenField?_eq_some_iff.1 hown
  | _ => cases hown

/-- Where all references lead somewhere, the only reason not to write a part for what it is itself is
that it is hidden. -/
theorem Viewpoint.ownError?_eq_none_iff (h : v.table.HasRefs ty) {part : Ty} (hpart : part ∈ ty.subterms) :
    v.ownError? part = none ↔ ∀ name, ¬v.Hides part name := by
  constructor
  · intro hown name hname
    have hsome := ownError?_eq_hidden_iff.2 hname
    rw [hown] at hsome
    cases hsome
  · intro hhides
    cases hown : v.ownError? part with
    | none => rfl
    | some e =>
      cases e with
      | hidden name => exact absurd (ownError?_eq_hidden_iff.1 hown) (hhides name)
      | dangling decl => exact absurd hown (ownError?_ne_dangling h hpart decl)

/-- A type is written exactly if no part of it is hidden, where a name is a part but not what it stands
for; else the first hidden part is reported, in the order of writing and a struct before its fields. The
table tells nothing but what its declarations are called. -/
theorem Ty.spell_of_hasRefs (h : v.table.HasRefs ty) :
    ((∃ text, ty.spell v = .ok text) ↔ ∀ part ∈ ty.subterms, ∀ name, ¬v.Hides part name) ∧
    (∀ e, ty.spell v = .error e ↔ ∃ name before part after, e = .hidden name ∧
      ty.subterms = before ++ part :: after ∧ (∀ p ∈ before, ∀ n, ¬v.Hides p n) ∧ v.Hides part name) ∧
    ∀ table : TypeTable, table.Redefines v.table → ty.spell ⟨table, v.qualifier⟩ = ty.spell v := by
  refine ⟨?_, fun e => ?_, fun table htable => Ty.spell_congr htable.spellsAs ty⟩
  · rw [← failure?_eq_none_iff, failure?_spell, List.findSome?_eq_none_iff]
    exact forall₂_congr fun part hpart => Viewpoint.ownError?_eq_none_iff h hpart
  · rw [← failure?_eq_some_iff, failure?_spell, List.findSome?_eq_some_iff]
    constructor
    · rintro ⟨before, part, after, hsub, hown, hbefore⟩
      have hmem : ∀ p ∈ before ++ [part], p ∈ ty.subterms := by
        intro p hp
        rw [hsub, ← List.singleton_append, ← List.append_assoc]
        exact List.mem_append_left _ hp
      have hfree : ∀ p ∈ before, ∀ n, ¬v.Hides p n := fun p hp =>
        (Viewpoint.ownError?_eq_none_iff h (hmem p (List.mem_append_left _ hp))).1 (hbefore p hp)
      cases e with
      | hidden name =>
        exact ⟨name, before, part, after, rfl, hsub, hfree, Viewpoint.ownError?_eq_hidden_iff.1 hown⟩
      | dangling decl =>
        exact absurd hown (Viewpoint.ownError?_ne_dangling h (hmem part (by simp)) decl)
    · rintro ⟨name, before, part, after, rfl, hsub, hbefore, hpart⟩
      refine ⟨before, part, after, hsub, Viewpoint.ownError?_eq_hidden_iff.2 hpart, fun p hp => ?_⟩
      have hmem : p ∈ ty.subterms := hsub ▸ List.mem_append_left _ hp
      exact (Viewpoint.ownError?_eq_none_iff h hmem).2 (hbefore p hp)

/-- The struct is reported by its hidden field and not by the type of that field, which is hidden too. -/
theorem Ty.spell_hiddenInResult :
    let lib : Scope := ⟨"example.com/lib", "lib"⟩
    let v : Viewpoint := ⟨⟨#[.declared "secret" lib (.basic .int)]⟩, ⟨⟨"example.com/app", "main"⟩, []⟩⟩
    let result : Ty := .struct [⟨"size", false, false, lib, .named 0⟩]
    let ty : Ty := .func ⟨[.basic .string], [.pointer result], false⟩
    v.table.HasRefs ty ∧ ty.spell v = .error (.hidden "struct\x7b... size ...\x7d") := by
  intro lib v result ty
  have hrefs : v.table.HasRefs ty := by
    intro decl hdecl
    obtain rfl := List.mem_singleton.1 hdecl
    decide
  have hsub : ty.subterms = [ty, .basic .string, .pointer result] ++ result :: [.named 0] := by
    simp [ty, result, subterms_eq, components, Signature.types]
  have hbefore : ∀ p ∈ [ty, .basic .string, .pointer result], ∀ n, ¬v.Hides p n := by
    intro p hp n hn
    simp only [List.mem_cons, List.not_mem_nil, or_false] at hp
    obtain rfl | rfl | rfl := hp
    · change v.Hides (.func _) n at hn
      cases hn
    · cases hn
    · cases hn
  have hresult : v.Hides result "struct\x7b... size ...\x7d" :=
    @Viewpoint.Hides.field v [] [] _ (fun _ hfield => absurd hfield List.not_mem_nil) (by decide)
  exact ⟨hrefs, (Ty.spell_of_hasRefs hrefs).2.1 _ |>.2
    ⟨_, _, _, _, rfl, hsub, hbefore, hresult⟩⟩

end LiteralFill
