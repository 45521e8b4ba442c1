import LiteralFill.Proofs.Index.Omits
import LiteralFill.Proofs.Json.ReadBack

namespace LiteralFill

namespace Json

theorem itemsPlain_iff {items : List Json} : ItemsPlain items ↔ ∀ j ∈ items, j.IsPlain := by
  induction items with
  | nil => simp [ItemsPlain]
  | cons j rest ih => simp [ItemsPlain, ih]

theorem isPlain_ofOption {α : Type} {write : α → Json} {a? : Option α} (h : ∀ a ∈ a?, (write a).IsPlain) :
    (ofOption write a?).IsPlain := by
  cases a? with
  | none => trivial
  | some a => exact h a rfl

mutual

/-- What is left of a plain document is plain. -/
theorem Omits.isPlain : ∀ {j j' : Json}, j.Omits j' → j.IsPlain → j'.IsPlain
  | _, _, .refl _, h => h
  | _, _, .arr hitems, h => hitems.isPlain h
  | _, _, .obj hmembers, h => hmembers.isPlain h

theorem OmitsItems.isPlain : ∀ {items items' : List Json}, OmitsItems items items' → ItemsPlain items →
    ItemsPlain items'
  | _, _, .nil, h => h
  | _, _, .cons hj hrest, h => ⟨hj.isPlain h.1, hrest.isPlain h.2⟩

theorem OmitsMembers.isPlain : ∀ {members kept : List (String × Json)}, OmitsMembers members kept →
    MembersPlain members → MembersPlain kept
  | _, _, .nil, h => h
  | _, _, .keep hj hrest, h => ⟨hj.isPlain h.1, hrest.isPlain h.2⟩
  | _, _, .leave _ hrest, h => hrest.isPlain h.2

end

end Json

theorem BasicKind.isPlain_toJson (kind : BasicKind) : kind.toJson.IsPlain := by
  cases kind <;> simp [toJson, Json.IsPlain, Json.MembersPlain, Json.ItemsPlain]

theorem Scope.isPlain_toJson (s : Scope) : s.toJson.IsPlain := by
  simp [toJson, Json.IsPlain, Json.MembersPlain]

mutual

theorem Ty.isPlain_toJson : ∀ ty : Ty, ty.toJson.IsPlain
  | .basic kind => ⟨kind.isPlain_toJson, trivial⟩
  | .chan _ elem => ⟨⟨trivial, elem.isPlain_toJson, trivial⟩, trivial⟩
  | .func signature => ⟨signature.isPlain_toJson, trivial⟩
  | .slice elem => ⟨elem.isPlain_toJson, trivial⟩
  | .interface methods => ⟨⟨itemsPlain_methodsJson methods, trivial⟩, trivial⟩
  | .array _ elem => ⟨⟨elem.isPlain_toJson, trivial, trivial⟩, trivial⟩
  | .map key value => ⟨⟨key.isPlain_toJson, value.isPlain_toJson, trivial⟩, trivial⟩
  | .struct fields => ⟨⟨itemsPlain_fieldsJson fields, trivial⟩, trivial⟩
  | .named _ => ⟨trivial, trivial⟩
  | .pointer elem => ⟨elem.isPlain_toJson, trivial⟩
  | .tuple elems => ⟨itemsPlain_typesJson elems, trivial⟩

theorem Signature.isPlain_toJson : ∀ signature : Signature, signature.toJson.IsPlain
  | ⟨params, results, _⟩ => ⟨itemsPlain_typesJson params, itemsPlain_typesJson results, trivial, trivial⟩

theorem itemsPlain_typesJson : ∀ tys : List Ty, Json.ItemsPlain (typesJson tys)
  | [] => trivial
  | ty :: rest => ⟨ty.isPlain_toJson, itemsPlain_typesJson rest⟩

theorem itemsPlain_methodsJson : ∀ methods : List Method, Json.ItemsPlain (methodsJson methods)
  | [] => trivial
  | ⟨_, signature⟩ :: rest => ⟨⟨trivial, signature.isPlain_toJson, trivial⟩, itemsPlain_methodsJson rest⟩

theorem itemsPlain_fieldsJson : ∀ fields : List Field, Json.ItemsPlain (fieldsJson fields)
  | [] => trivial
  | ⟨_, _, _, scope, ty⟩ :: rest =>
    ⟨⟨trivial, trivial, trivial, scope.isPlain_toJson, ty.isPlain_toJson, trivial⟩,
      itemsPlain_fieldsJson rest⟩

end

mutual

theorem Expr.isPlain_toJson : ∀ e : Expr, e.toJson.IsPlain
  | .ident _ _ => ⟨⟨trivial, trivial, trivial⟩, trivial⟩
  | .basicLit _ _ _ => ⟨⟨trivial, trivial, trivial, trivial⟩, trivial⟩
  | .compositeLit type? _ elts _ =>
    ⟨⟨isPlain_optExprJson type?, trivial, itemsPlain_exprsJson elts, trivial, trivial⟩, trivial⟩
  | .keyValue key _ value => ⟨⟨key.isPlain_toJson, trivial, value.isPlain_toJson, trivial⟩, trivial⟩
  | .binary x _ _ y => ⟨⟨x.isPlain_toJson, trivial, trivial, y.isPlain_toJson, trivial⟩, trivial⟩
  | .unary _ _ x => ⟨⟨trivial, trivial, x.isPlain_toJson, trivial⟩, trivial⟩
  | .call callee _ args _ _ =>
    ⟨⟨callee.isPlain_toJson, trivial, itemsPlain_exprsJson args, trivial, trivial, trivial⟩, trivial⟩
  | .selector x _ _ => ⟨⟨x.isPlain_toJson, ⟨trivial, trivial, trivial⟩, trivial⟩, trivial⟩
  | .index x _ index _ => ⟨⟨x.isPlain_toJson, trivial, index.isPlain_toJson, trivial, trivial⟩, trivial⟩
  | .slice x _ low? high? max? _ _ =>
    ⟨⟨x.isPlain_toJson, trivial, isPlain_optExprJson low?, isPlain_optExprJson high?,
      isPlain_optExprJson max?, trivial, trivial, trivial⟩, trivial⟩
  | .star _ x => ⟨⟨trivial, x.isPlain_toJson, trivial⟩, trivial⟩
  | .paren _ x _ => ⟨⟨trivial, x.isPlain_toJson, trivial, trivial⟩, trivial⟩
  | .funcLit _ _ => ⟨⟨trivial, trivial, trivial⟩, trivial⟩
  | .ellipsis _ elt? => ⟨⟨trivial, isPlain_optExprJson elt?, trivial⟩, trivial⟩
  | .arrayType _ len? elt => ⟨⟨trivial, isPlain_optExprJson len?, elt.isPlain_toJson, trivial⟩, trivial⟩
  | .mapType _ key value => ⟨⟨trivial, key.isPlain_toJson, value.isPlain_toJson, trivial⟩, trivial⟩

theorem isPlain_optExprJson : ∀ e? : Option Expr, (optExprJson e?).IsPlain
  | none => trivial
  | some e => e.isPlain_toJson

theorem itemsPlain_exprsJson : ∀ es : List Expr, Json.ItemsPlain (exprsJson es)
  | [] => trivial
  | e :: rest => ⟨e.isPlain_toJson, itemsPlain_exprsJson rest⟩

end

theorem LiteralSite.isPlain_toJson (s : LiteralSite) : s.toJson.IsPlain :=
  ⟨trivial, trivial, s.ty.isPlain_toJson, ⟨isPlain_optExprJson s.literal.type?, trivial,
    itemsPlain_exprsJson s.literal.elts, trivial, trivial⟩, trivial, trivial⟩

theorem CheckedPackage.isPlain_toJson (p : CheckedPackage) : p.toJson.IsPlain := by
  have himport (i : Import) : i.toJson.IsPlain :=
    ⟨trivial, Json.isPlain_ofOption fun _ _ => trivial, trivial⟩
  have hdecl (d : TypeDecl) : d.toJson.IsPlain :=
    ⟨trivial, Json.isPlain_ofOption fun s _ => s.isPlain_toJson, trivial, d.underlying.isPlain_toJson,
      trivial⟩
  have hfile (f : CheckedFile) : f.toJson.IsPlain :=
    ⟨trivial, Json.itemsPlain_iff.2 (by simp [himport]),
      Json.itemsPlain_iff.2 (by simp [LiteralSite.isPlain_toJson]), trivial⟩
  exact ⟨p.scope.isPlain_toJson, Json.itemsPlain_iff.2 (by simp [hdecl]),
    Json.itemsPlain_iff.2 (by simp [hfile]), trivial⟩

end LiteralFill
