import LiteralFill.Fill
import LiteralFill.Proofs.Outcome
import LiteralFill.Proofs.TypeName.Seen

namespace LiteralFill

variable {v : Viewpoint}

theorem Viewpoint.nameOf_seen (ty : Ty) : v.seen.nameOf (ty.seenFrom v.current) = v.nameOf ty := by
  rw [nameOf, ty.spell_seen, nameOf]

theorem Viewpoint.describe_seen (ty : Ty) :
    v.seen.describe (ty.seenFrom v.current) = v.describe ty := by
  rw [describe, ty.spell_seen, describe]

theorem arrayTypeAt_seen (pos len : Nat) (elem : Ty) :
    arrayTypeAt v.seen pos len (elem.seenFrom v.current) = arrayTypeAt v pos len elem := by
  rw [arrayTypeAt, v.nameOf_seen, arrayTypeAt]

theorem mapTypeAt_seen (pos : Nat) (key value : Ty) :
    mapTypeAt v.seen pos (key.seenFrom v.current) (value.seenFrom v.current) =
      mapTypeAt v pos key value := by
  rw [mapTypeAt, v.nameOf_seen, v.nameOf_seen, mapTypeAt]

theorem structTypeAt_seen (style : Style) (pos : Nat) (fields : List Field) :
    structTypeAt v.seen style pos (fieldsSeenFrom v.current fields) =
      structTypeAt v style pos fields := by
  have hname : style.decl?.elim (Ty.struct (fieldsSeenFrom v.current fields)) Ty.named =
      (style.decl?.elim (Ty.struct fields) Ty.named).seenFrom v.current := by
    cases style.decl? <;> rfl
  rw [structTypeAt, hname, v.nameOf_seen, structTypeAt]

/-- A field that may not be named has no value made for it, so none has to be the same. -/
theorem fieldEntries_seen {valueOf valueOf' : Nat → Field → Filler Expr}
    (h : ∀ i f, f.visibleFrom v.current = true → valueOf' i (f.seenFrom v.current) = valueOf i f)
    (outermost : Bool) (i : Nat) (fields : List Field) :
    fieldEntries v.seen valueOf' outermost i (fieldsSeenFrom v.current fields) =
      fieldEntries v valueOf outermost i fields := by
  rw [fieldsSeenFrom_eq_map]
  induction fields generalizing i with
  | nil => rfl
  | cons f rest ih =>
    have hname : (f.seenFrom v.current).name = f.name := rfl
    rw [List.map_cons, fieldEntries, fieldEntries]
    simp only [hname, v.current_seen, f.visibleFrom_seenFrom, ih]
    cases hvis : f.visibleFrom v.current with
    | true => simp only [h i f hvis, ↓reduceIte]
    | false => rfl

/-- A look into the table, and what is done with the type found there. -/
theorem lookup_seen {α β : Type} {r : Except Fault α} {seen : α → α} {f f' : α → Filler β}
    (h : ∀ a, f' (seen a) = f a) :
    (Filler.ofExcept ((r.map seen).mapError .fault) >>= f') =
      (Filler.ofExcept (r.mapError .fault) >>= f) := by
  cases r with
  | error fault => rfl
  | ok a => exact h a

/-- Making up a value reads no type that the current package cannot see. -/
theorem zero_seen (depth : Nat) (style : Style) (node : Node) :
    zero v.seen depth style (node.seenFrom v.current) = zero v depth style node := by
  induction depth generalizing style node with
  | zero => rfl
  | succ depth ih =>
    obtain ⟨place, ty⟩ := node
    -- the part of a type has its place from the place of the type alone
    have hpart (ty : Ty) {ty' : Ty} (style : Style) (i : Nat) (part : Ty) :
        zero v.seen depth style (Node.child ⟨place, ty'⟩ i (part.seenFrom v.current)) =
          zero v depth style (Node.child ⟨place, ty⟩ i part) := ih style (Node.child ⟨place, ty⟩ i part)
    rw [zero, zero]
    simp only [Node.seenFrom]
    cases ty with
    | array len elem =>
      have hname := funext fun pos => arrayTypeAt_seen (v := v) pos len elem
      simp only [Ty.seenFrom, hname, hpart (.array len elem)]
    | map key value =>
      have hname := funext fun pos => mapTypeAt_seen (v := v) pos key value
      simp only [Ty.seenFrom, hname, hpart (.map key value)]
    | struct fields =>
      have hname := funext fun pos => structTypeAt_seen (v := v) style pos fields
      have hentries (first : Bool) :
          fieldEntries v.seen (fun i f => zero v.seen depth .plain
              (Node.child ⟨place, .struct (fieldsSeenFrom v.current fields)⟩ i f.ty)) first 0
              (fieldsSeenFrom v.current fields) =
            fieldEntries v (fun i f => zero v depth .plain (Node.child ⟨place, .struct fields⟩ i f.ty))
              first 0 fields := by
        refine fieldEntries_seen (fun i f hvis => ?_) first 0 fields
        rw [Field.seenFrom_of_visibleFrom hvis]
        exact hpart _ .plain i f.ty
      simp only [Ty.seenFrom, hname, structEntries, hentries]
    | named decl =>
      have hnode : v.seen.table.underlyingNode ⟨place, .named decl⟩ = _ :=
        v.table.underlyingNode_seenFrom ⟨place, .named decl⟩
      simp only [Ty.seenFrom, hnode]
      refine lookup_seen fun target => ?_
      simp only [Node.seenFrom, Ty.isStruct_seenFrom]
      exact ih _ target
    | pointer elem =>
      have hunder : v.seen.table.underlying (elem.seenFrom v.current) = _ :=
        v.table.underlying_seenFrom elem
      simp only [Ty.seenFrom, hunder]
      refine lookup_seen fun target => ?_
      simp only [Ty.isStruct_seenFrom, hpart (.pointer elem)]
    | tuple elems =>
      have hname := v.describe_seen (.tuple elems)
      simp only [Ty.seenFrom] at hname ⊢
      rw [hname]
    | _ => rfl

theorem Entries.ofElements_seen (scope : Scope) (fields : List Field) (elts : List Expr) :
    ofElements (fieldsSeenFrom scope fields) elts = ofElements fields elts := by
  have helement (i : Nat) (e : Expr) :
      ofElement (fieldsSeenFrom scope fields) i e = ofElement fields i e := by
    rw [fieldsSeenFrom_eq_map]
    cases e with
    | keyValue key _ _ => cases key <;> rfl
    | _ =>
      simp only [ofElement, List.getElem?_map, List.length_map]
      cases fields[i]? <;> rfl
  simp only [ofElements, helement]

/-- Filling without the checks that come before it. -/
def fillChecked (depth : Nat) (v : Viewpoint) (lit : Literal) (ty : Ty) (omitType : Bool) :
    Except FillError Filled := do
  match ← (v.table.structFields? ty).mapError .fault with
  | some fields =>
    let entries ← Entries.ofElements fields lit.elts
    let (outcome, draft) := zero v depth ⟨none, omitType, false⟩ (.root ty) (.start entries)
    return ⟨← outcome, draft.lines, draft.omitted⟩
  | none => v.describe ty >>= fun name => .error (.notAStruct name)

theorem fill_eq_fillChecked {depth : Nat} {lit : Literal} {ty : Ty} {omitType : Bool}
    (htable : v.table.validate = .ok ()) (htype : v.table.validateType ty = .ok ()) :
    fill depth v lit ty omitType = fillChecked depth v lit ty omitType := by
  simp only [fill, htable, htype]
  rfl

theorem fillChecked_seen (depth : Nat) (lit : Literal) (ty : Ty) (omitType : Bool) :
    fillChecked depth v.seen lit (ty.seenFrom v.current) omitType =
      fillChecked depth v lit ty omitType := by
  have hfields : v.seen.table.structFields? (ty.seenFrom v.current) = _ :=
    v.table.structFields?_seenFrom ty
  have hzero (style : Style) : zero v.seen depth style (.root (ty.seenFrom v.current)) =
      zero v depth style (.root ty) := zero_seen depth style (.root ty)
  rw [fillChecked, hfields, hzero, v.describe_seen, fillChecked]
  cases v.table.structFields? ty with
  | error fault => rfl
  | ok fields? =>
    cases fields? with
    | none => rfl
    | some fields =>
      simp only [Except.map, Option.map, mapError_ok, bind, Except.bind, Entries.ofElements_seen]

/-- Filling cannot tell two tables apart that look alike from the current package. What a field is, that
the package may not name, shows neither in the literal nor in what is left out nor in an error. -/
theorem fill_eq_of_seenFrom {q : Qualifier} {table table' : TypeTable} {ty ty' : Ty}
    (hvalid : table.validate = .ok ()) (hvalid' : table'.validate = .ok ())
    (htype : table.validateType ty = .ok ()) (htype' : table'.validateType ty' = .ok ())
    (htables : table.seenFrom q.current = table'.seenFrom q.current)
    (htypes : ty.seenFrom q.current = ty'.seenFrom q.current) (depth : Nat) (lit : Literal)
    (omitType : Bool) :
    fill depth ⟨table, q⟩ lit ty omitType = fill depth ⟨table', q⟩ lit ty' omitType := by
  have hseen : Viewpoint.seen ⟨table, q⟩ = Viewpoint.seen ⟨table', q⟩ :=
    congrArg (Viewpoint.mk · q) htables
  calc fill depth ⟨table, q⟩ lit ty omitType
    _ = fillChecked depth ⟨table, q⟩ lit ty omitType := fill_eq_fillChecked hvalid htype
    _ = fillChecked depth (Viewpoint.seen ⟨table, q⟩) lit (ty.seenFrom q.current) omitType :=
      (fillChecked_seen depth lit ty omitType).symm
    _ = fillChecked depth (Viewpoint.seen ⟨table', q⟩) lit (ty'.seenFrom q.current) omitType := by
      rw [hseen, htypes]
    _ = fillChecked depth ⟨table', q⟩ lit ty' omitType := fillChecked_seen depth lit ty' omitType
    _ = fill depth ⟨table', q⟩ lit ty' omitType :=
      (fill_eq_fillChecked (v := ⟨table', q⟩) hvalid' htype').symm

/-- The table of `type T struct { A int; secret X; B [1]struct{ inner X } }` in another package, of whose
fields only `A` and `B` may be named. -/
def secretTable (secret : Ty) : TypeTable :=
  let scope : Scope := ⟨"example.com/geo", "geo"⟩
  ⟨#[.declared "T" scope (.struct [⟨"A", true, false, scope, .basic .int⟩,
    ⟨"secret", false, false, scope, secret⟩,
    ⟨"B", true, false, scope, .array 1 (.struct [⟨"inner", false, false, scope, secret⟩])⟩])]⟩

theorem fill_eq_of_seenFrom_secret :
    let q : Qualifier := ⟨⟨"example.com/app", "main"⟩, []⟩
    let table := secretTable (.basic .int)
    let table' := secretTable (.map (.basic .string) (.pointer (.named 0)))
    let lit : Literal := ⟨none, 0, [], 0⟩
    table.validate = .ok () ∧ table'.validate = .ok () ∧ table.validateType (.named 0) = .ok () ∧
      table'.validateType (.named 0) = .ok () ∧
      table.seenFrom q.current = table'.seenFrom q.current ∧
      ∃ filled, fill 4 ⟨table, q⟩ lit (.named 0) false = .ok filled ∧
        filled.omitted = [⟨"B", "struct\x7b... inner ...\x7d"⟩] ∧
        fill 4 ⟨table', q⟩ lit (.named 0) false = .ok filled := by
  intro q table table' lit
  have hvalid : table.validate = .ok () := rfl
  have hvalid' : table'.validate = .ok () := rfl
  have hseen : table.seenFrom q.current = table'.seenFrom q.current := by
    simp only [table, table', secretTable, TypeTable.seenFrom, List.map_toArray, List.map_cons]
    rfl
  have homitted : (fill 4 ⟨table, q⟩ lit (.named 0) false).map (·.omitted) =
      .ok [⟨"B", "struct\x7b... inner ...\x7d"⟩] := by decide +kernel
  cases hf : fill 4 ⟨table, q⟩ lit (.named 0) false with
  | error e => rw [hf] at homitted; cases homitted
  | ok filled =>
    rw [hf] at homitted
    exact ⟨hvalid, hvalid', rfl, rfl, hseen, filled, rfl, Except.ok.inj homitted,
      (fill_eq_of_seenFrom hvalid hvalid' rfl rfl hseen rfl 4 lit false).symm.trans hf⟩

end LiteralFill
