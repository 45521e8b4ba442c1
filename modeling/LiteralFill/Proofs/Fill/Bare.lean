import LiteralFill.Proofs.Fill.Attempt
import LiteralFill.Proofs.Outcome

namespace LiteralFill

/-- The type before the braces, without a position. -/
def Style.bareType? (style : Style) (typeAt : Nat → Except FillError Expr) : Attempt (Option Expr) :=
  if style.elided then pure none else .ofExcept (some <$> typeAt noPos)

def bareBasic (kind : BasicKind) : Attempt Expr :=
  .ofExcept ((kind.zeroAt? noPos).elim (.error (.unexpectedType kind.name)) .ok)

def bareLiteral (style : Style) (typeAt : Nat → Except FillError Expr)
    (inner : Attempt (List Expr)) : Attempt Expr := do
  let type? ← style.bareType? typeAt
  return .compositeLit type? noPos (← inner) noPos

def bareMapEntry (keyZero valueZero : Attempt Expr) : Attempt (List Expr) := do
  let key ← keyZero
  return [.keyValue key noPos (← valueZero)]

/-- The entries of a struct literal, field by field from number `i` on: what the user wrote, else
the value that `valueOf` finds for a field that may be named here. -/
def bareEntries (v : Viewpoint) (valueOf : Nat → Field → Attempt Expr) :
    Entries → Nat → List Field → Attempt (List Expr)
  | _, _, [] => pure []
  | entries, i, f :: rest =>
    match entries.value? f.name with
    | some value => do
      return .entry f.name value :: (← bareEntries v valueOf (entries.remove f.name) (i + 1) rest)
    | none =>
      if f.visibleFrom v.current then do
        let value? ← (valueOf i f).orOmit f.name
        return (value?.map (Expr.entry f.name)).toList ++
          (← bareEntries v valueOf entries (i + 1) rest)
      else bareEntries v valueOf entries (i + 1) rest

def bareStructEntries (v : Viewpoint) (path : List Place) (place : Place) (entries : Entries)
    (fields : List Field) (valueOf : Nat → Field → Attempt Expr) : Attempt (List Expr) :=
  if place ∈ path then pure [] else bareEntries v valueOf entries 0 fields

/-- The zero value of a type before it is laid out, with the structs being written around it as a
parameter. -/
def bareZero (v : Viewpoint) : Nat → List Place → Style → Node → Attempt Expr
  | 0, _, _, _ => .ofExcept (.error .tooDeep)
  | depth + 1, path, style, node =>
    match node.ty with
    | .basic kind => bareBasic kind
    | .chan _ _ | .func _ | .slice _ | .interface _ => pure (nilAt noPos)
    | .array len elem =>
      bareLiteral style (arrayTypeAt v · len elem)
        ((bareZero v depth path .elidedType (node.child 0 elem)).copies len)
    | .map key value =>
      bareLiteral .plain (mapTypeAt v · key value)
        (bareMapEntry (bareZero v depth path .elidedType (node.child 0 key))
          (bareZero v depth path .elidedType (node.child 1 value)))
    | .struct fields =>
      bareLiteral style (structTypeAt v style · fields)
        (bareStructEntries v path node.place [] fields fun i f =>
          bareZero v depth (node.place :: path) .plain (node.child i f.ty))
    | .named decl => do
      let target ← .ofExcept ((v.table.underlyingNode node).mapError .fault)
      bareZero v depth path { style with decl? := if target.ty.isStruct then some decl else none }
        target
    | .pointer elem => do
      let target ← .ofExcept ((v.table.underlying elem).mapError .fault)
      if target.isStruct then
        bareZero v depth path { style with addressed := true } (node.child 0 elem)
      else pure (nilAt noPos)
    | .tuple _ => .ofExcept (v.describe node.ty >>= fun name => .error (.unexpectedType name))

/-- A look into the table fails with a fault, and what follows it with an error of its own. -/
theorem lookup_eq_error_iff_or {α β : Type} {r : Except Fault α} {f : α → Attempt β} {e : FillError} :
    (Attempt.ofExcept (r.mapError .fault) >>= f).outcome = .error e ↔
      (∃ fault, r = .error fault ∧ .fault fault = e) ∨ ∃ a, r = .ok a ∧ (f a).outcome = .error e := by
  simp only [Attempt.bind_eq_error_iff, Attempt.outcome_ofExcept, mapError_eq_error, mapError_eq_ok]

theorem lookup_eq_error_iff {α β : Type} {r : Except Fault α} {f : α → Attempt β} {e : FillError}
    (he : ∀ fault, .fault fault ≠ e) :
    (Attempt.ofExcept (r.mapError .fault) >>= f).outcome = .error e ↔
      ∃ a, r = .ok a ∧ (f a).outcome = .error e := by
  simp only [lookup_eq_error_iff_or, he, and_false, exists_false, false_or]

theorem bareBasic_eq_ok_iff {kind : BasicKind} {e : Expr} :
    (bareBasic kind).outcome = .ok e ↔ kind.zeroAt? noPos = some e := by
  unfold bareBasic
  cases kind.zeroAt? noPos with
  | none => exact ⟨nofun, nofun⟩
  | some e' => simp

theorem eq_of_bareBasic_eq_error {kind : BasicKind} {e : FillError}
    (h : (bareBasic kind).outcome = .error e) : e = .unexpectedType kind.name := by
  unfold bareBasic at h
  cases hk : kind.zeroAt? noPos with
  | none => rw [hk] at h; exact (Except.error.inj h).symm
  | some e' => rw [hk] at h; cases h

theorem bareMapEntry_eq_error_iff {keyZero valueZero : Attempt Expr} {e : FillError} :
    (bareMapEntry keyZero valueZero).outcome = .error e ↔
      keyZero.outcome = .error e ∨
        ∃ key, keyZero.outcome = .ok key ∧ valueZero.outcome = .error e := by
  rw [bareMapEntry, Attempt.bind_eq_error_iff]
  simp only [Attempt.bind_pure_eq_error_iff]

/-- Whether the file may write the name of a type. -/
def Viewpoint.CanName (v : Viewpoint) (ty : Ty) : Prop := ∃ name, ty.spell v = .ok name

variable {v : Viewpoint}

theorem Viewpoint.canName_iff {ty : Ty} : v.CanName ty ↔ ∃ name, v.nameOf ty = .ok name := by
  unfold CanName nameOf
  cases ty.spell v with
  | error e => exact ⟨nofun, nofun⟩
  | ok name => exact ⟨fun _ => ⟨name, rfl⟩, fun _ => ⟨name, rfl⟩⟩

theorem exists_arrayTypeAt_iff {pos len : Nat} {elem : Ty} :
    (∃ type, arrayTypeAt v pos len elem = .ok type) ↔ v.CanName elem := by
  rw [Viewpoint.canName_iff, arrayTypeAt]
  cases v.nameOf elem with
  | error e => exact ⟨nofun, nofun⟩
  | ok name => exact ⟨fun _ => ⟨name, rfl⟩, fun _ => ⟨_, rfl⟩⟩

theorem of_arrayTypeAt_eq_error {pos len : Nat} {elem : Ty} {e : FillError}
    (h : arrayTypeAt v pos len elem = .error e) : v.nameOf elem = .error e :=
  bind_pure_eq_error h

theorem of_mapTypeAt_eq_error {pos : Nat} {key value : Ty} {e : FillError}
    (h : mapTypeAt v pos key value = .error e) :
    v.nameOf key = .error e ∨ v.nameOf value = .error e :=
  (bind_eq_error h).imp_right fun ⟨_, _, h⟩ => bind_pure_eq_error h

theorem of_structTypeAt_eq_error {style : Style} {pos : Nat} {fields : List Field} {e : FillError}
    (h : structTypeAt v style pos fields = .error e) :
    v.nameOf (style.decl?.elim (.struct fields) .named) = .error e :=
  bind_pure_eq_error h

theorem exists_structTypeAt_iff {style : Style} {pos : Nat} {fields : List Field} :
    (∃ type, structTypeAt v style pos fields = .ok type) ↔
      v.CanName (style.decl?.elim (.struct fields) .named) := by
  rw [Viewpoint.canName_iff, structTypeAt]
  cases v.nameOf (style.decl?.elim (.struct fields) .named) with
  | error e => exact ⟨nofun, nofun⟩
  | ok name => exact ⟨fun _ => ⟨name, rfl⟩, fun _ => ⟨_, rfl⟩⟩

theorem exists_mapTypeAt_iff {pos : Nat} {key value : Ty} :
    (∃ type, mapTypeAt v pos key value = .ok type) ↔ v.CanName key ∧ v.CanName value := by
  rw [Viewpoint.canName_iff, Viewpoint.canName_iff, mapTypeAt]
  cases v.nameOf key with
  | error e => exact ⟨nofun, nofun⟩
  | ok k =>
    cases v.nameOf value with
    | error e => exact ⟨nofun, nofun⟩
    | ok n => exact ⟨fun _ => ⟨⟨k, rfl⟩, n, rfl⟩, fun _ => ⟨_, rfl⟩⟩

theorem bareLiteral_eq_ok {style : Style} {typeAt : Nat → Except FillError Expr}
    {inner : Attempt (List Expr)} {e : Expr} (h : (bareLiteral style typeAt inner).outcome = .ok e) :
    ∃ type? elts, (style.bareType? typeAt).outcome = .ok type? ∧ inner.outcome = .ok elts ∧
      e = .compositeLit type? noPos elts noPos := by
  obtain ⟨type?, htype, h⟩ := Attempt.bind_eq_ok h
  obtain ⟨elts, helts, h⟩ := Attempt.bind_eq_ok h
  exact ⟨type?, elts, htype, helts, (Except.ok.inj h).symm⟩

theorem outcome_bareLiteral {style : Style} {typeAt : Nat → Except FillError Expr}
    {inner : Attempt (List Expr)} {type? : Option Expr} {elts : List Expr}
    (htype : (style.bareType? typeAt).outcome = .ok type?) (helts : inner.outcome = .ok elts) :
    (bareLiteral style typeAt inner).outcome = .ok (.compositeLit type? noPos elts noPos) := by
  rw [bareLiteral, Attempt.outcome_bind, htype]
  exact (Attempt.outcome_bind _ _).trans (congrArg (· >>= _) helts)

/-- A literal has its type written before it unless that is elided. -/
theorem exists_bareType?_iff {style : Style} {typeAt : Nat → Except FillError Expr} :
    (∃ type?, (style.bareType? typeAt).outcome = .ok type?) ↔
      style.elided = true ∨ ∃ type, typeAt noPos = .ok type := by
  unfold Style.bareType?
  cases style.elided with
  | true => simp
  | false => cases typeAt noPos <;> simp [Functor.map, Except.map]

theorem bareLiteral_eq_error_iff {style : Style} {typeAt : Nat → Except FillError Expr}
    {inner : Attempt (List Expr)} {err : FillError} :
    (bareLiteral style typeAt inner).outcome = .error err ↔
      (style.elided = false ∧ typeAt noPos = .error err) ∨
        ((style.elided = true ∨ ∃ type, typeAt noPos = .ok type) ∧ inner.outcome = .error err) := by
  simp only [bareLiteral, Attempt.bind_eq_error_iff, Attempt.outcome_pure, reduceCtorEq, and_false,
    exists_false, or_false, exists_and_right, exists_bareType?_iff]
  refine or_congr ?_ Iff.rfl
  unfold Style.bareType?
  cases style.elided with
  | true => simp
  | false => cases typeAt noPos <;> simp [Functor.map, Except.map]

end LiteralFill
