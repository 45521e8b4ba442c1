import LiteralFill.Proofs.TypeTable.Chains

namespace LiteralFill

/-- What an expression is before it is put to use: a constant of no type yet that is zero in its kind,
a nil of no type yet, or a value of a type. -/
inductive Operand where
  | zero (kind : UntypedKind)
  | nil
  | typed (ty : Ty)

def BasicKind.isNumeric : BasicKind → Bool
  | .integer _ _ | .byte | .rune | .uintptr | .float _ | .complex _ => true
  | _ => false

/-- Whether the zero of an untyped kind is a value of a basic kind. -/
def UntypedKind.zeroFits : UntypedKind → BasicKind → Bool
  | .bool, kind => kind = .bool
  | .string, kind => kind = .string
  | .int, kind | .rune, kind | .float, kind | .complex, kind => kind.isNumeric
  | .nil, _ => false

def Ty.admitsNil : Ty → Bool
  | .pointer _ | .chan _ _ | .func _ | .slice _ | .interface _ => true
  | _ => false

/-- Types with a name, be it declared or predeclared. -/
def Ty.hasName : Ty → Bool
  | .named _ | .basic _ => true
  | _ => false

theorem Ty.isNamed_of_hasName {ty : Ty} (h : ty.hasName = false) : ty.isNamed = false := by
  cases ty with
  | named decl => cases h
  | _ => rfl

/-- Whether an operand may be used where a value of the type is called for. -/
inductive Operand.AssignableTo (t : TypeTable) : Operand → Ty → Prop
  | zero {kind : UntypedKind} {basic : BasicKind} {ty : Ty} :
    t.underlying ty = .ok (.basic basic) → kind.zeroFits basic = true →
      AssignableTo t (.zero kind) ty
  | nil {ty target : Ty} :
    t.underlying ty = .ok target → target.admitsNil = true → AssignableTo t .nil ty
  | same {ty : Ty} : AssignableTo t (.typed ty) ty
  | underlying {ty ty' target : Ty} :
    t.underlying ty = .ok target → t.underlying ty' = .ok target →
      ty.hasName = false ∨ ty'.hasName = false → AssignableTo t (.typed ty) ty'

/-- Whether an operand may be converted to a type. -/
inductive Operand.ConvertibleTo (t : TypeTable) : Operand → Ty → Prop
  | assignable {o : Operand} {ty : Ty} : o.AssignableTo t ty → ConvertibleTo t o ty
  | address {ty ty' : Ty} :
    t.underlying ty = .ok (.basic .uintptr) → t.underlying ty' = .ok (.basic .unsafePointer) →
      ConvertibleTo t (.typed ty) ty'

/-- Types whose zero value is written as a conversion. -/
def Ty.isConverted : Ty → Bool
  | .basic .uintptr | .basic .unsafePointer => true
  | _ => false

theorem Ty.isConverted_of_hasName {ty : Ty} (h : ty.hasName = false) : ty.isConverted = false := by
  cases ty with
  | basic kind => cases h
  | _ => rfl

/-- A type declared over a kind whose zero value is written as a conversion. -/
structure TypeTable.IsHandle (t : TypeTable) (ty : Ty) (kind : BasicKind) : Prop where
  is_named : ty.isNamed = true
  reaches : t.underlying ty = .ok (.basic kind)
  is_converted : (Ty.basic kind).isConverted = true

/-- What an operand comes to at its place: the conversion to the predeclared kind where a type is declared
over one that is converted to, else a value that may be assigned. -/
def Operand.Suits (t : TypeTable) (o : Operand) (ty : Ty) : Prop :=
  (∃ kind, t.IsHandle ty kind ∧ o = .typed (.basic kind)) ∨
    (∀ kind, ¬t.IsHandle ty kind) ∧ o.AssignableTo t ty

namespace TypeTable

variable {t : TypeTable}

theorem isNamed_of_underlying {ty target : Ty} (h : t.underlying ty = .ok target) :
    target.isNamed = false := by
  unfold underlying at h
  cases hn : t.underlyingNode (.root ty) with
  | error fault => rw [hn] at h; cases h
  | ok node =>
    rw [hn] at h
    cases h
    exact isNamed_of_follow hn

/-- A type declared over such a kind takes no values of another type. -/
theorem IsHandle.eq_of_assignableTo {ty ty' : Ty} {kind : BasicKind} (h : t.IsHandle ty kind)
    (ha : (Operand.typed ty').AssignableTo t ty) : ty' = ty := by
  obtain ⟨decl, rfl⟩ := Ty.isNamed_iff.1 h.is_named
  cases ha with
  | same => rfl
  | underlying ht ht' hname =>
    cases ht'.symm.trans h.reaches
    have hname : ty'.hasName = false := hname.resolve_right (by simp [Ty.hasName])
    cases (underlying_of_not_named (Ty.isNamed_of_hasName hname)).symm.trans ht
    cases hname

end TypeTable

namespace Operand

variable {t : TypeTable} {o : Operand} {ty target : Ty}

theorem AssignableTo.suits (h : o.AssignableTo t ty) (ht : t.underlying ty = .ok target)
    (hconverted : target.isConverted = false) : o.Suits t ty := by
  refine .inr ⟨fun kind hk => ?_, h⟩
  cases ht.symm.trans hk.reaches
  exact Bool.false_ne_true (hconverted.symm.trans hk.is_converted)

/-- The conversion to a predeclared kind suits the kind itself and every type declared over it. -/
theorem suits_converted {kind : BasicKind} (hk : (Ty.basic kind).isConverted = true)
    (ht : t.underlying ty = .ok (.basic kind)) : (Operand.typed (.basic kind)).Suits t ty := by
  by_cases hnamed : ty.isNamed = true
  · exact .inl ⟨kind, ⟨hnamed, ht, hk⟩, rfl⟩
  · have : t.underlying ty = .ok ty := TypeTable.underlying_of_not_named (by simpa using hnamed)
    cases this.symm.trans ht
    exact .inr ⟨fun kind' h => hnamed h.is_named, .same⟩

end Operand

end LiteralFill
