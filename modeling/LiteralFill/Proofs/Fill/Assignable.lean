import LiteralFill.Proofs.Fill.Styles
import LiteralFill.Proofs.Fill.Written
import LiteralFill.Proofs.Typing.Literal

namespace LiteralFill

/-- Whether the type of a literal is written as the style has it. -/
def Style.Spells (v : Viewpoint) (style : Style) (ty : Ty) (type : Expr) : Prop :=
  if style.addressed then
    ∃ name pos, (style.decl?.elim ty .named).spell v = .ok name ∧ type = .ident ("&" ++ name) pos
  else type.Denotes v (style.decl?.elim ty .named)

variable {v : Viewpoint}

theorem Viewpoint.nameOf_eq_ok_iff {ty : Ty} {name : String} :
    v.nameOf ty = .ok name ↔ ty.spell v = .ok name :=
  mapError_eq_ok

theorem denotes_arrayTypeAt {pos len : Nat} {elem : Ty} {type : Expr}
    (h : arrayTypeAt v pos len elem = .ok type) : type.Denotes v (.array len elem) := by
  obtain ⟨name, hname, h⟩ := bind_eq_ok h
  cases h
  exact .array (.word (Viewpoint.nameOf_eq_ok_iff.1 hname))

theorem denotes_mapTypeAt {pos : Nat} {key value : Ty} {type : Expr}
    (h : mapTypeAt v pos key value = .ok type) : type.Denotes v (.map key value) := by
  obtain ⟨k, hk, h⟩ := bind_eq_ok h
  obtain ⟨e, he, h⟩ := bind_eq_ok h
  cases h
  exact .map (.word (Viewpoint.nameOf_eq_ok_iff.1 hk)) (.word (Viewpoint.nameOf_eq_ok_iff.1 he))

theorem spells_structTypeAt {style : Style} {pos : Nat} {fields : List Field} {type : Expr}
    (h : structTypeAt v style pos fields = .ok type) : style.Spells v (.struct fields) type := by
  obtain ⟨name, hname, h⟩ := bind_eq_ok h
  have hname := Viewpoint.nameOf_eq_ok_iff.1 hname
  cases h
  unfold Style.Spells
  by_cases haddressed : style.addressed = true
  · simp only [haddressed, ↓reduceIte]
    exact ⟨name, pos, hname, rfl⟩
  · simp only [haddressed]
    exact .word hname

theorem of_bareType?_eq_ok {style : Style} {typeAt : Nat → Except FillError Expr} {type? : Option Expr}
    (h : (style.bareType? typeAt).outcome = .ok type?) :
    (style.elided = true ∧ type? = none) ∨
      style.elided = false ∧ ∃ type, typeAt noPos = .ok type ∧ type? = some type := by
  unfold Style.bareType? at h
  cases helided : style.elided with
  | true =>
    rw [helided] at h
    cases h
    exact .inl ⟨rfl, rfl⟩
  | false =>
    rw [helided] at h
    cases htype : typeAt noPos with
    | error e => simp [htype, Functor.map, Except.map] at h
    | ok type =>
      simp only [htype, Functor.map, Except.map] at h
      cases h
      exact .inr ⟨rfl, type, rfl, rfl⟩

section Values

variable {Accepts : Operand → Ty → Prop} {style : Style} {declared : Ty}

theorem hasType_zeroAt {hint? : Option Ty} {kind : BasicKind} {e : Expr}
    (h : kind.zeroAt? noPos = some e) (ht : v.table.underlying declared = .ok (.basic kind)) :
    ∃ o, HasType v Accepts hint? e o ∧ o.Suits v.table declared := by
  have huintptr {hint? : Option Ty} : HasType v Accepts hint?
      (conversionAt noPos (.ident "uintptr" noPos) (zeroLitAt noPos)) (.typed (.basic .uintptr)) :=
    .conversion (.word rfl) (.lit rfl) (.assignable (.zero (TypeTable.underlying_of_not_named rfl) rfl))
  have hconstant {zero : UntypedKind} (hfits : zero.zeroFits kind = true)
      (hk : (Ty.basic kind).isConverted = false) : (Operand.zero zero).Suits v.table declared :=
    (Operand.AssignableTo.zero ht hfits).suits ht hk
  cases kind with
  | bool => cases h; exact ⟨_, .false, hconstant rfl rfl⟩
  | integer bits sign => cases h; exact ⟨_, .lit rfl, hconstant rfl rfl⟩
  | byte => cases h; exact ⟨_, .lit rfl, hconstant rfl rfl⟩
  | rune => cases h; exact ⟨_, .lit rfl, hconstant rfl rfl⟩
  | uintptr => cases h; exact ⟨_, huintptr, Operand.suits_converted rfl ht⟩
  | unsafePointer =>
    cases h
    refine ⟨.typed (.basic .unsafePointer), ?_, Operand.suits_converted rfl ht⟩
    exact .conversion (.qualified rfl) huintptr
      (.address (TypeTable.underlying_of_not_named rfl) (TypeTable.underlying_of_not_named rfl))
  | float size => cases h; exact ⟨_, .lit rfl, hconstant rfl rfl⟩
  | complex size =>
    cases h
    exact ⟨_, .paren (.sum (.lit rfl) (.lit rfl)), hconstant rfl rfl⟩
  | string => cases h; exact ⟨_, .lit rfl, hconstant rfl rfl⟩
  | untyped kind => cases h
  | invalid => cases h

/-- A literal with fitting elements suits the place it is written for. -/
theorem hasType_literal {ty : Ty} (hs : style.Writes v.table ty declared) (hn : ty.hasName = false)
    {typeAt : Nat → Except FillError Expr} {type? : Option Expr}
    (htype : (style.bareType? typeAt).outcome = .ok type?)
    (hspells : ∀ type, typeAt noPos = .ok type → style.Spells v ty type) {elts : List Expr}
    (hholds : ty.holds elts.length = true) (helts : ∀ e ∈ elts, ElementOf v Accepts ty e) :
    ∃ o, HasType v Accepts (if style.elided then some declared else none)
      (.compositeLit type? noPos elts noPos) o ∧ o.Suits v.table declared := by
  have hnamed := Ty.isNamed_of_hasName hn
  have hname := hs.underlying_name hnamed
  rcases of_bareType?_eq_ok htype with ⟨helided, rfl⟩ | ⟨helided, type, hat, rfl⟩
  · rw [if_pos helided]
    refine ⟨.typed declared, ?_, hs.suits hn .same⟩
    by_cases haddressed : style.addressed = true
    · exact .elidedAddress (hs.underlying_declared_of_addressed haddressed) hname hholds helts
    · exact .elided (hs.underlying_declared hnamed (by simpa using haddressed)) hholds helts
  · refine ⟨.typed (style.literalType ty), ?_, hs.suits hn (hs.assignableTo hn)⟩
    have hspelled := hspells type hat
    unfold Style.Spells at hspelled
    unfold Style.literalType
    by_cases haddressed : style.addressed = true
    · rw [if_pos haddressed] at hspelled ⊢
      obtain ⟨name, pos, hspell, rfl⟩ := hspelled
      exact .address hspell hname hholds helts
    · rw [if_neg haddressed] at hspelled ⊢
      exact .literal hspelled hname hholds helts

/-- Each entry of a struct literal has what was written for its field, or a value made for it. -/
theorem of_mem_bareEntries {valueOf : Nat → Field → Attempt Expr} {fields : List Field}
    {entries : Entries} {i : Nat} {elts : List Expr}
    (h : (bareEntries v valueOf entries i fields).outcome = .ok elts) :
    ∀ e ∈ elts, ∃ f ∈ fields, ∃ value, e = .entry f.name value ∧
      (entries.value? f.name = some value ∨ ∃ j, (valueOf j f).outcome = .ok value) := by
  obtain ⟨kept, hkept, rfl⟩ := gathered_of_bareEntries h
  intro e he
  obtain ⟨⟨name, value⟩, hentry, rfl⟩ := List.mem_map.1 he
  obtain ⟨f, hf, hname, hvalue⟩ := hkept.of_mem _ hentry
  exact ⟨f, hf, value, congrArg (Expr.entry · value) hname, hvalue⟩

/-- Every zero value suits its place, and so does every value inside it. -/
theorem suits_bareZero {depth : Nat} {path : List Place} {style : Style} {node : Node} {e : Expr}
    {declared : Ty} (h : (bareZero v depth path style node).outcome = .ok e)
    (hs : style.Writes v.table node.ty declared) :
    ∃ o, HasType v (Operand.Suits v.table) (if style.elided then some declared else none) e o ∧
      o.Suits v.table declared := by
  -- the place stays the same along names and pointers; parts of a value are places of their own
  induction depth generalizing path style node e declared with
  | zero => cases h
  | succ depth ih =>
    rw [bareZero] at h
    cases hty : node.ty with
    | basic kind =>
      simp only [hty] at h hs
      exact hasType_zeroAt (bareBasic_eq_ok_iff.1 h) (hs.underlying_declared_of_not_struct rfl rfl)
    | chan _ _ | func _ | slice _ | interface _ =>
      simp only [hty] at h hs
      cases h
      have ht := hs.underlying_declared_of_not_struct rfl rfl
      exact ⟨.nil, .nil, (Operand.AssignableTo.nil ht rfl).suits ht rfl⟩
    | array len elem =>
      simp only [hty] at h hs
      obtain ⟨type?, elts, htype, hin, rfl⟩ := bareLiteral_eq_ok h
      obtain ⟨hlength, helts⟩ := Attempt.copies_eq_ok hin
      have haddressed := hs.addressed_eq_false (TypeTable.underlying_of_not_named rfl) rfl
      refine hasType_literal hs rfl htype (fun type ht => ?_) ?_ fun x hx => ?_
      · unfold Style.Spells
        rw [haddressed, hs.decl?_eq_none rfl]
        exact denotes_arrayTypeAt ht
      · simp [Ty.holds, hlength]
      · obtain ⟨o, ho, hsuits⟩ := ih (helts x hx) (.refl true elem)
        exact .item ho hsuits
    | map key value =>
      simp only [hty] at h hs
      obtain ⟨type?, elts, htype, hin, rfl⟩ := bareLiteral_eq_ok h
      obtain ⟨k, hk, hin⟩ := Attempt.bind_eq_ok hin
      obtain ⟨x, hx, hin⟩ := Attempt.bind_eq_ok hin
      cases hin
      obtain ⟨o, ho, hsuits⟩ := ih hk (.refl true key)
      obtain ⟨o', ho', hsuits'⟩ := ih hx (.refl true value)
      obtain ⟨hplain, -⟩ | ⟨-, type, hat, rfl⟩ := of_bareType?_eq_ok htype
      · cases hplain
      -- a map has its type written even where it could be left out
      refine ⟨.typed (.map key value), ?_, ?_⟩
      · refine .literal (denotes_mapTypeAt hat) (TypeTable.underlying_of_not_named rfl) rfl fun y hy => ?_
        obtain rfl := List.mem_singleton.1 hy
        exact .entry ho hsuits ho' hsuits'
      · have hassign := hs.assignableTo rfl
        rw [hs.literalType_eq (TypeTable.underlying_of_not_named rfl) rfl] at hassign
        exact hs.suits rfl hassign
    | struct fields =>
      simp only [hty] at h hs
      obtain ⟨type?, elts, htype, hin, rfl⟩ := bareLiteral_eq_ok h
      refine hasType_literal hs rfl htype (fun type ht => spells_structTypeAt ht) rfl fun x hx => ?_
      unfold bareStructEntries at hin
      split at hin
      · cases hin
        cases hx
      · obtain ⟨f, hf, value, rfl, ⟨⟨⟩⟩ | ⟨j, hvalue⟩⟩ := of_mem_bareEntries hin x hx
        obtain ⟨o, ho, hsuits⟩ := ih hvalue (.refl false f.ty)
        exact .field hf ho hsuits
    | named decl =>
      simp only [hty] at h hs
      obtain ⟨target, htarget, h⟩ := Attempt.bind_eq_ok h
      have htarget : v.table.underlyingNode node = .ok target := mapError_eq_ok.1 htarget
      rw [v.table.underlyingNode_of_named hty] at htarget
      have ht : v.table.underlying (.named decl) = .ok target.ty := by
        rw [TypeTable.underlying, htarget]
        rfl
      obtain ⟨o, ho, hsuits⟩ := ih h (hs.of_named ht)
      exact ⟨o, ho, hsuits⟩
    | pointer elem =>
      simp only [hty] at h hs
      obtain ⟨target, htarget, h⟩ := Attempt.bind_eq_ok h
      have htarget : v.table.underlying elem = .ok target := mapError_eq_ok.1 htarget
      split at h
      · rename_i hstruct
        obtain ⟨o, ho, hsuits⟩ := ih h (hs.of_pointer htarget hstruct)
        exact ⟨o, ho, hsuits⟩
      · cases h
        have ht := hs.underlying_declared_of_not_struct rfl rfl
        exact ⟨.nil, .nil, (Operand.AssignableTo.nil ht rfl).suits ht rfl⟩
    | tuple elems =>
      simp only [hty, Attempt.outcome_ofExcept] at h
      cases hd : v.describe (.tuple elems) with
      | error e => rw [hd] at h; cases h
      | ok name => rw [hd] at h; cases h

end Values

/-- Every entry of a filled literal has what the user wrote for a field, or a value that suits its
field, and so on for the values inside that: it may be assigned there, except that a type declared over
`uintptr` or `unsafe.Pointer` gets the conversion to that kind. -/
theorem suits_fill {depth : Nat} {v : Viewpoint} {lit : Literal} {ty : Ty} {omitType : Bool}
    {filled : Filled} (h : fill depth v lit ty omitType = .ok filled) :
    ∃ fields type? elts, v.table.structFields? ty = .ok (some fields) ∧
      filled.expr.unplaced = (Expr.compositeLit type? noPos elts noPos).unplaced ∧
      ∀ e ∈ elts,
        (∃ f ∈ fields, ∃ value, e = .entry f.name value ∧ lit.written? fields f.name = some value) ∨
          ElementOf v (Operand.Suits v.table) (.struct fields) e := by
  obtain ⟨target, fields, entries, n, e, hf, he, hexpr, -⟩ := of_fill_eq_ok h
  obtain ⟨type?, elts, -, helts, rfl⟩ := bareLiteral_eq_ok he
  refine ⟨fields, type?, elts, ?_, ?_, fun e he => ?_⟩
  · exact TypeTable.structFields?_eq_some_iff.2 ⟨target, hf.reaches, hf.is_struct⟩
  · rw [hexpr, Expr.unplaced_layOut]
  · have hin : (bareEntries v (fun i f => bareZero v n [target.place] .plain (target.child i f.ty))
        entries 0 fields).outcome = .ok elts := helts
    obtain ⟨f, hmem, value, rfl, hvalue⟩ := of_mem_bareEntries hin e he
    rcases hvalue with hvalue | ⟨j, hvalue⟩
    · exact .inl ⟨f, hmem, value, rfl, (Literal.written?_eq hf.written f.name).trans hvalue⟩
    · obtain ⟨o, ho, hsuits⟩ := suits_bareZero hvalue (Style.Writes.refl false f.ty)
      exact .inr (.field hmem ho hsuits)

def handleScope : Scope := ⟨"example.com/app", "main"⟩

/-- A view with one declaration, `type Handle uintptr`. -/
def handleView : Viewpoint :=
  ⟨⟨#[.declared "Handle" handleScope (.basic .uintptr)]⟩, ⟨handleScope, []⟩⟩

def handleFields : List Field := [.declared "F" (.named 0) handleScope]

def handleFilled : Filled :=
  ⟨.compositeLit none 1 [.keyValue (.ident "F" 2) 2 (conversionAt 2 (.ident "uintptr" 2) (zeroLitAt 2))] 3,
    3, []⟩

theorem suits_fill_handle :
    fill 3 handleView ⟨none, 0, [], 0⟩ (.struct handleFields) true = .ok handleFilled ∧
      ∃ type? elts,
        handleFilled.expr.unplaced = (Expr.compositeLit type? noPos elts noPos).unplaced ∧
        ∀ e ∈ elts, ElementOf handleView (Operand.Suits handleView.table) (.struct handleFields) e := by
  have hfill : fill 3 handleView ⟨none, 0, [], 0⟩ (.struct handleFields) true = .ok handleFilled := rfl
  obtain ⟨fields, type?, elts, hfields, hexpr, helts⟩ := suits_fill hfill
  cases hfields
  refine ⟨hfill, type?, elts, hexpr, fun e he => ?_⟩
  rcases helts e he with ⟨f, hf, value, -, hvalue⟩ | h
  · cases hvalue
  · exact h

/-- The conversion to `uintptr` is no value of a type that is declared over it. -/
theorem fill_handle :
    handleView.table.validate = .ok () ∧
      fill 3 handleView ⟨none, 0, [], 0⟩ (.struct handleFields) true = .ok handleFilled ∧
      ∀ o, HasType handleView (Operand.AssignableTo handleView.table) none
          (conversionAt 2 (.ident "uintptr" 2) (zeroLitAt 2)) o →
        ¬o.AssignableTo handleView.table (.named 0) := by
  have hhandle : handleView.table.IsHandle (.named 0) .uintptr := ⟨rfl, rfl, rfl⟩
  refine ⟨rfl, rfl, fun o ho ha => ?_⟩
  cases ho with
  | conversion hname _ _ =>
    cases hname with
    | word hspell =>
      rw [hhandle.eq_of_assignableTo ha] at hspell
      exact absurd (Except.ok.inj hspell) (by decide)

end LiteralFill
