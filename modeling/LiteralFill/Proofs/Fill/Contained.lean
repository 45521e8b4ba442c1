import LiteralFill.Proofs.Fill.Omitted
import LiteralFill.Proofs.Fill.References
import LiteralFill.Proofs.Fill.Termination

namespace LiteralFill

open Relation (ReflTransGen)

/-- A call that filling a literal comes to. -/
def Reached (v : Viewpoint) (lit : Literal) (ty : Ty) (omitType : Bool) (c : Call) : Prop :=
  ∃ c₀, FillCalls v lit ty omitType c₀ ∧ ReflTransGen (Calls v) c₀ c

/-- The value that a call asks for cannot be written, for want of this name. -/
def Call.NotSpelled (v : Viewpoint) (c : Call) (hidden : String) : Prop :=
  ∃ inside, LiteralFill.NotSpelled v c.path c.style c.node hidden inside

/-- A call of a struct for one of its fields. -/
def CallsField (v : Viewpoint) (s f : Call) : Prop := Calls v s f ∧ s.node.ty.isStruct = true

/-- A call for a field of the outermost struct, or of one further in that is written itself. -/
inductive ForField (v : Viewpoint) (lit : Literal) (ty : Ty) (omitType : Bool) (f : Call) : Prop
  | outermost : FillCalls v lit ty omitType f → ForField v lit ty omitType f
  | inner {s : Call} :
    Reached v lit ty omitType s → CallsField v s f → (∀ hidden, ¬s.NotSpelled v hidden) →
      ForField v lit ty omitType f

variable {v : Viewpoint} {lit : Literal} {ty : Ty} {omitType : Bool}

section Types

variable {style : Style}

theorem exists_bareType?_array {elem : Ty} (h : style.elided = true ∨ v.CanName elem) (len : Nat) :
    ∃ type?, (style.bareType? (arrayTypeAt v · len elem)).outcome = .ok type? :=
  exists_bareType?_iff.2 (h.imp_right exists_arrayTypeAt_iff.2)

theorem exists_bareType?_map (style : Style) {key value : Ty} (hkey : v.CanName key)
    (hvalue : v.CanName value) :
    ∃ type?, (style.bareType? (mapTypeAt v · key value)).outcome = .ok type? :=
  exists_bareType?_iff.2 (.inr (exists_mapTypeAt_iff.2 ⟨hkey, hvalue⟩))

theorem exists_bareType?_struct {fields : List Field}
    (h : style.elided = true ∨ v.CanName (style.decl?.elim (.struct fields) .named)) :
    ∃ type?, (style.bareType? (structTypeAt v style · fields)).outcome = .ok type? :=
  exists_bareType?_iff.2 (h.imp_right exists_structTypeAt_iff.2)

end Types

section Calls

variable {c c' : Call} {hidden : String}

/-- A value takes down with it the one that it is written inside of. -/
theorem CallsInline.notSpelled (h : CallsInline v c c') (hc : c'.NotSpelled v hidden) :
    c.NotSpelled v hidden := by
  obtain ⟨h, hpath⟩ := h
  obtain ⟨inside, hc⟩ := hc
  cases h with
  | element hty hlen hname =>
    obtain ⟨type?, htype⟩ := exists_bareType?_array hname _
    exact ⟨inside, .arrayElement hty htype hlen hc⟩
  | key hty hkey hvalue =>
    obtain ⟨type?, htype⟩ := exists_bareType?_map .plain hkey hvalue
    exact ⟨inside, .mapKey hty htype hc⟩
  | value hty hkey hvalue hk =>
    obtain ⟨type?, htype⟩ := exists_bareType?_map .plain hkey hvalue
    obtain ⟨depth, k, hk⟩ := hk
    obtain ⟨gaps, hgaps, -⟩ := (records_bareZero v depth _ _ _).of_ok hk
    exact ⟨_, .mapValue hty htype hgaps hc⟩
  | field _ _ _ hf =>
    obtain ⟨-, -⟩ := hf
    exact absurd (congrArg List.length hpath) (Nat.succ_ne_self _)
  | definition hty htarget => exact ⟨inside, .named hty htarget hc⟩
  | pointee hty htarget hstruct => exact ⟨inside, .structPointer hty htarget hstruct hc⟩

theorem notSpelled_of_inline (h : ReflTransGen (CallsInline v) c c') (hc : c'.NotSpelled v hidden) :
    c.NotSpelled v hidden := by
  induction h with
  | refl => exact hc
  | tail _ hstep ih => exact ih (hstep.notSpelled hc)

/-- A struct that gets to its fields is written, whatever becomes of them. -/
theorem CallsField.not_notSpelled (h : CallsField v c c') : ¬c.NotSpelled v hidden := by
  obtain ⟨h, hstruct⟩ := h
  rintro ⟨inside, hc⟩
  cases h with
  | field hty hname _ _ =>
    obtain ⟨type?, htype⟩ := exists_bareType?_struct hname
    cases hc <;> simp_all
  | _ => simp_all [Ty.isStruct]

/-- A call that is not for a field is made inside the same structs. -/
theorem Calls.inline_or_field (h : Calls v c c') : CallsInline v c c' ∨ CallsField v c c' := by
  cases hstruct : c.node.ty.isStruct with
  | true => exact .inr ⟨h, hstruct⟩
  | false =>
    refine .inl ⟨h, ?_⟩
    cases h with
    | field hty _ _ _ => rw [hty] at hstruct; cases hstruct
    | _ => rfl

theorem Reached.tail (h : Reached v lit ty omitType c) (hc : Calls v c c') : Reached v lit ty omitType c' := by
  obtain ⟨c₀, hfirst, hrest⟩ := h
  exact ⟨c₀, hfirst, hrest.tail hc⟩

/-- Whatever filling comes to is written as part of the value of a field, the nearest one around it. -/
theorem Reached.exists_forField (h : Reached v lit ty omitType c) :
    ∃ f, ForField v lit ty omitType f ∧ ReflTransGen (CallsInline v) f c := by
  obtain ⟨c₀, hfirst, hrest⟩ := h
  induction hrest with
  | refl => exact ⟨c₀, .outermost hfirst, .refl⟩
  | tail hbefore hstep ih =>
    rcases hstep.inline_or_field with hinline | hfield
    · obtain ⟨f, hf, hc⟩ := ih
      exact ⟨f, hf, hc.tail hinline⟩
    · exact ⟨_, .inner ⟨c₀, hfirst, hbefore⟩ hfield fun _ => hfield.not_notSpelled, .refl⟩

/-- What a call fails with, other than for a name, one that it leads to fails with itself. -/
theorem Call.exists_breaks {e : FillError} (he : ∀ s : SpellError, s.toFillError ≠ e)
    (hdeep : e ≠ .tooDeep) {depth : Nat} (h : (c.attempt v depth).outcome = .error e) :
    ∃ c', ReflTransGen (Calls v) c c' ∧ c'.Breaks v e := by
  induction depth generalizing c with
  | zero => exact absurd (Except.error.inj h).symm hdeep
  | succ depth ih =>
    rcases Call.breaks_or_calls he h with hbreaks | ⟨c', hc', h⟩
    · exact ⟨c, .refl, hbreaks⟩
    · obtain ⟨b, hb, hbreaks⟩ := ih h
      exact ⟨b, hb.head hc', hbreaks⟩

theorem fails_of_reflTransGen {e : FillError} (he : ∀ hidden, e ≠ .unrenderable hidden)
    (h : ReflTransGen (Calls v) c c') (hbreaks : c'.Breaks v e) (depth : Nat) :
    (c.attempt v depth).Fails e := by
  induction h using ReflTransGen.head_induction_on generalizing depth with
  | refl => exact hbreaks.fails depth
  | head hstep _ ih =>
    cases depth with
    | zero => exact .inr rfl
    | succ depth => exact hstep.fails he (ih depth)

end Calls

section Fillable

variable {target : Node} {fields : List Field} {entries : Entries}

theorem Viewpoint.nameOf_eq_unrenderable_iff {hidden : String} :
    v.nameOf ty = .error (.unrenderable hidden) ↔ ty.spell v = .error (.hidden hidden) := by
  rw [nameOf, mapError_eq_error]
  constructor
  · rintro ⟨s, hs, he⟩
    cases s <;> cases he
    exact hs
  · exact fun h => ⟨_, h, rfl⟩

theorem bareOutermost_unrenderable_iff (h : Fillable v lit ty target fields entries) {depth : Nat}
    {hidden : String} :
    (bareOutermost v depth ty omitType target fields entries).outcome = .error (.unrenderable hidden) ↔
      omitType = false ∧ ty.spell v = .error (.hidden hidden) := by
  have hinner : (bareStructEntries v [] target.place entries fields fun i f =>
      bareZero v depth [target.place] .plain (target.child i f.ty)).outcome ≠
        .error (.unrenderable hidden) := bareEntries_ne_unrenderable fields entries 0 hidden
  rw [bareOutermost, bareLiteral_eq_error_iff, or_iff_left fun h => hinner h.2,
    ← Viewpoint.nameOf_eq_unrenderable_iff]
  refine and_congr_right fun _ => ⟨fun ht => ?_, fun ht => ?_⟩
  · have hname := of_structTypeAt_eq_error ht
    rwa [h.name_eq] at hname
  · rw [structTypeAt, h.name_eq, ht]
    rfl

/-- The outermost literal breaks off exactly where a call does that it has come to. -/
theorem fill_eq_error_iff_breaks (h : Fillable v lit ty target fields entries) {depth : Nat}
    (hends : fill (depth + ty.stepsToFields) v lit ty omitType ≠ .error .tooDeep) {e : FillError}
    (he : ∀ hidden, e ≠ .unrenderable hidden) :
    fill (depth + ty.stepsToFields) v lit ty omitType = .error e ↔
      ∃ c, Reached v lit ty omitType c ∧ c.Breaks v e := by
  constructor
  · intro hfill
    have hname : ∀ s : SpellError, s.toFillError ≠ e := by
      rintro (hidden | decl) rfl
      · exact he hidden rfl
      · exact fill_ne_dangling _ v lit ty omitType decl hfill
    have hdeep : e ≠ .tooDeep := by
      rintro rfl
      exact hends hfill
    rcases bareLiteral_eq_error_iff.1 ((fill_eq_error_iff h depth).1 hfill) with ⟨-, ht⟩ | ⟨ht, hinner⟩
    · exact absurd ht (structTypeAt_ne_of hname _ _ _)
    · obtain ⟨c₀, hc₀, hfails⟩ := exists_fieldCalled_of_bareEntries hinner
      obtain ⟨c, hc, hbreaks⟩ := Call.exists_breaks hname hdeep hfails
      exact ⟨c, ⟨c₀, .intro h (ht.imp_right exists_structTypeAt_iff.1) hc₀, hc⟩, hbreaks⟩
  · rintro ⟨c, ⟨c₀, hc₀, hc⟩, hbreaks⟩
    obtain ⟨h', hname, hc₀⟩ := hc₀
    obtain ⟨rfl, rfl, rfl⟩ := h.unique h'
    have hfails := hc₀.fails he (fails_of_reflTransGen he hc hbreaks depth)
    have houter : (bareOutermost v depth ty omitType target fields entries).Fails e :=
      hfails.imp fun e' hinner =>
        bareLiteral_eq_error_iff.2 (.inr ⟨hname.imp_right exists_structTypeAt_iff.2, hinner⟩)
    exact (houter.imp_left (fill_eq_error_iff h depth).2).resolve_right fun ht =>
      hends ((fill_eq_error_iff h depth).2 ht)

theorem records_bareOutermost (v : Viewpoint) (depth : Nat) (ty : Ty) (omitType : Bool) (target : Node)
    (fields : List Field) (entries : Entries) :
    (bareOutermost v depth ty omitType target fields entries).Records
      (fun e gaps => ∃ type? elts, e = .compositeLit type? noPos elts noPos ∧
        FieldsLack v [target.place] target entries.value? 0 fields elts gaps)
      (fun _ _ => True) := by
  refine (records_bareLiteral (records_bareStructEntries
    (fun i f => records_bareZero v depth [target.place] .plain (target.child i f.ty)) entries
      fields)).imp ?_ fun _ _ _ => trivial
  rintro _ gaps ⟨type?, elts, -, rfl, ⟨hmem, -⟩ | ⟨-, hlacks⟩⟩
  · cases hmem
  · exact ⟨type?, elts, rfl, hlacks⟩

/-- Filling fails for a name that may not be written only if that is the name of the outermost literal.
Below it, such a name costs the field with the value that needs it, the nearest one around, which is missing
from its literal like a field that may not be named itself; the struct around the field is written. What
fails for any other reason fails the whole. -/
theorem fill_contained (h : Fillable v lit ty target fields entries) {depth : Nat}
    (hends : fill depth v lit ty omitType ≠ .error .tooDeep) :
    (∀ hidden, fill depth v lit ty omitType = .error (.unrenderable hidden) ↔
      omitType = false ∧ ty.spell v = .error (.hidden hidden)) ∧
    (∀ e, (∀ hidden, e ≠ .unrenderable hidden) →
      (fill depth v lit ty omitType = .error e ↔ ∃ c, Reached v lit ty omitType c ∧ c.Breaks v e)) ∧
    (∀ c hidden, Reached v lit ty omitType c → c.NotSpelled v hidden →
      ∃ f, ForField v lit ty omitType f ∧ ReflTransGen (CallsInline v) f c ∧ f.NotSpelled v hidden) ∧
    ∀ filled, fill depth v lit ty omitType = .ok filled → ∃ type? elts gaps,
      filled.expr.unplaced = (Expr.compositeLit type? noPos elts noPos).unplaced ∧
      FieldsLack v [target.place] target (lit.written? fields) 0 fields elts gaps := by
  obtain ⟨n, rfl⟩ : ∃ n, depth = n + ty.stepsToFields := by
    by_cases hlt : depth < ty.stepsToFields
    · exact absurd (fill_of_lt_stepsToFields h hlt) hends
    · exact ⟨depth - ty.stepsToFields, by omega⟩
  refine ⟨fun hidden => ?_, fun e he => fill_eq_error_iff_breaks h hends he, fun c hidden hc hn => ?_,
    fun filled hfill => ?_⟩
  · rw [fill_eq_error_iff h, bareOutermost_unrenderable_iff h]
  · obtain ⟨f, hf, hinline⟩ := hc.exists_forField
    exact ⟨f, hf, hinline, notSpelled_of_inline hinline hn⟩
  · obtain ⟨m, e, -, he, hexpr, -⟩ := h.of_fill_eq_ok hfill
    obtain ⟨gaps, ⟨type?, elts, rfl, hlacks⟩, -⟩ :=
      (records_bareOutermost v m ty omitType target fields entries).of_ok he
    rw [← funext (Literal.written?_eq h.written)] at hlacks
    exact ⟨type?, elts, gaps, by rw [hexpr, Expr.unplaced_layOut], hlacks⟩

/-- `T{}` loses the field with an array of `lib.Secrets`, whose maps need the name `lib.secret`. -/
theorem fill_contained_inArray :
    let app : Scope := ⟨"example.com/app", "app"⟩
    let v := outsideLib [.declared "X" (.array 2 (.named 2)) app, .declared "Y" (.basic .int) app]
    let fields := [.declared "X" (.array 2 (.named 2)) app, .declared "Y" (.basic .int) app]
    let target : Node := ⟨⟨some 0, []⟩, .struct fields⟩
    Fillable v bracesOfT (.named 0) target fields [] ∧
      fill 8 v bracesOfT (.named 0) false ≠ .error .tooDeep ∧
      (∀ hidden, fill 8 v bracesOfT (.named 0) false ≠ .error (.unrenderable hidden)) ∧
      ∃ filled type? elts gaps, fill 8 v bracesOfT (.named 0) false = .ok filled ∧
        filled.omitted = [⟨"X", "lib.secret"⟩] ∧
        filled.expr.unplaced = (Expr.compositeLit type? noPos elts noPos).unplaced ∧
        FieldsLack v [target.place] target (bracesOfT.written? fields) 0 fields elts gaps := by
  intro app v fields target
  have hfillable : Fillable v bracesOfT (.named 0) target fields [] := ⟨rfl, rfl, rfl, rfl, rfl⟩
  have hok : (fill 8 v bracesOfT (.named 0) false).map (·.omitted) = .ok [⟨"X", "lib.secret"⟩] := by
    decide +kernel
  cases h : fill 8 v bracesOfT (.named 0) false with
  | error e => rw [h] at hok; cases hok
  | ok filled =>
    rw [h] at hok
    have hends : fill 8 v bracesOfT (.named 0) false ≠ .error .tooDeep := by rw [h]; nofun
    obtain ⟨-, -, -, hfilled⟩ := fill_contained hfillable hends
    obtain ⟨type?, elts, gaps, hexpr, hlacks⟩ := hfilled filled h
    exact ⟨hfillable, nofun, nofun, filled, type?, elts, gaps, rfl, Except.ok.inj hok, hexpr, hlacks⟩

end Fillable

end LiteralFill
