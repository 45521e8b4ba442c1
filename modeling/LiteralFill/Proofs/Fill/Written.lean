import LiteralFill.Proofs.Fill.Outermost
import LiteralFill.Proofs.Fill.Renderable

namespace LiteralFill

/-- The value that the element number `i` of a literal has for a field. An element without a key belongs
to the field of that number. -/
def Expr.valueFor? (fields : List Field) (name : String) (i : Nat) : Expr → Option Expr
  | .keyValue (.ident key _) _ value => if key = name then some value else none
  | .keyValue _ _ _ => none
  | value => if fields[i]?.any (·.name = name) then some value else none

/-- What the user wrote for a field. Of several values the last one counts. -/
def Literal.written? (lit : Literal) (fields : List Field) (name : String) : Option Expr :=
  lit.elts.zipIdx.reverse.findSome? fun (e, i) => e.valueFor? fields name i

namespace Entries

theorem value?_cons (name field : String) (value : Expr) (entries : Entries) :
    value? ((name, value) :: entries) field =
      (entries.value? field).or (if name = field then some value else none) := by
  unfold value?
  by_cases h : name = field
  · simp only [List.filter_cons, h, decide_true, ↓reduceIte, List.getLast?_cons, Option.map_some]
    cases (entries.filter (·.1 = field)).getLast? <;> rfl
  · simp only [List.filter_cons, h, decide_false, Bool.false_eq_true, ↓reduceIte, Option.or_none]

theorem valueFor?_of_ofElement {fields : List Field} {i : Nat} {e value : Expr} {name : String}
    (h : ofElement fields i e = .ok (name, value)) (field : String) :
    e.valueFor? fields field i = if name = field then some value else none := by
  cases e with
  | keyValue key _ value' =>
    cases key with
    | ident key _ =>
      cases h
      rfl
    | _ => cases h
  | _ =>
    cases hf : fields[i]? with
    | none =>
      simp only [ofElement, hf] at h
      cases h
    | some f =>
      simp only [ofElement, hf] at h
      cases h
      simp only [Expr.valueFor?, hf, Option.any_some, decide_eq_true_eq]

theorem value?_of_mapM {fields : List Field} {elts : List (Expr × Nat)} {entries : Entries}
    (h : elts.mapM (fun (e, i) => ofElement fields i e) = .ok entries) (field : String) :
    entries.value? field = elts.reverse.findSome? fun (e, i) => e.valueFor? fields field i := by
  induction elts generalizing entries with
  | nil =>
    cases h
    rfl
  | cons x rest ih =>
    obtain ⟨e, i⟩ := x
    rw [List.mapM_cons] at h
    cases hx : ofElement fields i e with
    | error err => simp only [hx] at h; cases h
    | ok entry =>
      cases hr : rest.mapM fun (e, i) => ofElement fields i e with
      | error err => simp only [hx, hr] at h; cases h
      | ok more =>
        simp only [hx, hr] at h
        cases h
        -- later elements go before earlier ones on both sides
        rw [value?_cons, ih hr, List.reverse_cons, List.findSome?_append, List.findSome?_singleton]
        exact congrArg _ (valueFor?_of_ofElement hx field).symm

end Entries

theorem Literal.written?_eq {lit : Literal} {fields : List Field} {entries : Entries}
    (h : Entries.ofElements fields lit.elts = .ok entries) (field : String) :
    lit.written? fields field = entries.value? field :=
  (Entries.value?_of_mapM h field).symm

/-- A filled literal has, for each field of its struct in order, what the user wrote, and for each other
field that may be named and has a zero value that may be written, that value. Nothing else is in it, and
whatever is made up below the first level has no part in what the user wrote. -/
theorem entries_fill {depth : Nat} {v : Viewpoint} {lit : Literal} {ty : Ty} {omitType : Bool}
    {filled : Filled}
    (hnames : ∀ fields, v.table.structFields? ty = .ok (some fields) → (fields.map (·.name)).Nodup)
    (h : fill depth v lit ty omitType = .ok filled) :
    ∃ target fields type? elts, v.table.underlyingNode (.root ty) = .ok target ∧
      target.ty = .struct fields ∧
      filled.expr.unplaced = (Expr.compositeLit type? noPos elts noPos).unplaced ∧
      HasEntries v (lit.written? fields) [target.place] target 0 fields elts := by
  obtain ⟨target, fields, entries, n, e, hf, he, hexpr, -⟩ := of_fill_eq_ok h
  have hstruct := TypeTable.structFields?_eq_some_iff.2 ⟨target, hf.reaches, hf.is_struct⟩
  obtain ⟨type?, elts, -, helts, rfl⟩ := bareLiteral_eq_ok he
  refine ⟨target, fields, type?, elts, hf.reaches, hf.is_struct, ?_, ?_⟩
  · rw [hexpr, Expr.unplaced_layOut]
  · refine hasEntries_of_bareEntries (fun i f e he => isZero_of_bareZero he)
      (fun i f hidden he => not_renderable_of_bareZero he) (.inr (hnames fields hstruct))
      (fun f _ => (Literal.written?_eq hf.written f.name).symm) helts

/-- Of two fields, the one that is written twice gets its last value and the other its zero value. -/
theorem entries_fill_twice :
    let scope : Scope := ⟨"example.com/app", "app"⟩
    let fields : List Field :=
      [⟨"A", true, false, scope, .basic .bool⟩, ⟨"B", true, false, scope, .basic .int⟩]
    let lit : Literal := ⟨none, 0, [.entry "B" (.name "x"), .entry "B" (.name "y")], 0⟩
    ∃ filled, fill 2 ⟨.empty, ⟨scope, []⟩⟩ lit (.struct fields) true = .ok filled ∧
      (fields.map (·.name)).Nodup ∧ lit.written? fields "B" = some (.name "y") ∧
      ∃ type? elts, filled.expr.unplaced = (Expr.compositeLit type? noPos elts noPos).unplaced ∧
        HasEntries ⟨.empty, ⟨scope, []⟩⟩ (lit.written? fields) [⟨none, []⟩] (.root (.struct fields)) 0
          fields elts := by
  intro scope fields lit
  have hok : (fill 2 ⟨.empty, ⟨scope, []⟩⟩ lit (.struct fields) true).isOk = true := by
    decide +kernel
  have hnames : (fields.map (·.name)).Nodup := by decide
  cases hf : fill 2 ⟨.empty, ⟨scope, []⟩⟩ lit (.struct fields) true with
  | error e => rw [hf] at hok; cases hok
  | ok filled =>
    obtain ⟨target, fields', type?, elts, htarget, hstruct, hexpr, hentries⟩ :=
      entries_fill (fun fields' h => by cases h; exact hnames) hf
    cases htarget
    cases hstruct
    exact ⟨filled, rfl, hnames, rfl, type?, elts, hexpr, hentries⟩

end LiteralFill
