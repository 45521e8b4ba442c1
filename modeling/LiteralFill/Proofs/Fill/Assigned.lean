import LiteralFill.Proofs.Fill.Written
import LiteralFill.Proofs.Layout.Tokens

namespace LiteralFill

/-- Each element of the literal has a name to go by: its key, or that of the field in its place. -/
def Literal.Named (lit : Literal) (fields : List Field) : Prop :=
  ∀ (i : Nat) (e : Expr), lit.elts[i]? = some e →
    ∃ name value, e.valueFor? fields name i = some value

namespace Entries

theorem valueFor?_of_ofElement_eq_error {fields : List Field} {i : Nat} {e : Expr} {err : FillError}
    (h : ofElement fields i e = .error err) (name : String) : e.valueFor? fields name i = none := by
  cases e with
  | keyValue key _ _ =>
    cases key with
    | ident _ _ => cases h
    | _ => rfl
  | _ =>
    cases hf : fields[i]? with
    | none => simp only [Expr.valueFor?, hf, Option.any_none, Bool.false_eq_true, ↓reduceIte]
    | some f =>
      simp only [ofElement, hf] at h
      cases h

/-- The entries take over what was written for each of the fields, wherever its tokens stand. -/
def Alike (fields : List Field) (entries entries' : Entries) : Prop :=
  ∀ f ∈ fields,
    (entries.value? f.name).map Expr.unplaced = (entries'.value? f.name).map Expr.unplaced

theorem Alike.remove {fields : List Field} {entries entries' : Entries}
    (h : Alike fields entries entries') (name : String) :
    Alike fields (entries.remove name) (entries'.remove name) := by
  intro f hf
  by_cases heq : f.name = name
  · rw [heq, value?_remove_self, value?_remove_self]
  · rw [value?_remove_of_ne _ heq, value?_remove_of_ne _ heq]
    exact h f hf

end Entries

/-- A literal is accepted exactly if each of its elements has a name. -/
theorem Literal.named_iff {lit : Literal} {fields : List Field} :
    lit.Named fields ↔ ∃ entries, Entries.ofElements fields lit.elts = .ok entries := by
  constructor
  · intro h
    cases hw : Entries.ofElements fields lit.elts with
    | ok entries => exact ⟨entries, rfl⟩
    | error err =>
      obtain ⟨⟨e, i⟩, hmem, he⟩ := exists_of_mapM_eq_error hw
      obtain ⟨name, value, hvalue⟩ := h i e (List.mk_mem_zipIdx_iff_getElem?.1 hmem)
      rw [Entries.valueFor?_of_ofElement_eq_error he] at hvalue
      cases hvalue
  · rintro ⟨entries, hw⟩ i e he
    obtain ⟨⟨name, value⟩, -, hentry⟩ :=
      exists_mem_of_mapM_eq_ok hw (List.mk_mem_zipIdx_iff_getElem?.2 he)
    exact ⟨name, value, (Entries.valueFor?_of_ofElement hentry name).trans (if_pos rfl)⟩

variable {v : Viewpoint} {valueOf : Nat → Field → Attempt Expr} {fields : List Field}
  {entries entries' : Entries}

/-- Field by field, either both take over what is written, or neither has anything written and the
same is made up for both. -/
theorem agree_bareEntries (h : Entries.Alike fields entries entries') (i : Nat) :
    (bareEntries v valueOf entries i fields).AgreeUpTo unplacedAll
      (bareEntries v valueOf entries' i fields) := by
  induction fields generalizing entries entries' i with
  | nil => exact .refl _
  | cons f rest ih =>
    have hrest : Entries.Alike rest entries entries' := fun g hg => h g (List.mem_cons_of_mem f hg)
    have hf := h f List.mem_cons_self
    rw [bareEntries, bareEntries]
    cases hval : entries.value? f.name with
    | some value =>
      rw [hval, Option.map_some, eq_comm, Option.map_eq_some_iff] at hf
      obtain ⟨value', hval', hsame⟩ := hf
      simp only [hval']
      refine (ih (hrest.remove f.name) (i + 1)).bind fun es es' hes => .pure ?_
      simp only [unplacedAll, Expr.entry, Expr.unplaced, hsame, hes]
    | none =>
      rw [hval, Option.map_none, eq_comm, Option.map_eq_none_iff] at hf
      simp only [hf]
      split
      · refine .bind_self _ fun value? => (ih hrest (i + 1)).bind fun es es' hes => .pure ?_
        cases value? with
        | none => exact hes
        | some value => exact congrArg (_ :: ·) hes
      · exact ih hrest (i + 1)

theorem agree_bareOutermost (h : Entries.Alike fields entries entries') (depth : Nat) (ty : Ty)
    (omitType : Bool) (target : Node) :
    (bareOutermost v depth ty omitType target fields entries).AgreeUpTo Expr.unplaced
      (bareOutermost v depth ty omitType target fields entries') := by
  refine .bind_self _ fun type? => (agree_bareEntries h 0).bind fun es es' hes => .pure ?_
  simp only [Expr.unplaced, hes]

theorem Fillable.fill_congr {lit lit' : Literal} {ty : Ty} {target : Node}
    (h : Fillable v lit ty target fields entries) (h' : Fillable v lit' ty target fields entries')
    (halike : Entries.Alike fields entries entries') (depth : Nat) (omitType : Bool) :
    fill depth v lit ty omitType = fill depth v lit' ty omitType := by
  by_cases hlt : depth < ty.stepsToFields
  · rw [fill_of_lt_stepsToFields h hlt, fill_of_lt_stepsToFields h' hlt]
  obtain ⟨n, rfl⟩ : ∃ n, depth = n + ty.stepsToFields := ⟨depth - ty.stepsToFields, by omega⟩
  have hagree := agree_bareOutermost (v := v) halike n ty omitType target
  rw [fill_eq h, fill_eq h', hagree.omitted]
  rcases hagree.cases with ⟨e, hx, hy⟩ | ⟨e, e', hx, hy, hsame⟩
  · rw [hx, hy]
  · rw [hx, hy]
    simp only [Except.map, Expr.layOut_congr hsame, Expr.lineCount_congr hsame]

/-- What filling comes to depends on a literal by nothing but the values it has for the fields. In which
order they are written, with keys or in the places of the fields, where their tokens stand, and what
stands around them makes no difference. -/
theorem fill_eq_of_written {v : Viewpoint} {ty : Ty} {fields : List Field} {lit lit' : Literal}
    (hfields : v.table.structFields? ty = .ok (some fields)) (hnamed : lit.Named fields)
    (hnamed' : lit'.Named fields)
    (hsame : ∀ f ∈ fields, (lit.written? fields f.name).map Expr.unplaced =
      (lit'.written? fields f.name).map Expr.unplaced)
    (depth : Nat) (omitType : Bool) :
    fill depth v lit ty omitType = fill depth v lit' ty omitType := by
  obtain ⟨entries, hw⟩ := Literal.named_iff.1 hnamed
  obtain ⟨entries', hw'⟩ := Literal.named_iff.1 hnamed'
  obtain ⟨target, hreaches, hstruct⟩ := TypeTable.structFields?_eq_some_iff.1 hfields
  cases htable : v.table.validate with
  | error e => rw [fill_of_table_invalid htable, fill_of_table_invalid htable]
  | ok _ =>
    cases htype : v.table.validateType ty with
    | error e => rw [fill_of_type_invalid htable htype, fill_of_type_invalid htable htype]
    | ok _ =>
      have halike : Entries.Alike fields entries entries' := by
        intro f hf
        rw [← Literal.written?_eq hw, ← Literal.written?_eq hw']
        exact hsame f hf
      have hlit : Fillable v lit ty target fields entries :=
        ⟨htable, htype, hreaches, hstruct, hw⟩
      have hlit' : Fillable v lit' ty target fields entries' :=
        ⟨htable, htype, hreaches, hstruct, hw'⟩
      exact hlit.fill_congr hlit' halike depth omitType

/-- `T{B: []int{x}, A: n}` over several lines, and `{n, []int{x}}` on one. -/
theorem fill_eq_of_written_unkeyed :
    let scope : Scope := ⟨"example.com/app", "main"⟩
    let v : Viewpoint := ⟨.empty, ⟨scope, []⟩⟩
    let fields : List Field := [.declared "A" (.basic .int) scope,
      .declared "B" (.slice (.basic .int)) scope, .declared "C" (.map (.basic .int) (.basic .bool)) scope]
    let lit : Literal := ⟨some (.ident "T" 3), 3,
      [.keyValue (.ident "B" 4) 4 (.compositeLit (some (.arrayType 4 none (.ident "int" 4))) 4
        [.ident "x" 5] 6), .keyValue (.ident "A" 7) 7 (.ident "n" 8)], 9⟩
    let lit' : Literal := ⟨none, 1,
      [.ident "n" 1, .compositeLit (some (.arrayType 1 none (.ident "int" 1))) 1 [.ident "x" 1] 1], 1⟩
    v.table.structFields? (.struct fields) = .ok (some fields) ∧ (fields.map (·.name)).Nodup ∧
      lit.Named fields ∧ lit'.Named fields ∧
      (∀ f ∈ fields, (lit.written? fields f.name).map Expr.unplaced =
        (lit'.written? fields f.name).map Expr.unplaced) ∧
      ∃ filled, fill 3 v lit (.struct fields) false = .ok filled ∧ filled.lines = 11 ∧
        fill 3 v lit' (.struct fields) false = .ok filled := by
  intro scope v fields lit lit'
  have hnamed : lit.Named fields := Literal.named_iff.2 ⟨_, rfl⟩
  have hnamed' : lit'.Named fields := Literal.named_iff.2 ⟨_, rfl⟩
  have hsame : ∀ f ∈ fields, (lit.written? fields f.name).map Expr.unplaced =
      (lit'.written? fields f.name).map Expr.unplaced :=
    List.forall_mem_cons.2 ⟨rfl, List.forall_mem_cons.2 ⟨rfl, List.forall_mem_singleton.2 rfl⟩⟩
  have hlines : (fill 3 v lit (.struct fields) false).map (·.lines) = .ok 11 := by decide +kernel
  cases hf : fill 3 v lit (.struct fields) false with
  | error e => rw [hf] at hlines; cases hlines
  | ok filled =>
    rw [hf] at hlines
    exact ⟨rfl, by decide, hnamed, hnamed', hsame, filled, rfl, Except.ok.inj hlines,
      (fill_eq_of_written rfl hnamed hnamed' hsame 3 false).symm.trans hf⟩

end LiteralFill
