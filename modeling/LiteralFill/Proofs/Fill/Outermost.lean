import LiteralFill.Fill
import LiteralFill.Proofs.Fill.Depth
import LiteralFill.Proofs.Fill.Follows
import LiteralFill.Proofs.TypeTable.Nodes

namespace LiteralFill

/-- The steps from a struct type down to its fields. -/
def Ty.stepsToFields (ty : Ty) : Nat := if ty.isNamed then 2 else 1

/-- All that has to hold before the first field is looked at. -/
structure Fillable (v : Viewpoint) (lit : Literal) (ty : Ty) (target : Node) (fields : List Field)
    (entries : Entries) : Prop where
  table_valid : v.table.validate = .ok ()
  type_valid : v.table.validateType ty = .ok ()
  reaches : v.table.underlyingNode (.root ty) = .ok target
  is_struct : target.ty = .struct fields
  written : Entries.ofElements fields lit.elts = .ok entries

/-- The name that the outermost literal is written with is that of its type. -/
theorem Fillable.name_eq {v : Viewpoint} {lit : Literal} {ty : Ty} {target : Node} {fields : List Field}
    {entries : Entries} (h : Fillable v lit ty target fields entries) :
    ty.decl?.elim (.struct fields) .named = ty := by
  cases hn : ty.isNamed with
  | true =>
    obtain ⟨d, rfl⟩ := Ty.isNamed_iff.1 hn
    rfl
  | false =>
    have hreaches := h.reaches
    rw [v.table.underlyingNode_of_not_named hn] at hreaches
    cases hreaches
    obtain rfl : ty = .struct fields := h.is_struct
    rfl

/-- The outermost literal before it is laid out, with the fields' types followed `depth` steps down. -/
def bareOutermost (v : Viewpoint) (depth : Nat) (ty : Ty) (omitType : Bool) (target : Node)
    (fields : List Field) (entries : Entries) : Attempt Expr :=
  bareLiteral ⟨ty.decl?, omitType, false⟩ (structTypeAt v ⟨ty.decl?, omitType, false⟩ · fields)
    (bareStructEntries v [] target.place entries fields fun i f =>
      bareZero v depth [target.place] .plain (target.child i f.ty))

theorem zero_of_named {v : Viewpoint} {depth decl : Nat} {style : Style} {node target : Node}
    (hty : node.ty = .named decl) (ht : v.table.underlyingNode node = .ok target) :
    zero v (depth + 1) style node =
      zero v depth { style with decl? := if target.ty.isStruct then some decl else none } target := by
  rw [zero, hty]
  simp only [ht]
  exact pure_bind (m := Filler) target _

/-- A struct that is not open yet comes to the entries of its fields. -/
theorem follows_struct {v : Viewpoint} {depth : Nat} {style : Style} {node : Node}
    {fields : List Field} (hty : node.ty = .struct fields) (d : Draft) (hplace : node.place ∉ d.path) :
    Follows d.first (zero v (depth + 1) style node) d
      (bareLiteral style (structTypeAt v style · fields)
        (bareStructEntries v d.path node.place (if d.first then d.entries else []) fields fun i f =>
          bareZero v depth (node.place :: d.path) .plain (node.child i f.ty)))
      d.put := by
  rw [zero, hty]
  apply follows_literal (singleLine_structTypeAt v style fields)
  exact follows_structEntries _ _ d
    (fun i f d' h hpath => hpath ▸ follows_zero v depth .plain (node.child i f.ty) d' h) (.inl hplace)

theorem follows_outermost {v : Viewpoint} {lit : Literal} {ty : Ty} {target : Node}
    {fields : List Field} {entries : Entries} (h : Fillable v lit ty target fields entries)
    (depth : Nat) (omitType : Bool) :
    Follows true (zero v (depth + ty.stepsToFields) ⟨none, omitType, false⟩ (.root ty))
      (.start entries) (bareOutermost v depth ty omitType target fields entries)
      (Draft.start entries).put := by
  have hstruct : target.ty.isStruct = true := by rw [h.is_struct]; rfl
  cases hn : ty.isNamed with
  | false =>
    have ht := h.reaches
    rw [v.table.underlyingNode_of_not_named hn] at ht
    cases ht
    have hty : ty = .struct fields := h.is_struct
    subst hty
    exact follows_struct rfl (.start entries) nofun
  | true =>
    obtain ⟨decl, rfl⟩ := Ty.isNamed_iff.1 hn
    -- the name costs a step of its own
    have hstep : zero v (depth + 2) ⟨none, omitType, false⟩ (.root (.named decl)) =
        zero v (depth + 1) ⟨some decl, omitType, false⟩ target := by
      rw [zero_of_named rfl h.reaches, hstruct, if_pos rfl]
    exact Follows.take (fun _ => rfl) id (congrFun hstep (.start entries))
      (follows_struct h.is_struct (.start entries) nofun)

section Fillable

variable {v : Viewpoint} {lit : Literal} {ty : Ty} {target : Node} {fields : List Field}
  {entries : Entries} {omitType : Bool}

theorem fill_eq_zero (h : Fillable v lit ty target fields entries) (depth : Nat) :
    fill depth v lit ty omitType =
      match zero v depth ⟨none, omitType, false⟩ (.root ty) (.start entries) with
      | (outcome, draft) => outcome.map fun e => ⟨e, draft.lines, draft.omitted⟩ := by
  have hfields := TypeTable.structFields?_eq_some_iff.2 ⟨target, h.reaches, h.is_struct⟩
  simp only [fill, h.table_valid, h.type_valid, hfields, mapError_ok, bind, Except.bind,
    h.written]
  obtain ⟨_ | e, draft⟩ := zero v depth ⟨none, omitType, false⟩ (.root ty) (.start entries) <;> rfl

/-- What filling comes to once the descent has reached the fields. -/
theorem fill_eq (h : Fillable v lit ty target fields entries) (depth : Nat) :
    fill (depth + ty.stepsToFields) v lit ty omitType =
      (bareOutermost v depth ty omitType target fields entries).outcome.map fun e =>
        ⟨e.layOut 1, e.lineCount, (bareOutermost v depth ty omitType target fields entries).omitted⟩ := by
  obtain ⟨entries', -, hf⟩ := follows_outermost h depth omitType
  rw [fill_eq_zero h]
  cases ha : (bareOutermost v depth ty omitType target fields entries).outcome with
  | error e =>
    rw [ha] at hf
    obtain ⟨pos, lines, first, -, hf⟩ := hf
    rw [hf]
    rfl
  | ok e =>
    rw [ha] at hf
    rw [hf]
    simp only [Draft.start, Draft.put, Except.map, Nat.zero_add, List.nil_append]

theorem fill_eq_error_iff (h : Fillable v lit ty target fields entries) (depth : Nat) {e : FillError} :
    fill (depth + ty.stepsToFields) v lit ty omitType = .error e ↔
      (bareOutermost v depth ty omitType target fields entries).outcome = .error e := by
  rw [fill_eq h]
  cases (bareOutermost v depth ty omitType target fields entries).outcome with
  | error e' => exact ⟨fun h => congrArg _ (Except.error.inj h), fun h => congrArg _ (Except.error.inj h)⟩
  | ok e' => exact ⟨nofun, nofun⟩

theorem fill_of_lt_stepsToFields (h : Fillable v lit ty target fields entries) {depth : Nat}
    (hlt : depth < ty.stepsToFields) : fill depth v lit ty omitType = .error .tooDeep := by
  rw [fill_eq_zero h]
  unfold Ty.stepsToFields at hlt
  cases hn : ty.isNamed with
  | false =>
    obtain rfl : depth = 0 := by simpa [hn] using hlt
    rfl
  | true =>
    obtain ⟨decl, rfl⟩ := Ty.isNamed_iff.1 hn
    match depth with
    | 0 => rfl
    | 1 => rw [zero_of_named rfl h.reaches]; rfl
    | n + 2 => rw [if_pos hn] at hlt; omega

end Fillable

theorem Entries.ofElement_ne_tooDeep (fields : List Field) (i : Nat) (e : Expr) :
    Entries.ofElement fields i e ≠ .error .tooDeep := by
  unfold ofElement
  split
  · nofun
  · nofun
  · split <;> nofun

theorem Entries.ofElements_ne_tooDeep (fields : List Field) (elts : List Expr) :
    Entries.ofElements fields elts ≠ .error .tooDeep := by
  intro h
  obtain ⟨x, -, hx⟩ := exists_of_mapM_eq_error h
  exact ofElement_ne_tooDeep fields x.2 x.1 hx

theorem fill_of_table_invalid {v : Viewpoint} {e : TableError} (h : v.table.validate = .error e)
    (depth : Nat) (lit : Literal) (ty : Ty) (omitType : Bool) :
    fill depth v lit ty omitType = .error (.invalidTypes e) := by
  simp only [fill, h]
  rfl

theorem fill_of_type_invalid {v : Viewpoint} {ty : Ty} {e : TableError}
    (htable : v.table.validate = .ok ()) (h : v.table.validateType ty = .error e) (depth : Nat)
    (lit : Literal) (omitType : Bool) :
    fill depth v lit ty omitType = .error (.invalidTypes e) := by
  simp only [fill, htable, h]
  rfl

/-- Without a struct to fill, or with elements that no field owns, filling fails at every depth. -/
theorem fillable_or_fails (v : Viewpoint) (lit : Literal) (ty : Ty) (omitType : Bool) :
    (∃ target fields entries, Fillable v lit ty target fields entries) ∨
      ∃ e, e ≠ .tooDeep ∧ ∀ depth, fill depth v lit ty omitType = .error e := by
  cases htable : v.table.validate with
  | error e =>
    exact .inr ⟨.invalidTypes e, nofun, fun depth => fill_of_table_invalid htable depth lit ty omitType⟩
  | ok _ =>
  cases htype : v.table.validateType ty with
  | error e =>
    exact .inr ⟨.invalidTypes e, nofun,
      fun depth => fill_of_type_invalid htable htype depth lit omitType⟩
  | ok _ =>
  simp only [fill, htable, htype]
  cases hfields : v.table.structFields? ty with
  | error f => exact .inr ⟨.fault f, nofun, fun _ => rfl⟩
  | ok fields? =>
  cases fields? with
  | none =>
    cases hname : v.describe ty with
    | error e =>
      exact .inr ⟨e, fun he => v.describe_ne_tooDeep ty (he ▸ hname), fun _ => rfl⟩
    | ok name => exact .inr ⟨.notAStruct name, nofun, fun _ => rfl⟩
  | some fields =>
    cases hwritten : Entries.ofElements fields lit.elts with
    | error e =>
      refine .inr ⟨e, fun he => Entries.ofElements_ne_tooDeep fields lit.elts (he ▸ hwritten), ?_⟩
      intro depth
      simp only [mapError_ok, bind, Except.bind, hwritten]
    | ok entries =>
      obtain ⟨target, hr, hs⟩ := TypeTable.structFields?_eq_some_iff.1 hfields
      exact .inl ⟨target, fields, entries, htable, htype, hr, hs, hwritten⟩

/-- Filling that succeeds had the depth to reach the fields, and lays out what it found for them. -/
theorem Fillable.of_fill_eq_ok {v : Viewpoint} {lit : Literal} {ty : Ty} {target : Node}
    {fields : List Field} {entries : Entries} {omitType : Bool} {depth : Nat} {filled : Filled}
    (hf : Fillable v lit ty target fields entries)
    (h : fill depth v lit ty omitType = .ok filled) :
    ∃ n e, depth = n + ty.stepsToFields ∧
      (bareOutermost v n ty omitType target fields entries).outcome = .ok e ∧
      filled.expr = e.layOut 1 ∧ filled.lines = e.lineCount := by
  obtain ⟨n, rfl⟩ : ∃ n, depth = n + ty.stepsToFields := by
    by_cases hlt : depth < ty.stepsToFields
    · rw [fill_of_lt_stepsToFields hf hlt] at h
      cases h
    · exact ⟨depth - ty.stepsToFields, by omega⟩
  rw [fill_eq hf] at h
  cases ha : (bareOutermost v n ty omitType target fields entries).outcome with
  | error e => rw [ha] at h; cases h
  | ok e =>
    rw [ha] at h
    cases h
    exact ⟨n, e, rfl, ha, rfl, rfl⟩

theorem fillable_of_fill_eq_ok {v : Viewpoint} {lit : Literal} {ty : Ty} {omitType : Bool} {depth : Nat}
    {filled : Filled} (h : fill depth v lit ty omitType = .ok filled) :
    ∃ target fields entries, Fillable v lit ty target fields entries := by
  rcases fillable_or_fails v lit ty omitType with hf | ⟨e, -, he⟩
  · exact hf
  · rw [he] at h
    cases h

/-- Whatever filling comes to was laid out from line 1 on after the zero values were found. -/
theorem of_fill_eq_ok {v : Viewpoint} {lit : Literal} {ty : Ty} {omitType : Bool} {depth : Nat}
    {filled : Filled} (h : fill depth v lit ty omitType = .ok filled) :
    ∃ target fields entries n e, Fillable v lit ty target fields entries ∧
      (bareOutermost v n ty omitType target fields entries).outcome = .ok e ∧
      filled.expr = e.layOut 1 ∧ filled.lines = e.lineCount := by
  obtain ⟨target, fields, entries, hf⟩ := fillable_of_fill_eq_ok h
  obtain ⟨n, e, -, he⟩ := hf.of_fill_eq_ok h
  exact ⟨target, fields, entries, n, e, hf, he⟩

end LiteralFill
