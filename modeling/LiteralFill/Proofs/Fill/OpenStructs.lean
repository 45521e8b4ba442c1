import LiteralFill.Proofs.Fill.Kept
import LiteralFill.Proofs.Fill.Outermost
import LiteralFill.Proofs.Fill.Renderable
import LiteralFill.Proofs.Fill.Visits

namespace LiteralFill

/-- The visits that are under way at some moment of filling a literal, innermost first. -/
inductive UnderWay (v : Viewpoint) (lit : Literal) (ty : Ty) (omitType : Bool) : List Visit → Prop
  | outermost {depth : Nat} {target : Node} {fields : List Field} {entries : Entries} :
    Fillable v lit ty target fields entries →
      UnderWay v lit ty omitType [⟨depth, ⟨none, omitType, false⟩, .root ty, .start entries⟩]
  | inner {w w' : Visit} {around : List Visit} :
    UnderWay v lit ty omitType (w :: around) → w.Makes v w' →
      UnderWay v lit ty omitType (w' :: w :: around)

/-- The structs among the nodes visited. -/
def openStructs (visits : List Visit) : List Place :=
  (visits.filter (·.node.ty.isStruct)).map (·.node.place)

theorem openStructs_cons (w : Visit) (around : List Visit) :
    openStructs (w :: around) = w.node.opens (openStructs around) := by
  unfold openStructs Node.opens
  cases hstruct : w.node.ty.isStruct <;> simp [hstruct]

theorem Node.nodup_opens {node : Node} {path : List Place}
    (h : node.ty.isStruct = true → node.place ∉ path) (hpath : path.Nodup) : (node.opens path).Nodup := by
  unfold opens
  split
  · next hstruct => exact List.nodup_cons.2 ⟨h hstruct, hpath⟩
  · exact hpath

variable {v : Viewpoint} {lit : Literal} {ty : Ty} {omitType : Bool}

/-- The structs kept in mind are those being visited, and no struct is visited inside itself. -/
theorem UnderWay.path_eq {w : Visit} {around : List Visit}
    (h : UnderWay v lit ty omitType (w :: around)) :
    w.draft.path = openStructs around ∧ w.draft.path.Nodup := by
  generalize hvisits : w :: around = visits at h
  induction h generalizing w around with
  | outermost h =>
    cases hvisits
    exact ⟨rfl, List.nodup_nil⟩
  | inner h hmakes ih =>
    cases hvisits
    obtain ⟨heq, hnodup⟩ := ih rfl
    obtain ⟨hplace, hpath⟩ := hmakes.path_eq
    rw [hpath, openStructs_cons, ← heq]
    exact ⟨rfl, Node.nodup_opens hplace hnodup⟩

theorem literal_apply {style : Style} {typeAt : Nat → Except FillError Expr} (h : SingleLine typeAt)
    (inner : Filler (List Expr)) (d : Draft) :
    literal style typeAt inner d = match (style.bareType? typeAt).outcome with
      | .error e => (.error e, d)
      | .ok type? => match inner d with
        | (.error e, d') => (.error e, d')
        | (.ok elts, d') =>
          (.ok (.compositeLit (layOutOpt d.pos type?) d.pos elts
            (d'.pos + if elts.length = 0 then 0 else 1)),
            d'.move (if elts.length = 0 then 0 else 1) (if elts.length = 0 then 0 else elts.length + 2)) := by
  unfold literal
  rw [Filler.bind_apply, typeExpr?_apply h]
  cases (style.bareType? typeAt).outcome with
  | error e => rfl
  | ok type? =>
    simp only [Functor.map, Except.map, Filler.bind_apply, Filler.here_apply]
    rcases inner d with ⟨e | elts, d'⟩
    · rfl
    · simp only [Filler.close_apply, Filler.pure_apply]

theorem fst_literal_of_error {style : Style} {typeAt : Nat → Except FillError Expr}
    {inner : Filler (List Expr)} {d : Draft} {type? : Option Expr} {e : FillError}
    (hsingle : SingleLine typeAt) (htype : (style.bareType? typeAt).outcome = .ok type?)
    (h : (inner d).1 = .error e) : (literal style typeAt inner d).1 = .error e := by
  rw [literal_apply hsingle, htype]
  rcases hx : inner d with ⟨e' | elts, d'⟩ <;> rw [hx] at h
  · exact congrArg _ (Except.error.inj h)
  · cases h

/-- A struct that is not open yet is open while its fields are looked at. -/
theorem structEntries_of_notMem {place : Place} {fields : List Field}
    {valueOf : Nat → Field → Filler Expr} {d : Draft} (hplace : place ∉ d.path) :
    structEntries v place fields valueOf d =
      match fieldEntries v valueOf d.first 0 fields { d with first := false, path := place :: d.path } with
      | (r, d') => (r, { d' with path := d'.path.tail }) := by
  simp only [structEntries, Filler.bind_apply, Filler.get_apply, if_neg hplace,
    Filler.modifyGet_apply, Filler.inside_apply]
  rfl

theorem fst_freshEntry_of_error {name : String} {value : Filler Expr} {d : Draft} {e : FillError}
    (he : ∀ hidden, e ≠ .unrenderable hidden) (h : (value { d with pos := d.pos + 1 }).1 = .error e) :
    (freshEntry name value d).1 = .error e := by
  rw [freshEntry_apply]
  split <;> rename_i hx <;> rw [hx] at h
  · cases h
  · exact absurd (Except.error.inj h).symm (he _)
  · exact congrArg _ (Except.error.inj h)

namespace Visit

variable {w : Visit} {fields : List Field}

/-- The draft as the fields of a struct find it. -/
def opened (w : Visit) : Draft :=
  { w.draft with first := false, path := w.node.place :: w.draft.path }

/-- What the fields of a struct come to. -/
def runFields (v : Viewpoint) (w : Visit) (depth : Nat) (fields : List Field) :
    Except FillError (List Expr) × Draft :=
  fieldEntries v (fun i f => zero v depth .plain (w.node.child i f.ty)) w.draft.first 0 fields w.opened

theorem path_runFields (v : Viewpoint) (w : Visit) (depth : Nat) (fields : List Field) :
    (w.runFields v depth fields).2.path = w.opened.path :=
  (Filler.AgreeInside.fieldEntries
    (fun i f => (keepsPath_zero v depth .plain (w.node.child i f.ty)).agree) w.draft.first 0 fields
    w.opened rfl).2

theorem exists_depth_of_run_eq_ok {e : Expr} (h : (w.run v).1 = .ok e) : ∃ depth, w.depth = depth + 1 := by
  cases hdepth : w.depth with
  | zero =>
    rw [run, hdepth] at h
    cases h
  | succ depth => exact ⟨depth, rfl⟩

theorem run_of_struct {depth : Nat} (hty : w.node.ty = .struct fields) (hdepth : w.depth = depth + 1) :
    w.run v = literal w.style (structTypeAt v w.style · fields)
      (structEntries v w.node.place fields fun i f => zero v depth .plain (w.node.child i f.ty))
      w.draft := by
  rw [run, hdepth, zero_succ, zeroBy, hty]

/-- A struct that is open already comes to a literal without elements. -/
theorem run_of_mem_path {e : Expr} (hty : w.node.ty = .struct fields)
    (hplace : w.node.place ∈ w.draft.path) (h : (w.run v).1 = .ok e) :
    ∃ type?, e = .compositeLit type? w.draft.pos [] w.draft.pos := by
  obtain ⟨depth, hdepth⟩ := exists_depth_of_run_eq_ok h
  rw [run_of_struct hty hdepth, literal_apply (singleLine_structTypeAt v w.style fields)] at h
  simp only [structEntries, Filler.bind_apply, Filler.get_apply, if_pos hplace,
    Filler.pure_apply] at h
  split at h
  · cases h
  · cases h
    exact ⟨_, rfl⟩

/-- Any other struct comes to what its fields do, and is closed after them. -/
theorem run_of_notMem_path {depth : Nat} (hty : w.node.ty = .struct fields)
    (hdepth : w.depth = depth + 1) (hplace : w.node.place ∉ w.draft.path) :
    w.run v = literal w.style (structTypeAt v w.style · fields)
      (fun _ => ((w.runFields v depth fields).1,
        { (w.runFields v depth fields).2 with path := w.draft.path })) w.draft := by
  have hsingle := singleLine_structTypeAt v w.style fields
  have hpath := w.path_runFields v depth fields
  have hfields : structEntries v w.node.place fields
      (fun i f => zero v depth .plain (w.node.child i f.ty)) w.draft =
      ((w.runFields v depth fields).1, { (w.runFields v depth fields).2 with path := w.draft.path }) := by
    rw [structEntries_of_notMem hplace]
    exact Prod.ext rfl (congrArg (fun path => { (w.runFields v depth fields).2 with path })
      (congrArg List.tail hpath))
  rw [run_of_struct hty hdepth, literal_apply hsingle, literal_apply hsingle, hfields]

/-- Such a struct has an entry for every field that may be named and whose value can be written. -/
theorem exists_hasEntry_of_run_eq_ok {e : Expr} {f : Field} (hty : w.node.ty = .struct fields)
    (hplace : w.node.place ∉ w.draft.path) (h : (w.run v).1 = .ok e) (hf : f ∈ fields)
    (hdefault : f.IsDefaulted v) : ∃ value, e.HasEntry f.name value := by
  obtain ⟨depth, hdepth⟩ := exists_depth_of_run_eq_ok h
  rw [run, hdepth] at h
  obtain ⟨entries, -, hfollows⟩ := @follows_struct v depth w.style w.node fields hty w.draft hplace
  split at hfollows
  · next bare hbare =>
    rw [hfollows] at h
    cases h
    obtain ⟨type?, elts, -, hin, rfl⟩ := bareLiteral_eq_ok hbare
    rw [bareStructEntries, if_neg hplace] at hin
    obtain ⟨kept, hkept, rfl⟩ := gathered_of_bareEntries hin
    obtain ⟨value, hmem⟩ := hkept.exists_mem hf hdefault.1
      fun j hidden herr => not_renderable_of_bareZero herr hdefault.2
    exact ⟨value, hasEntry_layOut_iff.2 (hasEntry_compositeLit_iff.2 ⟨value, hmem, rfl⟩)⟩
  · obtain ⟨pos, lines, first, -, hfollows⟩ := hfollows
    rw [hfollows] at h
    cases h

/-- A struct makes a visit for its first field, unless the user wrote that one or it may not be named. -/
theorem makes_field {depth : Nat} {f : Field} {rest : List Field} {type? : Option Expr}
    (hty : w.node.ty = .struct (f :: rest)) (hdepth : w.depth = depth + 1)
    (htype : (w.style.bareType? (structTypeAt v w.style · (f :: rest))).outcome = .ok type?)
    (hplace : w.node.place ∉ w.draft.path)
    (hfresh : Entries.value? (if w.draft.first then w.draft.entries else []) f.name = none)
    (hvis : f.visibleFrom v.current = true) :
    w.Makes v ⟨depth, .plain, w.node.child 0 f.ty, { w.opened with pos := w.draft.pos + 1 }⟩ := by
  refine makes_of_error hdepth fun self e he h => ?_
  have hfields : (fieldEntries v (fun i f => self .plain (w.node.child i f.ty)) w.draft.first 0
      (f :: rest) w.opened).1 = .error e := by
    rw [fieldEntries, Filler.bind_of_ok (takeValue?_of_none (d := w.opened) hfresh)]
    simp only [hvis, if_true]
    exact Filler.fst_bind_of_error (fst_freshEntry_of_error he h)
  have hentries : (structEntries v w.node.place (f :: rest)
      (fun i f => self .plain (w.node.child i f.ty)) w.draft).1 = .error e := by
    rw [structEntries_of_notMem hplace]
    exact hfields
  rw [zeroBy, hty]
  exact fst_literal_of_error (singleLine_structTypeAt v w.style (f :: rest)) htype hentries

end Visit

/-- At every visit while a literal is being filled, the structs kept in mind are those around it, each of
them once, and so they are when the visit is over, with a value or without. So are they while the fields
of a struct are looked at. A struct inside of itself is not looked into: it comes to an empty literal and
makes no visit. One that is not has an entry for every field that can have a value, so that it is empty
only without such fields. -/
theorem openStructs_of_underWay {w : Visit} {around : List Visit}
    (h : UnderWay v lit ty omitType (w :: around)) :
    w.draft.path = openStructs around ∧ w.draft.path.Nodup ∧ (w.run v).2.path = w.draft.path ∧
    ∀ fields, w.node.ty = .struct fields →
      (w.node.place ∈ openStructs around → (∀ w', ¬w.Makes v w') ∧
        ∀ e, (w.run v).1 = .ok e → ∃ type?, e = .compositeLit type? w.draft.pos [] w.draft.pos) ∧
      (w.node.place ∉ openStructs around →
        (∀ depth, w.depth = depth + 1 →
          w.opened.path.Nodup ∧ (w.runFields v depth fields).2.path = w.opened.path ∧
          w.run v = literal w.style (structTypeAt v w.style · fields)
            (fun _ => ((w.runFields v depth fields).1,
              { (w.runFields v depth fields).2 with path := w.draft.path })) w.draft) ∧
        ∀ e, (w.run v).1 = .ok e → ∀ f ∈ fields, f.IsDefaulted v → ∃ value, e.HasEntry f.name value) ∧
      ∀ type? lbrace rbrace, (w.run v).1 = .ok (.compositeLit type? lbrace [] rbrace) →
        (∃ f ∈ fields, f.IsDefaulted v) → w.node.place ∈ openStructs around := by
  obtain ⟨hpath, hnodup⟩ := h.path_eq
  refine ⟨hpath, hnodup, w.path_run v, fun fields hty => ?_⟩
  rw [← hpath]
  have hstruct : w.node.ty.isStruct = true := by rw [hty]; rfl
  refine ⟨fun hplace => ⟨fun w' hmakes => hmakes.path_eq.1 hstruct hplace,
      fun e => Visit.run_of_mem_path hty hplace⟩,
    fun hplace => ⟨fun depth hdepth => ⟨List.nodup_cons.2 ⟨hplace, hnodup⟩, w.path_runFields v depth fields,
      Visit.run_of_notMem_path hty hdepth hplace⟩,
      fun e hok f => Visit.exists_hasEntry_of_run_eq_ok hty hplace hok⟩, ?_⟩
  rintro type? lbrace rbrace hok ⟨f, hf, hdefault⟩
  by_contra hplace
  obtain ⟨value, type?', elts, heq, hmem⟩ :=
    Visit.exists_hasEntry_of_run_eq_ok hty hplace hok hf hdefault
  cases heq
  cases hmem

/-- `type List struct { Next *List }` -/
def listField : Field := .declared "Next" (.pointer (.named 0)) ⟨"example.com/app", "main"⟩

def listView : Viewpoint :=
  let scope : Scope := ⟨"example.com/app", "main"⟩
  ⟨⟨#[.declared "List" scope (.struct [listField])]⟩, ⟨scope, []⟩⟩

/-- The list inside of a list, on the way from `List\x7b\x7d`. -/
def innerList : Visit :=
  ⟨1, ⟨some 0, false, true⟩, ⟨⟨some 0, []⟩, .struct [listField]⟩, ⟨2, 0, [], false, [⟨some 0, []⟩], []⟩⟩

theorem openStructs_of_underWay_list : ∃ around,
    UnderWay listView ⟨some (.name "List"), 0, [], 0⟩ (.named 0) false (innerList :: around) ∧
      innerList.draft.path = openStructs around ∧ innerList.node.place ∈ openStructs around ∧
      listField.IsDefaulted listView ∧
      (innerList.run listView).1 = .ok (.compositeLit (some (.ident "&List" 2)) 2 [] 2) ∧
      ∀ w, ¬innerList.Makes listView w := by
  let list : Node := ⟨⟨some 0, []⟩, .struct [listField]⟩
  let next : Node := ⟨⟨some 0, [0]⟩, .pointer (.named 0)⟩
  let inside : Draft := ⟨2, 0, [], false, [⟨some 0, []⟩], []⟩
  let root : Visit := ⟨5, ⟨none, false, false⟩, .root (.named 0), .start []⟩
  let outer : Visit := ⟨4, ⟨some 0, false, false⟩, list, .start []⟩
  let field : Visit := ⟨3, .plain, next, inside⟩
  let pointee : Visit := ⟨2, ⟨none, false, true⟩, next.child 0 (.named 0), inside⟩
  have hroot : root.Makes listView outer := Visit.makes_of_error rfl fun _ _ _ h => h
  have htype : (outer.style.bareType? (structTypeAt listView outer.style · [listField])).outcome =
      .ok (some (.ident "List" noPos)) := rfl
  have houter : outer.Makes listView field :=
    Visit.makes_field (w := outer) (f := listField) rfl rfl htype List.not_mem_nil rfl rfl
  have hfield : field.Makes listView pointee := Visit.makes_of_error rfl fun _ _ _ h => h
  have hpointee : pointee.Makes listView innerList := Visit.makes_of_error rfl fun _ _ _ h => h
  have h : UnderWay listView ⟨some (.name "List"), 0, [], 0⟩ (.named 0) false
      [innerList, pointee, field, outer, root] :=
    .inner (.inner (.inner (.inner (.outermost ⟨rfl, rfl, rfl, rfl, rfl⟩) hroot) houter) hfield) hpointee
  obtain ⟨hpath, -, -, hstruct⟩ := openStructs_of_underWay h
  have hplace : innerList.node.place ∈ openStructs [pointee, field, outer, root] := by decide
  have htarget : listView.table.underlyingNode (.root (.named 0)) = .ok list := rfl
  have hdefault : listField.IsDefaulted listView :=
    ⟨rfl, .structPointer rfl rfl (.named htarget (.struct (.inr ⟨"List", rfl⟩)))⟩
  exact ⟨_, h, hpath, hplace, hdefault, rfl, ((hstruct _ rfl).1 hplace).1⟩

end LiteralFill
