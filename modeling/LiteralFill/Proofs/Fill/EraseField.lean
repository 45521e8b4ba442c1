import LiteralFill.Proofs.Fill.Written
import LiteralFill.Proofs.TypeName.Agree
import LiteralFill.Proofs.TypeTable.EraseField

namespace LiteralFill

/-- The view in which the struct declared as `home` lacks its field number `k`. -/
def Viewpoint.eraseField (v : Viewpoint) (home k : Nat) : Viewpoint :=
  { v with table := v.table.eraseField home k }

namespace Viewpoint

variable (v : Viewpoint) (home k : Nat)

theorem spellsAs_eraseField : (v.eraseField home k).SpellsAs v where
  current := rfl
  decl decl := by
    have hget := v.table.get?_eraseField home k decl
    unfold spellDecl eraseField
    simp only [hget]
    cases v.table.get? decl with
    | none => rfl
    | some d =>
      simp only [Option.map_some]
      split <;> rfl

end Viewpoint

variable {v : Viewpoint} {home k : Nat}

theorem bareEntries_congr {v v' : Viewpoint} {valueOf valueOf' : Nat → Field → Attempt Expr}
    (hcurrent : v'.current = v.current) (entries : Entries) (i i' : Nat) (fields : List Field)
    (h : ∀ m f, valueOf' (i' + m) f = valueOf (i + m) f) :
    bareEntries v' valueOf' entries i' fields = bareEntries v valueOf entries i fields := by
  induction fields generalizing entries i i' with
  | nil => rfl
  | cons f rest ih =>
    have hrest (entries : Entries) :
        bareEntries v' valueOf' entries (i' + 1) rest = bareEntries v valueOf entries (i + 1) rest :=
      ih entries (i + 1) (i' + 1) fun m f => by
        rw [Nat.add_assoc, Nat.add_assoc]
        exact h (1 + m) f
    have hvalue : valueOf' i' f = valueOf i f := h 0 f
    simp only [bareEntries, hrest, hvalue, hcurrent]

section Simulation

variable (v home k)

theorem nameOf_eraseField (ty : Ty) : (v.eraseField home k).nameOf ty = v.nameOf ty := by
  rw [Viewpoint.nameOf, ty.spell_congr (v.spellsAs_eraseField home k), Viewpoint.nameOf]

theorem describe_eraseField (ty : Ty) : (v.eraseField home k).describe ty = v.describe ty := by
  rw [Viewpoint.describe, ty.spell_congr (v.spellsAs_eraseField home k), Viewpoint.describe]

theorem bind_underlying_eraseField {α : Type} (ty : Ty) (f : Bool → Attempt α) :
    (do
      let target ← .ofExcept (((v.eraseField home k).table.underlying ty).mapError .fault)
      f target.isStruct) = (do
      let target ← .ofExcept ((v.table.underlying ty).mapError .fault)
      f target.isStruct : Attempt α) := by
  have hstruct := v.table.isStruct_underlying_eraseField home k ty
  change ((v.eraseField home k).table.underlying ty).map _ = _ at hstruct
  cases h' : (v.eraseField home k).table.underlying ty with
  | error fault =>
    cases h : v.table.underlying ty with
    | error fault' => rw [h, h'] at hstruct; cases hstruct; rfl
    | ok target => rw [h, h'] at hstruct; cases hstruct
  | ok target' =>
    cases h : v.table.underlying ty with
    | error fault' => rw [h, h'] at hstruct; cases hstruct
    | ok target =>
      rw [h, h'] at hstruct
      have hstruct : target'.isStruct = target.isStruct := Except.ok.inj hstruct
      exact congrArg f hstruct

end Simulation

/-- Inside itself a struct is written without entries, so its fields do not matter there. -/
theorem bareZero_innerStruct {v : Viewpoint} {depth : Nat} {path : List Place} {style : Style}
    {node : Node} {fields : List Field} (hty : node.ty = .struct fields) (hplace : node.place ∈ path) :
    bareZero v (depth + 1) path style node =
      bareLiteral style (structTypeAt v style · fields) (pure []) := by
  rw [bareZero, hty]
  simp only [bareStructEntries, if_pos hplace]

/-- A definition that is a struct and is being written already comes to the same without one of its
fields. -/
theorem bareZero_eraseField_home {fields : List Field} {path path' : List Place} {style : Style}
    (hpath : ⟨some home, []⟩ ∈ path) (hpath' : ⟨some home, []⟩ ∈ path')
    (hstyle : style.decl?.isSome) (depth : Nat) :
    bareZero (v.eraseField home k) depth path style ⟨⟨some home, []⟩, .struct (fields.eraseIdx k)⟩ =
      bareZero v depth path' style ⟨⟨some home, []⟩, .struct fields⟩ := by
  obtain ⟨decl, hdecl⟩ := Option.isSome_iff_exists.1 hstyle
  cases depth with
  | zero => rfl
  | succ depth =>
    rw [bareZero_innerStruct rfl hpath, bareZero_innerStruct rfl hpath']
    simp only [structTypeAt, hdecl, Option.elim_some, nameOf_eraseField]

/-- Below the struct that loses a field, zero values are what they were. -/
theorem bareZero_eraseField {fields : List Field} (hhome : v.table.definition? home = some (.struct fields))
    (depth : Nat) {path : List Place} (hpath : ⟨some home, []⟩ ∈ path) (style : Style) {node : Node}
    (hnode : node.place ≠ ⟨some home, []⟩) :
    bareZero (v.eraseField home k) depth path style node =
      bareZero v depth (path.map (Place.restore home k)) style (node.restore home k) := by
  induction depth generalizing path style node with
  | zero => rfl
  | succ depth ih =>
    have hchild {path : List Place} (hpath : ⟨some home, []⟩ ∈ path) (style : Style) (i : Nat) (ty : Ty) :
        bareZero (v.eraseField home k) depth path style (node.child i ty) =
          bareZero v depth (path.map (Place.restore home k)) style ((node.restore home k).child i ty) := by
      rw [← Node.restore_child k hnode]
      exact ih hpath style (by simp [Node.child])
    rw [bareZero, bareZero]
    have hrestore : (node.restore home k).ty = node.ty := rfl
    rw [hrestore]
    cases hty : node.ty with
    | basic kind => rfl
    | chan _ _ | func _ | slice _ | interface _ => rfl
    | array len elem => simp only [hchild hpath, arrayTypeAt, nameOf_eraseField]
    | map key value => simp only [hchild hpath, mapTypeAt, nameOf_eraseField]
    | struct fields =>
      have hmem : (node.restore home k).place ∈ path.map (Place.restore home k) ↔ node.place ∈ path :=
        List.mem_map_of_injective (Place.restore_injective home k)
      simp only [bareStructEntries, hmem, structTypeAt, nameOf_eraseField]
      congr 1
      split
      · rfl
      · apply bareEntries_congr
        · rfl
        · exact fun m f => hchild (List.mem_cons_of_mem _ hpath) .plain (0 + m) f.ty
    | named decl =>
      have hnamed := v.table.underlyingNode_named_eraseField home k node hty
      have hnamed' : v.table.underlyingNode (node.restore home k) = v.table.underlyingNode node := by
        rw [v.table.underlyingNode_of_named (hrestore.trans hty), v.table.underlyingNode_of_named hty]
      simp only [hnamed', Viewpoint.eraseField, hnamed]
      cases htarget : v.table.underlyingNode node with
      | error fault => rfl
      | ok target =>
        have hstruct : (target.eraseField home k).ty.isStruct = target.ty.isStruct :=
          target.isStruct_ty_eraseField home k
        change bareZero (v.eraseField home k) depth path _ (target.eraseField home k) =
          bareZero v depth (path.map (Place.restore home k)) _ target
        rw [hstruct]
        obtain rfl | ⟨d, ty, hd, rfl⟩ := TypeTable.definition?_of_follow htarget
        · have hend := TypeTable.isNamed_of_follow htarget
          rw [hty] at hend
          cases hend
        · by_cases hdecl : d = home
          · subst hdecl
            obtain rfl := Option.some.inj (hd.symm.trans hhome)
            rw [Node.eraseField, if_pos rfl]
            exact bareZero_eraseField_home hpath (List.mem_map.2 ⟨_, hpath, Place.restore_root ..⟩) rfl depth
          · have hplace : (⟨some d, []⟩ : Place) ≠ ⟨some home, []⟩ := by simpa using hdecl
            rw [Node.eraseField, if_neg hplace, ih hpath _ hplace, Node.restore_root]
    | pointer elem =>
      simp only [hchild hpath]
      exact bind_underlying_eraseField v home k elem fun isStruct =>
        if isStruct then _ else _
    | tuple elems => simp only [describe_eraseField]

/-- What the field number `i` adds to a struct literal. -/
def bareEntry (v : Viewpoint) (valueOf : Nat → Field → Attempt Expr) (entries : Entries) (i : Nat)
    (f : Field) : Attempt (List Expr) :=
  match entries.value? f.name with
  | some value => pure [.entry f.name value]
  | none =>
    if f.visibleFrom v.current then do
      let value? ← (valueOf i f).orOmit f.name
      return (value?.map (Expr.entry f.name)).toList
    else pure []

section Entries

variable {v v' : Viewpoint} {valueOf valueOf' : Nat → Field → Attempt Expr} {entries : Entries} {i : Nat}
  {f : Field} {rest : List Field}

theorem bareEntries_cons : bareEntries v valueOf entries i (f :: rest) = (do
    let added ← bareEntry v valueOf entries i f
    return added ++ (← bareEntries v valueOf (entries.remove f.name) (i + 1) rest)) := by
  rw [bareEntries, bareEntry]
  cases hvalue : entries.value? f.name with
  | some value => rfl
  | none =>
    rw [Entries.remove_of_value?_eq_none hvalue]
    by_cases hvisible : f.visibleFrom v.current
    · simp only [hvisible, ↓reduceIte, bind_assoc, pure_bind]
    · simp only [hvisible, Bool.false_eq_true, ↓reduceIte, pure_bind, List.nil_append, bind_pure]

theorem bareEntries_cons_of_ok {added elts : List Expr} {omitted : List Omission}
    (hadded : (bareEntry v valueOf entries i f).outcome = .ok added)
    (hrest : bareEntries v valueOf (entries.remove f.name) (i + 1) rest = ⟨.ok elts, omitted⟩) :
    bareEntries v valueOf entries i (f :: rest) =
      ⟨.ok (added ++ elts), (bareEntry v valueOf entries i f).omitted ++ omitted⟩ := by
  rw [bareEntries_cons, Attempt.bind_of_ok hadded, hrest, Attempt.bind_of_ok rfl]
  simp only [Attempt.outcome_pure, Attempt.omitted_pure, List.append_nil]

theorem bareEntries_cons_eq_ok {elts : List Expr}
    (h : (bareEntries v valueOf entries i (f :: rest)).outcome = .ok elts) :
    ∃ added more, (bareEntry v valueOf entries i f).outcome = .ok added ∧
      (bareEntries v valueOf (entries.remove f.name) (i + 1) rest).outcome = .ok more ∧
      elts = added ++ more ∧
      (bareEntries v valueOf entries i (f :: rest)).omitted =
        (bareEntry v valueOf entries i f).omitted ++
          (bareEntries v valueOf (entries.remove f.name) (i + 1) rest).omitted := by
  rw [bareEntries_cons] at h
  obtain ⟨added, hadded, h⟩ := Attempt.bind_eq_ok h
  obtain ⟨more, hmore, h⟩ := Attempt.bind_eq_ok h
  cases h
  refine ⟨added, more, hadded, hmore, rfl, ?_⟩
  rw [bareEntries_cons_of_ok hadded (congrArg (Attempt.mk · _) hmore)]

/-- The entry of an earlier field does not depend on those after it. -/
theorem bareEntry_congr (hcurrent : v'.current = v.current) (hvalue : valueOf' i f = valueOf i f) :
    bareEntry v' valueOf' entries i f = bareEntry v valueOf entries i f := by
  rw [bareEntry, hcurrent, hvalue, bareEntry]

theorem bareEntry_of_not_ok {added : List Expr} (hvisible : f.visibleFrom v.current = true)
    (hunwritten : entries.value? f.name = none) (hvalue : ∀ e, (valueOf i f).outcome ≠ .ok e)
    (h : (bareEntry v valueOf entries i f).outcome = .ok added) :
    ∃ hidden, bareEntry v valueOf entries i f = ⟨.ok [], (valueOf i f).omitted ++ [⟨f.name, hidden⟩]⟩ := by
  rw [bareEntry, hunwritten] at h ⊢
  simp only [hvisible, ↓reduceIte] at h ⊢
  obtain ⟨value?, homit, -⟩ := Attempt.bind_eq_ok h
  obtain ⟨e, -, he⟩ | ⟨hidden, -, hhidden⟩ := Attempt.orOmit_eq_ok homit
  · exact absurd he (hvalue e)
  · refine ⟨hidden, ?_⟩
    have hnone : (valueOf i f).orOmit f.name = ⟨.ok none, (valueOf i f).omitted ++ [⟨f.name, hidden⟩]⟩ := by
      simp only [Attempt.orOmit, hhidden]
    rw [hnone, Attempt.bind_of_ok rfl]
    exact congrArg (Attempt.mk _) (List.append_nil _)

/-- A value that is not written leaves the struct literal as it is without the field, whatever was left
out on the way to the failure. -/
theorem bareEntries_eraseIdx (hcurrent : v'.current = v.current) {x : Field} {fields : List Field}
    {k : Nat} {elts : List Expr}
    (hx : fields[k]? = some x) (hvisible : x.visibleFrom v.current = true)
    (hunwritten : x.name ∈ (fields.take k).map (·.name) ∨ entries.value? x.name = none)
    (hvalue : ∀ e, (valueOf (i + k) x).outcome ≠ .ok e)
    (hskip : ∀ m f, valueOf' (i + m) f = valueOf (i + skip k m) f)
    (h : (bareEntries v valueOf entries i fields).outcome = .ok elts) :
    ∃ hidden before after,
      (bareEntries v valueOf entries i fields).omitted =
        before ++ (valueOf (i + k) x).omitted ++ ⟨x.name, hidden⟩ :: after ∧
      bareEntries v' valueOf' entries i (fields.eraseIdx k) = ⟨.ok elts, before ++ after⟩ := by
  induction fields generalizing entries i k elts with
  | nil => cases hx
  | cons f rest ih =>
    obtain ⟨added, more, hadded, hmore, rfl, homitted⟩ := bareEntries_cons_eq_ok h
    rw [homitted]
    cases k with
    | zero =>
      obtain rfl := Option.some.inj hx
      rw [Nat.add_zero] at hvalue ⊢
      have hnone : entries.value? f.name = none := hunwritten.resolve_left List.not_mem_nil
      obtain ⟨hidden, hentry⟩ := bareEntry_of_not_ok hvisible hnone hvalue hadded
      rw [hentry] at hadded ⊢
      cases hadded
      rw [Entries.remove_of_value?_eq_none hnone] at hmore ⊢
      refine ⟨hidden, [], (bareEntries v valueOf entries (i + 1) rest).omitted, by simp, ?_⟩
      -- the later fields move up by one, and so do their values
      have hrest : bareEntries v' valueOf' entries i rest = bareEntries v valueOf entries (i + 1) rest :=
        bareEntries_congr hcurrent entries (i + 1) i rest fun m g => by
          rw [hskip, skip, if_neg (Nat.not_lt_zero m), Nat.add_assoc, Nat.add_comm 1]
      rw [List.eraseIdx_zero, List.tail_cons, hrest]
      exact congrArg (Attempt.mk · _) hmore
    | succ k =>
      have hunwritten : x.name ∈ (rest.take k).map (·.name) ∨
          (entries.remove f.name).value? x.name = none := by
        by_cases hname : x.name = f.name
        · exact .inr (hname ▸ entries.value?_remove_self f.name)
        · rw [entries.value?_remove_of_ne hname]
          exact hunwritten.imp_left fun h => (List.mem_cons.1 h).resolve_left hname
      have hnumber : i + 1 + k = i + (k + 1) := Nat.add_right_comm i 1 k
      obtain ⟨hidden, before, after, hrest, herase⟩ := ih hx hunwritten (hnumber ▸ hvalue)
        (fun m g => by
          rw [Nat.add_assoc, hskip]
          unfold skip
          split <;> split <;> congr 1 <;> omega)
        hmore
      have hentry : bareEntry v' valueOf' entries i f = bareEntry v valueOf entries i f :=
        bareEntry_congr hcurrent (hskip 0 f)
      rw [hnumber] at hrest
      refine ⟨hidden, (bareEntry v valueOf entries i f).omitted ++ before, after, by simp [hrest], ?_⟩
      rw [List.eraseIdx_cons_succ, bareEntries_cons_of_ok (hentry ▸ hadded) herase, hentry,
        List.append_assoc]

end Entries

/-- A field of the outermost struct that could be named, but has no value: the user wrote none for it
and its zero value cannot be written. Of several fields of one name, only the first gets what the user
wrote. -/
structure LeftOut (v : Viewpoint) (lit : Literal) (fields : List Field) (k : Nat) (x : Field) : Prop where
  field : fields[k]? = some x
  visible : x.visibleFrom v.current = true
  unwritten : x.name ∈ (fields.take k).map (·.name) ∨ lit.written? fields x.name = none
  unrenderable : ¬Renderable v none false x.ty

/-- Elements with keys go to the same fields whichever number these have. -/
theorem Entries.ofElements_keyed {elts : List Expr}
    (h : ∀ e ∈ elts, ∃ key colon value, e = .keyValue key colon value) (fields fields' : List Field) :
    ofElements fields elts = ofElements fields' elts := by
  have hcongr (xs : List (Expr × Nat)) (hxs : ∀ x ∈ xs, x.1 ∈ elts) :
      (xs.mapM fun x => ofElement fields x.2 x.1) = xs.mapM fun x => ofElement fields' x.2 x.1 := by
    induction xs with
    | nil => rfl
    | cons x rest ih =>
      obtain ⟨hx, hrest⟩ := List.forall_mem_cons.1 hxs
      obtain ⟨key, colon, value, hkey⟩ := h x.1 hx
      have hsame : ofElement fields x.2 x.1 = ofElement fields' x.2 x.1 := by
        rw [hkey]
        cases key <;> rfl
      simp only [List.mapM_cons, hsame, ih hrest]
  exact hcongr elts.zipIdx fun x hx => List.fst_mem_of_mem_zipIdx hx

/-- Once its type is written, a literal leaves out what is left out between its braces. -/
theorem bareLiteral_of_ok {style : Style} {typeAt : Nat → Except FillError Expr}
    {inner : Attempt (List Expr)} {type? : Option Expr} {elts : List Expr}
    (htype : (style.bareType? typeAt).outcome = .ok type?) (hinner : inner.outcome = .ok elts) :
    bareLiteral style typeAt inner = ⟨.ok (.compositeLit type? noPos elts noPos), inner.omitted⟩ := by
  rw [bareLiteral, Attempt.bind_of_ok htype, Attempt.bind_of_ok hinner, omitted_bareType?]
  simp only [Attempt.outcome_pure, Attempt.omitted_pure, List.append_nil, List.nil_append]

theorem Fillable.definition?_eq {lit : Literal} {ty : Ty} {fields : List Field} {entries : Entries}
    (hf : Fillable v lit ty ⟨⟨some home, []⟩, .struct fields⟩ fields entries) :
    v.table.definition? home = some (.struct fields) := by
  obtain h | ⟨decl, ty, hdecl, h⟩ := TypeTable.definition?_of_follow hf.reaches
  · cases h
  · cases h
    exact hdecl

/-- The outermost literal is the one that it is without a field that is left out. -/
theorem bareOutermost_eraseField {depth decl : Nat} {lit : Literal} {omitType : Bool} {fields : List Field}
    {entries : Entries} {e : Expr} {x : Field}
    (hf : Fillable v lit (.named decl) ⟨⟨some home, []⟩, .struct fields⟩ fields entries)
    (hx : LeftOut v lit fields k x)
    (h : (bareOutermost v depth (.named decl) omitType ⟨⟨some home, []⟩, .struct fields⟩ fields
      entries).outcome = .ok e) :
    ∃ hidden before inner after,
      (bareOutermost v depth (.named decl) omitType ⟨⟨some home, []⟩, .struct fields⟩ fields
        entries).omitted = before ++ inner ++ ⟨x.name, hidden⟩ :: after ∧
      bareOutermost (v.eraseField home k) depth (.named decl) omitType
        ⟨⟨some home, []⟩, .struct (fields.eraseIdx k)⟩ (fields.eraseIdx k) entries =
          ⟨.ok e, before ++ after⟩ := by
  have hskip (i : Nat) (f : Field) :
      bareZero (v.eraseField home k) depth [⟨some home, []⟩] .plain
          (Node.child ⟨⟨some home, []⟩, .struct (fields.eraseIdx k)⟩ i f.ty) =
        bareZero v depth [⟨some home, []⟩] .plain
          (Node.child ⟨⟨some home, []⟩, .struct fields⟩ (skip k i) f.ty) := by
    rw [bareZero_eraseField hf.definition?_eq depth List.mem_cons_self .plain (by simp [Node.child]),
      Node.restore_child_root home k i _ f.ty (.struct fields), List.map_singleton, Place.restore_root]
  unfold bareOutermost at h ⊢
  obtain ⟨type?, elts, htype, hinner, rfl⟩ := bareLiteral_eq_ok h
  -- the type before the braces is a declared name, whatever the fields
  have htype' : (Style.bareType? ⟨some decl, omitType, false⟩
      (structTypeAt (v.eraseField home k) ⟨some decl, omitType, false⟩ · (fields.eraseIdx k))).outcome =
        .ok type? := by
    simp only [structTypeAt, Option.elim_some, nameOf_eraseField]
    exact htype
  rw [bareLiteral_of_ok htype hinner]
  have hinside : (⟨some home, []⟩ : Place) ∉ [] := List.not_mem_nil
  simp only [bareStructEntries, if_neg hinside, hskip] at hinner ⊢
  have hcurrent : (v.eraseField home k).current = v.current := rfl
  have hunwritten := hx.unwritten.imp_right (Literal.written?_eq hf.written x.name).symm.trans
  obtain ⟨hidden, before, after, homitted, herase⟩ :=
    bareEntries_eraseIdx hcurrent hx.field hx.visible hunwritten
      (fun e he => hx.unrenderable (isZero_of_bareZero he).2)
      (fun m f => by rw [Nat.zero_add, Nat.zero_add]) hinner
  refine ⟨hidden, before, _, after, homitted, ?_⟩
  rw [herase]
  exact bareLiteral_of_ok htype' rfl

/-- A field that is left out of the filled literal leaves no trace in it, whatever its value had come to
before it failed: the literal is laid out as it is for the struct without the field. What was left out
inside that value goes with it. -/
theorem fill_eraseField {depth : Nat} {lit : Literal} {decl : Nat} {omitType : Bool} {fields : List Field}
    {x : Field} {filled : Filled}
    (hdecl : v.table.underlyingNode (.root (.named decl)) = .ok ⟨⟨some home, []⟩, .struct fields⟩)
    (hkeyed : ∀ e ∈ lit.elts, ∃ key colon value, e = .keyValue key colon value)
    (hx : LeftOut v lit fields k x) (h : fill depth v lit (.named decl) omitType = .ok filled) :
    ∃ filled', fill depth (v.eraseField home k) lit (.named decl) omitType = .ok filled' ∧
      filled'.expr = filled.expr ∧ filled'.lines = filled.lines ∧
      ∃ hidden before inner after,
        filled.omitted = before ++ inner ++ ⟨x.name, hidden⟩ :: after ∧
        filled'.omitted = before ++ after := by
  obtain ⟨target, fields', entries, hf⟩ := fillable_of_fill_eq_ok h
  obtain rfl := Except.ok.inj (hf.reaches.symm.trans hdecl)
  obtain rfl := Ty.struct.inj hf.is_struct
  obtain ⟨n, e, rfl, he, -, -⟩ := hf.of_fill_eq_ok h
  obtain ⟨hidden, before, inner, after, homitted, herase⟩ := bareOutermost_eraseField hf hx he
  have hreaches := v.table.underlyingNode_named_eraseField home k (.root (.named decl)) rfl
  have hf' : Fillable (v.eraseField home k) lit (.named decl)
      ⟨⟨some home, []⟩, .struct (fields.eraseIdx k)⟩ (fields.eraseIdx k) entries := {
    table_valid := TypeTable.validate_eraseField hf.table_valid
    type_valid := by
      rw [TypeTable.validateType_eq_ok_iff]
      exact TypeTable.hasRefs_eraseField_iff.2 (TypeTable.validateType_eq_ok_iff.1 hf.type_valid)
    reaches := by
      refine hreaches.trans ?_
      rw [hdecl]
      simp only [Except.map, Node.eraseField, if_pos, Ty.eraseField]
    is_struct := rfl
    written := (Entries.ofElements_keyed hkeyed _ _).trans hf.written }
  rw [fill_eq hf, he, homitted] at h
  cases h
  exact ⟨⟨e.layOut 1, e.lineCount, before ++ after⟩, by rw [fill_eq hf', herase]; rfl, rfl, rfl,
    hidden, before, inner, after, rfl, rfl⟩

/-- A field of a map of maps. Its keys are structs that have a field left out themselves, and the type of
its values can be named while that of theirs cannot. -/
def mapOfMaps : Field := .declared "X" (.map (.named 1) (.named 2)) ⟨"example.com/app", "app"⟩

/-- A struct in which it stands between two other fields. -/
def aroundMap : List Field :=
  let app : Scope := ⟨"example.com/app", "app"⟩
  [.declared "A" (.basic .int) app, mapOfMaps, .declared "B" (.basic .bool) app]

def hiddenInMap : Viewpoint :=
  let app : Scope := ⟨"example.com/app", "app"⟩
  ⟨⟨#[.declared "T" app (.struct aroundMap),
    .declared "Key" app (.struct [.declared "N" (.basic .int) app, .declared "H" (.named 3) app]),
    .declared "Secrets" app (.map (.basic .string) (.named 3)),
    .declared "secret" ⟨"example.com/lib", "lib"⟩ (.struct [])]⟩, ⟨app, []⟩⟩

/-- A key has been written when the value after it fails, and what follows the field is laid out as if
there had been none. -/
theorem fill_eraseField_hiddenInMap :
    let lit : Literal := ⟨none, 0, [.keyValue (.ident "A" 0) 0 (.ident "x" 0)], 0⟩
    ∃ filled filled',
      fill 8 hiddenInMap lit (.named 0) false = .ok filled ∧
      filled.omitted = [⟨"H", "lib.secret"⟩, ⟨"X", "lib.secret"⟩] ∧
      fill 8 (hiddenInMap.eraseField 0 1) lit (.named 0) false = .ok filled' ∧
      filled'.expr = filled.expr ∧ filled'.lines = filled.lines := by
  intro lit
  have hok : (fill 8 hiddenInMap lit (.named 0) false).map (·.omitted) =
      .ok [⟨"H", "lib.secret"⟩, ⟨"X", "lib.secret"⟩] := by decide +kernel
  cases h : fill 8 hiddenInMap lit (.named 0) false with
  | error e => rw [h] at hok; cases hok
  | ok filled =>
    rw [h] at hok
    have hvalue : (bareZero hiddenInMap 5 [] .plain (.root (.map (.named 1) (.named 2)))).outcome =
        .error (.unrenderable "lib.secret") := by rfl
    have hx : LeftOut hiddenInMap lit aroundMap 1 mapOfMaps :=
      { field := rfl
        visible := rfl
        unwritten := .inr rfl
        unrenderable := not_renderable_of_bareZero hvalue }
    obtain ⟨filled', h', hexpr, hlines, -⟩ := fill_eraseField rfl (by simp [lit]) hx h
    exact ⟨filled, filled', rfl, Except.ok.inj hok, h', hexpr, hlines⟩

end LiteralFill
