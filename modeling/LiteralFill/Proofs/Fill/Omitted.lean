import LiteralFill.Proofs.Fill.Gaps
import LiteralFill.Proofs.Fill.Written

namespace LiteralFill

/-- An attempt leaves out what its result lacks, or what came before it failed for a hidden name. -/
structure Attempt.Records {α : Type} (x : Attempt α) (lacks : α → List Gap → Prop)
    (fails : String → List Omission → Prop) : Prop where
  of_ok {a : α} : x.outcome = .ok a → ∃ gaps, lacks a gaps ∧ x.omitted = reports gaps
  of_hidden {hidden : String} : x.outcome = .error (.unrenderable hidden) → fails hidden x.omitted

namespace Attempt

variable {α β : Type} {x : Attempt α} {lacks : α → List Gap → Prop}
  {fails : String → List Omission → Prop}

theorem Records.imp {lacks' : α → List Gap → Prop} {fails' : String → List Omission → Prop}
    (h : x.Records lacks fails) (hok : ∀ a gaps, lacks a gaps → lacks' a gaps)
    (hhidden : ∀ hidden inside, fails hidden inside → fails' hidden inside) : x.Records lacks' fails' where
  of_ok ha := by
    obtain ⟨gaps, hgaps, homitted⟩ := h.of_ok ha
    exact ⟨gaps, hok _ gaps hgaps, homitted⟩
  of_hidden hx := hhidden _ _ (h.of_hidden hx)

theorem records_pure {a : α} (h : lacks a []) : (pure a : Attempt α).Records lacks fails where
  of_ok ha := by
    cases ha
    exact ⟨[], h, rfl⟩
  of_hidden hx := by cases hx

theorem records_error {e : FillError} (he : ∀ hidden, e ≠ .unrenderable hidden) :
    (ofExcept (.error e) : Attempt α).Records lacks fails where
  of_ok ha := by cases ha
  of_hidden {hidden} hx := absurd (Except.error.inj hx) (he hidden)

/-- What comes first is put on record first, also if the next step fails. -/
theorem Records.bind {f : α → Attempt β} {lacks' : α → β → List Gap → Prop}
    {fails' : α → String → List Omission → Prop} (hx : x.Records lacks fails)
    (hf : ∀ a, (f a).Records (lacks' a) (fails' a)) :
    (x >>= f).Records
      (fun b gaps => ∃ a gaps₁ gaps₂, lacks a gaps₁ ∧ lacks' a b gaps₂ ∧ gaps = gaps₁ ++ gaps₂)
      (fun hidden inside => fails hidden inside ∨
        ∃ a gaps inside', lacks a gaps ∧ fails' a hidden inside' ∧ inside = reports gaps ++ inside') where
  of_ok {b} h := by
    obtain ⟨a, ha, hb⟩ := Attempt.bind_eq_ok h
    obtain ⟨gaps₁, h₁, homitted₁⟩ := hx.of_ok ha
    obtain ⟨gaps₂, h₂, homitted₂⟩ := (hf a).of_ok hb
    refine ⟨gaps₁ ++ gaps₂, ⟨a, gaps₁, gaps₂, h₁, h₂, rfl⟩, ?_⟩
    rw [bind_of_ok ha, reports_append, ← homitted₁, ← homitted₂]
  of_hidden {hidden} h := by
    rcases Attempt.bind_eq_error_iff.1 h with hfirst | ⟨a, ha, hsecond⟩
    · rw [bind_of_error hfirst]
      exact .inl (hx.of_hidden hfirst)
    · obtain ⟨gaps, hgaps, homitted⟩ := hx.of_ok ha
      rw [bind_of_ok ha, homitted]
      exact .inr ⟨a, gaps, _, hgaps, (hf a).of_hidden hsecond, rfl⟩

theorem Records.map (h : x.Records lacks fails) (g : α → β) :
    (x >>= fun a => pure (g a)).Records (fun b gaps => ∃ a, b = g a ∧ lacks a gaps) fails := by
  have hpure (a : α) : (pure (g a) : Attempt β).Records (fun b gaps => b = g a ∧ gaps = [])
      (fun _ _ => False) := records_pure ⟨rfl, rfl⟩
  refine (h.bind hpure).imp ?_ ?_
  · rintro b gaps ⟨a, gaps₁, gaps₂, hgaps, ⟨rfl, rfl⟩, rfl⟩
    exact ⟨a, rfl, by rwa [List.append_nil]⟩
  · rintro hidden inside (hfails | ⟨a, gaps, inside', -, hfalse, -⟩)
    · exact hfails
    · exact hfalse.elim

/-- A field that is left out is a gap, with what its value had left out before. -/
theorem Records.orOmit (h : x.Records lacks fails) (field : String) :
    (x.orOmit field).Records
      (fun a? gaps => (∃ a, a? = some a ∧ lacks a gaps) ∨
        ∃ hidden inside, a? = none ∧ fails hidden inside ∧ gaps = [⟨⟨field, hidden⟩, inside⟩])
      (fun _ _ => False) where
  of_ok {a?} ha := by
    rcases orOmit_eq_ok ha with ⟨a, rfl, hx⟩ | ⟨hidden, rfl, hx⟩
    · obtain ⟨gaps, hgaps, homitted⟩ := h.of_ok hx
      exact ⟨gaps, .inl ⟨a, rfl, hgaps⟩, by simp only [Attempt.orOmit, hx, homitted]⟩
    · refine ⟨_, .inr ⟨hidden, _, rfl, h.of_hidden hx, rfl⟩, ?_⟩
      simp only [Attempt.orOmit, hx, reports, List.flatMap_cons, List.flatMap_nil, List.append_nil]
  of_hidden hx := (orOmit_eq_error_iff.1 hx).2 _ rfl

end Attempt

section Bare

variable {v : Viewpoint} {path : List Place} {node : Node} {fails : String → List Omission → Prop}

theorem records_bareLiteral {style : Style} {typeAt : Nat → Except FillError Expr}
    {inner : Attempt (List Expr)} {lacks : List Expr → List Gap → Prop} (h : inner.Records lacks fails) :
    (bareLiteral style typeAt inner).Records
      (fun e gaps => ∃ type? elts, (style.bareType? typeAt).outcome = .ok type? ∧
        e = .compositeLit type? noPos elts noPos ∧ lacks elts gaps)
      (fun hidden inside =>
        ((style.bareType? typeAt).outcome = .error (.unrenderable hidden) ∧ inside = []) ∨
          ∃ type?, (style.bareType? typeAt).outcome = .ok type? ∧ fails hidden inside) := by
  have hnone : (style.bareType? typeAt).omitted = [] := by
    unfold Style.bareType?
    split <;> rfl
  have htype : (style.bareType? typeAt).Records
      (fun type? gaps => (style.bareType? typeAt).outcome = .ok type? ∧ gaps = [])
      (fun hidden inside =>
        (style.bareType? typeAt).outcome = .error (.unrenderable hidden) ∧ inside = []) :=
    ⟨fun ha => ⟨[], ⟨ha, rfl⟩, hnone⟩, fun hx => ⟨hx, hnone⟩⟩
  refine (htype.bind fun type? => h.map fun elts => Expr.compositeLit type? noPos elts noPos).imp ?_ ?_
  · rintro e gaps ⟨type?, _, gaps₂, ⟨htype, rfl⟩, ⟨elts, rfl, helts⟩, rfl⟩
    exact ⟨type?, elts, htype, rfl, helts⟩
  · rintro hidden inside (hfirst | ⟨type?, _, inside', ⟨htype, rfl⟩, hinner, rfl⟩)
    · exact .inl hfirst
    · exact .inr ⟨type?, htype, hinner⟩

theorem exists_elementsLack_of_copies {x : Attempt Expr}
    (h : x.Records (Lacks v path .elidedType node) fails) {n : Nat} {elts : List Expr}
    (helts : (x.copies n).outcome = .ok elts) :
    ∃ gaps, ElementsLack v path node elts gaps ∧ (x.copies n).omitted = reports gaps := by
  induction n generalizing elts with
  | zero =>
    cases helts
    exact ⟨[], .nil, rfl⟩
  | succ n ih =>
    obtain ⟨e, he, helts⟩ := Attempt.bind_eq_ok helts
    obtain ⟨rest, hrest, helts⟩ := Attempt.bind_eq_ok helts
    cases helts
    obtain ⟨gaps, hgaps, homitted⟩ := h.of_ok he
    obtain ⟨gaps', hgaps', homitted'⟩ := ih hrest
    refine ⟨gaps ++ gaps', .cons hgaps hgaps', ?_⟩
    rw [Attempt.copies, Attempt.bind_of_ok he, Attempt.bind_of_ok hrest, reports_append, homitted,
      homitted']
    exact congrArg _ (List.append_nil _)

/-- All elements of an array have the same gaps, and if they cannot be written the first one fails. -/
theorem records_copies {x : Attempt Expr} (h : x.Records (Lacks v path .elidedType node) fails)
    (n : Nat) :
    (x.copies n).Records (fun elts gaps => elts.length = n ∧ ElementsLack v path node elts gaps)
      (fun hidden inside => 0 < n ∧ fails hidden inside) where
  of_ok helts := by
    obtain ⟨gaps, hgaps, homitted⟩ := exists_elementsLack_of_copies h helts
    exact ⟨gaps, ⟨(Attempt.copies_eq_ok helts).1, hgaps⟩, homitted⟩
  of_hidden {hidden} hx := by
    obtain ⟨hpos, hfirst⟩ := Attempt.copies_eq_error_iff.1 hx
    obtain ⟨n, rfl⟩ := Nat.exists_eq_add_one_of_ne_zero (Nat.ne_of_gt hpos)
    rw [Attempt.copies, Attempt.bind_of_error hfirst]
    exact ⟨hpos, h.of_hidden hfirst⟩

theorem Entries.value?_remove (entries : Entries) (field : String) :
    (entries.remove field).value? = Function.update entries.value? field none := by
  funext other
  by_cases h : other = field
  · rw [h, value?_remove_self, Function.update_self]
  · rw [value?_remove_of_ne entries h, Function.update_of_ne h]

/-- A struct is never given up for the types of its fields. -/
theorem records_bareEntries {valueOf : Nat → Field → Attempt Expr}
    (h : ∀ i f, (valueOf i f).Records (Lacks v path .plain (node.child i f.ty))
      (NotSpelled v path .plain (node.child i f.ty)))
    (entries : Entries) (i : Nat) (fields : List Field) :
    (bareEntries v valueOf entries i fields).Records (FieldsLack v path node entries.value? i fields)
      (fun _ _ => False) := by
  induction fields generalizing entries i with
  | nil => exact Attempt.records_pure .nil
  | cons f rest ih =>
    rw [bareEntries]
    cases hval : entries.value? f.name with
    | some value =>
      refine ((ih (entries.remove f.name) (i + 1)).map (.entry f.name value :: ·)).imp ?_ fun _ _ => id
      rintro _ gaps ⟨elts, rfl, helts⟩
      rw [Entries.value?_remove] at helts
      exact .written hval helts
    | none =>
      dsimp only
      split
      · rename_i hvis
        refine (((h i f).orOmit f.name).bind fun value? =>
          (ih entries (i + 1)).map ((value?.map (Expr.entry f.name)).toList ++ ·)).imp ?_ ?_
        · rintro _ gaps ⟨value?, gaps₁, gaps₂, hvalue, ⟨elts, rfl, helts⟩, rfl⟩
          rcases hvalue with ⟨value, rfl, hlacks⟩ | ⟨hidden, inside, rfl, hfails, rfl⟩
          · exact .filled hval hvis hlacks helts
          · exact .missing hval hvis hfails helts
        · rintro hidden inside (hfalse | ⟨_, _, _, -, hfalse, -⟩) <;> exact hfalse
      · rename_i hvis
        exact (ih entries (i + 1)).imp (fun elts gaps => .unseen hval (Bool.eq_false_iff.2 hvis))
          fun _ _ => id

theorem records_bareStructEntries {valueOf : Nat → Field → Attempt Expr}
    (h : ∀ i f, (valueOf i f).Records (Lacks v (node.place :: path) .plain (node.child i f.ty))
      (NotSpelled v (node.place :: path) .plain (node.child i f.ty)))
    (entries : Entries) (fields : List Field) :
    (bareStructEntries v path node.place entries fields valueOf).Records
      (fun elts gaps => (node.place ∈ path ∧ elts = [] ∧ gaps = []) ∨
        (node.place ∉ path ∧
          FieldsLack v (node.place :: path) node entries.value? 0 fields elts gaps))
      (fun _ _ => False) := by
  rw [bareStructEntries]
  split
  · rename_i hmem
    exact Attempt.records_pure (.inl ⟨hmem, rfl, rfl⟩)
  · rename_i hmem
    exact (records_bareEntries h entries 0 fields).imp (fun elts gaps hgaps => .inr ⟨hmem, hgaps⟩)
      fun _ _ => id

theorem records_bareMapEntry {keyZero valueZero : Attempt Expr} {lacks lacks' : Expr → List Gap → Prop}
    {fails' : String → List Omission → Prop} (hkey : keyZero.Records lacks fails)
    (hvalue : valueZero.Records lacks' fails') :
    (bareMapEntry keyZero valueZero).Records
      (fun elts gaps => ∃ k e gaps₁ gaps₂, elts = [.keyValue k noPos e] ∧ lacks k gaps₁ ∧
        lacks' e gaps₂ ∧ gaps = gaps₁ ++ gaps₂)
      (fun hidden inside => fails hidden inside ∨
        ∃ k gaps inside', lacks k gaps ∧ fails' hidden inside' ∧ inside = reports gaps ++ inside') := by
  refine (hkey.bind fun k => hvalue.map fun e => [Expr.keyValue k noPos e]).imp ?_ fun _ _ => id
  rintro elts gaps ⟨k, gaps₁, gaps₂, hk, ⟨e, rfl, he⟩, rfl⟩
  exact ⟨k, e, gaps₁, gaps₂, rfl, hk, he, rfl⟩

/-- A step that follows a type does so before anything is written. -/
theorem records_lookup {γ : Type} {r : Except Fault γ} {f : γ → Attempt Expr}
    {lacks : Expr → List Gap → Prop} (h : ∀ a, r = .ok a → (f a).Records lacks fails) :
    (Attempt.ofExcept (r.mapError .fault) >>= f).Records lacks fails := by
  cases r with
  | error fault => exact Attempt.records_error fun _ => FillError.noConfusion
  | ok a => exact h a rfl

theorem Viewpoint.describe_ne_unrenderable (v : Viewpoint) (ty : Ty) (hidden : String) :
    v.describe ty ≠ .error (.unrenderable hidden) := by
  unfold describe
  split <;> nofun

theorem records_bareZero (v : Viewpoint) (depth : Nat) (path : List Place) (style : Style) (node : Node) :
    (bareZero v depth path style node).Records (Lacks v path style node)
      (NotSpelled v path style node) := by
  induction depth generalizing path style node with
  | zero => exact Attempt.records_error fun _ => FillError.noConfusion
  | succ depth ih =>
    unfold bareZero
    cases hty : node.ty with
    | basic kind =>
      refine ⟨fun he => ⟨[], .basic hty (bareBasic_eq_ok_iff.1 he), ?_⟩, fun hx => ?_⟩
      · rfl
      · cases eq_of_bareBasic_eq_error hx
    | chan _ _ | func _ | slice _ | interface _ =>
      exact Attempt.records_pure (.nil (by rw [hty]; rfl))
    | array len elem =>
      refine (records_bareLiteral (records_copies (ih path .elidedType (node.child 0 elem)) len)).imp ?_ ?_
      · rintro _ gaps ⟨type?, elts, htype, rfl, hlength, helts⟩
        exact .array hty htype hlength helts
      · rintro hidden inside (⟨htype, rfl⟩ | ⟨type?, htype, hpos, helem⟩)
        · exact .arrayType hty htype
        · exact .arrayElement hty htype hpos helem
    | map key value =>
      refine (records_bareLiteral (records_bareMapEntry (ih path .elidedType (node.child 0 key))
        (ih path .elidedType (node.child 1 value)))).imp ?_ ?_
      · rintro _ gaps ⟨type?, _, htype, rfl, k, e, gaps₁, gaps₂, rfl, hk, he, rfl⟩
        exact .map hty htype hk he
      · rintro hidden inside (⟨htype, rfl⟩ | ⟨type?, htype, hkey | ⟨k, gaps, inside', hk, hvalue, rfl⟩⟩)
        · exact .mapType hty htype
        · exact .mapKey hty htype hkey
        · exact .mapValue hty htype hk hvalue
    | struct fields =>
      refine (records_bareLiteral (records_bareStructEntries
        (fun i f => ih (node.place :: path) .plain (node.child i f.ty)) [] fields)).imp ?_ ?_
      · rintro _ gaps ⟨type?, elts, htype, rfl, ⟨hmem, rfl, rfl⟩ | ⟨hmem, helts⟩⟩
        · exact .innerStruct hty htype hmem
        · exact .struct hty htype hmem helts
      · rintro hidden inside (⟨htype, rfl⟩ | ⟨_, -, hfalse⟩)
        · exact .structType hty htype
        · exact hfalse.elim
    | named decl =>
      refine records_lookup fun target htarget => (ih path _ target).imp ?_ ?_
      · exact fun e gaps => .named hty htarget
      · exact fun hidden inside => .named hty htarget
    | pointer elem =>
      refine records_lookup fun target htarget => ?_
      split
      · rename_i hstruct
        refine (ih path _ (node.child 0 elem)).imp ?_ ?_
        · exact fun e gaps => .structPointer hty htarget hstruct
        · exact fun hidden inside => .structPointer hty htarget hstruct
      · rename_i hstruct
        exact Attempt.records_pure (.pointer hty htarget (Bool.eq_false_iff.2 hstruct))
    | tuple elems =>
      dsimp only
      cases hname : v.describe (.tuple elems) with
      | ok name => exact Attempt.records_error fun _ => FillError.noConfusion
      | error e =>
        refine Attempt.records_error fun hidden heq => ?_
        exact v.describe_ne_unrenderable (.tuple elems) hidden (heq ▸ hname)

end Bare

/-- What filling puts on record goes by the gaps of its result: the fields that are missing from a struct
literal in it though they may be named and nothing is written for them, in the order of the literals, each
with the name that its own value would need. A literal that is cut off for being inside itself has none.
In front of a gap stands what its value had left out before it failed, which is in no literal of the
result, so that the record is the list of the gaps exactly if no value that failed had left anything out. -/
theorem omitted_fill {depth : Nat} {v : Viewpoint} {lit : Literal} {ty : Ty} {omitType : Bool}
    {filled : Filled} (h : fill depth v lit ty omitType = .ok filled) :
    ∃ target fields type? elts gaps, v.table.underlyingNode (.root ty) = .ok target ∧
      target.ty = .struct fields ∧
      filled.expr.unplaced = (Expr.compositeLit type? noPos elts noPos).unplaced ∧
      FieldsLack v [target.place] target (lit.written? fields) 0 fields elts gaps ∧
      (∀ elts' gaps', FieldsLack v [target.place] target (lit.written? fields) 0 fields elts' gaps' →
        elts' = elts ∧ gaps' = gaps) ∧
      filled.omitted = reports gaps ∧
      (filled.omitted = gaps.map (·.omission) ↔ ∀ g ∈ gaps, g.inside = []) := by
  obtain ⟨target, fields, entries, hf⟩ := fillable_of_fill_eq_ok h
  obtain ⟨n, e, rfl, he, hexpr, -⟩ := hf.of_fill_eq_ok h
  have homitted : filled.omitted = (bareOutermost v n ty omitType target fields entries).omitted := by
    rw [fill_eq hf, he] at h
    cases h
    rfl
  have hrecords : (bareOutermost v n ty omitType target fields entries).Records _ _ :=
    records_bareLiteral (records_bareStructEntries
      (fun i f => records_bareZero v n [target.place] .plain (target.child i f.ty)) entries fields)
  obtain ⟨gaps, ⟨type?, elts, -, rfl, hgaps⟩, hreports⟩ := hrecords.of_ok he
  have hlacks : FieldsLack v [target.place] target entries.value? 0 fields elts gaps := by
    rcases hgaps with ⟨hmem, -⟩ | ⟨-, hlacks⟩
    · cases hmem
    · exact hlacks
  have hwritten : lit.written? fields = entries.value? := funext (Literal.written?_eq hf.written)
  rw [← hwritten] at hlacks
  have heq : filled.omitted = reports gaps := homitted.trans hreports
  refine ⟨target, fields, type?, elts, gaps, hf.reaches, hf.is_struct, ?_, hlacks,
    fun elts' gaps' hlacks' => hlacks'.unique hlacks, heq, ?_⟩
  · rw [hexpr, Expr.unplaced_layOut]
  · rw [heq, reports_eq_map_iff]

def libScope : Scope := ⟨"example.com/lib", "lib"⟩

/-- A struct `T` of these fields in a package that uses another one, which declares
`type Key struct { H secret }`, `type Secrets map[string]secret` and `type secret struct{}`. -/
def outsideLib (fields : List Field) : Viewpoint :=
  let app : Scope := ⟨"example.com/app", "app"⟩
  ⟨⟨#[.declared "T" app (.struct fields),
    .declared "Key" libScope (.struct [.declared "H" (.named 3) libScope]),
    .declared "Secrets" libScope (.map (.basic .string) (.named 3)),
    .declared "secret" libScope (.struct [])]⟩, ⟨app, []⟩⟩

/-- The empty literal `T{}`. -/
def bracesOfT : Literal := ⟨some (.name "T"), 0, [], 0⟩

/-- `T{K: lib.Key{}}` lacks a field of either literal. -/
theorem omitted_fill_nested :
    let app : Scope := ⟨"example.com/app", "app"⟩
    let v := outsideLib [.declared "S" (.named 3) app, .declared "K" (.named 1) app]
    ∃ filled, fill 8 v bracesOfT (.named 0) false = .ok filled ∧
      filled.omitted = [⟨"S", "lib.secret"⟩, ⟨"H", "lib.secret"⟩] ∧
      ∃ target fields type? elts gaps, v.table.underlyingNode (.root (.named 0)) = .ok target ∧
        target.ty = .struct fields ∧
        filled.expr.unplaced = (Expr.compositeLit type? noPos elts noPos).unplaced ∧
        FieldsLack v [target.place] target (bracesOfT.written? fields) 0 fields elts gaps ∧
        filled.omitted = reports gaps := by
  intro app v
  have hok : (fill 8 v bracesOfT (.named 0) false).map (·.omitted) =
      .ok [⟨"S", "lib.secret"⟩, ⟨"H", "lib.secret"⟩] := by decide +kernel
  cases h : fill 8 v bracesOfT (.named 0) false with
  | error e => rw [h] at hok; cases hok
  | ok filled =>
    rw [h] at hok
    obtain ⟨target, fields, type?, elts, gaps, htarget, hstruct, hexpr, hlacks, -, homitted, -⟩ :=
      omitted_fill h
    exact ⟨filled, rfl, Except.ok.inj hok, target, fields, type?, elts, gaps, htarget, hstruct, hexpr,
      hlacks, homitted⟩

set_option maxRecDepth 8000 in
/-- The record of `T{}` names a field of a key that was given up with the value behind it. -/
theorem omitted_fill_discarded :
    let app : Scope := ⟨"example.com/app", "app"⟩
    let v := outsideLib [.declared "X" (.map (.named 1) (.named 2)) app]
    fill 8 v bracesOfT (.named 0) false =
      .ok ⟨.compositeLit (some (.ident "T" 1)) 1 [] 1, 0, [⟨"H", "lib.secret"⟩, ⟨"X", "lib.secret"⟩]⟩ :=
  rfl

end LiteralFill
