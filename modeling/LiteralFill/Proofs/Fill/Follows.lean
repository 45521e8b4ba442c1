import LiteralFill.Proofs.Fill.Bare
import LiteralFill.Proofs.Fill.Renumber

namespace LiteralFill

/-- What a step hands on: its result, the line it has come to, and the lines asked for. -/
structure Outcome (α : Type) where
  result : α
  pos : Nat
  lines : Nat

/-- An expression laid out from the line of the draft on. -/
def Draft.put (d : Draft) (e : Expr) : Outcome Expr :=
  ⟨e.layOut d.pos, d.pos + e.advances, d.lines + e.lineCount⟩

/-- Elements laid out on the lines after that of the draft. -/
def Draft.putElements (d : Draft) (es : List Expr) : Outcome (List Expr) :=
  ⟨layOutElements d.pos es, d.pos + (es.length + advancesAll es), d.lines + lineCountAll es⟩

/-- From the draft `d` on, the step does what the attempt does, laid out as `out` tells. A failed one
may leave any line behind; what the user wrote is touched only in the outermost struct. -/
def Follows {α β : Type} (outermost : Bool) (x : Filler α) (d : Draft) (a : Attempt β)
    (out : β → Outcome α) : Prop :=
  ∃ entries, (outermost = false → entries = d.entries) ∧
    match a.outcome with
    | .ok b => x d = (.ok (out b).result,
        ⟨(out b).pos, (out b).lines, entries, false, d.path, d.omitted ++ a.omitted⟩)
    | .error e => ∃ pos lines first, (d.first = false → first = false) ∧
        x d = (.error e, ⟨pos, lines, entries, first, d.path, d.omitted ++ a.omitted⟩)

namespace Follows

open Filler

variable {α α' β β' : Type} {outermost : Bool} {x : Filler α} {d : Draft} {a : Attempt β}
  {out : β → Outcome α}

theorem of_ok {b : β} {d' : Draft} (ha : a.outcome = .ok b)
    (hx : x d = (.ok (out b).result, d'))
    (hd : d' = ⟨(out b).pos, (out b).lines, d.entries, false, d.path, d.omitted ++ a.omitted⟩) :
    Follows outermost x d a out :=
  ⟨d.entries, fun _ => rfl, by rw [ha, hx, hd]⟩

theorem of_error {e : FillError} (ha : a.outcome = .error e)
    (hx : x d = (.error e, { d with omitted := d.omitted ++ a.omitted })) :
    Follows outermost x d a out :=
  ⟨d.entries, fun _ => rfl, by rw [ha]; exact ⟨d.pos, d.lines, d.first, id, hx⟩⟩

/-- A step that only looks at the line may be left out. -/
theorem here_bind {f : Nat → Filler α} (h : Follows outermost (f d.pos) d a out) :
    Follows outermost (here >>= f) d a out := h

theorem advance_bind {f : Nat → Filler α}
    (h : Follows outermost (f (d.pos + 1)) { d with pos := d.pos + 1 } a out) :
    Follows outermost (advance >>= f) d a out := h

/-- Reused expressions are laid out where the draft has come to. -/
theorem renumber_bind {e : Expr} {f : Expr → Filler α}
    (h : Follows outermost (f (e.layOut d.pos)) (d.move e.advances e.lineCount) a out) :
    Follows outermost (e.renumber >>= f) d a out := by
  unfold Follows
  rw [bind_of_ok (e.renumber_apply d)]
  exact h

/-- A step that leaves the draft as it is, next to an attempt that leaves nothing out. -/
theorem ok_bind {f : α → Filler α'} {g : β → Attempt β'} {out' : β' → Outcome α'} {r : α} {b : β}
    (hx : x d = (.ok r, d)) (ha : a.outcome = .ok b) (hom : a.omitted = [])
    (h : Follows outermost (f r) d (g b) out') : Follows outermost (x >>= f) d (a >>= g) out' := by
  have hfx : (x >>= f) d = f r d := bind_of_ok hx
  have hga : a >>= g = g b := by rw [Attempt.bind_of_ok ha, hom, List.nil_append]
  unfold Follows
  rw [hfx, hga]
  exact h

theorem ofExcept_bind {r : Except FillError β'} {f : β' → Filler α} {g : β' → Attempt β}
    (h : ∀ b, r = .ok b → Follows outermost (f b) d (g b) out) :
    Follows outermost (Filler.ofExcept r >>= f) d (Attempt.ofExcept r >>= g) out := by
  cases hr : r with
  | error e => exact of_error rfl (by simp [Attempt.bind_of_error, bind_apply])
  | ok b => exact ok_bind (ofExcept_apply (.ok b) d) rfl rfl (h b hr)

/-- Steps that follow attempts one after the other follow the attempts put together. -/
theorem bind {outermost' : Bool} {f : α → Filler α'} {g : β → Attempt β'} {out' : β' → Outcome α'}
    (hx : Follows outermost x d a out)
    (hf : ∀ b entries, a.outcome = .ok b → (outermost = false → entries = d.entries) →
      Follows outermost' (f (out b).result)
        ⟨(out b).pos, (out b).lines, entries, false, d.path, d.omitted ++ a.omitted⟩ (g b) out') :
    Follows (outermost || outermost') (x >>= f) d (a >>= g) out' := by
  obtain ⟨entries, he, hx⟩ := hx
  cases ha : a.outcome with
  | error e =>
    rw [ha] at hx
    obtain ⟨pos, lines, first, hfirst, hx⟩ := hx
    refine ⟨entries, fun ho => he (Bool.or_eq_false_iff.1 ho).1, ?_⟩
    rw [Attempt.bind_of_error ha]
    exact ⟨pos, lines, first, hfirst, bind_of_error hx⟩
  | ok b =>
    rw [ha] at hx
    obtain ⟨entries', he', hf⟩ := hf b entries ha he
    refine ⟨entries', fun ho => ?_, ?_⟩
    · obtain ⟨ho, ho'⟩ := Bool.or_eq_false_iff.1 ho
      exact (he' ho').trans (he ho)
    · rw [Attempt.bind_of_ok ha, bind_of_ok hx]
      cases hg : (g b).outcome with
      | error e =>
        rw [hg] at hf
        obtain ⟨pos, lines, first, hfirst, hf⟩ := hf
        exact ⟨pos, lines, first, fun _ => hfirst rfl, by rw [hf, List.append_assoc]⟩
      | ok b' =>
        rw [hg] at hf
        simpa only [List.append_assoc] using hf

/-- The last step only puts a result together. -/
theorem bind_pure {f : α → Filler α'} {g : β → Attempt β'} {out' : β' → Outcome α'}
    (hx : Follows outermost x d a out)
    (hf : ∀ b entries, Follows false (f (out b).result)
      ⟨(out b).pos, (out b).lines, entries, false, d.path, d.omitted ++ a.omitted⟩ (g b) out') :
    Follows outermost (x >>= f) d (a >>= g) out' := by
  simpa only [Bool.or_false] using hx.bind (fun b entries _ _ => hf b entries)

/-- Before the first step of the outermost struct, what the user wrote may change. -/
theorem take {x' : Filler α} {entries : Entries} {first : Bool}
    (he : outermost = false → entries = d.entries) (hfirst : d.first = false → first = false)
    (hx : x d = x' { d with entries, first })
    (h : Follows outermost x' { d with entries, first } a out) : Follows outermost x d a out := by
  obtain ⟨entries', he', h⟩ := h
  refine ⟨entries', fun ho => (he' ho).trans (he ho), ?_⟩
  rw [hx]
  cases ha : a.outcome with
  | error e =>
    rw [ha] at h
    obtain ⟨pos, lines, first', hfirst', h⟩ := h
    exact ⟨pos, lines, first', hfirst' ∘ hfirst, h⟩
  | ok b =>
    rw [ha] at h
    exact h

/-- A step with one more struct open. -/
theorem inside {place : Place} (h : Follows outermost x { d with path := place :: d.path } a out) :
    Follows outermost (Filler.inside place x) d a out := by
  obtain ⟨entries, he, h⟩ := h
  refine ⟨entries, he, ?_⟩
  cases ha : a.outcome with
  | error e =>
    rw [ha] at h
    obtain ⟨pos, lines, first, hfirst, h⟩ := h
    exact ⟨pos, lines, first, hfirst, by rw [inside_apply, h]; rfl⟩
  | ok b =>
    rw [ha] at h
    simp only [inside_apply, h, List.tail_cons]

end Follows

/-- A type expression that comes to the same words on every line and stands on a single one. -/
structure SingleLine (typeAt : Nat → Except FillError Expr) : Prop where
  layOut : ∀ pos, typeAt pos = Expr.layOut pos <$> typeAt noPos
  advances : ∀ e, typeAt noPos = .ok e → e.advances = 0
  lineCount : ∀ e, typeAt noPos = .ok e → e.lineCount = 0

theorem singleLine_arrayTypeAt (v : Viewpoint) (len : Nat) (elem : Ty) :
    SingleLine (arrayTypeAt v · len elem) := by
  unfold arrayTypeAt
  cases v.nameOf elem with
  | error e => exact ⟨fun _ => rfl, nofun, nofun⟩
  | ok name => exact ⟨fun _ => rfl, by rintro _ ⟨⟩; rfl, by rintro _ ⟨⟩; rfl⟩

theorem singleLine_mapTypeAt (v : Viewpoint) (key value : Ty) :
    SingleLine (mapTypeAt v · key value) := by
  unfold mapTypeAt
  cases v.nameOf key with
  | error e => exact ⟨fun _ => rfl, nofun, nofun⟩
  | ok key =>
    cases v.nameOf value with
    | error e => exact ⟨fun _ => rfl, nofun, nofun⟩
    | ok value => exact ⟨fun _ => rfl, by rintro _ ⟨⟩; rfl, by rintro _ ⟨⟩; rfl⟩

theorem singleLine_structTypeAt (v : Viewpoint) (style : Style) (fields : List Field) :
    SingleLine (structTypeAt v style · fields) := by
  unfold structTypeAt
  cases v.nameOf (style.decl?.elim (.struct fields) .named) with
  | error e => exact ⟨fun _ => rfl, nofun, nofun⟩
  | ok name => exact ⟨fun _ => rfl, by rintro _ ⟨⟩; rfl, by rintro _ ⟨⟩; rfl⟩

variable {v : Viewpoint} {style : Style} {typeAt : Nat → Except FillError Expr}

/-- The type before the braces leaves the draft as it is. -/
theorem typeExpr?_apply (h : SingleLine typeAt) (d : Draft) :
    style.typeExpr? typeAt d = (layOutOpt d.pos <$> (style.bareType? typeAt).outcome, d) := by
  unfold Style.typeExpr? Style.bareType?
  split
  · rfl
  · simp only [Filler.bind_apply, Filler.here_apply, Filler.ofExcept_apply, h.layOut d.pos,
      Attempt.outcome_ofExcept]
    cases typeAt noPos <;> rfl

@[simp] theorem omitted_bareType? : (style.bareType? typeAt).omitted = [] := by
  unfold Style.bareType?
  split <;> rfl

theorem advancesOpt_bareType? (h : SingleLine typeAt) {type? : Option Expr}
    (ht : (style.bareType? typeAt).outcome = .ok type?) :
    advancesOpt type? = 0 ∧ lineCountOpt type? = 0 := by
  unfold Style.bareType? at ht
  split at ht
  · cases ht
    exact ⟨rfl, rfl⟩
  · rw [Attempt.outcome_ofExcept] at ht
    cases he : typeAt noPos with
    | error e => rw [he] at ht; cases ht
    | ok e =>
      rw [he] at ht
      cases ht
      exact ⟨h.advances e he, h.lineCount e he⟩

/-- A literal follows its attempt if what stands between its braces does. -/
theorem follows_literal {outermost : Bool} {d : Draft} {inner : Filler (List Expr)}
    {bareInner : Attempt (List Expr)} (h : SingleLine typeAt)
    (hin : Follows outermost inner d bareInner d.putElements) :
    Follows outermost (literal style typeAt inner) d (bareLiteral style typeAt bareInner) d.put := by
  unfold literal bareLiteral
  cases ht : (style.bareType? typeAt).outcome with
  | error e =>
    apply Follows.of_error (e := e)
    · rw [Attempt.bind_of_error ht]
    · rw [Attempt.bind_of_error ht, omitted_bareType?, List.append_nil]
      exact Filler.bind_of_error (by rw [typeExpr?_apply h, ht]; rfl)
  | ok type? =>
    obtain ⟨hadv, hlines⟩ := advancesOpt_bareType? h ht
    have hx : style.typeExpr? typeAt d = (.ok (layOutOpt d.pos type?), d) := by
      rw [typeExpr?_apply h, ht]
      rfl
    apply Follows.ok_bind hx ht omitted_bareType?
    apply Follows.here_bind
    apply hin.bind_pure
    intro elts entries
    refine Follows.of_ok rfl ?_ rfl
    simp only [Filler.bind_apply, Filler.close_apply, Filler.pure_apply, Draft.put,
      Draft.putElements, Expr.layOut, Expr.advances, Expr.lineCount, hadv, hlines,
      length_layOutElements, List.isEmpty_iff_length_eq_zero, Draft.move, Attempt.omitted_pure,
      List.append_nil]
    by_cases h0 : elts.length = 0
    · simp [List.eq_nil_of_length_eq_zero h0, advancesAll, lineCountAll]
    · simp only [h0, ↓reduceIte]
      rw [Prod.mk.injEq, Except.ok.injEq, Expr.compositeLit.injEq, Draft.mk.injEq]
      exact ⟨⟨rfl, rfl, rfl, by omega⟩, by omega, by omega, rfl, rfl, rfl, rfl⟩

/-- Copies follow if the value does, wherever it starts. -/
theorem follows_elements {value : Filler Expr} {a : Attempt Expr} (d : Draft)
    (hfirst : d.first = false)
    (hv : ∀ d', d'.first = false → d'.path = d.path → Follows false value d' a d'.put) (n : Nat) :
    Follows false (elements value n) d (a.copies n) d.putElements := by
  induction n generalizing d with
  | zero =>
    refine Follows.of_ok rfl rfl ?_
    simp [← hfirst, Draft.putElements, advancesAll, lineCountAll, Attempt.copies]
  | succ n ih =>
    apply Follows.advance_bind
    apply (hv { d with pos := d.pos + 1 } hfirst rfl).bind
    intro e entries _ _
    refine (ih ⟨_, _, entries, false, d.path, _⟩ rfl hv).bind_pure ?_
    intro es entries
    refine Follows.of_ok rfl rfl ?_
    simp only [Draft.put, Draft.putElements, List.length_cons, advancesAll, lineCountAll,
      Attempt.omitted_pure, List.append_nil, Draft.mk.injEq, and_true]
    omega

theorem follows_mapEntry {keyZero valueZero : Filler Expr} {key value : Attempt Expr} (d : Draft)
    (hfirst : d.first = false)
    (hk : ∀ d', d'.first = false → d'.path = d.path → Follows false keyZero d' key d'.put)
    (hv : ∀ d', d'.first = false → d'.path = d.path → Follows false valueZero d' value d'.put) :
    Follows false (mapEntry keyZero valueZero) d (bareMapEntry key value) d.putElements := by
  apply Follows.advance_bind
  apply (hk { d with pos := d.pos + 1 } hfirst rfl).bind
  intro k entries _ _
  apply Follows.here_bind
  refine (hv ⟨_, _, entries, false, d.path, _⟩ rfl rfl).bind_pure ?_
  intro e entries
  refine Follows.of_ok rfl rfl ?_
  simp only [Draft.put, Draft.putElements, List.length_cons, List.length_nil, advancesAll,
    lineCountAll, Expr.advances, Expr.lineCount, Attempt.omitted_pure, List.append_nil,
    Draft.mk.injEq, and_true]
  omega

/-- The entry of a field on the next line, if the field has one. -/
def Draft.putOmittable (d : Draft) (name : String) (value? : Option Expr) : Outcome (Option Expr) :=
  let added := value?.map (Expr.entry name)
  ⟨added.map (Expr.layOut (d.pos + 1)), (d.putElements added.toList).pos,
    (d.putElements added.toList).lines⟩

theorem Draft.putOmittable_some (d : Draft) (name : String) (e : Expr) :
    d.putOmittable name (some e) =
      ⟨some (.keyValue (.ident name (d.pos + 1)) (d.pos + 1) (e.layOut (d.pos + 1))),
        d.pos + 1 + e.advances, d.lines + e.lineCount⟩ := by
  simp only [putOmittable, putElements, Expr.entry, Expr.name, Expr.layOut, Expr.advances,
    Expr.lineCount, Option.map_some, Option.toList_some, List.length_cons, List.length_nil,
    advancesAll, lineCountAll, Outcome.mk.injEq, Nat.add_zero, Nat.zero_add, true_and, and_true]
  omega

theorem Draft.toList_putOmittable (d : Draft) (name : String) (value? : Option Expr) :
    (d.putOmittable name value?).result.toList =
      (d.putElements (value?.map (Expr.entry name)).toList).result := by
  cases value? <;> rfl

theorem Draft.putElements_append (d d' : Draft) (es es' : List Expr)
    (hpos : d'.pos = (d.putElements es).pos) (hlines : d'.lines = (d.putElements es).lines) :
    d.putElements (es ++ es') = ⟨(d.putElements es).result ++ (d'.putElements es').result,
      (d'.putElements es').pos, (d'.putElements es').lines⟩ := by
  simp only [putElements, layOutElements_append, advancesAll_append, lineCountAll_append,
    List.length_append, hpos, hlines, Outcome.mk.injEq, true_and]
  omega

theorem freshEntry_apply (name : String) (value : Filler Expr) (d : Draft) :
    freshEntry name value d =
      match value { d with pos := d.pos + 1 } with
      | (.ok e, d') => (.ok (some (.keyValue (.ident name (d.pos + 1)) (d.pos + 1) e)), d')
      | (.error (.unrenderable hidden), d') => (.ok none,
        { d' with pos := d.pos, lines := d.lines, omitted := d'.omitted ++ [⟨name, hidden⟩] })
      | (.error e, d') => (.error e, d') := by
  simp only [freshEntry, Filler.bind_apply, Filler.get_apply, Filler.advance_apply,
    Filler.tryCatch_apply, Filler.pure_apply]
  rcases value { d with pos := d.pos + 1 } with ⟨e | e, d'⟩
  · cases e <;> rfl
  · rfl

/-- A field that is left out takes its lines back, whatever its value had come to. -/
theorem follows_freshEntry {name : String} {value : Filler Expr} {a : Attempt Expr} (d : Draft)
    (hfirst : d.first = false)
    (hv : ∀ d', d'.first = false → d'.path = d.path → Follows false value d' a d'.put) :
    Follows false (freshEntry name value) d (a.orOmit name) (d.putOmittable name) := by
  obtain ⟨entries, he, hv⟩ := hv { d with pos := d.pos + 1 } hfirst rfl
  refine ⟨entries, he, ?_⟩
  rw [freshEntry_apply]
  cases ha : a.outcome with
  | ok e =>
    rw [ha] at hv
    simp only [Attempt.orOmit, ha, hv, Draft.putOmittable_some]
    rfl
  | error err =>
    rw [ha] at hv
    obtain ⟨pos, lines, first, hf, hv⟩ := hv
    simp only [Attempt.orOmit, ha, hv]
    cases err with
    -- the line goes back to where it was, what was left out inside stays on record
    | unrenderable hidden =>
      simp only [hf hfirst, Draft.putOmittable, List.append_assoc]
      rfl
    | _ => exact ⟨pos, lines, first, hf, rfl⟩

theorem Entries.remove_of_value?_eq_none {entries : Entries} {field : String}
    (h : entries.value? field = none) : entries.remove field = entries := by
  simp only [Entries.value?, Option.map_eq_none_iff, List.getLast?_eq_none_iff,
    List.filter_eq_nil_iff] at h
  simpa [Entries.remove, List.filter_eq_self] using h

theorem takeValue?_of_some {field : String} {d : Draft} {value : Expr}
    (h : d.entries.value? field = some value) :
    takeValue? true field d = (.ok (some value), { d with entries := d.entries.remove field }) := by
  simp only [takeValue?, ↓reduceIte, Filler.modifyGet_apply, h]

theorem takeValue?_of_none {outermost : Bool} {field : String} {d : Draft}
    (h : Entries.value? (if outermost then d.entries else []) field = none) :
    takeValue? outermost field d = (.ok none, d) := by
  cases outermost with
  | false => rfl
  | true =>
    have h : d.entries.value? field = none := h
    simp only [takeValue?, ↓reduceIte, Filler.modifyGet_apply, h,
      Entries.remove_of_value?_eq_none h]

/-- The entries of a struct literal follow theirs. Only the outermost struct looks at what the user
wrote. -/
theorem follows_fieldEntries {v : Viewpoint} {valueOf : Nat → Field → Filler Expr}
    {bareOf : Nat → Field → Attempt Expr} (path : List Place)
    (hv : ∀ i f d, d.first = false → d.path = path →
      Follows false (valueOf i f) d (bareOf i f) d.put)
    (first : Bool) (fields : List Field) (i : Nat) (d : Draft) (hfirst : d.first = false)
    (hpath : d.path = path) :
    Follows first (fieldEntries v valueOf first i fields) d
      (bareEntries v bareOf (if first then d.entries else []) i fields) d.putElements := by
  induction fields generalizing i d with
  | nil =>
    refine Follows.of_ok rfl rfl ?_
    simp [← hfirst, Draft.putElements, advancesAll, lineCountAll, bareEntries]
  | cons f rest ih =>
    rw [bareEntries]
    -- below the first level there are no entries to look at, so that `some` means the outermost struct
    cases hval : Entries.value? (if first then d.entries else []) f.name with
    | some value =>
      obtain rfl : first = true := by
        cases first
        · cases hval
        · rfl
      have hstep : fieldEntries v valueOf true i (f :: rest) d = (do
          let _ ← Filler.advance
          let entry ← (Expr.entry f.name value).renumber
          return entry :: (← fieldEntries v valueOf true (i + 1) rest) : Filler (List Expr))
          { d with entries := d.entries.remove f.name } := by
        rw [fieldEntries, Filler.bind_of_ok (takeValue?_of_some hval)]
      apply Follows.take (fun h => Bool.noConfusion h) id hstep
      · apply Follows.advance_bind
        apply Follows.renumber_bind
        refine Follows.bind_pure (ih (i + 1) ⟨_, _, _, d.first, d.path, _⟩ hfirst hpath) ?_
        intro es entries
        refine Follows.of_ok rfl rfl ?_
        simp only [Draft.putElements, Draft.move, List.length_cons, advancesAll, lineCountAll,
          Attempt.omitted_pure, List.append_nil, Draft.mk.injEq, and_true]
        omega
    | none =>
      have hstep : fieldEntries v valueOf first i (f :: rest) d = (if f.visibleFrom v.current then do
          let entry? ← freshEntry f.name (valueOf i f)
          return entry?.toList ++ (← fieldEntries v valueOf first (i + 1) rest)
        else fieldEntries v valueOf first (i + 1) rest : Filler (List Expr)) d := by
        rw [fieldEntries, Filler.bind_of_ok (takeValue?_of_none hval)]
      apply Follows.take (fun _ => rfl) id hstep
      by_cases hvis : f.visibleFrom v.current
      · simp only [hvis, ↓reduceIte]
        have hfresh : Follows false (freshEntry f.name (valueOf i f)) d
            ((bareOf i f).orOmit f.name) (d.putOmittable f.name) :=
          follows_freshEntry d hfirst fun d' h h' => hv i f d' h (h'.trans hpath)
        refine hfresh.bind ?_
        intro value? entries _ he
        obtain rfl := he rfl
        refine Follows.bind_pure (ih (i + 1) ⟨_, _, d.entries, false, d.path, _⟩ rfl hpath) ?_
        intro es entries
        refine Follows.of_ok rfl ?_ rfl
        rw [Draft.putElements_append d ⟨(d.putOmittable f.name value?).pos,
          (d.putOmittable f.name value?).lines, d.entries, false, d.path, d.omitted⟩ _ es rfl rfl,
          Draft.toList_putOmittable, Attempt.omitted_pure, List.append_nil]
        rfl
      · simp only [hvis]
        exact ih (i + 1) d hfirst hpath

/-- What stands between the braces of a struct literal follows its attempt, be it the outermost struct
or one further in. -/
theorem follows_structEntries (v : Viewpoint) (fields : List Field) {place : Place}
    {valueOf : Nat → Field → Filler Expr} {bareOf : Nat → Field → Attempt Expr} (d : Draft)
    (hv : ∀ i f d', d'.first = false → d'.path = place :: d.path →
      Follows false (valueOf i f) d' (bareOf i f) d'.put)
    (hd : place ∉ d.path ∨ d.first = false) :
    Follows d.first (structEntries v place fields valueOf) d
      (bareStructEntries v d.path place (if d.first then d.entries else []) fields bareOf)
      d.putElements := by
  unfold bareStructEntries
  by_cases hp : place ∈ d.path
  · have hstep : structEntries v place fields valueOf d = (return [] : Filler (List Expr)) d := by
      simp only [structEntries, Filler.bind_apply, Filler.get_apply, hp, ↓reduceIte]
    apply Follows.take (fun _ => rfl) id hstep
    simp only [hp, ↓reduceIte]
    refine Follows.of_ok rfl rfl ?_
    simp [← hd.resolve_left (not_not_intro hp), Draft.putElements, advancesAll, lineCountAll]
  · have hstep : structEntries v place fields valueOf d =
        Filler.inside place (fieldEntries v valueOf d.first 0 fields) { d with first := false } := by
      simp only [structEntries, Filler.bind_apply, Filler.get_apply, hp, ↓reduceIte,
        Filler.modifyGet_apply]
    apply Follows.take (fun _ => rfl) (fun _ => rfl) hstep
    simp only [hp, ↓reduceIte]
    exact Follows.inside (follows_fieldEntries (place :: d.path) (fun i f d' h h' => hv i f d' h h')
      d.first fields 0 { d with first := false, path := place :: d.path } rfl rfl)

theorem follows_basicZero (kind : BasicKind) (d : Draft) (hfirst : d.first = false) :
    Follows false (basicZero kind) d (bareBasic kind) d.put := by
  have hd : d = ⟨d.pos, d.lines, d.entries, false, d.path, d.omitted ++ []⟩ := by
    rw [← hfirst, List.append_nil]
  cases kind with
  | untyped _ => exact Follows.of_error rfl (by rw [← hfirst] at hd; exact congrArg _ hd)
  | invalid => exact Follows.of_error rfl (by rw [← hfirst] at hd; exact congrArg _ hd)
  | _ => exact Follows.of_ok rfl rfl hd

theorem follows_nilAt (d : Draft) (hfirst : d.first = false) :
    Follows false (return nilAt (← Filler.here)) d (pure (nilAt noPos)) d.put :=
  Follows.of_ok rfl rfl (by rw [← hfirst, Attempt.omitted_pure, List.append_nil]; rfl)

/-- The zero value of a type, laid out on the way, is the one that is not, laid out afterwards. -/
theorem follows_zero (v : Viewpoint) (depth : Nat) (style : Style) (node : Node) (d : Draft)
    (hfirst : d.first = false) :
    Follows false (zero v depth style node) d (bareZero v depth d.path style node) d.put := by
  induction depth generalizing style node d with
  | zero => exact Follows.of_error rfl (by simp [zero, bareZero])
  | succ depth ih =>
    have hchild (style' : Style) (node' : Node) (d' : Draft) (h : d'.first = false)
        (hpath : d'.path = d.path) :
        Follows false (zero v depth style' node') d' (bareZero v depth d.path style' node') d'.put :=
      hpath ▸ ih style' node' d' h
    rw [zero, bareZero]
    cases node.ty with
    | basic kind => exact follows_basicZero kind d hfirst
    | chan _ _ | func _ | slice _ | interface _ => exact follows_nilAt d hfirst
    | array len elem =>
      exact follows_literal (singleLine_arrayTypeAt v len elem)
        (follows_elements d hfirst (hchild .elidedType (node.child 0 elem)) len)
    | map key value =>
      exact follows_literal (singleLine_mapTypeAt v key value)
        (follows_mapEntry d hfirst (hchild .elidedType (node.child 0 key))
          (hchild .elidedType (node.child 1 value)))
    | struct fields =>
      have hfield (i : Nat) (f : Field) (d' : Draft) (h : d'.first = false)
          (hpath : d'.path = node.place :: d.path) :
          Follows false (zero v depth .plain (node.child i f.ty)) d'
            (bareZero v depth (node.place :: d.path) .plain (node.child i f.ty)) d'.put :=
        hpath ▸ ih .plain (node.child i f.ty) d' h
      have hin := follows_structEntries v fields d hfield (.inr hfirst)
      rw [hfirst] at hin
      exact follows_literal (singleLine_structTypeAt v style fields) hin
    | named decl =>
      apply Follows.ofExcept_bind
      intro target _
      exact hchild _ target d hfirst rfl
    | pointer elem =>
      apply Follows.ofExcept_bind
      intro target _
      split
      · exact hchild _ (node.child 0 elem) d hfirst rfl
      · exact follows_nilAt d hfirst
    | tuple elems =>
      obtain ⟨e, he⟩ : ∃ e, (v.describe (.tuple elems) >>= fun name =>
          .error (.unexpectedType name) : Except FillError Expr) = .error e := by
        cases v.describe (.tuple elems) <;> exact ⟨_, rfl⟩
      simp only [he]
      exact Follows.of_error rfl (by simp)

end LiteralFill
