import LiteralFill.Proofs.TypeName.Boundaries

namespace LiteralFill

open TypeToken (word symbol number)

mutual

/-- A type without what is not written of it: the marks of fields, and the names of embedded ones. -/
def Ty.unmarked : Ty → Ty
  | .basic kind => .basic kind
  | .chan dir elem => .chan dir elem.unmarked
  | .func signature => .func signature.unmarked
  | .slice elem => .slice elem.unmarked
  | .interface methods => .interface (methodsUnmarked methods)
  | .array len elem => .array len elem.unmarked
  | .map key value => .map key.unmarked value.unmarked
  | .struct fields => .struct (fieldsUnmarked fields)
  | .named decl => .named decl
  | .pointer elem => .pointer elem.unmarked
  | .tuple elems => .tuple (typesUnmarked elems)

def Signature.unmarked : Signature → Signature
  | ⟨params, results, variadic⟩ => ⟨typesUnmarked params, typesUnmarked results, variadic⟩

def typesUnmarked : List Ty → List Ty
  | [] => []
  | ty :: rest => ty.unmarked :: typesUnmarked rest

def methodsUnmarked : List Method → List Method
  | [] => []
  | ⟨name, signature⟩ :: rest => ⟨name, signature.unmarked⟩ :: methodsUnmarked rest

def fieldsUnmarked : List Field → List Field
  | [] => []
  | ⟨name, _, embedded, _, ty⟩ :: rest =>
    ⟨if embedded then "" else name, false, embedded, ⟨"", ""⟩, ty.unmarked⟩ :: fieldsUnmarked rest

end

def Method.unmarked (m : Method) : Method := ⟨m.name, m.signature.unmarked⟩

def Field.unmarked (f : Field) : Field :=
  ⟨if f.embedded then "" else f.name, false, f.embedded, ⟨"", ""⟩, f.ty.unmarked⟩

theorem typesUnmarked_eq_map (tys : List Ty) : typesUnmarked tys = tys.map Ty.unmarked := by
  induction tys with
  | nil => rfl
  | cons ty rest ih => rw [typesUnmarked, ih, List.map_cons]

theorem methodsUnmarked_eq_map (methods : List Method) :
    methodsUnmarked methods = methods.map Method.unmarked := by
  induction methods with
  | nil => rfl
  | cons m rest ih =>
    obtain ⟨name, signature⟩ := m
    rw [methodsUnmarked, ih, List.map_cons, Method.unmarked]

theorem fieldsUnmarked_eq_map (fields : List Field) : fieldsUnmarked fields = fields.map Field.unmarked := by
  induction fields with
  | nil => rfl
  | cons f rest ih =>
    obtain ⟨name, exported, embedded, scope, ty⟩ := f
    rw [fieldsUnmarked, ih, List.map_cons, Field.unmarked]

variable {A : Alphabet} {v : Viewpoint}

/-- A parameter that is written by its elements is told by the dots. -/
theorem readAlike_item (hv : v.NamesApart A) {p p' : Bool × Ty} (hp : (Ty.ofItem p).WellFormed A)
    (hp' : (Ty.ofItem p').WellFormed A)
    (h : ReadAlike (Ty.tokens v) Ty.unmarked (Ty.ofItem p) (Ty.ofItem p')) :
    ReadAlike (itemTokens v) (fun p => (p.1, p.2.unmarked)) p p' := by
  obtain ⟨byElements, ty⟩ := p
  obtain ⟨byElements', ty'⟩ := p'
  intro r r' hr hr' heq
  cases byElements with
  | false =>
    cases byElements' with
    | false =>
      obtain ⟨hty, hrest⟩ := h r r' hr hr' heq
      exact ⟨congrArg (Prod.mk false) hty, hrest⟩
    | true => exact absurd heq.symm (hp.ne_symbol hv rfl _ _)
  | true =>
    cases byElements' with
    | false => exact absurd heq (hp'.ne_symbol hv rfl _ _)
    | true =>
      have helems : ty.tokens v ++ r = ty'.tokens v ++ r' := (List.cons.inj heq).2
      have hslices : (Ty.slice ty).tokens v ++ r = (Ty.slice ty').tokens v ++ r' := by
        rw [Ty.tokens, Ty.tokens, List.cons_append, List.cons_append, helems]
        rfl
      obtain ⟨hty, hrest⟩ := h r r' hr hr' hslices
      exact ⟨congrArg (Prod.mk true) (Ty.slice.inj hty), hrest⟩

theorem Ty.WellFormed.opens_item (hv : v.NamesApart A) {p : Bool × Ty} (h : (Ty.ofItem p).WellFormed A) :
    Opens (itemTokens v p) := by
  obtain ⟨byElements, ty⟩ := p
  cases byElements with
  | false => exact h.opens hv
  | true => exact ⟨_, _, rfl, by decide⟩

theorem readAlike_method {m m' : Method}
    (h : ReadAlike (Ty.tokens v) Ty.unmarked (.func m.signature) (.func m'.signature)) :
    ReadAlike (Method.tokens v) Method.unmarked m m' := by
  intro r r' hr hr' heq
  obtain ⟨hname, hsignature⟩ := List.cons.inj heq
  have hfunc : (Ty.func m.signature).tokens v ++ r = (Ty.func m'.signature).tokens v ++ r' := by
    rw [Ty.tokens, Ty.tokens, List.cons_append, List.cons_append]
    exact congrArg _ hsignature
  obtain ⟨hsame, hrest⟩ := h r r' hr hr' hfunc
  have hname : m.name = m'.name := Lexeme.word.inj (TypeToken.lexeme.inj hname)
  exact ⟨congrArg₂ Method.mk hname (Ty.func.inj hsame), hrest⟩

/-- Only a name is followed by what may follow an embedded type, and no type starts with a dot. -/
theorem embeddable_ne_named (hv : v.NamesApart A) {ty ty' : Ty} (h : ty.isEmbeddable = true)
    (h' : ty'.WellFormed A) {name : String} {r r' : List TypeToken} (hr : Closes r) :
    ty.tokens v ++ r ≠ word name :: (ty'.tokens v ++ r') := by
  intro heq
  unfold Ty.isEmbeddable at h
  split at h
  · rename_i decl
    rw [Ty.tokens] at heq
    cases hname : v.spellDecl decl with
    | ok text =>
      rw [declTokens_of_ok hname] at heq
      obtain htokens | ⟨lead, rest, htokens, -⟩ := nameTokens_cases text
      · rw [htokens] at heq
        have hrest : r = ty'.tokens v ++ r' := (List.cons.inj heq).2
        exact ((h'.opens hv).append r').not_closes (hrest ▸ hr)
      · rw [htokens] at heq
        exact absurd (List.cons.inj heq).2 (h'.ne_symbol hv rfl _ r')
    | error e =>
      rw [declTokens_of_error hname] at heq
      cases heq
  · rw [Ty.tokens] at heq
    cases heq
  · cases h

theorem Ty.WellFormed.opens_field (hv : v.NamesApart A) {f : Field} (h : f.ty.WellFormed A) :
    Opens (f.tokens v) := by
  unfold Field.tokens
  split
  · exact h.opens hv
  · exact opens_word f.name _

/-- An embedded field is told by what follows its name, or by the star before it. -/
theorem readAlike_field (hv : v.NamesApart A) {f f' : Field} (hf : f.ty.WellFormed A)
    (hf' : f'.ty.WellFormed A) (hembedded : f.embedded = true → f.ty.isEmbeddable = true)
    (hembedded' : f'.embedded = true → f'.ty.isEmbeddable = true)
    (h : ReadAlike (Ty.tokens v) Ty.unmarked f.ty f'.ty) :
    ReadAlike (Field.tokens v) Field.unmarked f f' := by
  obtain ⟨name, exported, embedded, scope, ty⟩ := f
  obtain ⟨name', exported', embedded', scope', ty'⟩ := f'
  intro r r' hr hr' heq
  cases embedded with
  | true =>
    cases embedded' with
    | true =>
      obtain ⟨hty, hrest⟩ := h r r' hr hr' heq
      exact ⟨congrArg (Field.mk "" false true ⟨"", ""⟩) hty, hrest⟩
    | false => exact absurd heq (embeddable_ne_named hv (hembedded rfl) hf' hr)
  | false =>
    cases embedded' with
    | true => exact absurd heq.symm (embeddable_ne_named hv (hembedded' rfl) hf hr')
    | false =>
      obtain ⟨hname, htokens⟩ := List.cons.inj heq
      obtain ⟨hty, hrest⟩ := h r r' hr hr' htokens
      have hname : name = name' := Lexeme.word.inj (TypeToken.lexeme.inj hname)
      exact ⟨congrArg₂ (Field.mk · false false ⟨"", ""⟩) hname hty, hrest⟩

theorem not_closes_paren (r : List TypeToken) : ¬Closes (symbol "(" :: r) := fun h =>
  absurd (h _ rfl) (by decide)

/-- Results are told by a parenthesis: several have one, and a type has none. -/
theorem resultTokens_unique (hv : v.NamesApart A) {xs ys : List Ty} (hxs : ∀ x ∈ xs, x.WellFormed A)
    (hys : ∀ y ∈ ys, y.WellFormed A) (h : ∀ x ∈ xs, ∀ y ∈ ys, ReadAlike (Ty.tokens v) Ty.unmarked x y)
    {r r' : List TypeToken} (hr : Closes r) (hr' : Closes r')
    (heq : resultTokens (xs.map (Ty.tokens v)) ++ r = resultTokens (ys.map (Ty.tokens v)) ++ r') :
    xs.map Ty.unmarked = ys.map Ty.unmarked ∧ r = r' := by
  match xs, ys with
  | [], [] => exact ⟨rfl, heq⟩
  | [], [y] =>
    have hopens := ((hys y List.mem_cons_self).opens hv).append r'
    exact absurd hr (heq ▸ hopens).not_closes
  | [], y :: y' :: more =>
    have hrest : r = symbol "(" :: _ := heq
    exact absurd (hrest ▸ hr) (not_closes_paren _)
  | [x], [] =>
    have hopens := ((hxs x List.mem_cons_self).opens hv).append r
    exact absurd hr' (heq ▸ hopens).not_closes
  | [x], [y] =>
    obtain ⟨hxy, hrest⟩ := h x List.mem_cons_self y List.mem_cons_self r r' hr hr' heq
    exact ⟨congrArg (· :: []) hxy, hrest⟩
  | [x], y :: y' :: more => exact absurd heq.symm ((hxs x List.mem_cons_self).ne_symbol hv rfl _ r)
  | x :: x' :: rest, [] =>
    have hrest : r' = symbol "(" :: _ := heq.symm
    exact absurd (hrest ▸ hr') (not_closes_paren _)
  | x :: x' :: rest, [y] => exact absurd heq ((hys y List.mem_cons_self).ne_symbol hv rfl _ r')
  | x :: x' :: rest, y :: y' :: more =>
    exact enclosed_unique (by decide) (by decide) (by decide) (fun x hx => (hxs x hx).opens hv)
      (fun y hy => (hys y hy).opens hv) h heq

theorem closes_bracket (r : List TypeToken) : Closes (symbol "]" :: r) := closes_cons (by decide) r

theorem closes_paren (r : List TypeToken) : Closes (symbol ")" :: r) := closes_cons (by decide) r

theorem Ty.WellFormed.ne_arrow (hv : v.NamesApart A) {ty : Ty} (h : ty.WellFormed A)
    (hrecv : ty.isReceiveOnly = false) (r r' : List TypeToken) : symbol "<-" :: r ≠ ty.tokens v ++ r' := by
  obtain ⟨t, rest, htokens, ht⟩ := h.opening hv
  rw [htokens]
  rintro ⟨⟩
  have harrow : Opening.arrow = ty.opening := Option.some.inj ht
  cases h with
  | @chan dir =>
    cases dir with
    | recv => cases hrecv
    | both | send => cases harrow
  | basic | named | func | slice | interface | array | map | struct | pointer => cases harrow

/-- The word `chan` goes on with a type, an arrow or a parenthesis, and these are told apart since the only
types that start with an arrow are put in parentheses. -/
theorem readAlike_chan (hv : v.NamesApart A) {dir dir' : ChanDir} {elem elem' : Ty}
    (helem : elem.WellFormed A) (helem' : elem'.WellFormed A)
    (h : ReadAlike (Ty.tokens v) Ty.unmarked elem elem') :
    ReadAlike (Ty.tokens v) Ty.unmarked (.chan dir elem) (.chan dir' elem') := by
  intro r r' hr hr' heq
  have hopening := opening_eq hv (.chan helem) (.chan helem') heq
  have hparen : symbol "(" ≠ symbol "<-" := by decide
  rw [Ty.tokens, Ty.tokens] at heq
  have hbare (dir : ChanDir) (heq : elem.tokens v ++ r = elem'.tokens v ++ r') :
      (Ty.chan dir elem).unmarked = (Ty.chan dir elem').unmarked ∧ r = r' :=
    (h r r' hr hr' heq).imp_left (congrArg (Ty.chan dir))
  cases dir with
  | recv =>
    cases dir' with
    | recv => exact hbare .recv (List.cons.inj (List.cons.inj heq).2).2
    | send | both => cases hopening
  | send =>
    cases dir' with
    | recv => cases hopening
    | send => exact hbare .send (List.cons.inj (List.cons.inj heq).2).2
    | both =>
      cases hrecv' : elem'.isReceiveOnly with
      | true =>
        rw [hrecv'] at heq
        exact absurd (List.cons.inj (List.cons.inj heq).2).1.symm hparen
      | false =>
        rw [hrecv'] at heq
        exact absurd (List.cons.inj heq).2 (helem'.ne_arrow hv hrecv' _ r')
  | both =>
    cases hrecv : elem.isReceiveOnly with
    | true =>
      rw [hrecv] at heq
      cases dir' with
      | recv => cases hopening
      | send => exact absurd (List.cons.inj (List.cons.inj heq).2).1 hparen
      | both =>
        cases hrecv' : elem'.isReceiveOnly with
        | true =>
          rw [hrecv'] at heq
          have hinside : elem.tokens v ++ [symbol ")"] ++ r = elem'.tokens v ++ [symbol ")"] ++ r' :=
            (List.cons.inj (List.cons.inj heq).2).2
          rw [List.append_assoc, List.append_assoc] at hinside
          obtain ⟨hsame, hafter⟩ := h _ _ (closes_paren r) (closes_paren r') hinside
          exact ⟨congrArg (Ty.chan .both) hsame, (List.cons.inj hafter).2⟩
        | false =>
          rw [hrecv'] at heq
          exact absurd (List.cons.inj heq).2 (helem'.ne_symbol hv rfl _ r')
    | false =>
      rw [hrecv] at heq
      cases dir' with
      | recv => cases hopening
      | send => exact absurd (List.cons.inj heq).2.symm (helem.ne_arrow hv hrecv _ r)
      | both =>
        cases hrecv' : elem'.isReceiveOnly with
        | true =>
          rw [hrecv'] at heq
          exact absurd (List.cons.inj heq).2.symm (helem.ne_symbol hv rfl _ r)
        | false =>
          rw [hrecv'] at heq
          exact hbare .both (List.cons.inj heq).2

/-- The parameters and the mark of a variadic signature can be told from what is written of them. -/
theorem params_of_paramItems {variadic variadic' : Bool} {params params' : List Ty}
    (h : variadic = true → ∃ elem, params.getLast? = some (.slice elem))
    (h' : variadic' = true → ∃ elem, params'.getLast? = some (.slice elem))
    (hitems : (paramItems variadic params).map (fun p => (p.1, p.2.unmarked)) =
      (paramItems variadic' params').map fun p => (p.1, p.2.unmarked)) :
    params.map Ty.unmarked = params'.map Ty.unmarked ∧ variadic = variadic' := by
  have hunmarked (p : Bool × Ty) : (Ty.ofItem p).unmarked = Ty.ofItem (p.1, p.2.unmarked) := by
    obtain ⟨byElements, ty⟩ := p
    cases byElements <;> rfl
  constructor
  · have hsame := congrArg (List.map Ty.ofItem) hitems
    simp only [List.map_map, Function.comp_def, ← hunmarked] at hsame
    rw [← map_ofItem_paramItems variadic params, ← map_ofItem_paramItems variadic' params', List.map_map,
      List.map_map]
    exact hsame
  · rw [← any_paramItems h, ← any_paramItems h']
    have hsame := congrArg (List.any · (·.1)) hitems
    simpa only [List.any_map, Function.comp_def] using hsame

theorem readAlike_func (hv : v.NamesApart A) {params results params' results' : List Ty}
    {variadic variadic' : Bool} (h : Ty.WellFormed A (.func ⟨params, results, variadic⟩))
    (h' : Ty.WellFormed A (.func ⟨params', results', variadic'⟩))
    (hparams : ∀ ty ∈ params, ∀ ty', ty'.WellFormed A → ReadAlike (Ty.tokens v) Ty.unmarked ty ty')
    (hresults : ∀ ty ∈ results, ∀ ty', ty'.WellFormed A → ReadAlike (Ty.tokens v) Ty.unmarked ty ty') :
    ReadAlike (Ty.tokens v) Ty.unmarked (.func ⟨params, results, variadic⟩)
      (.func ⟨params', results', variadic'⟩) := by
  intro r r' hr hr' heq
  cases h with
  | func hp hres hvar =>
  cases h' with
  | func hp' hres' hvar' =>
  have hmem {variadic : Bool} {params : List Ty} {p : Bool × Ty} (hp : p ∈ paramItems variadic params) :
      Ty.ofItem p ∈ params := map_ofItem_paramItems variadic params ▸ List.mem_map_of_mem hp
  have hopens {variadic : Bool} {params : List Ty} (hparams : ∀ ty ∈ params, ty.WellFormed A)
      (p : Bool × Ty) (hp : p ∈ paramItems variadic params) : Opens (itemTokens v p) :=
    (hparams _ (hmem hp)).opens_item hv
  have hsignature :
      enclosed "(" "," ")" (paramTokens v variadic params) ++ resultTokens (tyTokens v results) ++ r =
      enclosed "(" "," ")" (paramTokens v variadic' params') ++ resultTokens (tyTokens v results') ++ r' :=
    (List.cons.inj heq).2
  rw [paramTokens_eq_map, paramTokens_eq_map, List.append_assoc, List.append_assoc] at hsignature
  obtain ⟨hitems, hafter⟩ := enclosed_unique (by decide) (by decide) (by decide) (hopens hp) (hopens hp')
    (fun item hitem item' hitem' => readAlike_item hv (hp _ (hmem hitem)) (hp' _ (hmem hitem'))
      (hparams _ (hmem hitem) _ (hp' _ (hmem hitem')))) hsignature
  rw [tyTokens_eq_map, tyTokens_eq_map] at hafter
  obtain ⟨hsame, hrest⟩ := resultTokens_unique hv hres hres'
    (fun ty hty ty' hty' => hresults ty hty ty' (hres' ty' hty')) hr hr' hafter
  obtain ⟨hsameParams, rfl⟩ := params_of_paramItems hvar hvar' hitems
  rw [Ty.unmarked, Ty.unmarked, Signature.unmarked, Signature.unmarked, typesUnmarked_eq_map,
    typesUnmarked_eq_map, typesUnmarked_eq_map, typesUnmarked_eq_map, hsameParams, hsame]
  exact ⟨rfl, hrest⟩

/-- A type is told by its tokens, as far as it is written, and so is where it ends. -/
theorem Ty.WellFormed.readAlike (hv : v.NamesApart A) {ty : Ty} (h : ty.WellFormed A) (ty' : Ty)
    (h' : ty'.WellFormed A) : ReadAlike (Ty.tokens v) Ty.unmarked ty ty' := by
  induction h generalizing ty' with
  | basic hkind =>
    intro r r' hr hr' heq
    have hopening := opening_eq hv (.basic hkind) h' heq
    cases h' with
    | basic hkind' =>
      obtain ⟨hname, hrest⟩ := nameTokens_unique hr hr' heq
      exact ⟨congrArg Ty.basic (BasicKind.eq_of_name_eq hkind hkind' hname), hrest⟩
    | named => exact absurd heq (nameTokens_ne_declTokens hv hr hr')
    | @chan dir => cases dir <;> cases hopening
    | func | slice | interface | array | map | struct | pointer => cases hopening
  | named =>
    intro r r' hr hr' heq
    have hopening := opening_eq hv .named h' heq
    cases h' with
    | basic => exact absurd heq.symm (nameTokens_ne_declTokens hv hr' hr)
    | named =>
      obtain ⟨rfl, hrest⟩ := declTokens_unique hv hr hr' heq
      exact ⟨rfl, hrest⟩
    | @chan dir => cases dir <;> cases hopening
    | func | slice | interface | array | map | struct | pointer => cases hopening
  | @chan dir elem helem ih =>
    intro r r' hr hr' heq
    have hopening := opening_eq hv (.chan helem) h' heq
    cases h' with
    | @chan dir' elem' helem' => exact readAlike_chan hv helem helem' (ih elem' helem') r r' hr hr' heq
    | basic | named | func | slice | interface | array | map | struct | pointer =>
      cases dir <;> cases hopening
  | @func params results variadic hparams hresults hvariadic ihparams ihresults =>
    intro r r' hr hr' heq
    have hfunc := func hparams hresults hvariadic
    have hopening := opening_eq hv hfunc h' heq
    cases h' with
    | func hparams' hresults' hvariadic' =>
      exact readAlike_func hv hfunc (.func hparams' hresults' hvariadic') ihparams ihresults r r' hr hr' heq
    | @chan dir => cases dir <;> cases hopening
    | basic | named | slice | interface | array | map | struct | pointer => cases hopening
  | @slice elem helem ih =>
    intro r r' hr hr' heq
    have hopening := opening_eq hv (.slice helem) h' heq
    cases h' with
    | @slice elem' helem' =>
      obtain ⟨hsame, hrest⟩ := ih elem' helem' r r' hr hr' (List.cons.inj (List.cons.inj heq).2).2
      exact ⟨congrArg Ty.slice hsame, hrest⟩
    | array => cases (List.cons.inj (List.cons.inj heq).2).1
    | @chan dir => cases dir <;> cases hopening
    | basic | named | func | interface | map | struct | pointer => cases hopening
  | @array len elem helem ih =>
    intro r r' hr hr' heq
    have hopening := opening_eq hv (.array helem) h' heq
    cases h' with
    | @array len' elem' helem' =>
      obtain ⟨hlen, heq⟩ := List.cons.inj (List.cons.inj heq).2
      obtain ⟨hsame, hrest⟩ := ih elem' helem' r r' hr hr' (List.cons.inj heq).2
      exact ⟨congrArg₂ Ty.array (toString_injective (TypeToken.number.inj hlen)) hsame, hrest⟩
    | slice => cases (List.cons.inj (List.cons.inj heq).2).1
    | @chan dir => cases dir <;> cases hopening
    | basic | named | func | interface | map | struct | pointer => cases hopening
  | @map key value hkey hvalue ihkey ihvalue =>
    intro r r' hr hr' heq
    have hopening := opening_eq hv (.map hkey hvalue) h' heq
    cases h' with
    | @map key' value' hkey' hvalue' =>
      have hinside : key.tokens v ++ symbol "]" :: value.tokens v ++ r =
          key'.tokens v ++ symbol "]" :: value'.tokens v ++ r' := (List.cons.inj (List.cons.inj heq).2).2
      rw [List.append_assoc, List.append_assoc] at hinside
      obtain ⟨hkeys, hafter⟩ := ihkey key' hkey' _ _ (closes_bracket _) (closes_bracket _) hinside
      obtain ⟨hvalues, hrest⟩ := ihvalue value' hvalue' r r' hr hr' (List.cons.inj hafter).2
      exact ⟨congrArg₂ Ty.map hkeys hvalues, hrest⟩
    | @chan dir => cases dir <;> cases hopening
    | basic | named | func | slice | interface | array | struct | pointer => cases hopening
  | @interface methods hnames hmethods ih =>
    intro r r' hr hr' heq
    have hopening := opening_eq hv (.interface hnames hmethods) h' heq
    cases h' with
    | @interface methods' hnames' hmethods' =>
      have hinside := (List.cons.inj heq).2
      rw [methodTokens_eq_map, methodTokens_eq_map] at hinside
      obtain ⟨hsame, hrest⟩ := enclosed_unique (g := Method.unmarked) (by decide) (by decide) (by decide)
        (fun m _ => opens_word m.name _) (fun m _ => opens_word m.name _)
        (fun m hm m' hm' => readAlike_method (ih m hm _ (hmethods' m' hm'))) hinside
      rw [Ty.unmarked, Ty.unmarked, methodsUnmarked_eq_map, methodsUnmarked_eq_map, hsame]
      exact ⟨rfl, hrest⟩
    | @chan dir => cases dir <;> cases hopening
    | basic | named | func | slice | array | map | struct | pointer => cases hopening
  | @struct fields hfields htypes ih =>
    intro r r' hr hr' heq
    have hopening := opening_eq hv (.struct hfields htypes) h' heq
    cases h' with
    | @struct fields' hfields' htypes' =>
      have hinside := (List.cons.inj heq).2
      rw [fieldTokens_eq_map, fieldTokens_eq_map] at hinside
      have hembeddable {f : Field}
          (hf : if f.embedded then f.ty.isEmbeddable = true else A.IsIdentifier f.name)
          (hembedded : f.embedded = true) : f.ty.isEmbeddable = true := by
        rwa [if_pos hembedded] at hf
      obtain ⟨hsame, hrest⟩ := enclosed_unique (g := Field.unmarked) (by decide) (by decide) (by decide)
        (fun f hf => (htypes f hf).opens_field hv) (fun f hf => (htypes' f hf).opens_field hv)
        (fun f hf f' hf' => readAlike_field hv (htypes f hf) (htypes' f' hf')
          (hembeddable (hfields f hf)) (hembeddable (hfields' f' hf')) (ih f hf _ (htypes' f' hf'))) hinside
      rw [Ty.unmarked, Ty.unmarked, fieldsUnmarked_eq_map, fieldsUnmarked_eq_map, hsame]
      exact ⟨rfl, hrest⟩
    | @chan dir => cases dir <;> cases hopening
    | basic | named | func | slice | interface | array | map | pointer => cases hopening
  | @pointer elem helem ih =>
    intro r r' hr hr' heq
    have hopening := opening_eq hv (.pointer helem) h' heq
    cases h' with
    | @pointer elem' helem' =>
      obtain ⟨hsame, hrest⟩ := ih elem' helem' r r' hr hr' (List.cons.inj heq).2
      exact ⟨congrArg Ty.pointer hsame, hrest⟩
    | @chan dir => cases dir <;> cases hopening
    | basic | named | func | slice | interface | array | map | struct => cases hopening

/-- Of two types whose texts split into the same tokens, all that is written is the same. -/
theorem unmarked_eq_of_tokenizes (hv : v.NamesApart A) {ty ty' : Ty} (h : ty.WellFormed A)
    (h' : ty'.WellFormed A) {text text' : String} (hspell : ty.spell v = .ok text)
    (hspell' : ty'.spell v = .ok text') {ts : List TypeToken} (ht : A.Tokenizes text.toList ts)
    (ht' : A.Tokenizes text'.toList ts) : ty.unmarked = ty'.unmarked := by
  have htokens := (h.lexes hv.isTypeName hspell).lexes.tokenizes.unique ht
  have htokens' := (h'.lexes hv.isTypeName hspell').lexes.tokenizes.unique ht'
  have heq : ty.tokens v ++ [] = ty'.tokens v ++ [] := congrArg (· ++ []) (htokens.trans htokens'.symm)
  exact (h.readAlike hv ty' h' [] [] nofun nofun heq).1

/-- A view with a type of another package and a predeclared one. -/
def pointView : Viewpoint :=
  ⟨⟨#[.declared "Point" ⟨"example.com/geo", "geo"⟩ (.struct []), .predeclared "error" (.interface [])]⟩,
    ⟨⟨"example.com/app", "app"⟩, []⟩⟩

theorem namesApart_pointView : pointView.NamesApart .ascii := by
  have hpoint : pointView.spellDecl 0 = .ok "geo.Point" := rfl
  have herror : pointView.spellDecl 1 = .ok "error" := rfl
  have hname (decl : Nat) (name : String) (h : pointView.spellDecl decl = .ok name) :
      decl = 0 ∧ name = "geo.Point" ∨ decl = 1 ∧ name = "error" := by
    match decl with
    | 0 => exact .inl ⟨rfl, (Except.ok.inj (hpoint.symm.trans h)).symm⟩
    | 1 => exact .inr ⟨rfl, (Except.ok.inj (herror.symm.trans h)).symm⟩
    | n + 2 => cases h
  refine ⟨fun decl name h => ?_, fun decl decl' name h h' => ?_, fun decl kind h => ?_⟩
  · rcases hname decl name h with ⟨-, rfl⟩ | ⟨-, rfl⟩
    · exact .inr ⟨"geo", "Point", rfl, by decide, by decide⟩
    · exact .inl (by decide)
  · rcases hname decl name h with ⟨rfl, rfl⟩ | ⟨rfl, rfl⟩ <;>
      rcases hname decl' _ h' with ⟨rfl, h'⟩ | ⟨rfl, h'⟩ <;> first | rfl | exact absurd h' (by decide)
  · have hne : kind.name ≠ "geo.Point" ∧ kind.name ≠ "error" := by
      cases kind with
      | integer bits sign => cases bits <;> cases sign <;> decide
      | float size | complex size => cases size <;> decide
      | untyped kind => cases kind <;> decide
      | bool | byte | rune | uintptr | unsafePointer | string | invalid => decide
    rcases hname decl _ h with ⟨-, h⟩ | ⟨-, h⟩
    · exact hne.1 h
    · exact hne.2 h

/-- A function type with a channel in parentheses, a variadic parameter and an embedded field. -/
def pointFunc (embedded : String) (exported : Bool) : Ty :=
  let app : Scope := ⟨"example.com/app", "app"⟩
  .func ⟨[.chan .both (.chan .recv (.named 0)),
    .slice (.struct [⟨embedded, true, true, app, .pointer (.named 0)⟩,
      ⟨"n", exported, false, app, .array 2 (.basic .int)⟩])], [.named 1], true⟩

theorem wellFormed_pointFunc (embedded : String) (exported : Bool) :
    (pointFunc embedded exported).WellFormed .ascii := by
  refine .func (List.forall_mem_cons.2 ⟨.chan (.chan .named), List.forall_mem_singleton.2 (.slice ?_)⟩)
    (List.forall_mem_singleton.2 .named) fun _ => ⟨_, rfl⟩
  refine .struct (List.forall_mem_cons.2 ⟨rfl, List.forall_mem_singleton.2 ?_⟩)
    (List.forall_mem_cons.2 ⟨.pointer .named, List.forall_mem_singleton.2 (.array (.basic rfl))⟩)
  exact (by decide : Alphabet.ascii.IsIdentifier "n")

/-- The mark of a field and the name of an embedded one are all that two types with this text can
differ in. -/
theorem unmarked_eq_of_tokenizes_pointFunc :
    let text := "func(chan (<-chan geo.Point), ...struct\x7b*geo.Point; n [2]int\x7d) error"
    pointView.NamesApart .ascii ∧ (pointFunc "Point" false).WellFormed .ascii ∧
      (pointFunc "P" true).WellFormed .ascii ∧ (pointFunc "Point" false).spell pointView = .ok text ∧
      (pointFunc "P" true).spell pointView = .ok text ∧
      (∃ ts, Alphabet.ascii.Tokenizes text.toList ts) ∧
      (pointFunc "Point" false).unmarked = (pointFunc "P" true).unmarked := by
  intro text
  have hspell : (pointFunc "Point" false).spell pointView = .ok text := by rfl
  have hspell' : (pointFunc "P" true).spell pointView = .ok text := by rfl
  have hlexes := (wellFormed_pointFunc "Point" false).lexes namesApart_pointView.isTypeName hspell
  have htokens := hlexes.lexes.tokenizes
  exact ⟨namesApart_pointView, wellFormed_pointFunc _ _, wellFormed_pointFunc _ _, hspell, hspell',
    ⟨_, htokens⟩, unmarked_eq_of_tokenizes namesApart_pointView (wellFormed_pointFunc _ _)
      (wellFormed_pointFunc _ _) hspell hspell' htokens htokens⟩

end LiteralFill
