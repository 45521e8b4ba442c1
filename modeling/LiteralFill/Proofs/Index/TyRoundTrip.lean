import LiteralFill.Proofs.Index.Decodes

namespace LiteralFill

open Json (Decodes decodes_string decodes_bool decodes_nat decodes_alternative)

@[simp] theorem IntegerBits.ofTag?_tag (bits : IntegerBits) : ofTag? bits.tag = some bits := by
  cases bits <;> rfl

@[simp] theorem Sign.ofTag?_tag (sign : Sign) : ofTag? sign.tag = some sign := by
  cases sign <;> rfl

@[simp] theorem FloatSize.ofTag?_tag (size : FloatSize) : ofTag? size.tag = some size := by
  cases size <;> rfl

@[simp] theorem UntypedKind.ofTag?_tag (kind : UntypedKind) : ofTag? kind.tag = some kind := by
  cases kind <;> rfl

@[simp] theorem ChanDir.ofTag?_tag (dir : ChanDir) : ofTag? dir.tag = some dir := by
  cases dir <;> rfl

theorem ChanDir.tag_inj {dir dir' : ChanDir} (h : dir.tag = dir'.tag) : dir = dir' :=
  Option.some.inj (by rw [← ofTag?_tag dir, h, ofTag?_tag dir'])

namespace BasicKind

theorem ofJson?_tagged (depth : Nat) (tag : String) (content : Json) (h : ofTag? tag = none) :
    ofJson? (depth + 1) (.obj [(tag, content)]) = ofTagged? depth tag content := by
  cases content <;> simp [ofJson?, Json.alternative?, Json.tagged?, h]

theorem decodes_tagged {tag : String} {content : Json} {kind : BasicKind}
    (h : Decodes (fun depth => ofTagged? depth tag) content kind) (htag : ofTag? tag = none)
    (hdefault : Json.defaultOf? tag = none) : Decodes ofJson? (.obj [(tag, content)]) kind :=
  h.tagged (fun depth content => ofJson?_tagged depth tag content htag) (by simp [hdefault])

theorem decodes_toJson (kind : BasicKind) : Decodes ofJson? kind.toJson kind := by
  cases kind with
  | integer bits sign =>
    refine decodes_tagged (fun depth j' hj hdepth => ?_) rfl rfl
    obtain ⟨items, rfl, hitems⟩ := hj.of_arr
    obtain ⟨d, rfl⟩ := Nat.exists_eq_add_of_lt (Nat.lt_of_lt_of_le (Nat.succ_pos _) hdepth)
    obtain _ | ⟨⟨⟩, _ | ⟨⟨⟩, ⟨⟩⟩⟩ := hitems
    simp [ofTagged?, Json.alternative?]
  | float size => exact decodes_tagged ((decodes_alternative size.ofTag?_tag).map BasicKind.float) rfl rfl
  | complex size => exact decodes_tagged ((decodes_alternative size.ofTag?_tag).map BasicKind.complex) rfl rfl
  | untyped kind => exact decodes_tagged ((decodes_alternative kind.ofTag?_tag).map BasicKind.untyped) rfl rfl
  | _ =>
    intro depth j' hj _
    cases hj
    rfl

end BasicKind

mutual

/-- The lengths of arrays and the numbers of declarations have 64 bits. -/
def Ty.Fits : Ty → Prop
  | .basic _ => True
  | .chan _ elem => elem.Fits
  | .func signature => signature.Fits
  | .slice elem => elem.Fits
  | .interface methods => methodsFit methods
  | .array len elem => len < Nat.pow 2 64 ∧ elem.Fits
  | .map key value => key.Fits ∧ value.Fits
  | .struct fields => fieldsFit fields
  | .named decl => decl < Nat.pow 2 64
  | .pointer elem => elem.Fits
  | .tuple elems => typesFit elems

def Signature.Fits : Signature → Prop
  | ⟨params, results, _⟩ => typesFit params ∧ typesFit results

def typesFit : List Ty → Prop
  | [] => True
  | ty :: rest => ty.Fits ∧ typesFit rest

def methodsFit : List Method → Prop
  | [] => True
  | ⟨_, signature⟩ :: rest => signature.Fits ∧ methodsFit rest

def fieldsFit : List Field → Prop
  | [] => True
  | ⟨_, _, _, _, ty⟩ :: rest => ty.Fits ∧ fieldsFit rest

end

/-- A method and a field as they stand among those of their type. -/
def Method.toJson (m : Method) : Json := .obj [("name", .str m.name), ("signature", m.signature.toJson)]

def Field.toJson (f : Field) : Json :=
  .obj [("name", .str f.name), ("exported", .bool f.exported), ("embedded", .bool f.embedded),
    ("scope", f.scope.toJson), ("ty", f.ty.toJson)]

theorem typesJson_eq_map (tys : List Ty) : typesJson tys = tys.map Ty.toJson := by
  induction tys with
  | nil => rfl
  | cons ty rest ih => exact congrArg (ty.toJson :: ·) ih

theorem methodsJson_eq_map (methods : List Method) : methodsJson methods = methods.map Method.toJson := by
  induction methods with
  | nil => rfl
  | cons m rest ih =>
    obtain ⟨name, signature⟩ := m
    exact congrArg (Method.toJson ⟨name, signature⟩ :: ·) ih

theorem fieldsJson_eq_map (fields : List Field) : fieldsJson fields = fields.map Field.toJson := by
  induction fields with
  | nil => rfl
  | cons f rest ih =>
    obtain ⟨name, exported, embedded, scope, ty⟩ := f
    exact congrArg (Field.toJson ⟨name, exported, embedded, scope, ty⟩ :: ·) ih

theorem typesOfJson?_eq (depth : Nat) : typesOfJson? depth = Json.list? Ty.ofJson? depth := by
  funext j
  cases depth <;> cases j <;> rfl

theorem methodsOfJson?_eq (depth : Nat) : methodsOfJson? depth = Json.list? Method.ofJson? depth := by
  funext j
  cases depth <;> cases j <;> rfl

theorem fieldsOfJson?_eq (depth : Nat) : fieldsOfJson? depth = Json.list? Field.ofJson? depth := by
  funext j
  cases depth <;> cases j <;> rfl

def Ty.IsDecoded (ty : Ty) : Prop := Decodes ofJson? ty.toJson ty

theorem Ty.toJson_ne_null (ty : Ty) : ty.toJson ≠ .null := by
  cases ty <;> exact Json.noConfusion

theorem Scope.decodes_toJson (s : Scope) : Decodes ofJson? s.toJson s := by
  intro depth j hj hdepth
  obtain ⟨d, value, rfl, hmembers, hpath, hname⟩ := hj.record ["path", "name"] rfl (by decide) hdepth
  obtain ⟨_, hpath, hpath'⟩ := hpath.required (decodes_string s.path) nofun
  obtain ⟨_, hname, hname'⟩ := hname.required (decodes_string s.name) nofun
  simp [ofJson?, hmembers, hpath, hpath', hname, hname']

theorem Import.decodes_toJson (i : Import) : Decodes ofJson? i.toJson i := by
  intro depth j hj hdepth
  obtain ⟨d, value, rfl, hmembers, hpath, hname⟩ := hj.record ["path", "name"] rfl (by decide) hdepth
  obtain ⟨_, hpath, hpath'⟩ := hpath.required (decodes_string i.path) nofun
  have hname := hname.orNull rfl rfl (fun name _ => decodes_string name) nofun
  simp [ofJson?, hmembers, hpath, hpath', hname]

section

variable {elem key value : Ty} {len : Nat}

theorem decodes_chan {dir : ChanDir} (helem : elem.IsDecoded) :
    Decodes chanOfJson? (.obj [("dir", .str dir.tag), ("elem", elem.toJson)]) (.chan dir elem) := by
  intro depth j hj hdepth
  obtain ⟨d, member, rfl, hmembers, hdir, hmember⟩ := hj.record ["dir", "elem"] rfl (by decide) hdepth
  have hdir := hdir.orDefault (decodes_alternative dir.ofTag?_tag) fun hleft =>
    (ChanDir.tag_inj (Json.str.inj (Option.some.inj hleft))).symm
  obtain ⟨_, hmember, helem⟩ := hmember.required helem nofun
  simp [chanOfJson?, hmembers, hdir, hmember, helem]

theorem Signature.decodes_toJson {s : Signature} (hparams : ∀ ty ∈ s.params, ty.IsDecoded)
    (hresults : ∀ ty ∈ s.results, ty.IsDecoded) : Decodes ofJson? s.toJson s := by
  obtain ⟨params, results, variadic⟩ := s
  intro depth j hj hdepth
  obtain ⟨d, member, rfl, hmembers, hparams', hresults', hvariadic⟩ :=
    Json.Omits.record hj ["params", "results", "variadic"] rfl (by decide) hdepth
  have hparams := hparams'.list (typesJson_eq_map params) rfl hparams
  have hresults := hresults'.list (typesJson_eq_map results) rfl hresults
  have hvariadic := hvariadic.flag rfl
  simp [ofJson?, hmembers, typesOfJson?_eq, hparams, hresults, hvariadic]

theorem Method.decodes_toJson {m : Method} (h : Decodes Signature.ofJson? m.signature.toJson m.signature) :
    Decodes ofJson? m.toJson m := by
  obtain ⟨name, signature⟩ := m
  intro depth j hj hdepth
  obtain ⟨d, member, rfl, hmembers, hname, hsignature⟩ :=
    hj.record ["name", "signature"] rfl (by decide) hdepth
  obtain ⟨_, hname, hname'⟩ := hname.required (decodes_string name) nofun
  obtain ⟨_, hsignature, hsignature'⟩ := hsignature.required h nofun
  simp [ofJson?, hmembers, hname, hname', hsignature, hsignature']

theorem decodes_interface {methods : List Method} (h : ∀ m ∈ methods, Decodes Method.ofJson? m.toJson m) :
    Decodes interfaceOfJson? (.obj [("methods", .arr (methodsJson methods))]) (.interface methods) := by
  intro depth j hj hdepth
  obtain ⟨d, member, rfl, hmembers, hmethods⟩ := hj.record ["methods"] rfl (by decide) hdepth
  have hmethods := Json.Survives.list hmethods (methodsJson_eq_map methods) rfl h
  simp [interfaceOfJson?, hmembers, methodsOfJson?_eq, hmethods]

theorem decodes_array (helem : elem.IsDecoded) (hlen : len < Nat.pow 2 64) :
    Decodes arrayOfJson? (.obj [("elem", elem.toJson), ("len", .nat len)]) (.array len elem) := by
  intro depth j hj hdepth
  obtain ⟨d, member, rfl, hmembers, helem', hlen'⟩ := hj.record ["elem", "len"] rfl (by decide) hdepth
  obtain ⟨_, helem', helem⟩ := helem'.required helem nofun
  obtain ⟨_, hlen', hlen⟩ := hlen'.required (decodes_nat hlen) nofun
  simp [arrayOfJson?, hmembers, helem', helem, hlen', hlen]

theorem decodes_map (hkey : key.IsDecoded) (hvalue : value.IsDecoded) :
    Decodes mapOfJson? (.obj [("key", key.toJson), ("value", value.toJson)]) (.map key value) := by
  intro depth j hj hdepth
  obtain ⟨d, member, rfl, hmembers, hkey', hvalue'⟩ := hj.record ["key", "value"] rfl (by decide) hdepth
  obtain ⟨_, hkey', hkey⟩ := hkey'.required hkey nofun
  obtain ⟨_, hvalue', hvalue⟩ := hvalue'.required hvalue nofun
  simp [mapOfJson?, hmembers, hkey', hkey, hvalue', hvalue]

theorem Field.decodes_toJson {f : Field} (h : f.ty.IsDecoded) :
    Decodes ofJson? f.toJson f := by
  obtain ⟨name, exported, embedded, scope, ty⟩ := f
  intro depth j hj hdepth
  obtain ⟨d, member, rfl, hmembers, hname, hexported, hembedded, hscope, hty⟩ :=
    hj.record ["name", "exported", "embedded", "scope", "ty"] rfl (by decide) hdepth
  obtain ⟨_, hname, hname'⟩ := hname.required (decodes_string name) nofun
  obtain ⟨_, hexported, hexported'⟩ := hexported.required (decodes_bool exported) nofun
  have hembedded := hembedded.flag rfl
  obtain ⟨_, hscope, hscope'⟩ := hscope.required scope.decodes_toJson nofun
  obtain ⟨_, hty, hty'⟩ := hty.required h fun hleft => ty.toJson_ne_null (Option.some.inj hleft).symm
  simp [ofJson?, hmembers, hname, hname', hexported, hexported', hembedded, hscope, hscope', hty, hty']

theorem decodes_struct {fields : List Field} (h : ∀ f ∈ fields, Decodes Field.ofJson? f.toJson f) :
    Decodes structOfJson? (.obj [("fields", .arr (fieldsJson fields))]) (.struct fields) := by
  intro depth j hj hdepth
  obtain ⟨d, member, rfl, hmembers, hfields⟩ := hj.record ["fields"] rfl (by decide) hdepth
  have hlist := Decodes.list h
  rw [← fieldsJson_eq_map] at hlist
  obtain ⟨_, hfields, hfields'⟩ := Json.Survives.required hfields hlist nofun
  simp [structOfJson?, hmembers, fieldsOfJson?_eq, hfields, hfields']

end

mutual

/-- Every type is read back, whatever has been left out of it. -/
theorem Ty.isDecoded : ∀ ty : Ty, ty.Fits → ty.IsDecoded
  | .basic kind, _ => (kind.decodes_toJson.map Ty.basic).tagged (fun _ _ => by rw [Ty.ofJson?]) nofun
  | .chan _ elem, h => (decodes_chan (elem.isDecoded h)).tagged (fun _ _ => by rw [Ty.ofJson?]) nofun
  | .func ⟨params, results, _⟩, h =>
    have hsignature :=
      Signature.decodes_toJson (isDecoded_of_typesFit params h.1) (isDecoded_of_typesFit results h.2)
    (hsignature.map Ty.func).tagged (fun _ _ => by rw [Ty.ofJson?]) nofun
  | .slice elem, h => ((elem.isDecoded h).map Ty.slice).tagged (fun _ _ => by rw [Ty.ofJson?]) nofun
  | .interface methods, h =>
    (decodes_interface (decodes_of_methodsFit methods h)).tagged (fun _ _ => by rw [Ty.ofJson?]) nofun
  | .array _ elem, h =>
    (decodes_array (elem.isDecoded h.2) h.1).tagged (fun _ _ => by rw [Ty.ofJson?]) nofun
  | .map key value, h =>
    (decodes_map (key.isDecoded h.1) (value.isDecoded h.2)).tagged (fun _ _ => by rw [Ty.ofJson?]) nofun
  | .struct fields, h =>
    (decodes_struct (decodes_of_fieldsFit fields h)).tagged (fun _ _ => by rw [Ty.ofJson?]) nofun
  | .named _, h => ((decodes_nat h).map Ty.named).tagged (fun _ _ => by rw [Ty.ofJson?]) nofun
  | .pointer elem, h => ((elem.isDecoded h).map Ty.pointer).tagged (fun _ _ => by rw [Ty.ofJson?]) nofun
  | .tuple elems, h => by
    have helems := (Decodes.list (isDecoded_of_typesFit elems h)).map Ty.tuple
    rw [← typesJson_eq_map] at helems
    exact helems.tagged (fun _ _ => by rw [Ty.ofJson?, typesOfJson?_eq]) nofun

theorem isDecoded_of_typesFit : ∀ tys : List Ty, typesFit tys → ∀ ty ∈ tys, ty.IsDecoded
  | [], _ => nofun
  | ty :: rest, h => List.forall_mem_cons.2 ⟨ty.isDecoded h.1, isDecoded_of_typesFit rest h.2⟩

theorem decodes_of_methodsFit : ∀ methods : List Method, methodsFit methods →
    ∀ m ∈ methods, Decodes Method.ofJson? m.toJson m
  | [], _ => nofun
  | ⟨_, ⟨params, results, _⟩⟩ :: rest, h => List.forall_mem_cons.2
    ⟨Method.decodes_toJson
      (Signature.decodes_toJson (isDecoded_of_typesFit params h.1.1) (isDecoded_of_typesFit results h.1.2)),
      decodes_of_methodsFit rest h.2⟩

theorem decodes_of_fieldsFit : ∀ fields : List Field, fieldsFit fields →
    ∀ f ∈ fields, Decodes Field.ofJson? f.toJson f
  | [], _ => nofun
  | ⟨_, _, _, _, ty⟩ :: rest, h => List.forall_mem_cons.2
    ⟨Field.decodes_toJson (ty.isDecoded h.1), decodes_of_fieldsFit rest h.2⟩

end

end LiteralFill
