import LiteralFill.Proofs.Index.Decodes

namespace LiteralFill

open Json (Decodes decodes_string decodes_alternative)

@[simp] theorem LitKind.ofTag?_tag (kind : LitKind) : ofTag? kind.tag = some kind := by
  cases kind <;> rfl

@[simp] theorem BinaryOp.ofTag?_tag (op : BinaryOp) : ofTag? op.tag = some op := by
  cases op <;> rfl

@[simp] theorem UnaryOp.ofTag?_tag (op : UnaryOp) : ofTag? op.tag = some op := by
  cases op <;> rfl

mutual

/-- Positions have 32 bits. -/
def Expr.Fits : Expr → Prop
  | .ident _ pos => pos < Nat.pow 2 32
  | .basicLit _ _ pos => pos < Nat.pow 2 32
  | .compositeLit type? lbrace elts rbrace =>
    optExprFits type? ∧ lbrace < Nat.pow 2 32 ∧ exprsFit elts ∧ rbrace < Nat.pow 2 32
  | .keyValue key colon value => key.Fits ∧ colon < Nat.pow 2 32 ∧ value.Fits
  | .binary x opPos _ y => x.Fits ∧ opPos < Nat.pow 2 32 ∧ y.Fits
  | .unary opPos _ x => opPos < Nat.pow 2 32 ∧ x.Fits
  | .call callee lparen args _ rparen =>
    callee.Fits ∧ lparen < Nat.pow 2 32 ∧ exprsFit args ∧ rparen < Nat.pow 2 32
  | .selector x _ namePos => x.Fits ∧ namePos < Nat.pow 2 32
  | .index x lbrack index rbrack => x.Fits ∧ lbrack < Nat.pow 2 32 ∧ index.Fits ∧ rbrack < Nat.pow 2 32
  | .slice x lbrack low? high? max? _ rbrack =>
    x.Fits ∧ lbrack < Nat.pow 2 32 ∧ optExprFits low? ∧ optExprFits high? ∧ optExprFits max? ∧
      rbrack < Nat.pow 2 32
  | .star starPos x => starPos < Nat.pow 2 32 ∧ x.Fits
  | .paren lparen x rparen => lparen < Nat.pow 2 32 ∧ x.Fits ∧ rparen < Nat.pow 2 32
  | .funcLit pos _ => pos < Nat.pow 2 32
  | .ellipsis pos elt? => pos < Nat.pow 2 32 ∧ optExprFits elt?
  | .arrayType lbrack len? elt => lbrack < Nat.pow 2 32 ∧ optExprFits len? ∧ elt.Fits
  | .mapType pos key value => pos < Nat.pow 2 32 ∧ key.Fits ∧ value.Fits

def optExprFits : Option Expr → Prop
  | none => True
  | some e => e.Fits

def exprsFit : List Expr → Prop
  | [] => True
  | e :: rest => e.Fits ∧ exprsFit rest

end

def Literal.Fits (lit : Literal) : Prop :=
  optExprFits lit.type? ∧ lit.lbrace < Nat.pow 2 32 ∧ exprsFit lit.elts ∧ lit.rbrace < Nat.pow 2 32

def Expr.IsDecoded (e : Expr) : Prop := Decodes ofJson? e.toJson e

theorem Expr.toJson_ne_null (e : Expr) : e.toJson ≠ .null := by
  cases e <;> exact Json.noConfusion

theorem optExprJson_eq (e? : Option Expr) : optExprJson e? = .ofOption Expr.toJson e? := by
  cases e? <;> rfl

theorem exprsJson_eq_map (es : List Expr) : exprsJson es = es.map Expr.toJson := by
  induction es with
  | nil => rfl
  | cons e rest ih => exact congrArg (e.toJson :: ·) ih

theorem exprsOfJson?_eq (depth : Nat) : exprsOfJson? depth = Json.list? Expr.ofJson? depth := by
  funext j
  cases depth <;> cases j <;> rfl

/-- An expression that is absent stands as null, or not at all. -/
theorem Json.Survives.optExpr {depth : Nat} {name : String} {value : Option Json} {e? : Option Expr}
    (h : Survives depth (name, optExprJson e?) value) (hname : defaultOf? name = some .null)
    (he : ∀ e ∈ e?, e.IsDecoded) : Json.orNull (Expr.ofJson? depth) value = some e? :=
  h.orNull (optExprJson_eq e?) hname he Expr.toJson_ne_null

theorem Json.Survives.exprs {depth : Nat} {name : String} {value : Option Json} {es : List Expr}
    (h : Survives depth (name, .arr (exprsJson es)) value) (hname : defaultOf? name = some (.arr []))
    (hes : ∀ e ∈ es, e.IsDecoded) : Json.orDefault [] (exprsOfJson? depth) value = some es := by
  rw [exprsOfJson?_eq]
  exact h.list (exprsJson_eq_map es) hname hes

section

variable {x y key value callee index elt : Expr} {name : String}
  {pos colon opPos lparen rparen lbrack rbrack : Nat} {low? high? max? elt? len? : Option Expr}
  {args : List Expr}

theorem decodes_ident (hpos : pos < Nat.pow 2 32) :
    Decodes identOfJson? (.obj [("name", .str name), ("pos", posJson pos)]) (name, pos) := by
  intro depth j hj hdepth
  obtain ⟨d, member, rfl, hmembers, hname', hpos'⟩ := hj.record ["name", "pos"] rfl (by decide) hdepth
  obtain ⟨_, hname', hname⟩ := hname'.required (decodes_string name) nofun
  have hpos' := hpos'.readPos rfl hpos
  simp [identOfJson?, hmembers, hname', hname, hpos']

theorem decodes_basicLit {kind : LitKind} {text : String} (hpos : pos < Nat.pow 2 32) :
    Decodes basicLitOfJson? (.obj [("kind", .str kind.tag), ("value", .str text), ("pos", posJson pos)])
      (.basicLit kind text pos) := by
  intro depth j hj hdepth
  obtain ⟨d, member, rfl, hmembers, hkind', htext', hpos'⟩ :=
    hj.record ["kind", "value", "pos"] rfl (by decide) hdepth
  obtain ⟨_, hkind', hkind⟩ := hkind'.required (decodes_alternative kind.ofTag?_tag) nofun
  obtain ⟨_, htext', htext⟩ := htext'.required (decodes_string text) nofun
  have hpos' := hpos'.readPos rfl hpos
  simp [basicLitOfJson?, hmembers, hkind', hkind, htext', htext, hpos']

theorem decodes_keyValue (hkey : key.IsDecoded) (hcolon : colon < Nat.pow 2 32) (hvalue : value.IsDecoded) :
    Decodes keyValueOfJson? (.obj [("key", key.toJson), ("colon", posJson colon), ("value", value.toJson)])
      (.keyValue key colon value) := by
  intro depth j hj hdepth
  obtain ⟨d, member, rfl, hmembers, hkey', hcolon', hvalue'⟩ :=
    hj.record ["key", "colon", "value"] rfl (by decide) hdepth
  obtain ⟨_, hkey', hkey⟩ := hkey'.required hkey nofun
  have hcolon' := hcolon'.readPos rfl hcolon
  obtain ⟨_, hvalue', hvalue⟩ := hvalue'.required hvalue nofun
  simp [keyValueOfJson?, hmembers, hkey', hkey, hcolon', hvalue', hvalue]

theorem decodes_binary {op : BinaryOp} (hx : x.IsDecoded) (hopPos : opPos < Nat.pow 2 32) (hy : y.IsDecoded) :
    Decodes binaryOfJson? (.obj [("x", x.toJson), ("op_pos", posJson opPos), ("op", .str op.tag),
      ("y", y.toJson)]) (.binary x opPos op y) := by
  intro depth j hj hdepth
  obtain ⟨d, member, rfl, hmembers, hx', hopPos', hop', hy'⟩ :=
    hj.record ["x", "op_pos", "op", "y"] rfl (by decide) hdepth
  obtain ⟨_, hx', hx⟩ := hx'.required hx nofun
  have hopPos' := hopPos'.readPos rfl hopPos
  obtain ⟨_, hop', hop⟩ := hop'.required (decodes_alternative op.ofTag?_tag) nofun
  obtain ⟨_, hy', hy⟩ := hy'.required hy nofun
  simp [binaryOfJson?, hmembers, hx', hx, hopPos', hop', hop, hy', hy]

theorem decodes_unary {op : UnaryOp} (hopPos : opPos < Nat.pow 2 32) (hx : x.IsDecoded) :
    Decodes unaryOfJson? (.obj [("op_pos", posJson opPos), ("op", .str op.tag), ("x", x.toJson)])
      (.unary opPos op x) := by
  intro depth j hj hdepth
  obtain ⟨d, member, rfl, hmembers, hopPos', hop', hx'⟩ :=
    hj.record ["op_pos", "op", "x"] rfl (by decide) hdepth
  have hopPos' := hopPos'.readPos rfl hopPos
  obtain ⟨_, hop', hop⟩ := hop'.required (decodes_alternative op.ofTag?_tag) nofun
  obtain ⟨_, hx', hx⟩ := hx'.required hx nofun
  simp [unaryOfJson?, hmembers, hopPos', hop', hop, hx', hx]

theorem decodes_call {spread : Bool} (hcallee : callee.IsDecoded) (hlparen : lparen < Nat.pow 2 32)
    (hargs : ∀ e ∈ args, e.IsDecoded) (hrparen : rparen < Nat.pow 2 32) :
    Decodes callOfJson? (.obj [("fun", callee.toJson), ("lparen", posJson lparen),
      ("args", .arr (exprsJson args)), ("has_ellipsis", .bool spread), ("rparen", posJson rparen)])
      (.call callee lparen args spread rparen) := by
  intro depth j hj hdepth
  obtain ⟨d, member, rfl, hmembers, hcallee', hlparen', hargs', hspread', hrparen'⟩ :=
    hj.record ["fun", "lparen", "args", "has_ellipsis", "rparen"] rfl (by decide) hdepth
  obtain ⟨_, hcallee', hcallee⟩ := hcallee'.required hcallee nofun
  have hlparen' := hlparen'.readPos rfl hlparen
  have hargs' := hargs'.exprs rfl hargs
  have hspread' := hspread'.flag rfl
  have hrparen' := hrparen'.readPos rfl hrparen
  simp [callOfJson?, hmembers, hcallee', hcallee, hlparen', hargs', hspread', hrparen']

theorem decodes_selector (hx : x.IsDecoded) (hpos : pos < Nat.pow 2 32) :
    Decodes selectorOfJson? (.obj [("x", x.toJson),
      ("sel", .obj [("name", .str name), ("pos", posJson pos)])]) (.selector x name pos) := by
  intro depth j hj hdepth
  obtain ⟨d, member, rfl, hmembers, hx', hsel'⟩ := hj.record ["x", "sel"] rfl (by decide) hdepth
  obtain ⟨_, hx', hx⟩ := hx'.required hx nofun
  obtain ⟨_, hsel', hsel⟩ := hsel'.required (decodes_ident hpos) nofun
  simp [selectorOfJson?, hmembers, hx', hx, hsel', hsel]

theorem decodes_index (hx : x.IsDecoded) (hlbrack : lbrack < Nat.pow 2 32) (hindex : index.IsDecoded)
    (hrbrack : rbrack < Nat.pow 2 32) :
    Decodes indexOfJson? (.obj [("x", x.toJson), ("lbrack", posJson lbrack), ("index", index.toJson),
      ("rbrack", posJson rbrack)]) (.index x lbrack index rbrack) := by
  intro depth j hj hdepth
  obtain ⟨d, member, rfl, hmembers, hx', hlbrack', hindex', hrbrack'⟩ :=
    hj.record ["x", "lbrack", "index", "rbrack"] rfl (by decide) hdepth
  obtain ⟨_, hx', hx⟩ := hx'.required hx nofun
  have hlbrack' := hlbrack'.readPos rfl hlbrack
  obtain ⟨_, hindex', hindex⟩ := hindex'.required hindex nofun
  have hrbrack' := hrbrack'.readPos rfl hrbrack
  simp [indexOfJson?, hmembers, hx', hx, hlbrack', hindex', hindex, hrbrack']

theorem decodes_slice {threeIndex : Bool} (hx : x.IsDecoded) (hlbrack : lbrack < Nat.pow 2 32)
    (hlow : ∀ e ∈ low?, e.IsDecoded) (hhigh : ∀ e ∈ high?, e.IsDecoded) (hmax : ∀ e ∈ max?, e.IsDecoded)
    (hrbrack : rbrack < Nat.pow 2 32) :
    Decodes sliceOfJson? (.obj [("x", x.toJson), ("lbrack", posJson lbrack), ("low", optExprJson low?),
      ("high", optExprJson high?), ("max", optExprJson max?), ("slice3", .bool threeIndex),
      ("rbrack", posJson rbrack)]) (.slice x lbrack low? high? max? threeIndex rbrack) := by
  intro depth j hj hdepth
  obtain ⟨d, member, rfl, hmembers, hx', hlbrack', hlow', hhigh', hmax', hthreeIndex', hrbrack'⟩ :=
    hj.record ["x", "lbrack", "low", "high", "max", "slice3", "rbrack"] rfl (by decide) hdepth
  obtain ⟨_, hx', hx⟩ := hx'.required hx nofun
  have hlbrack' := hlbrack'.readPos rfl hlbrack
  have hlow' := hlow'.optExpr rfl hlow
  have hhigh' := hhigh'.optExpr rfl hhigh
  have hmax' := hmax'.optExpr rfl hmax
  have hthreeIndex' := hthreeIndex'.flag rfl
  have hrbrack' := hrbrack'.readPos rfl hrbrack
  simp [sliceOfJson?, hmembers, hx', hx, hlbrack', hlow', hhigh', hmax', hthreeIndex', hrbrack']

theorem decodes_star (hpos : pos < Nat.pow 2 32) (hx : x.IsDecoded) :
    Decodes starOfJson? (.obj [("star", posJson pos), ("x", x.toJson)]) (.star pos x) := by
  intro depth j hj hdepth
  obtain ⟨d, member, rfl, hmembers, hpos', hx'⟩ := hj.record ["star", "x"] rfl (by decide) hdepth
  have hpos' := hpos'.readPos rfl hpos
  obtain ⟨_, hx', hx⟩ := hx'.required hx nofun
  simp [starOfJson?, hmembers, hpos', hx', hx]

theorem decodes_paren (hlparen : lparen < Nat.pow 2 32) (hx : x.IsDecoded) (hrparen : rparen < Nat.pow 2 32) :
    Decodes parenOfJson? (.obj [("lparen", posJson lparen), ("x", x.toJson), ("rparen", posJson rparen)])
      (.paren lparen x rparen) := by
  intro depth j hj hdepth
  obtain ⟨d, member, rfl, hmembers, hlparen', hx', hrparen'⟩ :=
    hj.record ["lparen", "x", "rparen"] rfl (by decide) hdepth
  have hlparen' := hlparen'.readPos rfl hlparen
  obtain ⟨_, hx', hx⟩ := hx'.required hx nofun
  have hrparen' := hrparen'.readPos rfl hrparen
  simp [parenOfJson?, hmembers, hlparen', hx', hx, hrparen']

theorem decodes_funcLit {source : String} (hpos : pos < Nat.pow 2 32) :
    Decodes funcLitOfJson? (.obj [("func", posJson pos), ("source", .str source)]) (.funcLit pos source) := by
  intro depth j hj hdepth
  obtain ⟨d, member, rfl, hmembers, hpos', hsource'⟩ := hj.record ["func", "source"] rfl (by decide) hdepth
  have hpos' := hpos'.readPos rfl hpos
  obtain ⟨_, hsource', hsource⟩ := hsource'.required (decodes_string source) nofun
  simp [funcLitOfJson?, hmembers, hpos', hsource', hsource]

theorem decodes_ellipsis (hpos : pos < Nat.pow 2 32) (helt : ∀ e ∈ elt?, e.IsDecoded) :
    Decodes ellipsisOfJson? (.obj [("pos", posJson pos), ("elt", optExprJson elt?)])
      (.ellipsis pos elt?) := by
  intro depth j hj hdepth
  obtain ⟨d, member, rfl, hmembers, hpos', helt'⟩ := hj.record ["pos", "elt"] rfl (by decide) hdepth
  have hpos' := hpos'.readPos rfl hpos
  have helt' := helt'.optExpr rfl helt
  simp [ellipsisOfJson?, hmembers, hpos', helt']

theorem decodes_arrayType (hlbrack : lbrack < Nat.pow 2 32) (hlen : ∀ e ∈ len?, e.IsDecoded)
    (helt : elt.IsDecoded) :
    Decodes arrayTypeOfJson? (.obj [("lbrack", posJson lbrack), ("len", optExprJson len?),
      ("elt", elt.toJson)]) (.arrayType lbrack len? elt) := by
  intro depth j hj hdepth
  obtain ⟨d, member, rfl, hmembers, hlbrack', hlen', helt'⟩ :=
    hj.record ["lbrack", "len", "elt"] rfl (by decide) hdepth
  have hlbrack' := hlbrack'.readPos rfl hlbrack
  have hlen' := hlen'.optExpr rfl hlen
  obtain ⟨_, helt', helt⟩ := helt'.required helt fun hleft => elt.toJson_ne_null (Option.some.inj hleft).symm
  simp [arrayTypeOfJson?, hmembers, hlbrack', hlen', helt', helt]

theorem decodes_mapType (hpos : pos < Nat.pow 2 32) (hkey : key.IsDecoded) (hvalue : value.IsDecoded) :
    Decodes mapTypeOfJson? (.obj [("map", posJson pos), ("key", key.toJson), ("value", value.toJson)])
      (.mapType pos key value) := by
  intro depth j hj hdepth
  obtain ⟨d, member, rfl, hmembers, hpos', hkey', hvalue'⟩ :=
    hj.record ["map", "key", "value"] rfl (by decide) hdepth
  have hpos' := hpos'.readPos rfl hpos
  obtain ⟨_, hkey', hkey⟩ := hkey'.required hkey nofun
  obtain ⟨_, hvalue', hvalue⟩ := hvalue'.required hvalue nofun
  simp [mapTypeOfJson?, hmembers, hpos', hkey', hkey, hvalue', hvalue]

theorem Literal.decodes_toJson {lit : Literal} (htype : ∀ e ∈ lit.type?, e.IsDecoded)
    (hlbrace : lit.lbrace < Nat.pow 2 32) (helts : ∀ e ∈ lit.elts, e.IsDecoded)
    (hrbrace : lit.rbrace < Nat.pow 2 32) : Decodes ofJson? lit.toJson lit := by
  intro depth j hj hdepth
  obtain ⟨d, member, rfl, hmembers, htype', hlbrace', helts', hrbrace'⟩ :=
    hj.record ["ty", "lbrace", "elts", "rbrace"] rfl (by decide) hdepth
  have htype' := htype'.optExpr rfl htype
  have hlbrace' := hlbrace'.readPos rfl hlbrace
  have helts' := helts'.exprs rfl helts
  have hrbrace' := hrbrace'.readPos rfl hrbrace
  simp [ofJson?, hmembers, htype', hlbrace', helts', hrbrace']

end

mutual

/-- Every expression is read back, whatever has been left out of it. -/
theorem Expr.isDecoded : ∀ e : Expr, e.Fits → e.IsDecoded
  | .ident _ _, h => by
    refine Decodes.tagged (fun depth j hj hdepth => ?_) (fun _ _ => by rw [Expr.ofJson?]) nofun
    rw [decodes_ident h depth j hj hdepth]
    rfl
  | .basicLit _ _ _, h => (decodes_basicLit h).tagged (fun _ _ => by rw [Expr.ofJson?]) nofun
  | .compositeLit type? lbrace elts rbrace, h =>
    have hlit : Decodes Literal.ofJson? (Literal.toJson ⟨type?, lbrace, elts, rbrace⟩) _ :=
      Literal.decodes_toJson (isDecoded_of_optExprFits type? h.1) h.2.1 (isDecoded_of_exprsFit elts h.2.2.1)
        h.2.2.2
    (hlit.map Literal.toExpr).tagged (fun _ _ => by rw [Expr.ofJson?]) nofun
  | .keyValue key _ value, h => (decodes_keyValue (key.isDecoded h.1) h.2.1 (value.isDecoded h.2.2)).tagged
    (fun _ _ => by rw [Expr.ofJson?]) nofun
  | .binary x _ _ y, h => (decodes_binary (x.isDecoded h.1) h.2.1 (y.isDecoded h.2.2)).tagged
    (fun _ _ => by rw [Expr.ofJson?]) nofun
  | .unary _ _ x, h => (decodes_unary h.1 (x.isDecoded h.2)).tagged (fun _ _ => by rw [Expr.ofJson?]) nofun
  | .call callee _ args _ _, h =>
    (decodes_call (callee.isDecoded h.1) h.2.1 (isDecoded_of_exprsFit args h.2.2.1) h.2.2.2).tagged
      (fun _ _ => by rw [Expr.ofJson?]) nofun
  | .selector x _ _, h => (decodes_selector (x.isDecoded h.1) h.2).tagged
    (fun _ _ => by rw [Expr.ofJson?]) nofun
  | .index x _ index _, h => (decodes_index (x.isDecoded h.1) h.2.1 (index.isDecoded h.2.2.1) h.2.2.2).tagged
    (fun _ _ => by rw [Expr.ofJson?]) nofun
  | .slice x _ low? high? max? _ _, h =>
    (decodes_slice (x.isDecoded h.1) h.2.1 (isDecoded_of_optExprFits low? h.2.2.1)
      (isDecoded_of_optExprFits high? h.2.2.2.1) (isDecoded_of_optExprFits max? h.2.2.2.2.1)
      h.2.2.2.2.2).tagged (fun _ _ => by rw [Expr.ofJson?]) nofun
  | .star _ x, h => (decodes_star h.1 (x.isDecoded h.2)).tagged (fun _ _ => by rw [Expr.ofJson?]) nofun
  | .paren _ x _, h => (decodes_paren h.1 (x.isDecoded h.2.1) h.2.2).tagged
    (fun _ _ => by rw [Expr.ofJson?]) nofun
  | .funcLit _ _, h => (decodes_funcLit h).tagged (fun _ _ => by rw [Expr.ofJson?]) nofun
  | .ellipsis _ elt?, h => (decodes_ellipsis h.1 (isDecoded_of_optExprFits elt? h.2)).tagged
    (fun _ _ => by rw [Expr.ofJson?]) nofun
  | .arrayType _ len? elt, h =>
    (decodes_arrayType h.1 (isDecoded_of_optExprFits len? h.2.1) (elt.isDecoded h.2.2)).tagged
      (fun _ _ => by rw [Expr.ofJson?]) nofun
  | .mapType _ key value, h => (decodes_mapType h.1 (key.isDecoded h.2.1) (value.isDecoded h.2.2)).tagged
    (fun _ _ => by rw [Expr.ofJson?]) nofun

theorem isDecoded_of_optExprFits : ∀ e? : Option Expr, optExprFits e? → ∀ e ∈ e?, e.IsDecoded
  | none, _ => nofun
  | some e, h => fun _ he => Option.mem_some_iff.1 he ▸ e.isDecoded h

theorem isDecoded_of_exprsFit : ∀ es : List Expr, exprsFit es → ∀ e ∈ es, e.IsDecoded
  | [], _ => nofun
  | e :: rest, h => List.forall_mem_cons.2 ⟨e.isDecoded h.1, isDecoded_of_exprsFit rest h.2⟩

end

theorem Literal.Fits.decodes_toJson {lit : Literal} (h : lit.Fits) : Decodes Literal.ofJson? lit.toJson lit :=
  Literal.decodes_toJson (isDecoded_of_optExprFits lit.type? h.1) h.2.1
    (isDecoded_of_exprsFit lit.elts h.2.2.1) h.2.2.2

end LiteralFill
