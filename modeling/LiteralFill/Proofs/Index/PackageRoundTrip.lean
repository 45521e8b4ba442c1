import LiteralFill.Index.Loader
import LiteralFill.Proofs.Index.ExprRoundTrip
import LiteralFill.Proofs.Index.Plain
import LiteralFill.Proofs.Index.TyRoundTrip

namespace LiteralFill

open Json (Decodes decodes_string decodes_bool decodes_nat)

structure LiteralSite.Fits (s : LiteralSite) : Prop where
  start : s.start < Nat.pow 2 64
  stop : s.stop < Nat.pow 2 64
  ty : s.ty.Fits
  literal : s.literal.Fits

/-- All numbers have as many bits as are kept of them. -/
structure CheckedPackage.Fits (p : CheckedPackage) : Prop where
  types : ∀ d ∈ p.types.decls.toList, d.underlying.Fits
  sites : ∀ f ∈ p.files, ∀ s ∈ f.literals, s.Fits

theorem TypeDecl.decodes_toJson {d : TypeDecl} (h : d.underlying.Fits) : Decodes ofJson? d.toJson d := by
  intro depth j hj hdepth
  obtain ⟨n, member, rfl, hmembers, hname, hscope, hexported, hunderlying⟩ :=
    hj.record ["name", "scope", "exported", "underlying"] rfl (by decide) hdepth
  obtain ⟨_, hname, hname'⟩ := hname.required (decodes_string d.name) nofun
  have hscope := hscope.orNull rfl rfl (fun s _ => s.decodes_toJson) nofun
  obtain ⟨_, hexported, hexported'⟩ := hexported.required (decodes_bool d.exported) nofun
  obtain ⟨_, hunderlying, hunderlying'⟩ := hunderlying.required (d.underlying.isDecoded h) nofun
  simp [ofJson?, hmembers, hname, hname', hscope, hexported, hexported', hunderlying, hunderlying']

theorem TypeTable.decodes_toJson {t : TypeTable} (h : ∀ d ∈ t.decls.toList, d.underlying.Fits) :
    Decodes ofJson? t.toJson t :=
  (Decodes.list fun d hd => TypeDecl.decodes_toJson (h d hd)).map fun decls => TypeTable.mk decls.toArray

theorem TypeTable.eq_empty_of_toJson {t : TypeTable} (h : t.toJson = .arr []) : t = .empty := by
  obtain ⟨decls⟩ := t
  exact congrArg TypeTable.mk (Array.toList_eq_nil_iff.1 (List.map_eq_nil_iff.1 (Json.arr.inj h)))

theorem LiteralSite.Fits.decodes_toJson {s : LiteralSite} (h : s.Fits) : Decodes ofJson? s.toJson s := by
  intro depth j hj hdepth
  obtain ⟨d, member, rfl, hmembers, hstart, hstop, hty, hliteral, helided⟩ :=
    hj.record ["start", "end", "ty", "literal", "type_elided"] rfl (by decide) hdepth
  obtain ⟨_, hstart, hstart'⟩ := hstart.required (decodes_nat h.start) nofun
  obtain ⟨_, hstop, hstop'⟩ := hstop.required (decodes_nat h.stop) nofun
  obtain ⟨_, hty, hty'⟩ := hty.required (s.ty.isDecoded h.ty) fun hleft =>
    s.ty.toJson_ne_null (Option.some.inj hleft).symm
  obtain ⟨_, hliteral, hliteral'⟩ := hliteral.required h.literal.decodes_toJson nofun
  have helided := helided.flag rfl
  simp [ofJson?, hmembers, hstart, hstart', hstop, hstop', hty, hty', hliteral, hliteral', helided]

theorem CheckedFile.decodes_toJson {f : CheckedFile} (h : ∀ s ∈ f.literals, s.Fits) :
    Decodes ofJson? f.toJson f := by
  intro depth j hj hdepth
  obtain ⟨d, member, rfl, hmembers, hpath, himports, hliterals⟩ :=
    hj.record ["path", "imports", "literals"] rfl (by decide) hdepth
  obtain ⟨_, hpath, hpath'⟩ := hpath.required (decodes_string f.path.text) nofun
  have himports := himports.list rfl rfl fun i _ => i.decodes_toJson
  have hliterals := Json.Survives.list hliterals rfl rfl fun s hs => (h s hs).decodes_toJson
  simp [ofJson?, hmembers, hpath, hpath', himports, hliterals]

theorem CheckedPackage.Fits.decodes_toJson {p : CheckedPackage} (h : p.Fits) :
    Decodes ofJson? p.toJson p := by
  intro depth j hj hdepth
  obtain ⟨d, member, rfl, hmembers, hscope, htypes, hfiles⟩ :=
    hj.record ["scope", "types", "files"] rfl (by decide) hdepth
  obtain ⟨_, hscope, hscope'⟩ := hscope.required p.scope.decodes_toJson nofun
  have htypes := htypes.orDefault (TypeTable.decodes_toJson h.types) fun hleft =>
    TypeTable.eq_empty_of_toJson (Option.some.inj hleft).symm
  have hfiles := Json.Survives.list hfiles rfl rfl fun f hf => CheckedFile.decodes_toJson (h.sites f hf)
  simp [ofJson?, hmembers, hscope, hscope', htypes, hfiles]

/-- A package is read back from the text of its index, and from that of an index that leaves out, in
whatever places, what has its default, as long as it is not nested too deep. -/
theorem readPackage?_render {p : CheckedPackage} {j : Json} (hp : p.Fits) (hj : p.toJson.Omits j)
    (hdepth : j.depth ≤ Json.maxDepth) : readPackage? j.render = some p := by
  rw [readPackage?, Json.read?_render (hj.isPlain p.isPlain_toJson), Option.bind_some]
  exact hp.decodes_toJson Json.maxDepth j hj hdepth

/-- A file with the literal `T{}` in it. -/
def emptyLiteral : CheckedPackage :=
  let app : Scope := ⟨"example.com/app", "app"⟩
  ⟨app, ⟨#[⟨"T", some app, true, .struct []⟩]⟩, [⟨⟨"main.go"⟩, [⟨"fmt", none⟩],
    [⟨20, 23, .named 0, ⟨some (.ident "T" noPos), noPos, [], noPos⟩, false⟩]⟩]⟩

/-- Its index without anything that may be left out. -/
def emptyLiteralIndex : Json :=
  .obj [("scope", emptyLiteral.scope.toJson), ("types", emptyLiteral.types.toJson),
    ("files", .arr [.obj [("path", .str "main.go"), ("imports", .arr [.obj [("path", .str "fmt")]]),
      ("literals", .arr [.obj [("start", .nat 20), ("end", .nat 23), ("ty", .obj [("named", .nat 0)]),
        ("literal", .obj [("ty", .obj [("ident", .obj [("name", .str "T")])])])]])]])]

theorem readPackage?_render_emptyLiteral :
    emptyLiteral.toJson.Omits emptyLiteralIndex ∧
      readPackage? emptyLiteralIndex.render = some emptyLiteral := by
  have himport : (Import.toJson ⟨"fmt", none⟩).Omits (.obj [("path", .str "fmt")]) :=
    .obj (.keep (.refl _) (.leave rfl .nil))
  have hident : (Expr.toJson (.ident "T" noPos)).Omits (.obj [("ident", .obj [("name", .str "T")])]) :=
    .obj (.keep (.obj (.keep (.refl _) (.leave rfl .nil))) .nil)
  have hliteral : (Literal.toJson ⟨some (.ident "T" noPos), noPos, [], noPos⟩).Omits
      (.obj [("ty", .obj [("ident", .obj [("name", .str "T")])])]) :=
    .obj (.keep hident (.leave rfl (.leave rfl (.leave rfl .nil))))
  have hj : emptyLiteral.toJson.Omits emptyLiteralIndex :=
    .obj (.keep (.refl _) (.keep (.refl _) (.keep (.arr (.cons (.obj (.keep (.refl _)
      (.keep (.arr (.cons himport .nil)) (.keep (.arr (.cons (.obj (.keep (.refl _) (.keep (.refl _)
        (.keep (.refl _) (.keep hliteral (.leave rfl .nil)))))) .nil)) .nil)))) .nil)) .nil)))
  have hsite : LiteralSite.Fits ⟨20, 23, .named 0, ⟨some (.ident "T" noPos), noPos, [], noPos⟩, false⟩ :=
    ⟨by decide, by decide, by simp [Ty.Fits], by simp [Literal.Fits, optExprFits, Expr.Fits, exprsFit, noPos]⟩
  have hfits : emptyLiteral.Fits := {
    types := by simp [emptyLiteral, Ty.Fits, fieldsFit]
    sites := by simpa [emptyLiteral] using hsite }
  exact ⟨hj, readPackage?_render hfits hj (by decide)⟩

end LiteralFill
