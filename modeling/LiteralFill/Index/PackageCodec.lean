import LiteralFill.Index.ExprCodec
import LiteralFill.Index.TyCodec
import LiteralFill.Package

namespace LiteralFill

open Json (members? string? bool? nat? orDefault orNull list?)

def LiteralSite.toJson (s : LiteralSite) : Json :=
  .obj [("start", .nat s.start), ("end", .nat s.stop), ("ty", s.ty.toJson),
    ("literal", s.literal.toJson), ("type_elided", .bool s.typeElided)]

def LiteralSite.ofJson? : Nat → Json → Option LiteralSite
  | 0, _ => none
  | depth + 1, j => do
    let [start, stop, ty, literal, typeElided] ←
      j.members? ["start", "end", "ty", "literal", "type_elided"] | none
    return ⟨← nat? 64 (← start), ← nat? 64 (← stop), ← Ty.ofJson? depth (← ty),
      ← Literal.ofJson? depth (← literal), ← orDefault false bool? typeElided⟩

def CheckedFile.toJson (f : CheckedFile) : Json :=
  .obj [("path", .str f.path.text), ("imports", .arr (f.imports.map Import.toJson)),
    ("literals", .arr (f.literals.map LiteralSite.toJson))]

def CheckedFile.ofJson? : Nat → Json → Option CheckedFile
  | 0, _ => none
  | depth + 1, j => do
    let [path, imports, literals] ← j.members? ["path", "imports", "literals"] | none
    return ⟨⟨← string? (← path)⟩, ← orDefault [] (list? Import.ofJson? depth) imports,
      ← orDefault [] (list? LiteralSite.ofJson? depth) literals⟩

def CheckedPackage.toJson (p : CheckedPackage) : Json :=
  .obj [("scope", p.scope.toJson), ("types", p.types.toJson),
    ("files", .arr (p.files.map CheckedFile.toJson))]

def CheckedPackage.ofJson? : Nat → Json → Option CheckedPackage
  | 0, _ => none
  | depth + 1, j => do
    let [scope, types, files] ← j.members? ["scope", "types", "files"] | none
    return ⟨← Scope.ofJson? depth (← scope), ← orDefault .empty (TypeTable.ofJson? depth) types,
      ← orDefault [] (list? CheckedFile.ofJson? depth) files⟩

end LiteralFill
