import LiteralFill.Json.Record
import LiteralFill.TypeTable

namespace LiteralFill

open Json (members? alternative? tagged? string? bool? nat? orDefault orNull list?)

def IntegerBits.tag : IntegerBits → String
  | .bits8 => "bits8"
  | .bits16 => "bits16"
  | .bits32 => "bits32"
  | .bits64 => "bits64"
  | .native => "native"

def IntegerBits.ofTag? : String → Option IntegerBits
  | "bits8" => some .bits8
  | "bits16" => some .bits16
  | "bits32" => some .bits32
  | "bits64" => some .bits64
  | "native" => some .native
  | _ => none

def Sign.tag : Sign → String
  | .signed => "signed"
  | .unsigned => "unsigned"

def Sign.ofTag? : String → Option Sign
  | "signed" => some .signed
  | "unsigned" => some .unsigned
  | _ => none

def FloatSize.tag : FloatSize → String
  | .bits32 => "bits32"
  | .bits64 => "bits64"

def FloatSize.ofTag? : String → Option FloatSize
  | "bits32" => some .bits32
  | "bits64" => some .bits64
  | _ => none

def UntypedKind.tag : UntypedKind → String
  | .bool => "bool"
  | .int => "int"
  | .rune => "rune"
  | .float => "float"
  | .complex => "complex"
  | .string => "string"
  | .nil => "nil"

def UntypedKind.ofTag? : String → Option UntypedKind
  | "bool" => some .bool
  | "int" => some .int
  | "rune" => some .rune
  | "float" => some .float
  | "complex" => some .complex
  | "string" => some .string
  | "nil" => some .nil
  | _ => none

def ChanDir.tag : ChanDir → String
  | .both => "both"
  | .send => "send"
  | .recv => "recv"

def ChanDir.ofTag? : String → Option ChanDir
  | "both" => some .both
  | "send" => some .send
  | "recv" => some .recv
  | _ => none

def BasicKind.ofTag? : String → Option BasicKind
  | "bool" => some .bool
  | "byte" => some .byte
  | "rune" => some .rune
  | "uintptr" => some .uintptr
  | "unsafe_pointer" => some .unsafePointer
  | "string" => some .string
  | "invalid" => some .invalid
  | _ => none

/-- A kind with a content: its size, its width and sign, or the constants it is about. -/
def BasicKind.ofTagged? (depth : Nat) (tag : String) (content : Json) : Option BasicKind :=
  match tag with
  | "integer" =>
    match depth, content with
    | depth + 1, .arr [bits, sign] => do
      let bits ← (alternative? depth bits).bind IntegerBits.ofTag?
      return .integer bits (← (alternative? depth sign).bind Sign.ofTag?)
    | _, _ => none
  | "float" => ((alternative? depth content).bind FloatSize.ofTag?).map .float
  | "complex" => ((alternative? depth content).bind FloatSize.ofTag?).map .complex
  | "untyped" => ((alternative? depth content).bind UntypedKind.ofTag?).map .untyped
  | _ => none

def BasicKind.ofJson? (depth : Nat) (j : Json) : Option BasicKind :=
  match (alternative? depth j).bind ofTag? with
  | some kind => some kind
  | none =>
    match depth, tagged? j with
    | depth + 1, some (tag, content) => ofTagged? depth tag content
    | _, _ => none

def BasicKind.toJson : BasicKind → Json
  | .bool => .str "bool"
  | .integer bits sign => .obj [("integer", .arr [.str bits.tag, .str sign.tag])]
  | .byte => .str "byte"
  | .rune => .str "rune"
  | .uintptr => .str "uintptr"
  | .unsafePointer => .str "unsafe_pointer"
  | .float size => .obj [("float", .str size.tag)]
  | .complex size => .obj [("complex", .str size.tag)]
  | .string => .str "string"
  | .untyped kind => .obj [("untyped", .str kind.tag)]
  | .invalid => .str "invalid"

def Scope.toJson (s : Scope) : Json := .obj [("path", .str s.path), ("name", .str s.name)]

def Scope.ofJson? : Nat → Json → Option Scope
  | 0, _ => none
  | _ + 1, j => do
    let [path, name] ← j.members? ["path", "name"] | none
    return ⟨← string? (← path), ← string? (← name)⟩

def Import.toJson (i : Import) : Json := .obj [("path", .str i.path), ("name", .ofOption .str i.name?)]

def Import.ofJson? : Nat → Json → Option Import
  | 0, _ => none
  | _ + 1, j => do
    let [path, name] ← j.members? ["path", "name"] | none
    return ⟨← string? (← path), ← orNull string? name⟩

mutual

def Ty.toJson : Ty → Json
  | .basic kind => .obj [("basic", kind.toJson)]
  | .chan dir elem => .obj [("chan", .obj [("dir", .str dir.tag), ("elem", elem.toJson)])]
  | .func signature => .obj [("signature", signature.toJson)]
  | .slice elem => .obj [("slice", elem.toJson)]
  | .interface methods => .obj [("interface", .obj [("methods", .arr (methodsJson methods))])]
  | .array len elem => .obj [("array", .obj [("elem", elem.toJson), ("len", .nat len)])]
  | .map key value => .obj [("map", .obj [("key", key.toJson), ("value", value.toJson)])]
  | .struct fields => .obj [("struct", .obj [("fields", .arr (fieldsJson fields))])]
  | .named decl => .obj [("named", .nat decl)]
  | .pointer elem => .obj [("pointer", elem.toJson)]
  | .tuple elems => .obj [("tuple", .arr (typesJson elems))]

def Signature.toJson : Signature → Json
  | ⟨params, results, variadic⟩ =>
    .obj [("params", .arr (typesJson params)), ("results", .arr (typesJson results)),
      ("variadic", .bool variadic)]

def typesJson : List Ty → List Json
  | [] => []
  | ty :: rest => ty.toJson :: typesJson rest

def methodsJson : List Method → List Json
  | [] => []
  | ⟨name, signature⟩ :: rest =>
    .obj [("name", .str name), ("signature", signature.toJson)] :: methodsJson rest

def fieldsJson : List Field → List Json
  | [] => []
  | ⟨name, exported, embedded, scope, ty⟩ :: rest =>
    .obj [("name", .str name), ("exported", .bool exported), ("embedded", .bool embedded),
      ("scope", scope.toJson), ("ty", ty.toJson)] :: fieldsJson rest

end

mutual

/-- Reads a type in which no more than `depth` arrays and objects are nested. -/
def Ty.ofJson? : Nat → Json → Option Ty
  | depth + 1, .obj [("basic", j)] => (BasicKind.ofJson? depth j).map .basic
  | depth + 1, .obj [("chan", j)] => chanOfJson? depth j
  | depth + 1, .obj [("signature", j)] => (Signature.ofJson? depth j).map .func
  | depth + 1, .obj [("slice", j)] => (Ty.ofJson? depth j).map .slice
  | depth + 1, .obj [("interface", j)] => interfaceOfJson? depth j
  | depth + 1, .obj [("array", j)] => arrayOfJson? depth j
  | depth + 1, .obj [("map", j)] => mapOfJson? depth j
  | depth + 1, .obj [("struct", j)] => structOfJson? depth j
  | _ + 1, .obj [("named", j)] => (nat? 64 j).map .named
  | depth + 1, .obj [("pointer", j)] => (Ty.ofJson? depth j).map .pointer
  | depth + 1, .obj [("tuple", j)] => (typesOfJson? depth j).map .tuple
  | _, _ => none

def typesOfJson? : Nat → Json → Option (List Ty)
  | depth + 1, .arr items => items.mapM (Ty.ofJson? depth)
  | _, _ => none

def chanOfJson? : Nat → Json → Option Ty
  | 0, _ => none
  | depth + 1, j => do
    let [dir, elem] ← j.members? ["dir", "elem"] | none
    let dir ← orDefault .both (fun j => (alternative? depth j).bind ChanDir.ofTag?) dir
    return .chan dir (← Ty.ofJson? depth (← elem))

def Signature.ofJson? : Nat → Json → Option Signature
  | 0, _ => none
  | depth + 1, j => do
    let [params, results, variadic] ← j.members? ["params", "results", "variadic"] | none
    let params ← orDefault [] (typesOfJson? depth) params
    return ⟨params, ← orDefault [] (typesOfJson? depth) results, ← orDefault false bool? variadic⟩

def interfaceOfJson? : Nat → Json → Option Ty
  | 0, _ => none
  | depth + 1, j => do
    let [methods] ← j.members? ["methods"] | none
    return .interface (← orDefault [] (methodsOfJson? depth) methods)

def methodsOfJson? : Nat → Json → Option (List Method)
  | depth + 1, .arr items => items.mapM (Method.ofJson? depth)
  | _, _ => none

def Method.ofJson? : Nat → Json → Option Method
  | 0, _ => none
  | depth + 1, j => do
    let [name, signature] ← j.members? ["name", "signature"] | none
    return ⟨← string? (← name), ← Signature.ofJson? depth (← signature)⟩

def arrayOfJson? : Nat → Json → Option Ty
  | 0, _ => none
  | depth + 1, j => do
    let [elem, len] ← j.members? ["elem", "len"] | none
    let elem ← Ty.ofJson? depth (← elem)
    return .array (← nat? 64 (← len)) elem

def mapOfJson? : Nat → Json → Option Ty
  | 0, _ => none
  | depth + 1, j => do
    let [key, value] ← j.members? ["key", "value"] | none
    return .map (← Ty.ofJson? depth (← key)) (← Ty.ofJson? depth (← value))

def structOfJson? : Nat → Json → Option Ty
  | 0, _ => none
  | depth + 1, j => do
    let [fields] ← j.members? ["fields"] | none
    return .struct (← fieldsOfJson? depth (← fields))

def fieldsOfJson? : Nat → Json → Option (List Field)
  | depth + 1, .arr items => items.mapM (Field.ofJson? depth)
  | _, _ => none

def Field.ofJson? : Nat → Json → Option Field
  | 0, _ => none
  | depth + 1, j => do
    let [name, exported, embedded, scope, ty] ←
      j.members? ["name", "exported", "embedded", "scope", "ty"] | none
    let scope ← Scope.ofJson? depth (← scope)
    return ⟨← string? (← name), ← bool? (← exported), ← orDefault false bool? embedded, scope,
      ← Ty.ofJson? depth (← ty)⟩

end

def TypeDecl.toJson (d : TypeDecl) : Json :=
  .obj [("name", .str d.name), ("scope", .ofOption Scope.toJson d.scope?),
    ("exported", .bool d.exported), ("underlying", d.underlying.toJson)]

def TypeDecl.ofJson? : Nat → Json → Option TypeDecl
  | 0, _ => none
  | depth + 1, j => do
    let [name, scope, exported, underlying] ←
      j.members? ["name", "scope", "exported", "underlying"] | none
    return ⟨← string? (← name), ← orNull (Scope.ofJson? depth) scope, ← bool? (← exported),
      ← Ty.ofJson? depth (← underlying)⟩

def TypeTable.toJson (t : TypeTable) : Json := .arr (t.decls.toList.map TypeDecl.toJson)

def TypeTable.ofJson? (depth : Nat) (j : Json) : Option TypeTable :=
  (list? TypeDecl.ofJson? depth j).map fun decls => ⟨decls.toArray⟩

end LiteralFill
