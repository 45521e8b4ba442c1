import LiteralFill.Expr.Basic
import LiteralFill.Proofs.Typing.Operand
import LiteralFill.TypeName

namespace LiteralFill

/-- Whether an expression is written for a type. A name of any length may stand as one word. -/
inductive Expr.Denotes (v : Viewpoint) : Expr → Ty → Prop
  | word {name : String} {pos : Nat} {ty : Ty} :
    ty.spell v = .ok name → Denotes v (.ident name pos) ty
  | qualified {package name : String} {pos namePos : Nat} {ty : Ty} :
    ty.spell v = .ok (package ++ "." ++ name) →
      Denotes v (.selector (.ident package pos) name namePos) ty
  | array {lbrack pos len : Nat} {e : Expr} {elem : Ty} :
    e.Denotes v elem →
      Denotes v (.arrayType lbrack (some (.basicLit .int (toString len) pos)) e) (.array len elem)
  | map {pos : Nat} {k e : Expr} {key value : Ty} :
    k.Denotes v key → e.Denotes v value → Denotes v (.mapType pos k e) (.map key value)

/-- The kind of a literal that is written for zero. -/
def LitKind.zeroKind? : LitKind → String → Option UntypedKind
  | .int, "0" => some .int
  | .float, "0.0" => some .float
  | .imag, "0i" => some .complex
  | .string, "\"\"" => some .string
  | _, _ => none

/-- Whether a literal of the type may have so many elements. -/
def Ty.holds : Ty → Nat → Bool
  | .struct _, _ | .slice _, _ | .map _ _, _ => true
  | .array len _, n => n ≤ len
  | _, _ => false

mutual

/-- What an expression is, if the literal around it tells the type `hint?` of its elements. `Accepts` says
which operand may stand for a value of which type in the literals inside it. -/
inductive HasType (v : Viewpoint) (Accepts : Operand → Ty → Prop) : Option Ty → Expr → Operand → Prop
  | false {hint? : Option Ty} {pos : Nat} : HasType v Accepts hint? (.ident "false" pos) (.zero .bool)
  | nil {hint? : Option Ty} {pos : Nat} : HasType v Accepts hint? (.ident "nil" pos) .nil
  | lit {hint? : Option Ty} {kind : LitKind} {text : String} {pos : Nat} {zero : UntypedKind} :
    kind.zeroKind? text = some zero → HasType v Accepts hint? (.basicLit kind text pos) (.zero zero)
  | paren {hint? : Option Ty} {lparen rparen : Nat} {x : Expr} {o : Operand} :
    HasType v Accepts none x o → HasType v Accepts hint? (.paren lparen x rparen) o
  | sum {hint? : Option Ty} {opPos : Nat} {x y : Expr} :
    HasType v Accepts none x (.zero .int) → HasType v Accepts none y (.zero .complex) →
      HasType v Accepts hint? (.binary x opPos .add y) (.zero .complex)
  | conversion {hint? : Option Ty} {callee arg : Expr} {lparen rparen : Nat} {ty : Ty} {o : Operand} :
    callee.Denotes v ty → HasType v Accepts none arg o → o.ConvertibleTo v.table ty →
      HasType v Accepts hint? (.call callee lparen [arg] false rparen) (.typed ty)
  | literal {hint? : Option Ty} {type : Expr} {lbrace rbrace : Nat} {elts : List Expr}
    {ty target : Ty} :
    type.Denotes v ty → v.table.underlying ty = .ok target → target.holds elts.length = true →
      (∀ e ∈ elts, ElementOf v Accepts target e) →
      HasType v Accepts hint? (.compositeLit (some type) lbrace elts rbrace) (.typed ty)
  | address {hint? : Option Ty} {name : String} {pos lbrace rbrace : Nat} {elts : List Expr}
    {ty target : Ty} :
    ty.spell v = .ok name → v.table.underlying ty = .ok target → target.holds elts.length = true →
      (∀ e ∈ elts, ElementOf v Accepts target e) →
      HasType v Accepts hint? (.compositeLit (some (.ident ("&" ++ name) pos)) lbrace elts rbrace)
        (.typed (.pointer ty))
  | elided {lbrace rbrace : Nat} {elts : List Expr} {ty target : Ty} :
    v.table.underlying ty = .ok target → target.holds elts.length = true →
      (∀ e ∈ elts, ElementOf v Accepts target e) →
      HasType v Accepts (some ty) (.compositeLit none lbrace elts rbrace) (.typed ty)
  | elidedAddress {lbrace rbrace : Nat} {elts : List Expr} {ty elem target : Ty} :
    v.table.underlying ty = .ok (.pointer elem) → v.table.underlying elem = .ok target →
      target.holds elts.length = true → (∀ e ∈ elts, ElementOf v Accepts target e) →
      HasType v Accepts (some ty) (.compositeLit none lbrace elts rbrace) (.typed ty)

/-- Whether an expression may stand between the braces of a literal of the type. -/
inductive ElementOf (v : Viewpoint) (Accepts : Operand → Ty → Prop) : Ty → Expr → Prop
  | field {fields : List Field} {f : Field} {pos colon : Nat} {value : Expr} {o : Operand} :
    f ∈ fields → HasType v Accepts none value o → Accepts o f.ty →
      ElementOf v Accepts (.struct fields) (.keyValue (.ident f.name pos) colon value)
  | item {len : Nat} {elem : Ty} {e : Expr} {o : Operand} :
    HasType v Accepts (some elem) e o → Accepts o elem → ElementOf v Accepts (.array len elem) e
  | entry {key value : Ty} {k e : Expr} {colon : Nat} {o o' : Operand} :
    HasType v Accepts (some key) k o → Accepts o key →
      HasType v Accepts (some value) e o' → Accepts o' value →
      ElementOf v Accepts (.map key value) (.keyValue k colon e)

end

end LiteralFill
