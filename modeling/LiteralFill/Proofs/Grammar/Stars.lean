import LiteralFill.Printer.Spacing
import LiteralFill.Proofs.Grammar.Sentence
import Mathlib.Algebra.GroupWithZero.Nat
import Mathlib.Algebra.Order.BigOperators.Group.List
import Mathlib.Algebra.Order.Group.Nat

namespace LiteralFill

/-- The expressions that an expression is made of, one step down and in the order of writing. -/
def Expr.parts : Expr → List Expr
  | .ident _ _ | .basicLit _ _ _ | .funcLit _ _ => []
  | .unary _ _ x | .star _ x | .paren _ x _ | .selector x _ _ => [x]
  | .binary x _ _ y | .index x _ y _ | .keyValue x _ y | .mapType _ x y => [x, y]
  | .call callee _ args _ _ => callee :: args
  | .slice x _ low? high? max? _ _ => x :: (low?.toList ++ (high?.toList ++ max?.toList))
  | .compositeLit type? _ elts _ => type?.toList ++ elts
  | .ellipsis _ elt? => elt?.toList
  | .arrayType _ len? elt => len?.toList ++ [elt]

namespace Expr

theorem sizeOf_lt_of_mem_toList {x : Expr} {e? : Option Expr} (h : x ∈ e?.toList) :
    sizeOf x < sizeOf e? := by
  obtain rfl := Option.mem_toList.1 h
  rw [Option.some.sizeOf_spec]
  omega

theorem sizeOf_lt_of_mem_parts {x e : Expr} (h : x ∈ e.parts) : sizeOf x < sizeOf e := by
  cases e with
  | ident _ _ | basicLit _ _ _ | funcLit _ _ => cases h
  | unary _ _ y | star _ y | paren _ y _ | selector y _ _ =>
    obtain rfl := List.mem_singleton.1 h
    simp only [unary.sizeOf_spec, star.sizeOf_spec, paren.sizeOf_spec, selector.sizeOf_spec]
    omega
  | binary y _ _ z | index y _ z _ | keyValue y _ z | mapType _ y z =>
    simp only [parts, List.mem_cons, List.not_mem_nil, or_false] at h
    simp only [binary.sizeOf_spec, index.sizeOf_spec, keyValue.sizeOf_spec, mapType.sizeOf_spec]
    rcases h with rfl | rfl <;> omega
  | call callee _ args _ _ =>
    rw [call.sizeOf_spec]
    rcases List.mem_cons.1 h with rfl | h
    · omega
    · have harg : sizeOf x < sizeOf args := List.sizeOf_lt_of_mem h
      omega
  | slice y _ low? high? max? _ _ =>
    rw [slice.sizeOf_spec]
    simp only [parts, List.mem_cons, List.mem_append] at h
    rcases h with rfl | h | h | h
    · omega
    all_goals
      have hbound := sizeOf_lt_of_mem_toList h
      omega
  | compositeLit type? _ elts _ =>
    rw [compositeLit.sizeOf_spec]
    rcases List.mem_append.1 h with h | h
    · have htype := sizeOf_lt_of_mem_toList h
      omega
    · have helt : sizeOf x < sizeOf elts := List.sizeOf_lt_of_mem h
      omega
  | ellipsis _ elt? =>
    have helt := sizeOf_lt_of_mem_toList h
    rw [ellipsis.sizeOf_spec]
    omega
  | arrayType _ len? elt =>
    rw [arrayType.sizeOf_spec]
    rcases List.mem_append.1 h with h | h
    · have hlen := sizeOf_lt_of_mem_toList h
      omega
    · obtain rfl := List.mem_singleton.1 h
      omega

/-- The sum of a number over an expression and all expressions inside of it. -/
def total (f : Expr → Nat) (e : Expr) : Nat := f e + (e.parts.attach.map fun x => x.1.total f).sum
termination_by sizeOf e
decreasing_by exact sizeOf_lt_of_mem_parts x.2

theorem total_eq (f : Expr → Nat) (e : Expr) : e.total f = f e + (e.parts.map (total f)).sum := by
  rw [total, List.map_subtype (g := total f) fun _ _ => rfl, List.unattach_attach]

/-- What holds of an expression as soon as it holds of its parts holds of all expressions. -/
theorem induction_parts {motive : Expr → Prop} (h : ∀ e, (∀ x ∈ e.parts, motive x) → motive e)
    (e : Expr) : motive e := h e fun x _ => induction_parts h x
termination_by sizeOf e
decreasing_by exact sizeOf_lt_of_mem_parts ‹_›

theorem skeletonAll_eq_map (args : List Expr) : skeletonAll args = args.map skeleton := by
  induction args with
  | nil => rfl
  | cons e rest ih => rw [skeletonAll, ih, List.map_cons]

theorem toList_skeletonOpt (e? : Option Expr) : (skeletonOpt e?).toList = e?.toList.map skeleton := by
  cases e? <;> rfl

theorem parts_skeleton {e : Expr} (h : ∀ lparen x rparen, e ≠ .paren lparen x rparen) :
    e.skeleton.parts = e.parts.map skeleton := by
  cases e with
  | paren _ _ _ => exact absurd rfl (h _ _ _)
  | _ => simp [skeleton, parts, skeletonAll_eq_map, toList_skeletonOpt]

/-- A number that parentheses have no part in is the same without them. -/
theorem total_skeleton {f : Expr → Nat} (hparen : ∀ lparen x rparen, f (.paren lparen x rparen) = 0)
    (hf : ∀ e, (∀ lparen x rparen, e ≠ .paren lparen x rparen) → f e.skeleton = f e) (e : Expr) :
    e.skeleton.total f = e.total f := by
  induction e using induction_parts with
  | h e ih =>
    by_cases h : ∃ lparen x rparen, e = .paren lparen x rparen
    · obtain ⟨lparen, x, rparen, rfl⟩ := h
      rw [skeleton, ih x List.mem_cons_self, total_eq f (.paren lparen x rparen), hparen, Nat.zero_add]
      rfl
    · have hne : ∀ lparen x rparen, e ≠ .paren lparen x rparen := fun _ _ _ heq => h ⟨_, _, _, heq⟩
      have hparts : (e.parts.map skeleton).map (total f) = e.parts.map (total f) := by
        rw [List.map_map]
        exact List.map_congr_left ih
      rw [total_eq, total_eq, parts_skeleton hne, hparts, hf e hne]

/-- One for a binary expression. -/
def ownOperators (e : Expr) : Nat := if e.binaryOp?.isSome then 1 else 0

def starOperand? : Expr → Option Expr
  | .star _ x => some x
  | _ => none

/-- The number of binary operators. -/
def operatorCount (e : Expr) : Nat := e.total ownOperators

/-- How many binary operators stand below stars, those below several stars counted for each. -/
def starReach (e : Expr) : Nat := e.total fun x => (x.starOperand?.map operatorCount).getD 0

/-- The number of stars whose operand is a binary expression without parentheses. -/
def looseStars (e : Expr) : Nat := e.total fun x => (x.starOperand?.map ownOperators).getD 0

theorem operatorCount_eq (e : Expr) :
    e.operatorCount = e.ownOperators + (e.parts.map operatorCount).sum := e.total_eq _

theorem starReach_eq (e : Expr) :
    e.starReach = (e.starOperand?.map operatorCount).getD 0 + (e.parts.map starReach).sum := e.total_eq _

theorem looseStars_eq (e : Expr) :
    e.looseStars = (e.starOperand?.map ownOperators).getD 0 + (e.parts.map looseStars).sum :=
  e.total_eq _

@[simp]
theorem operatorCount_binary (x : Expr) (opPos : Nat) (op : BinaryOp) (y : Expr) :
    (binary x opPos op y).operatorCount = 1 + (x.operatorCount + y.operatorCount) := operatorCount_eq _

@[simp]
theorem operatorCount_unary (opPos : Nat) (op : UnaryOp) (x : Expr) :
    (unary opPos op x).operatorCount = x.operatorCount := (operatorCount_eq _).trans (Nat.zero_add _)

@[simp]
theorem operatorCount_star (starPos : Nat) (x : Expr) :
    (star starPos x).operatorCount = x.operatorCount := (operatorCount_eq _).trans (Nat.zero_add _)

@[simp]
theorem operatorCount_paren (lparen : Nat) (x : Expr) (rparen : Nat) :
    (paren lparen x rparen).operatorCount = x.operatorCount := (operatorCount_eq _).trans (Nat.zero_add _)

@[simp]
theorem starReach_binary (x : Expr) (opPos : Nat) (op : BinaryOp) (y : Expr) :
    (binary x opPos op y).starReach = x.starReach + y.starReach := (starReach_eq _).trans (Nat.zero_add _)

@[simp]
theorem starReach_unary (opPos : Nat) (op : UnaryOp) (x : Expr) :
    (unary opPos op x).starReach = x.starReach := (starReach_eq _).trans (Nat.zero_add _)

@[simp]
theorem starReach_star (starPos : Nat) (x : Expr) :
    (star starPos x).starReach = x.operatorCount + x.starReach := starReach_eq _

@[simp]
theorem starReach_paren (lparen : Nat) (x : Expr) (rparen : Nat) :
    (paren lparen x rparen).starReach = x.starReach := (starReach_eq _).trans (Nat.zero_add _)

@[simp]
theorem looseStars_binary (x : Expr) (opPos : Nat) (op : BinaryOp) (y : Expr) :
    (binary x opPos op y).looseStars = x.looseStars + y.looseStars :=
  (looseStars_eq _).trans (Nat.zero_add _)

@[simp]
theorem looseStars_unary (opPos : Nat) (op : UnaryOp) (x : Expr) :
    (unary opPos op x).looseStars = x.looseStars := (looseStars_eq _).trans (Nat.zero_add _)

@[simp]
theorem looseStars_star (starPos : Nat) (x : Expr) :
    (star starPos x).looseStars = x.ownOperators + x.looseStars := looseStars_eq _

/-- No star is loose exactly if neither one here is nor one further inside. -/
theorem looseStars_eq_zero_iff {e : Expr} : e.looseStars = 0 ↔
    (∀ x ∈ e.starOperand?, x.binaryOp? = none) ∧ ∀ x ∈ e.parts, x.looseStars = 0 := by
  rw [looseStars_eq, Nat.add_eq_zero_iff, List.sum_eq_zero_iff, List.forall_mem_map]
  refine and_congr_left' ?_
  cases e.starOperand? with
  | none => simp
  | some x => simp [ownOperators]

theorem operatorCount_skeleton (e : Expr) : e.skeleton.operatorCount = e.operatorCount := by
  refine total_skeleton (fun _ _ _ => rfl) (fun e hne => ?_) e
  cases e with
  | paren _ _ _ => exact absurd rfl (hne _ _ _)
  | _ => rfl

theorem starReach_skeleton (e : Expr) : e.skeleton.starReach = e.starReach := by
  refine total_skeleton (fun _ _ _ => rfl) (fun e hne => ?_) e
  cases e with
  | paren _ _ _ => exact absurd rfl (hne _ _ _)
  | star _ x => exact x.operatorCount_skeleton
  | _ => rfl

/-- Expressions of identifiers, operators and stars, parentheses, calls, selectors, indices and
slices. -/
inductive Starred (A : Alphabet) : Expr → Prop where
  | ident {name : String} (pos : Nat) : A.IsIdentifier name → Starred A (.ident name pos)
  | binary {x y : Expr} (opPos : Nat) (op : BinaryOp) :
    Starred A x → Starred A y → Starred A (.binary x opPos op y)
  | unary {x : Expr} (opPos : Nat) (op : UnaryOp) : Starred A x → Starred A (.unary opPos op x)
  | star {x : Expr} (starPos : Nat) : Starred A x → Starred A (.star starPos x)
  | paren {x : Expr} (lparen rparen : Nat) : Starred A x → Starred A (.paren lparen x rparen)
  | call {f : Expr} {args : List Expr} {spread : Bool} (lparen rparen : Nat) : Starred A f →
    (∀ e ∈ args, Starred A e) → (spread → args ≠ []) → Starred A (.call f lparen args spread rparen)
  | selector {x : Expr} {name : String} (namePos : Nat) :
    Starred A x → A.IsIdentifier name → Starred A (.selector x name namePos)
  | index {x i : Expr} (lbrack rbrack : Nat) :
    Starred A x → Starred A i → Starred A (.index x lbrack i rbrack)
  | slice {x : Expr} {low? high? max? : Option Expr} {three : Bool} (lbrack rbrack : Nat) :
    Starred A x → (∀ e ∈ low?, Starred A e) → (∀ e ∈ high?, Starred A e) →
      (∀ e ∈ max?, Starred A e) → three = max?.isSome → (max?.isSome → high?.isSome) →
        Starred A (.slice x lbrack low? high? max? three rbrack)

namespace Plain

variable {A : Alphabet} {e : Expr}

theorem starred (h : e.Plain A) : e.Starred A := by
  induction h with
  | ident pos hname => exact .ident pos hname
  | binary opPos op _ _ ihx ihy => exact .binary opPos op ihx ihy
  | unary opPos op _ ih => exact .unary opPos op ih
  | paren lparen rparen _ ih => exact .paren lparen rparen ih
  | call lparen rparen _ _ hspread ihf ihargs => exact .call lparen rparen ihf ihargs hspread
  | selector namePos _ hname ih => exact .selector namePos ih hname
  | index lbrack rbrack _ _ ihx ihi => exact .index lbrack rbrack ihx ihi
  | slice lbrack rbrack _ _ _ _ hthree hhigh ihx ihlow ihhigh ihmax =>
    exact .slice lbrack rbrack ihx ihlow ihhigh ihmax hthree hhigh

theorem looseStars_eq_zero (h : e.Plain A) : e.looseStars = 0 := by
  induction h with
  | ident => exact looseStars_eq_zero_iff.2 ⟨nofun, nofun⟩
  | unary _ _ _ ih | paren _ _ _ ih | selector _ _ _ ih =>
    exact looseStars_eq_zero_iff.2 ⟨nofun, List.forall_mem_singleton.2 ih⟩
  | binary _ _ _ _ ihx ihy | index _ _ _ _ ihx ihy =>
    exact looseStars_eq_zero_iff.2
      ⟨nofun, List.forall_mem_cons.2 ⟨ihx, List.forall_mem_singleton.2 ihy⟩⟩
  | call _ _ _ _ _ ihf ihargs =>
    exact looseStars_eq_zero_iff.2 ⟨nofun, List.forall_mem_cons.2 ⟨ihf, ihargs⟩⟩
  | slice _ _ _ _ _ _ _ _ ihx ihlow ihhigh ihmax =>
    refine looseStars_eq_zero_iff.2 ⟨nofun, ?_⟩
    simpa [parts, or_imp, forall_and, ihx] using ⟨ihlow, ihhigh, ihmax⟩

end Plain

end Expr

end LiteralFill
