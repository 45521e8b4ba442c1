import LiteralFill.Proofs.Grammar.Stars
import LiteralFill.Proofs.Grammar.Unambiguous

namespace LiteralFill

open Lexeme (symbol word)

/-- Lexemes of unary expressions with a binary operator between each two of them. -/
inductive Operands (A : Alphabet) : List Lexeme → List Expr → Prop where
  | one {ts : List Lexeme} {x : Expr} : Reads A 6 ts x → Operands A ts [x]
  | more {ts us : List Lexeme} {x : Expr} {xs : List Expr} (op : BinaryOp) :
    Reads A 6 ts x → Operands A us xs → Operands A (ts ++ symbol op.symbol :: us) (x :: xs)

variable {A : Alphabet}

/-- An operand in front of an expression becomes the left operand of its first operators that do not
bind more strongly than the one between them. -/
theorem Reads.exists_cons {ts us : List Lexeme} {x y : Expr} {q : Nat} (op : BinaryOp)
    (hx : Reads A 6 ts x) (hq : q ≤ op.precedence) : Reads A q us y →
      ∃ tree, Reads A q (ts ++ symbol op.symbol :: us) tree ∧
        tree.operatorCount = x.operatorCount + (1 + y.operatorCount) ∧
        tree.starReach = x.starReach + y.starReach
  | @Reads.binary _ _ s op' us vs y z hop hy hz => by
    obtain ⟨tree, hreads, hcount, hreach⟩ := hx.exists_cons op hq hy
    refine ⟨.binary tree noPos op' z, ?_, ?_, ?_⟩
    · rw [← List.cons_append, ← List.append_assoc]
      exact .binary hop hreads hz
    · simp only [Expr.operatorCount_binary]
      omega
    · simp only [Expr.starReach_binary]
      omega
  | @Reads.weaken _ _ q' _ _ hqq' hy => by
    have hlt := op.precedence_lt
    by_cases hq' : q' ≤ op.precedence
    · obtain ⟨tree, hreads, htree⟩ := hx.exists_cons op hq' hy
      exact ⟨tree, hreads.weaken hqq', htree⟩
    · refine ⟨.binary x noPos op y, ?_, ?_, ?_⟩
      · have hbinary := Reads.binary (mem_binaryAt_iff.2 ⟨rfl, rfl⟩) (hx.weaken (Nat.le_of_lt hlt))
          (hy.weaken (Nat.not_le.1 hq'))
        exact hbinary.weaken hq
      · simp only [Expr.operatorCount_binary]
        omega
      · exact Expr.starReach_binary x noPos op y
  | .ident _ | .paren _ | .selector _ _ | .index _ _ | .slice _ _ _ | .sliceThree _ _ _ _
  | .callNone _ | .call _ _ _ _ | .unary _ _ | .star _ => by
    have hlt := op.precedence_lt
    omega

namespace Operands

variable {ts us : List Lexeme} {xs ys : List Expr}

theorem length_pos (h : Operands A ts xs) : 0 < xs.length := by
  cases h <;> exact Nat.succ_pos _

theorem append (op : BinaryOp) (h : Operands A ts xs) (h' : Operands A us ys) :
    Operands A (ts ++ symbol op.symbol :: us) (xs ++ ys) := by
  induction h with
  | one hx => exact .more op hx h'
  | more op' hx _ ih =>
    rw [List.append_assoc, List.cons_append, List.cons_append]
    exact .more op' hx ih

/-- What stands in front of all operands belongs to the first one. -/
theorem exists_front {t : Lexeme} {make : Expr → Expr}
    (hmake : ∀ ts x, Reads A 6 ts x → Reads A 6 (t :: ts) (make x)) (h : Operands A ts xs) :
    ∃ y ys, xs = y :: ys ∧ Operands A (t :: ts) (make y :: ys) := by
  cases h with
  | one hx => exact ⟨_, [], rfl, .one (hmake _ _ hx)⟩
  | more op hx h => exact ⟨_, _, rfl, .more op (hmake _ _ hx) h⟩

/-- However the operators bind, the lexemes are one expression. -/
theorem exists_reads (h : Operands A ts xs) :
    ∃ tree, Reads A 0 ts tree ∧ tree.operatorCount + 1 = (xs.map (·.operatorCount + 1)).sum ∧
      tree.starReach = (xs.map (·.starReach)).sum := by
  induction h with
  | one hx => exact ⟨_, hx.weaken (Nat.zero_le 6), rfl, rfl⟩
  | more op hx _ ih =>
    obtain ⟨y, hy, hcount, hreach⟩ := ih
    obtain ⟨tree, hreads, hcount', hreach'⟩ := hx.exists_cons op (Nat.zero_le _) hy
    refine ⟨tree, hreads, ?_, ?_⟩
    · rw [List.map_cons, List.sum_cons]
      omega
    · rw [List.map_cons, List.sum_cons, hreach', hreach]

end Operands

end LiteralFill
