import LiteralFill.Proofs.Grammar.Operands
import LiteralFill.Proofs.Printer.ReadBack

namespace LiteralFill

open Lexeme (symbol word)

/-- The same operators as in an expression, where the stars reach less far by one for each loose star at
least. -/
structure Expr.Curbs (tree e : Expr) : Prop where
  operators : tree.operatorCount = e.operatorCount
  reach : tree.starReach + e.looseStars ≤ e.starReach

namespace Expr.Curbs

variable {tree x e : Expr} {trees es : List Expr}

theorem sums (h : List.Forall₂ Curbs trees es) :
    (trees.map operatorCount).sum = (es.map operatorCount).sum ∧
      (trees.map starReach).sum + (es.map looseStars).sum ≤ (es.map starReach).sum := by
  induction h with
  | nil => exact ⟨rfl, Nat.le_refl 0⟩
  | cons h _ ih =>
    have hoperators := h.operators
    have hreach := h.reach
    simp only [List.map_cons, List.sum_cons]
    omega

theorem of_parts (hop : tree.ownOperators = e.ownOperators) (htree : tree.starOperand? = none)
    (he : e.starOperand? = none) (h : List.Forall₂ Curbs tree.parts e.parts) : tree.Curbs e := by
  obtain ⟨hoperators, hreach⟩ := sums h
  constructor
  · rw [operatorCount_eq, operatorCount_eq, hop, hoperators]
  · rw [starReach_eq, looseStars_eq, starReach_eq, htree, he]
    simpa using hreach

theorem toList {tree? e? : Option Expr} (h : Option.Rel Curbs tree? e?) :
    List.Forall₂ Curbs tree?.toList e?.toList := by
  cases h with
  | none => exact .nil
  | some h => exact .cons h .nil

end Expr.Curbs

/-- Lexemes of an expression at a place of binding strength `prec`, which may read as another one with
the same operators. -/
structure ReadsCurbed (A : Alphabet) (prec : Nat) (ts : List Lexeme) (e : Expr) : Prop where
  operands : ∃ xs, Operands A ts xs ∧ (xs.map (·.operatorCount + 1)).sum = e.operatorCount + 1 ∧
    (xs.map (·.starReach)).sum + e.looseStars ≤ e.starReach ∧
    -- a binary expression in parentheses would be a single operand
    (prec = lowestPrec → e.ownOperators < xs.length)
  primary : prec = highestPrec → ∃ tree, Reads A 7 ts tree ∧ tree.Curbs e

namespace ReadsCurbed

variable {A : Alphabet} {prec : Nat} {ts us : List Lexeme} {tree x y e : Expr}

theorem exists_reads (h : ReadsCurbed A prec ts e) : ∃ tree, Reads A 0 ts tree ∧ tree.Curbs e := by
  obtain ⟨xs, hxs, hcount, hreach, -⟩ := h.operands
  obtain ⟨tree, hreads, hcount', hreach'⟩ := hxs.exists_reads
  exact ⟨tree, hreads, by omega, by omega⟩

theorem of_primary (hreads : Reads A 7 ts tree) (hcurbs : tree.Curbs e)
    (hlinks : prec = lowestPrec → e.ownOperators = 0) : ReadsCurbed A prec ts e where
  operands := by
    obtain ⟨hcount, hreach⟩ := hcurbs
    refine ⟨[tree], .one (hreads.weaken (by decide)), ?_, ?_, fun hprec => ?_⟩
    · rw [List.map_singleton, List.sum_singleton, hcount]
    · rw [List.map_singleton, List.sum_singleton]
      exact hreach
    · rw [hlinks hprec]
      exact Nat.one_pos
  primary _ := ⟨tree, hreads, hcurbs⟩

/-- An expression of strength `p` is in parentheses where something stronger has to stand. -/
theorem parenthesized {p : Nat} (h : ReadsCurbed A lowestPrec ts e) (hp : p < highestPrec) :
    ReadsCurbed A prec (parenthesized (p < prec) ts) e := by
  by_cases hwrap : p < prec
  · rw [decide_eq_true hwrap]
    obtain ⟨tree, hreads, hcurbs⟩ := h.exists_reads
    have hparen : (Expr.paren noPos tree noPos).Curbs e := by
      constructor
      · rw [Expr.operatorCount_paren, hcurbs.operators]
      · rw [Expr.starReach_paren]
        exact hcurbs.reach
    exact of_primary (.paren hreads) hparen fun hprec => absurd hwrap (hprec ▸ Nat.not_lt_zero p)
  · rw [decide_eq_false hwrap]
    obtain ⟨xs, hxs, hcount, hreach, hlinks⟩ := h.operands
    exact ⟨⟨xs, hxs, hcount, hreach, fun _ => hlinks rfl⟩, fun hprec => absurd (hprec ▸ hp) hwrap⟩

theorem binary (opPos : Nat) (op : BinaryOp) {p q : Nat} (hx : ReadsCurbed A p ts x)
    (hy : ReadsCurbed A q us y) :
    ReadsCurbed A lowestPrec (ts ++ symbol op.symbol :: us) (.binary x opPos op y) := by
  obtain ⟨xs, hxs, hcount, hreach, -⟩ := hx.operands
  obtain ⟨ys, hys, hcount', hreach', -⟩ := hy.operands
  refine ⟨⟨xs ++ ys, hxs.append op hys, ?_, ?_, fun _ => ?_⟩, nofun⟩
  · rw [List.map_append, List.sum_append, hcount, hcount', Expr.operatorCount_binary]
    omega
  · rw [List.map_append, List.sum_append, Expr.looseStars_binary, Expr.starReach_binary]
    omega
  · have hlength := hxs.length_pos
    have hlength' := hys.length_pos
    rw [List.length_append]
    show 1 < _
    omega

theorem unary (opPos : Nat) (op : UnaryOp) {p : Nat} (h : ReadsCurbed A p ts x) :
    ReadsCurbed A lowestPrec (symbol op.symbol :: ts) (.unary opPos op x) := by
  obtain ⟨xs, hxs, hcount, hreach, -⟩ := h.operands
  have hunary : ∀ vs z, Reads A 6 vs z → Reads A 6 (symbol op.symbol :: vs) (.unary noPos op z) :=
    fun _ _ hz => .unary (mem_unaryOps_iff.2 rfl) hz
  obtain ⟨y, ys, rfl, hfront⟩ := hxs.exists_front hunary
  refine ⟨⟨_, hfront, ?_, ?_, fun _ => Nat.succ_pos _⟩, nofun⟩
  · rw [List.map_cons, Expr.operatorCount_unary, Expr.operatorCount_unary]
    exact hcount
  · rw [List.map_cons, Expr.starReach_unary, Expr.looseStars_unary, Expr.starReach_unary]
    exact hreach

/-- A star takes the first operand alone, where a binary expression has two at least. -/
theorem star (starPos : Nat) (h : ReadsCurbed A lowestPrec ts x) :
    ReadsCurbed A lowestPrec (symbol "*" :: ts) (.star starPos x) := by
  obtain ⟨xs, hxs, hcount, hreach, hlinks⟩ := h.operands
  obtain ⟨y, ys, rfl, hfront⟩ := hxs.exists_front fun _ _ => Reads.star
  refine ⟨⟨_, hfront, ?_, ?_, fun _ => Nat.succ_pos _⟩, nofun⟩
  · rw [List.map_cons, Expr.operatorCount_star, Expr.operatorCount_star]
    exact hcount
  · have hlength := List.length_le_sum_of_one_le (ys.map (·.operatorCount + 1)) (by simp)
    have hown := hlinks rfl
    simp only [List.map_cons, List.sum_cons, List.length_cons, List.length_map, Expr.starReach_star,
      Expr.looseStars_star] at *
    omega

end ReadsCurbed

/-- Every place gets lexemes that can be read, whatever the stars in it take. -/
theorem Expr.Starred.readsCurbed {A : Alphabet} {e : Expr} (h : e.Starred A) (prec : Nat) :
    ReadsCurbed A prec (e.lexemes prec) e := by
  induction h generalizing prec with
  | ident pos hname =>
    exact .of_primary (.ident hname) (.of_parts rfl rfl rfl .nil) fun _ => rfl
  | binary opPos op _ _ ihx ihy =>
    have hlt := op.precedence_lt
    exact (ReadsCurbed.binary opPos op (ihx _) (ihy _)).parenthesized (Nat.lt_succ_of_lt hlt)
  | unary opPos op _ ih => exact (ReadsCurbed.unary opPos op (ih _)).parenthesized (by decide)
  | star starPos _ ih => exact (ReadsCurbed.star starPos (ih _)).parenthesized (by decide)
  | paren lparen rparen _ ih =>
    obtain ⟨tree, hreads, hcurbs⟩ := (ih lowestPrec).exists_reads
    exact .of_primary (.paren hreads) (.of_parts rfl rfl rfl (.cons hcurbs .nil)) fun _ => rfl
  | call lparen rparen _ _ hspread ihf ihargs =>
    obtain ⟨tree, trees, hreads, hcurbs, hall⟩ := exists_reads_call lparen rparen prec
      ((ihf highestPrec).primary rfl) (fun e he => (ihargs e he lowestPrec).exists_reads) hspread
    exact .of_primary hreads (.of_parts rfl rfl rfl (.cons hcurbs hall)) fun _ => rfl
  | selector namePos _ hname ih =>
    obtain ⟨tree, hreads, hcurbs⟩ := (ih highestPrec).primary rfl
    exact .of_primary (.selector hreads hname) (.of_parts rfl rfl rfl (.cons hcurbs .nil)) fun _ => rfl
  | index lbrack rbrack _ _ ihx ihi =>
    obtain ⟨tree, hreads, hcurbs⟩ := (ihx highestPrec).primary rfl
    obtain ⟨tree', hreads', hcurbs'⟩ := (ihi lowestPrec).exists_reads
    exact .of_primary (.index hreads hreads')
      (.of_parts rfl rfl rfl (.cons hcurbs (.cons hcurbs' .nil))) fun _ => rfl
  | slice lbrack rbrack _ _ _ _ hthree hhigh ihx ihlow ihhigh ihmax =>
    subst hthree
    obtain ⟨tree, low', high', max', hreads, hcurbs, hlow', hhigh', hmax'⟩ :=
      exists_reads_slice lbrack rbrack prec ((ihx highestPrec).primary rfl)
        (fun e he => (ihlow e he lowestPrec).exists_reads)
        (fun e he => (ihhigh e he lowestPrec).exists_reads)
        (fun e he => (ihmax e he lowestPrec).exists_reads) hhigh
    have hbounds := List.rel_append (Curbs.toList hlow')
      (List.rel_append (Curbs.toList hhigh') (Curbs.toList hmax'))
    exact .of_primary hreads (.of_parts rfl rfl rfl (.cons hcurbs hbounds)) fun _ => rfl

/-- An expression with stars prints as a text that reads as one expression. It is the expression itself, up
to parentheses, exactly if no star stands directly before a binary expression. -/
theorem reads_print_starred {A : Alphabet} {e : Expr} (he : e.Starred A) (lines depth indent : Nat) :
    ∃ ts tree, A.Splits (e.print lines lowestPrec depth indent).toList ts ∧ Reads A 0 ts tree ∧
      (∀ us tree', A.Splits (e.print lines lowestPrec depth indent).toList us → Reads A 0 us tree' →
        tree' = tree) ∧
      (tree.skeleton = e.skeleton ↔ e.looseStars = 0) := by
  have hsplits := (he.spelled lines lowestPrec depth indent).spells.splits
  obtain ⟨tree, hreads, hcurbs⟩ := (he.readsCurbed lowestPrec).exists_reads
  refine ⟨_, tree, hsplits, hreads, ?_, fun hskeleton => ?_, fun hloose => ?_⟩
  · intro us tree' hsplits' hreads'
    obtain rfl := hsplits.unique hsplits'
    exact hreads'.unique hreads
  · have hreach : tree.starReach = e.starReach := by
      rw [← tree.starReach_skeleton, hskeleton, e.starReach_skeleton]
    have hcurbed := hcurbs.reach
    omega
  · obtain ⟨tree', hreads', htree'⟩ := he.exists_reads hloose (Nat.zero_le 7)
    rw [hreads.unique hreads', htree']

/-- A difference of `-*p / *(*q).next` and `f(**r, *(x + y))[*i]`. -/
def dereferences : Expr :=
  .binary
    (.binary (.unary 0 .negate (.star 0 (.name "p"))) 0 .divide
      (.star 0 (.selector (.star 0 (.name "q")) "next" 0)))
    0 .subtract
    (.index
      (.call (.name "f") 0 [.star 0 (.star 0 (.name "r")),
        .star 0 (.paren 0 (.binary (.name "x") 0 .add (.name "y")) 0)] false 0)
      0 (.star 0 (.name "i")) 0)

theorem reads_print_starred_dereferences :
    dereferences.Starred .ascii ∧ dereferences.looseStars = 0 ∧
      dereferences.print 0 lowestPrec 1 0 = "-*p / *(*q).next - f(**r, *(x + y))[*i]" ∧
      ∃ ts tree, Alphabet.ascii.Splits (dereferences.print 0 lowestPrec 1 0).toList ts ∧
        Reads .ascii 0 ts tree ∧
        (∀ us tree', Alphabet.ascii.Splits (dereferences.print 0 lowestPrec 1 0).toList us →
          Reads .ascii 0 us tree' → tree' = tree) ∧
        (tree.skeleton = dereferences.skeleton ↔ dereferences.looseStars = 0) := by
  have hargs : ∀ e ∈ [Expr.star 0 (.star 0 (.name "r")),
      .star 0 (.paren 0 (.binary (.name "x") 0 .add (.name "y")) 0)], e.Starred .ascii := by
    refine List.forall_mem_cons.2 ⟨?_, List.forall_mem_singleton.2 ?_⟩
    · exact .star 0 (.star 0 (.ident 0 (by decide)))
    · exact .star 0 (.paren 0 0 (.binary 0 .add (.ident 0 (by decide)) (.ident 0 (by decide))))
  have hquotient : (Expr.binary (.unary 0 .negate (.star 0 (.name "p"))) 0 .divide
      (.star 0 (.selector (.star 0 (.name "q")) "next" 0))).Starred .ascii := by
    refine .binary 0 .divide (.unary 0 .negate (.star 0 (.ident 0 (by decide)))) (.star 0 ?_)
    exact .selector 0 (.star 0 (.ident 0 (by decide))) (by decide)
  have hstarred : dereferences.Starred .ascii := by
    refine .binary 0 .subtract hquotient (.index 0 0 ?_ (.star 0 (.ident 0 (by decide))))
    exact .call 0 0 (.ident 0 (by decide)) hargs nofun
  have hloose : dereferences.looseStars = 0 := by
    simp [dereferences, Expr.looseStars_eq, Expr.parts, Expr.starOperand?, Expr.name,
      Expr.ownOperators, Expr.binaryOp?]
  exact ⟨hstarred, hloose, by decide +kernel, reads_print_starred hstarred 0 1 0⟩

/-- The sum `a + b` below a star. -/
def starOfSum : Expr := .star 0 (.binary (.name "a") 0 .add (.name "b"))

/-- A star before a sum is read before its first operand alone. -/
theorem not_reads_starOfSum :
    starOfSum.Starred .ascii ∧ starOfSum.print 1 lowestPrec 1 0 = "*a + b" ∧
      ∀ ts tree, Alphabet.ascii.Splits (starOfSum.print 1 lowestPrec 1 0).toList ts →
        Reads .ascii 0 ts tree → tree.skeleton ≠ starOfSum.skeleton := by
  have ha : Alphabet.ascii.IsIdentifier "a" := by decide
  have hb : Alphabet.ascii.IsIdentifier "b" := by decide
  have hstarred : starOfSum.Starred .ascii := .star 0 (.binary 0 .add (.ident 0 ha) (.ident 0 hb))
  refine ⟨hstarred, by decide +kernel, fun ts tree hsplits hreads hskeleton => ?_⟩
  obtain rfl := (hstarred.spelled 1 lowestPrec 1 0).spells.splits.unique hsplits
  have hsum : Reads .ascii 4 [.symbol "*", .word "a", .symbol "+", .word "b"]
      (.binary (.star noPos (.name "a")) noPos .add (.name "b")) := by
    refine .binary (.head _) (.weaken (by decide) (.star (.weaken (by decide) (.ident ha)))) ?_
    exact .weaken (by decide) (.ident hb)
  rw [hreads.unique hsum] at hskeleton
  cases hskeleton

end LiteralFill
