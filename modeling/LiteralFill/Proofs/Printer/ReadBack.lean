import LiteralFill.Proofs.Grammar.Unambiguous
import LiteralFill.Proofs.Printer.Lexemes

namespace LiteralFill

open Lexeme (symbol word)

section Reading

variable {A : Alphabet} {P : Expr → Expr → Prop}

theorem exists_reads_all {args : List Expr}
    (h : ∀ e ∈ args, ∃ tree, Reads A 0 (e.lexemes lowestPrec) tree ∧ P tree e) :
    ∃ trees, List.Forall₂ (Reads A 0) (lexemesAll args) trees ∧ List.Forall₂ P trees args := by
  induction args with
  | nil => exact ⟨[], .nil, .nil⟩
  | cons e rest ih =>
    obtain ⟨⟨tree, hreads, htree⟩, hrest⟩ := List.forall_mem_cons.1 h
    obtain ⟨trees, hreads', htrees⟩ := ih hrest
    exact ⟨tree :: trees, .cons hreads hreads', .cons htree htrees⟩

theorem readsArgs_of_forall₂ {tss : List (List Lexeme)} {trees : List Expr} (hne : trees ≠ [])
    (h : List.Forall₂ (Reads A 0) tss trees) : ReadsArgs A ([symbol ","].intercalate tss) trees := by
  induction h with
  | nil => exact absurd rfl hne
  | cons hx hrest ih =>
    cases hrest with
    | nil =>
      rw [List.intercalate_singleton]
      exact .one hx
    | cons _ _ =>
      rw [List.intercalate_cons_cons, List.append_assoc]
      exact .more hx (ih (List.cons_ne_nil _ _))

theorem exists_reads_call {f : Expr} {args : List Expr} {spread : Bool} (lparen rparen prec : Nat)
    (hf : ∃ tree, Reads A 7 (f.lexemes highestPrec) tree ∧ P tree f)
    (hargs : ∀ e ∈ args, ∃ tree, Reads A 0 (e.lexemes lowestPrec) tree ∧ P tree e)
    (hspread : spread → args ≠ []) :
    ∃ tree trees, Reads A 7 ((Expr.call f lparen args spread rparen).lexemes prec)
      (.call tree noPos trees spread noPos) ∧ P tree f ∧ List.Forall₂ P trees args := by
  obtain ⟨tree, hreads, htree⟩ := hf
  obtain ⟨trees, hreads', htrees⟩ := exists_reads_all hargs
  refine ⟨tree, trees, ?_, htree, htrees⟩
  cases htrees with
  | nil =>
    have hspread : spread = false := Bool.eq_false_iff.2 fun h => hspread h rfl
    subst hspread
    exact .callNone hreads
  | cons _ _ => exact .call spread false hreads (readsArgs_of_forall₂ (List.cons_ne_nil _ _) hreads')

theorem exists_readsBound {e? : Option Expr}
    (h : ∀ e ∈ e?, ∃ tree, Reads A 0 (e.lexemes lowestPrec) tree ∧ P tree e) :
    ∃ tree?, ReadsBound A ((lexemesOpt e?).getD []) tree? ∧ Option.Rel P tree? e? := by
  cases e? with
  | none => exact ⟨none, .none, .none⟩
  | some e =>
    obtain ⟨tree, hreads, htree⟩ := h e rfl
    exact ⟨some tree, .some hreads, .some htree⟩

/-- A slice has a third bound only after a second one. -/
theorem exists_reads_slice {x : Expr} {low? high? max? : Option Expr} (lbrack rbrack prec : Nat)
    (hx : ∃ tree, Reads A 7 (x.lexemes highestPrec) tree ∧ P tree x)
    (hlow : ∀ e ∈ low?, ∃ tree, Reads A 0 (e.lexemes lowestPrec) tree ∧ P tree e)
    (hhigh : ∀ e ∈ high?, ∃ tree, Reads A 0 (e.lexemes lowestPrec) tree ∧ P tree e)
    (hmax : ∀ e ∈ max?, ∃ tree, Reads A 0 (e.lexemes lowestPrec) tree ∧ P tree e)
    (hthree : max?.isSome → high?.isSome) :
    ∃ tree low' high' max',
      Reads A 7 ((Expr.slice x lbrack low? high? max? max?.isSome rbrack).lexemes prec)
        (.slice tree noPos low' high' max' max?.isSome noPos) ∧
      P tree x ∧ Option.Rel P low' low? ∧ Option.Rel P high' high? ∧ Option.Rel P max' max? := by
  obtain ⟨tree, hreads, htree⟩ := hx
  obtain ⟨low', hreadsLow, hlow'⟩ := exists_readsBound hlow
  cases max? with
  | none =>
    obtain ⟨high', hreadsHigh, hhigh'⟩ := exists_readsBound hhigh
    exact ⟨tree, low', high', none, .slice hreads hreadsLow hreadsHigh, htree, hlow', hhigh', .none⟩
  | some max =>
    obtain ⟨high, rfl⟩ := Option.isSome_iff_exists.1 (hthree rfl)
    obtain ⟨high', hreadsHigh, hhigh'⟩ := hhigh high rfl
    obtain ⟨max', hreadsMax, hmax'⟩ := hmax max rfl
    exact ⟨tree, low', some high', some max', .sliceThree hreads hreadsLow hreadsHigh hreadsMax,
      htree, hlow', .some hhigh', .some hmax'⟩

end Reading

namespace Expr

variable {A : Alphabet} {e x : Expr} {p prec : Nat}

/-- Without an operator of its own, an operand is written the same at all places below that of a primary
expression. -/
theorem lexemes_of_binaryOp?_eq_none (h : x.binaryOp? = none) (hprec : prec ≤ unaryPrec) :
    x.lexemes prec = x.lexemes unaryPrec := by
  have hwrap : decide (unaryPrec < prec) = decide (unaryPrec < unaryPrec) := by simpa using hprec
  cases x with
  | binary _ _ _ _ => cases h
  | unary _ _ _ | star _ _ => rw [lexemes, lexemes, hwrap]
  | _ => rfl

theorem exists_reads_parenthesized {ts : List Lexeme}
    (h : ∃ tree, Reads A p ts tree ∧ tree.skeleton = e.skeleton) (hprec : prec ≤ 7) :
    ∃ tree, Reads A prec (parenthesized (p < prec) ts) tree ∧ tree.skeleton = e.skeleton := by
  obtain ⟨tree, hreads, htree⟩ := h
  by_cases hp : p < prec
  · rw [decide_eq_true hp]
    exact ⟨.paren noPos tree noPos, (Reads.paren (hreads.weaken (Nat.zero_le p))).weaken hprec, htree⟩
  · rw [decide_eq_false hp]
    exact ⟨tree, hreads.weaken (Nat.le_of_not_lt hp), htree⟩

theorem skeletonAll_eq_of_forall₂ {trees args : List Expr}
    (h : List.Forall₂ (fun tree e => tree.skeleton = e.skeleton) trees args) :
    skeletonAll trees = skeletonAll args := by
  induction h with
  | nil => rfl
  | cons htree _ ih => rw [skeletonAll, skeletonAll, htree, ih]

theorem skeletonOpt_eq_of_rel {tree? e? : Option Expr}
    (h : Option.Rel (fun tree e => tree.skeleton = e.skeleton) tree? e?) :
    skeletonOpt tree? = skeletonOpt e? := by
  cases h with
  | none => rfl
  | some htree => exact congrArg some htree

/-- Where no star stands directly before a binary expression, the parentheses are those that the
expression needs. -/
theorem Starred.exists_reads (h : e.Starred A) (hloose : e.looseStars = 0) (hprec : prec ≤ 7) :
    ∃ tree, Reads A prec (e.lexemes prec) tree ∧ tree.skeleton = e.skeleton := by
  -- each form reads with the strength it has, and is wrapped or weakened to that of its place
  induction h generalizing prec with
  | ident pos hname => exact ⟨_, (Reads.ident hname).weaken hprec, rfl⟩
  | binary opPos op _ _ ihx ihy =>
    have hlt := op.precedence_lt
    have hparts := (looseStars_eq_zero_iff.1 hloose).2
    obtain ⟨tree, hreads, htree⟩ := ihx (hparts _ (.head _)) (by omega : op.precedence ≤ 7)
    obtain ⟨tree', hreads', htree'⟩ :=
      ihy (hparts _ (.tail _ (.head _))) (by omega : op.precedence + 1 ≤ 7)
    have hbinary := Reads.binary (mem_binaryAt_iff.2 ⟨rfl, rfl⟩) hreads hreads'
    refine exists_reads_parenthesized ⟨_, hbinary, ?_⟩ hprec
    rw [skeleton, skeleton, htree, htree']
  | unary opPos op _ ih =>
    have hx := (looseStars_eq_zero_iff.1 hloose).2 _ (.head _)
    obtain ⟨tree, hreads, htree⟩ := ih hx (by decide : unaryPrec ≤ 7)
    refine exists_reads_parenthesized ⟨_, .unary (mem_unaryOps_iff.2 rfl) hreads, ?_⟩ hprec
    rw [skeleton, skeleton, htree]
  | star starPos _ ih =>
    obtain ⟨htight, hparts⟩ := looseStars_eq_zero_iff.1 hloose
    obtain ⟨tree, hreads, htree⟩ := ih (hparts _ (.head _)) (by decide : unaryPrec ≤ 7)
    rw [← lexemes_of_binaryOp?_eq_none (htight _ rfl) (Nat.zero_le 6)] at hreads
    refine exists_reads_parenthesized ⟨_, .star hreads, ?_⟩ hprec
    rw [skeleton, skeleton, htree]
  | paren lparen rparen _ ih =>
    obtain ⟨tree, hreads, htree⟩ :=
      ih ((looseStars_eq_zero_iff.1 hloose).2 _ (.head _)) (Nat.zero_le 7)
    exact ⟨_, (Reads.paren hreads).weaken hprec, htree⟩
  | call lparen rparen _ _ hspread ihf ihargs =>
    have hparts := (looseStars_eq_zero_iff.1 hloose).2
    obtain ⟨tree, trees, hreads, htree, htrees⟩ := exists_reads_call lparen rparen prec
      (ihf (hparts _ (.head _)) (Nat.le_refl 7))
      (fun e he => ihargs e he (hparts e (.tail _ he)) (Nat.zero_le 7)) hspread
    refine ⟨_, hreads.weaken hprec, ?_⟩
    rw [skeleton, skeleton, htree, skeletonAll_eq_of_forall₂ htrees]
  | selector namePos _ hname ih =>
    obtain ⟨tree, hreads, htree⟩ :=
      ih ((looseStars_eq_zero_iff.1 hloose).2 _ (.head _)) (Nat.le_refl 7)
    refine ⟨_, (Reads.selector hreads hname).weaken hprec, ?_⟩
    rw [skeleton, skeleton, htree]
  | index lbrack rbrack _ _ ihx ihi =>
    have hparts := (looseStars_eq_zero_iff.1 hloose).2
    obtain ⟨tree, hreads, htree⟩ := ihx (hparts _ (.head _)) (Nat.le_refl 7)
    obtain ⟨tree', hreads', htree'⟩ := ihi (hparts _ (.tail _ (.head _))) (Nat.zero_le 7)
    refine ⟨_, (Reads.index hreads hreads').weaken hprec, ?_⟩
    rw [skeleton, skeleton, htree, htree']
  | slice lbrack rbrack _ _ _ _ hthree hhigh ihx ihlow ihhigh ihmax =>
    subst hthree
    obtain ⟨hx, hbounds⟩ := List.forall_mem_cons.1 (looseStars_eq_zero_iff.1 hloose).2
    simp only [List.mem_append, Option.mem_toList, or_imp, forall_and] at hbounds
    obtain ⟨hlow, hhighLoose, hmax⟩ := hbounds
    obtain ⟨tree, low', high', max', hreads, htree, hlow', hhigh', hmax'⟩ :=
      exists_reads_slice lbrack rbrack prec (ihx hx (Nat.le_refl 7))
        (fun e he => ihlow e he (hlow e he) (Nat.zero_le 7))
        (fun e he => ihhigh e he (hhighLoose e he) (Nat.zero_le 7))
        (fun e he => ihmax e he (hmax e he) (Nat.zero_le 7)) hhigh
    refine ⟨_, hreads.weaken hprec, ?_⟩
    rw [skeleton, skeleton, htree, skeletonOpt_eq_of_rel hlow', skeletonOpt_eq_of_rel hhigh',
      skeletonOpt_eq_of_rel hmax']

end Expr

/-- A text that starts with an operand and reads as this expression of strength `p`, up to
parentheses. -/
structure ReadsBack (A : Alphabet) (p : Nat) (text : String) (e : Expr) : Prop where
  starts : StartsWith A.StartsOperand text.toList
  reads : ∃ ts tree, A.Spells text.toList ts ∧ Reads A p ts tree ∧ tree.skeleton = e.skeleton

/-- At every place, however deep, an expression prints with the parentheses and blanks that it needs to
be read back. -/
theorem Expr.Plain.readsBack {A : Alphabet} {e : Expr} (h : e.Plain A) {prec : Nat} (hprec : prec ≤ 7)
    (lines depth indent : Nat) : ReadsBack A prec (e.print lines prec depth indent) e := by
  have hspelled := h.starred.spelled lines prec depth indent
  obtain ⟨tree, hreads, htree⟩ := h.starred.exists_reads h.looseStars_eq_zero hprec
  exact ⟨hspelled.starts, _, tree, hspelled.spells, hreads, htree⟩

/-- An expression of identifiers, operators, parentheses, calls, selectors, indices and slices can be
read back from its text, and only as itself. -/
theorem reads_print {A : Alphabet} {e : Expr} (he : e.Plain A) (lines depth indent : Nat) :
    (∃ ts tree, A.Splits (e.print lines lowestPrec depth indent).toList ts ∧ Reads A 0 ts tree) ∧
      ∀ ts tree, A.Splits (e.print lines lowestPrec depth indent).toList ts → Reads A 0 ts tree →
        tree.skeleton = e.skeleton := by
  obtain ⟨-, ts, tree, hspells, hreads, htree⟩ := he.readsBack (Nat.zero_le 7) lines depth indent
  refine ⟨⟨ts, tree, hspells.splits, hreads⟩, fun us tree' hsplits hreads' => ?_⟩
  obtain rfl := hspells.splits.unique hsplits
  rw [← hreads.unique hreads', htree]

/-- A product of `a - -b` and `f(c[i + 1 : j : k], d.e...)`. -/
def readable : Expr :=
  .binary (.binary (.name "a") 0 .subtract (.unary 0 .negate (.name "b"))) 0 .multiply
    (.call (.name "f") 0
      [.slice (.name "c") 0 (some (.binary (.name "i") 0 .add (.name "n"))) (some (.name "j"))
        (some (.name "k")) true 0,
        .selector (.name "d") "e" 0] true 0)

theorem reads_print_readable :
    readable.Plain .ascii ∧ readable.print 0 lowestPrec 1 0 = "(a - -b) * f(c[i+n:j:k], d.e...)" ∧
      (∃ ts tree, Alphabet.ascii.Splits (readable.print 0 lowestPrec 1 0).toList ts ∧
        Reads .ascii 0 ts tree) ∧
      ∀ ts tree, Alphabet.ascii.Splits (readable.print 0 lowestPrec 1 0).toList ts →
        Reads .ascii 0 ts tree → tree.skeleton = readable.skeleton := by
  have hi : (Expr.binary (.name "i") 0 .add (.name "n")).Plain .ascii :=
    .binary 0 .add (.ident 0 (by decide)) (.ident 0 (by decide))
  have hslice : (Expr.slice (.name "c") 0 (some (.binary (.name "i") 0 .add (.name "n")))
      (some (.name "j")) (some (.name "k")) true 0).Plain .ascii := by
    refine .slice 0 0 (.ident 0 (by decide)) ?_ ?_ ?_ rfl fun _ => rfl
    · rintro _ ⟨⟩
      exact hi
    · rintro _ ⟨⟩
      exact .ident 0 (by decide)
    · rintro _ ⟨⟩
      exact .ident 0 (by decide)
  have hargs : (Expr.selector (.name "d") "e" 0).Plain .ascii :=
    .selector 0 (.ident 0 (by decide)) (by decide)
  have hplain : readable.Plain .ascii := by
    refine .binary 0 .multiply (.binary 0 .subtract (.ident 0 (by decide))
      (.unary 0 .negate (.ident 0 (by decide)))) (.call 0 0 (.ident 0 (by decide)) ?_ nofun)
    exact List.forall_mem_cons.2 ⟨hslice, List.forall_mem_singleton.2 hargs⟩
  obtain ⟨hexists, hunique⟩ := reads_print hplain 0 1 0
  exact ⟨hplain, by decide +kernel, hexists, hunique⟩

end LiteralFill
