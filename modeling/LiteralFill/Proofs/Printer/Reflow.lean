import LiteralFill.Printer
import LiteralFill.Proofs.Layout.Basic
import LiteralFill.Proofs.Printer.LineBreaks

namespace LiteralFill

mutual

/-- The texts that an expression brings along, in the order in which they are printed. -/
def Expr.leafTexts : Expr → List String
  | .ident name _ => [name]
  | .basicLit _ value _ => [value]
  | .funcLit _ source => [source]
  | .compositeLit type? _ elts _ => leafTextsOpt type? ++ leafTextsAll elts
  | .keyValue key _ value => key.leafTexts ++ value.leafTexts
  | .binary x _ _ y => x.leafTexts ++ y.leafTexts
  | .unary _ _ x | .star _ x | .paren _ x _ => x.leafTexts
  | .call callee _ args _ _ => callee.leafTexts ++ leafTextsAll args
  | .selector x name _ => x.leafTexts ++ [name]
  | .index x _ index _ => x.leafTexts ++ index.leafTexts
  | .slice x _ low? high? max? _ _ =>
    x.leafTexts ++ (leafTextsOpt low? ++ leafTextsOpt high? ++ leafTextsOpt max?)
  | .ellipsis _ elt? => leafTextsOpt elt?
  | .arrayType _ len? elt => leafTextsOpt len? ++ elt.leafTexts
  | .mapType _ key value => key.leafTexts ++ value.leafTexts

def leafTextsOpt : Option Expr → List String
  | none => []
  | some e => e.leafTexts

def leafTextsAll : List Expr → List String
  | [] => []
  | e :: rest => e.leafTexts ++ leafTextsAll rest

end

mutual

@[simp] theorem Expr.leafTexts_unplaced : (e : Expr) → e.unplaced.leafTexts = e.leafTexts
  | .ident _ _ | .basicLit _ _ _ | .funcLit _ _ => rfl
  | .compositeLit type? _ elts _ => by
    rw [Expr.unplaced, Expr.leafTexts, Expr.leafTexts, leafTextsOpt_unplacedOpt,
      leafTextsAll_unplacedAll]
  | .keyValue x _ y | .binary x _ _ y | .index x _ y _ | .mapType _ x y => by
    rw [Expr.unplaced, Expr.leafTexts, Expr.leafTexts, x.leafTexts_unplaced, y.leafTexts_unplaced]
  | .unary _ _ x | .star _ x | .paren _ x _ | .selector x _ _ => by
    rw [Expr.unplaced, Expr.leafTexts, Expr.leafTexts, x.leafTexts_unplaced]
  | .call callee _ args _ _ => by
    rw [Expr.unplaced, Expr.leafTexts, Expr.leafTexts, callee.leafTexts_unplaced,
      leafTextsAll_unplacedAll]
  | .slice x _ low? high? max? _ _ => by
    rw [Expr.unplaced, Expr.leafTexts, Expr.leafTexts, x.leafTexts_unplaced, leafTextsOpt_unplacedOpt,
      leafTextsOpt_unplacedOpt, leafTextsOpt_unplacedOpt]
  | .ellipsis _ elt? => by rw [Expr.unplaced, Expr.leafTexts, Expr.leafTexts, leafTextsOpt_unplacedOpt]
  | .arrayType _ len? elt => by
    rw [Expr.unplaced, Expr.leafTexts, Expr.leafTexts, leafTextsOpt_unplacedOpt, elt.leafTexts_unplaced]

theorem leafTextsOpt_unplacedOpt : (e? : Option Expr) → leafTextsOpt (unplacedOpt e?) = leafTextsOpt e?
  | none => rfl
  | some e => e.leafTexts_unplaced

theorem leafTextsAll_unplacedAll : (es : List Expr) → leafTextsAll (unplacedAll es) = leafTextsAll es
  | [] => rfl
  | e :: rest => by
    rw [unplacedAll, leafTextsAll, leafTextsAll, e.leafTexts_unplaced, leafTextsAll_unplacedAll rest]

end

/-- An element in a literal has the text it has as an argument. -/
theorem map_text_printCells (lines indent : Nat) (es : List Expr) :
    (printCells lines indent es).map Cell.text = printArgs lines 1 indent es := by
  induction es with
  | nil => rfl
  | cons e rest ih => cases e <;> exact congrArg (_ :: ·) ih

theorem printCells_cons_eq (lines indent : Nat) (e : Expr) (rest : List Expr) :
    ∃ c, printCells lines indent (e :: rest) = c :: printCells lines indent rest ∧
      ∀ blanks, c.padded blanks = match e with
        | .keyValue key _ value => key.print lines lowestPrec 1 indent ++ ":" ++
          repeated ' ' blanks ++ value.print lines lowestPrec 1 indent
        | e => e.print lines lowestPrec 1 indent := by
  cases e <;> exact ⟨_, rfl, fun _ => rfl⟩

section EndsFirm

theorem EndsFirm.parenthesize {s : String} (h : EndsFirm s) (wrap : Bool) :
    EndsFirm (parenthesize wrap s) := by
  cases wrap with
  | false => exact h
  | true => exact .append _ (by decide)

theorem EndsFirm.glue (op : String) {s : String} (h : EndsFirm s) : EndsFirm (glue op s) := h.append _

theorem EndsFirm.operator {s : String} (h : EndsFirm s) (op : String) (spaced : Prop)
    [Decidable spaced] : EndsFirm (if spaced then " " ++ op ++ " " ++ s else LiteralFill.glue op s) := by
  split
  · exact .append _ h
  · exact h.glue op

variable (lines indent : Nat)

theorem Expr.endsFirm_print (prec depth : Nat) :
    (e : Expr) → (∀ text ∈ e.leafTexts, EndsFirm text) → EndsFirm (e.print lines prec depth indent)
  | .ident name _, h => h name List.mem_cons_self
  | .basicLit _ value _, h => h value List.mem_cons_self
  | .funcLit _ source, h => h source List.mem_cons_self
  | .compositeLit _ _ _ _, _ => .append _ (by decide)
  | .call _ _ _ _ _, _ | .paren _ _ _, _ => .append _ (by decide)
  | .index _ _ _ _, _ | .slice _ _ _ _ _ _ _, _ => .append _ (by decide)
  | .keyValue _ _ value, h | .mapType _ _ value, h =>
    (value.endsFirm_print _ _ (List.forall_mem_append.1 h).2).append _
  | .binary _ _ _ y, h =>
    .parenthesize (.append _
      (.operator (y.endsFirm_print _ _ (List.forall_mem_append.1 h).2) _ _)) _
  | .unary _ _ x, h => ((x.endsFirm_print _ _ h).glue _).parenthesize _
  | .star _ x, h => ((x.endsFirm_print _ _ h).append "*").parenthesize _
  | .selector x name _, h => .append _ ((List.forall_mem_append.1 h).2 name List.mem_cons_self)
  | .ellipsis _ none, _ => by
    rw [Expr.print, printOpt]
    decide
  | .ellipsis _ (some e), h => (e.endsFirm_print _ _ h).append "..."
  | .arrayType _ _ elt, h => (elt.endsFirm_print _ _ (List.forall_mem_append.1 h).2).append _

theorem endsFirm_printArgs (depth : Nat) (es : List Expr)
    (h : ∀ text ∈ leafTextsAll es, EndsFirm text) :
    ∀ s ∈ printArgs lines depth indent es, EndsFirm s := by
  induction es with
  | nil => nofun
  | cons e rest ih =>
    obtain ⟨he, hrest⟩ := List.forall_mem_append.1 h
    exact List.forall_mem_cons.2 ⟨e.endsFirm_print lines indent lowestPrec depth he, ih hrest⟩

end EndsFirm

section Alike

theorem Alike.parenthesize {s t : String} (h : Alike s t) (wrap : Bool) :
    Alike (parenthesize wrap s) (parenthesize wrap t) := by
  cases wrap with
  | false => exact h
  | true => exact ((Alike.refl "(").append h).append (.refl ")")

/-- The blanks around an operator are layout. -/
theorem alike_operator (op right : String) (spaced : Prop) [Decidable spaced] :
    Alike (if spaced then " " ++ op ++ " " ++ right else glue op right) (op ++ right) := by
  split
  · have hop : Alike (" " ++ op ++ " ") op :=
      (Alike.append_spaces (by decide) _).trans (.spaces_append (by decide) op)
    exact hop.append (.refl right)
  · refine Alike.append ?_ (.refl right)
    split
    · exact .append_spaces (by decide) op
    · exact .append_spaces (s := "") (by decide) op

theorem Alike.operator {s t : String} (h : Alike s t) (op : String) (spaced spaced' : Prop)
    [Decidable spaced] [Decidable spaced'] :
    Alike (if spaced then " " ++ op ++ " " ++ s else LiteralFill.glue op s)
      (if spaced' then " " ++ op ++ " " ++ t else LiteralFill.glue op t) :=
  ((alike_operator op s spaced).trans ((refl op).append h)).trans (alike_operator op t spaced').symm

theorem Alike.glue {s t : String} (h : Alike s t) (op : String) :
    Alike (LiteralFill.glue op s) (LiteralFill.glue op t) := by
  simpa only [if_neg not_false] using h.operator op False False

theorem alike_sliceColon (blanks : Bool) (left right : Option String) :
    Alike (sliceColon blanks left right) ":" := by
  have hblank : ∀ blank : Bool, Alike (if blank then " " else "") "" := by
    intro blank
    cases blank with
    | true => exact .spaces (by decide)
    | false => exact .refl ""
  have h := ((hblank (blanks && left.isSome)).append (.refl ":")).append
    (hblank (blanks && right.isSome))
  rwa [String.empty_append, String.append_empty] at h

theorem alike_sliceBounds (blanks blanks' three : Bool) {low low' high high' max max' : Option String}
    (hlow : Alike (low.getD "") (low'.getD "")) (hhigh : Alike (high.getD "") (high'.getD ""))
    (hmax : Alike (max.getD "") (max'.getD "")) :
    Alike (sliceBounds blanks three low high max) (sliceBounds blanks' three low' high' max') := by
  have hcolon : ∀ left right left' right', Alike (sliceColon blanks left right)
      (sliceColon blanks' left' right') := fun left right left' right' =>
    (alike_sliceColon blanks left right).trans (alike_sliceColon blanks' left' right').symm
  refine ((hlow.append (hcolon low high low' high')).append hhigh).append ?_
  cases three with
  | true => exact (hcolon high max high' max').append hmax
  | false => exact .refl ""

theorem joined_printCells (lines indent : Nat) (es : List Expr) :
    joined (printCells lines indent es) = ",".intercalate (printArgs lines 1 indent es) := by
  rw [joined, map_text_printCells]

/-- The inside of a literal, up to the brace that closes it, is that of one with its elements on one
line. -/
theorem alike_inside (lines lbrace rbrace indent : Nat) {elts : List Expr} {text : String}
    (hfirm : ∀ text ∈ leafTextsAll elts, EndsFirm text)
    (h : ∀ indent, Alike (",".intercalate (printArgs lines 1 indent elts)) text) :
    Alike ((if elts.isEmpty then ""
      else if onOneLine lines lbrace elts then
        ", ".intercalate ((printCells lines indent elts).map Cell.text)
      else brokenList ⟨lineOf lines lbrace, lineOf lines rbrace, 0 < lbrace && 0 < rbrace⟩ indent
        (printCells lines (indent + 1) elts)) ++ "\x7d") (text ++ "\x7d") := by
  split
  · obtain rfl : elts = [] := List.isEmpty_iff.1 ‹_›
    exact (h 0).append (.refl _)
  split
  · have hline := alike_intercalate_text (printCells lines indent elts)
    rw [joined_printCells] at hline
    exact (hline.trans (h indent)).append (.refl _)
  · have hne : printCells lines (indent + 1) elts ≠ [] := by
      intro hnil
      have hargs := map_text_printCells lines (indent + 1) elts
      cases elts with
      | nil => contradiction
      | cons _ _ =>
        rw [hnil] at hargs
        cases hargs
    have hbroken := alike_brokenList
      ⟨lineOf lines lbrace, lineOf lines rbrace, 0 < lbrace && 0 < rbrace⟩ indent hne (by
        intro c hc
        refine endsFirm_printArgs lines (indent + 1) 1 elts hfirm _ ?_
        rw [← map_text_printCells]
        exact List.mem_map_of_mem hc)
    rw [joined_printCells] at hbroken
    exact hbroken.trans ((h _).append (.refl _))

@[simp] theorem isSome_unplacedOpt (e? : Option Expr) : (unplacedOpt e?).isSome = e?.isSome := by
  cases e? <;> rfl

mutual

/-- The positions of an expression, the lines they are spread over and the indentation are a matter of
layout. So is how deep it is nested, as long as it binds as strongly. -/
theorem Expr.alike_print_unplaced (lines lines' prec depth depth' indent indent' : Nat) :
    (e : Expr) → (∀ text ∈ e.leafTexts, EndsFirm text) →
      Alike (e.print lines prec depth indent) (e.unplaced.print lines' prec depth' indent')
  | .ident _ _, _ | .basicLit _ _ _, _ | .funcLit _ _, _ => .refl _
  | .compositeLit type? lbrace elts rbrace, h => by
    obtain ⟨htype, helts⟩ := List.forall_mem_append.1 h
    -- both sides are like the elements without positions, with bare commas between them
    have hargs := fun lines lines' indent indent' => (Alike.refl ",").intercalate
      (alike_printArgs_unplaced lines lines' 1 1 indent indent' elts helts)
    have hinside := alike_inside lines lbrace rbrace indent helts fun i => hargs lines 0 i 0
    have hinside' := alike_inside lines' noPos noPos indent'
      (by rwa [leafTextsAll_unplacedAll]) fun i => (hargs 0 lines' 0 i).symm.trans (hargs 0 0 0 0)
    have htype :=
      alike_printOpt_unplaced lines lines' highestPrec depth depth' indent indent' type? htype
    rw [Expr.unplaced, Expr.print, Expr.print]
    simpa only [String.append_assoc] using
      (htype.append (.refl "\x7b")).append (hinside.trans hinside'.symm)
  | .keyValue key _ value, h => by
    obtain ⟨hkey, hvalue⟩ := List.forall_mem_append.1 h
    exact ((key.alike_print_unplaced _ _ _ _ _ _ _ hkey).append (.refl ": ")).append
      (value.alike_print_unplaced _ _ _ _ _ _ _ hvalue)
  | .binary x _ op y, h => by
    obtain ⟨hx, hy⟩ := List.forall_mem_append.1 h
    exact ((x.alike_print_unplaced _ _ _ _ _ _ _ hx).append
      ((y.alike_print_unplaced _ _ _ _ _ _ _ hy).operator _ _ _)).parenthesize _
  | .unary _ op x, h => ((x.alike_print_unplaced _ _ _ _ _ _ _ h).glue _).parenthesize _
  | .star _ x, h => ((Alike.refl "*").append (x.alike_print_unplaced _ _ _ _ _ _ _ h)).parenthesize _
  | .call callee _ args spread _, h => by
    obtain ⟨hcallee, hargs⟩ := List.forall_mem_append.1 h
    exact ((((callee.alike_print_unplaced _ _ _ _ _ _ _ hcallee).append (.refl "(")).append
      ((Alike.refl ", ").intercalate (alike_printArgs_unplaced _ _ _ _ _ _ args hargs))).append
      (.refl _)).append (.refl ")")
  | .selector x name _, h =>
    ((x.alike_print_unplaced _ _ _ _ _ _ _ (List.forall_mem_append.1 h).1).append (.refl ".")).append
      (.refl name)
  | .index x _ index _, h => by
    obtain ⟨hx, hindex⟩ := List.forall_mem_append.1 h
    exact (((x.alike_print_unplaced _ _ _ _ _ _ _ hx).append (.refl "[")).append
      (index.alike_print_unplaced _ _ _ _ _ _ _ hindex)).append (.refl "]")
  | .slice x _ low? high? max? threeIndex _, h => by
    obtain ⟨hx, hbounds⟩ := List.forall_mem_append.1 h
    obtain ⟨htwo, hmax⟩ := List.forall_mem_append.1 hbounds
    obtain ⟨hlow, hhigh⟩ := List.forall_mem_append.1 htwo
    rw [Expr.unplaced, Expr.print, Expr.print, isSome_unplacedOpt]
    exact (((x.alike_print_unplaced _ _ _ _ _ _ _ hx).append (.refl "[")).append
      (alike_sliceBounds _ _ _ (alike_printOpt_unplaced _ _ _ _ _ _ _ low? hlow)
        (alike_printOpt_unplaced _ _ _ _ _ _ _ high? hhigh)
        (alike_printOpt_unplaced _ _ _ _ _ _ _ max? hmax))).append (.refl "]")
  | .paren _ x _, h =>
    ((Alike.refl "(").append (x.alike_print_unplaced _ _ _ _ _ _ _ h)).append (.refl ")")
  | .ellipsis _ elt?, h => (Alike.refl "...").append (alike_printOpt_unplaced _ _ _ _ _ _ _ elt? h)
  | .arrayType _ len? elt, h => by
    obtain ⟨hlen, helt⟩ := List.forall_mem_append.1 h
    exact (((Alike.refl "[").append (alike_printOpt_unplaced _ _ _ _ _ _ _ len? hlen)).append
      (.refl "]")).append (elt.alike_print_unplaced _ _ _ _ _ _ _ helt)
  | .mapType _ key value, h => by
    obtain ⟨hkey, hvalue⟩ := List.forall_mem_append.1 h
    exact (((Alike.refl "map[").append (key.alike_print_unplaced _ _ _ _ _ _ _ hkey)).append
      (.refl "]")).append (value.alike_print_unplaced _ _ _ _ _ _ _ hvalue)

theorem alike_printOpt_unplaced (lines lines' prec depth depth' indent indent' : Nat) :
    (e? : Option Expr) → (∀ text ∈ leafTextsOpt e?, EndsFirm text) →
      Alike ((printOpt lines prec depth indent e?).getD "")
        ((printOpt lines' prec depth' indent' (unplacedOpt e?)).getD "")
  | none, _ => .refl ""
  | some e, h => e.alike_print_unplaced _ _ _ _ _ _ _ h

theorem alike_printArgs_unplaced (lines lines' depth depth' indent indent' : Nat) :
    (es : List Expr) → (∀ text ∈ leafTextsAll es, EndsFirm text) →
      List.Forall₂ Alike (printArgs lines depth indent es)
        (printArgs lines' depth' indent' (unplacedAll es))
  | [], _ => .nil
  | e :: rest, h => by
    obtain ⟨he, hrest⟩ := List.forall_mem_append.1 h
    exact .cons (e.alike_print_unplaced _ _ _ _ _ _ _ he)
      (alike_printArgs_unplaced _ _ _ _ _ _ rest hrest)

end

end Alike

section BreaksSafely

theorem BreaksSafely.parenthesize {leaves : List String} {s : String} (h : BreaksSafely leaves s)
    (wrap : Bool) : BreaksSafely leaves (parenthesize wrap s) := by
  cases wrap with
  | false => exact h
  | true => exact (h.before (s := "(") (by decide)).after (by decide)

theorem BinaryOp.notMem_symbol (op : BinaryOp) : '\n' ∉ op.symbol.toList := by
  cases op <;> decide

theorem UnaryOp.notMem_symbol (op : UnaryOp) : '\n' ∉ op.symbol.toList := by
  cases op <;> decide

theorem BreaksSafely.glue {leaves : List String} {s op : String} (h : BreaksSafely leaves s)
    (hop : '\n' ∉ op.toList) : BreaksSafely leaves (glue op s) := by
  rw [LiteralFill.glue, String.append_assoc]
  refine .before hop (.before ?_ h)
  split <;> decide

theorem BreaksSafely.operator {leaves : List String} {s op : String} (h : BreaksSafely leaves s)
    (hop : '\n' ∉ op.toList) (spaced : Prop) [Decidable spaced] :
    BreaksSafely leaves (if spaced then " " ++ op ++ " " ++ s else LiteralFill.glue op s) := by
  split
  · rw [String.append_assoc, String.append_assoc]
    exact .before (by decide) (.before hop (.before (by decide) h))
  · exact h.glue hop

theorem notMem_sliceColon (blanks : Bool) (left right : Option String) :
    '\n' ∉ (sliceColon blanks left right).toList := by
  unfold sliceColon
  split <;> split <;> decide

theorem breaksSafely_sliceBounds {lows highs maxs : List String} {low high max : Option String}
    {three : Bool} (blanks : Bool) (hlow : BreaksSafely lows (low.getD ""))
    (hhigh : BreaksSafely highs (high.getD "")) (hmax : BreaksSafely maxs (max.getD ""))
    (hthree : three = false → maxs = []) :
    BreaksSafely (lows ++ highs ++ maxs) (sliceBounds blanks three low high max) := by
  have htwo := (hlow.after (notMem_sliceColon blanks low high)).append hhigh
  cases three with
  | true => exact htwo.append (hmax.before (notMem_sliceColon blanks high max))
  | false =>
    rw [hthree rfl]
    exact htwo.append (.plain (s := "") (by decide))

/-- An opening brace and what stands inside a literal, on one line or on several. -/
theorem ShowsLeaves.breaksSafely_inside {lines : Nat} {elts : List Expr} {leaves : List String}
    (h : ∀ indent, ShowsLeaves (printCells lines indent elts) leaves) (lbrace rbrace indent : Nat) :
    BreaksSafely leaves ("\x7b" ++ (if elts.isEmpty then ""
      else if onOneLine lines lbrace elts then
        ", ".intercalate ((printCells lines indent elts).map Cell.text)
      else brokenList ⟨lineOf lines lbrace, lineOf lines rbrace, 0 < lbrace && 0 < rbrace⟩ indent
        (printCells lines (indent + 1) elts))) := by
  split
  · obtain rfl : elts = [] := List.isEmpty_iff.1 ‹_›
    cases h 0
    exact .plain (by decide)
  split
  · exact .before (by decide) (h indent).breaksSafely_intercalate
  · exact (h (indent + 1)).breaksSafely_brokenList _ indent

mutual

theorem Expr.breaksSafely_print (lines prec depth indent : Nat) :
    (e : Expr) → BreaksSafely e.leafTexts (e.print lines prec depth indent)
  | .ident _ _ | .basicLit _ _ _ | .funcLit _ _ => .leaf _
  | .compositeLit type? lbrace elts rbrace => by
    have hinside := ShowsLeaves.breaksSafely_inside
      (fun indent => showsLeaves_printCells lines indent elts) lbrace rbrace indent
    have htype := breaksSafely_printOpt lines highestPrec depth indent type?
    rw [Expr.print, Expr.leafTexts]
    simpa only [String.append_assoc] using (htype.append hinside).after (t := "\x7d") (by decide)
  | .keyValue key _ value =>
    ((key.breaksSafely_print _ _ _ _).after (by decide)).append (value.breaksSafely_print _ _ _ _)
  | .binary x _ op y =>
    ((x.breaksSafely_print _ _ _ _).append
      ((y.breaksSafely_print _ _ _ _).operator op.notMem_symbol _)).parenthesize _
  | .unary _ op x => ((x.breaksSafely_print _ _ _ _).glue op.notMem_symbol).parenthesize _
  | .star _ x => ((x.breaksSafely_print _ _ _ _).before (by decide)).parenthesize _
  | .call callee _ args spread _ => by
    have hspread : '\n' ∉ (if spread then "..." else "").toList := by
      split <;> decide
    exact ((((callee.breaksSafely_print _ _ _ _).after (by decide)).append
      (breaksSafely_printArgs _ _ _ args)).after hspread).after (by decide)
  | .selector x name _ => ((x.breaksSafely_print _ _ _ _).after (by decide)).append (.leaf name)
  | .index x _ index _ =>
    (((x.breaksSafely_print _ _ _ _).after (by decide)).append
      (index.breaksSafely_print _ _ _ _)).after (by decide)
  | .slice x _ low? high? max? threeIndex _ => by
    have hthree : (threeIndex || max?.isSome) = false → leafTextsOpt max? = [] := by
      cases max? with
      | none => exact fun _ => rfl
      | some _ => simp
    exact (((x.breaksSafely_print _ _ _ _).after (by decide)).append
      (breaksSafely_sliceBounds _ (breaksSafely_printOpt _ _ _ _ low?)
        (breaksSafely_printOpt _ _ _ _ high?) (breaksSafely_printOpt _ _ _ _ max?) hthree)).after
      (by decide)
  | .paren _ x _ => ((x.breaksSafely_print _ _ _ _).before (by decide)).after (by decide)
  | .ellipsis _ elt? => (breaksSafely_printOpt _ _ _ _ elt?).before (by decide)
  | .arrayType _ len? elt =>
    (((breaksSafely_printOpt _ _ _ _ len?).before (by decide)).after (by decide)).append
      (elt.breaksSafely_print _ _ _ _)
  | .mapType _ key value =>
    (((key.breaksSafely_print _ _ _ _).before (by decide)).after (by decide)).append
      (value.breaksSafely_print _ _ _ _)

theorem breaksSafely_printOpt (lines prec depth indent : Nat) :
    (e? : Option Expr) →
      BreaksSafely (leafTextsOpt e?) ((printOpt lines prec depth indent e?).getD "")
  | none => .plain (s := "") (by decide)
  | some e => e.breaksSafely_print _ _ _ _

theorem breaksSafely_printArgs (lines depth indent : Nat) :
    (es : List Expr) →
      BreaksSafely (leafTextsAll es) (", ".intercalate (printArgs lines depth indent es))
  | [] => .plain (s := "") (by decide)
  | [e] => by
    rw [printArgs, printArgs, String.intercalate_singleton, leafTextsAll, leafTextsAll, List.append_nil]
    exact e.breaksSafely_print _ _ _ _
  | e :: e' :: rest => by
    rw [printArgs, String.intercalate_cons_of_ne_nil (by simp [printArgs]), leafTextsAll]
    exact ((e.breaksSafely_print _ _ _ _).after (by decide)).append
      (breaksSafely_printArgs lines depth indent (e' :: rest))

theorem showsLeaves_printCells (lines indent : Nat) :
    (es : List Expr) → ShowsLeaves (printCells lines indent es) (leafTextsAll es)
  | [] => .nil
  | e :: rest => by
    obtain ⟨c, hc, hpadded⟩ := printCells_cons_eq lines indent e rest
    have he := e.breaksSafely_print lines lowestPrec 1 indent
    rw [hc]
    refine .cons (fun blanks => ?_) (showsLeaves_printCells lines indent rest)
    rw [hpadded]
    cases e with
    | keyValue key _ value =>
      have hblanks : '\n' ∉ (repeated ' ' blanks).toList := by
        rw [toList_repeated]
        intro h
        cases List.eq_of_mem_replicate h
      exact (((key.breaksSafely_print _ _ _ _).after (by decide)).after hblanks).append
        (value.breaksSafely_print _ _ _ _)
    | _ => exact he

end

end BreaksSafely

/-- An expression reads the same however its positions spread it over lines: its texts differ by blanks,
tabs, newlines and commas before closing braces. Its newlines end no line that could be complete. -/
theorem condensed_format {e₁ e₂ : Expr} (h : e₁.unplaced = e₂.unplaced) :
    ((∀ text ∈ e₁.leafTexts, EndsFirm text) → ∀ lines₁ lines₂,
      condensed (e₁.format lines₁) = condensed (e₂.format lines₂)) ∧
    ∀ lines, BreaksSafely e₁.leafTexts (e₁.format lines) := by
  refine ⟨fun hfirm lines₁ lines₂ => ?_, fun lines => e₁.breaksSafely_print lines lowestPrec 1 0⟩
  have hfirm₂ : ∀ text ∈ e₂.leafTexts, EndsFirm text := by
    rwa [← Expr.leafTexts_unplaced, ← h, Expr.leafTexts_unplaced]
  have h₁ := e₁.alike_print_unplaced lines₁ 0 lowestPrec 1 1 0 0 hfirm
  have h₂ := e₂.alike_print_unplaced lines₂ 0 lowestPrec 1 1 0 0 hfirm₂
  rw [h] at h₁
  exact (h₁.trans h₂.symm).condensed_eq

/-- `P{X: f(a, b), Y: Q{}}` with its braces and its entries on four lines. -/
def reflowed : Expr :=
  .compositeLit (some (.ident "P" 1)) 1
    [.keyValue (.ident "X" 2) 2 (.call (.ident "f" 2) 2 [.ident "a" 2, .ident "b" 2] false 2),
      .keyValue (.ident "Y" 3) 3 (.compositeLit (some (.ident "Q" 3)) 3 [] 3)] 4

theorem condensed_format_reflowed :
    (reflowed.unplaced = reflowed.unplaced.unplaced ∧ ∀ text ∈ reflowed.leafTexts, EndsFirm text) ∧
      reflowed.format 4 = "P\x7b\n\tX: f(a, b),\n\tY: Q\x7b\x7d,\n\x7d" ∧
      reflowed.unplaced.format 0 = "P\x7bX: f(a, b), Y: Q\x7b\x7d\x7d" ∧
      condensed (reflowed.format 4) = condensed (reflowed.unplaced.format 0) ∧
      BreaksSafely reflowed.leafTexts (reflowed.format 4) := by
  have hsame : reflowed.unplaced = reflowed.unplaced.unplaced := rfl
  have hfirm : ∀ text ∈ reflowed.leafTexts, EndsFirm text := by decide
  obtain ⟨hcondensed, hbreaks⟩ := condensed_format hsame
  refine ⟨⟨hsame, hfirm⟩, ?_, ?_, hcondensed hfirm 4 0, hbreaks 4⟩
  · simp only [reflowed, Expr.format, Expr.print, printCells, brokenList, placeCells, Progress.next,
      Cell.size, Cell.text, String.contains_char_eq]
    decide +kernel
  · simp only [reflowed, Expr.unplaced, unplacedAll, unplacedOpt, Expr.format, Expr.print, printCells,
      brokenList, placeCells, Progress.next, Cell.size, Cell.text, String.contains_char_eq]
    decide +kernel

end LiteralFill
