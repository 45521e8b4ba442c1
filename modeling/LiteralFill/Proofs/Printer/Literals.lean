import LiteralFill.Proofs.Printer.KeyColumns
import LiteralFill.Proofs.Printer.Lines

namespace LiteralFill

/-- An element on a line of its own, with the comma behind it. -/
def Cell.line (depth : Nat) (c : Cell) (blanks : Nat) : List Char :=
  '\n' :: List.replicate depth '\t' ++ c.spaced blanks ++ [',']

theorem toList_intercalate_comma {texts : List String} (h : texts ≠ []) :
    (",".intercalate texts).toList ++ [','] = (texts.map fun s => s.toList ++ [',']).flatten := by
  induction texts with
  | nil => exact absurd rfl h
  | cons s texts ih =>
    cases texts with
    | nil => simp
    | cons s' texts =>
      rw [String.intercalate_cons_of_ne_nil (List.cons_ne_nil s' texts), String.toList_append,
        String.toList_append, List.append_assoc, ih (List.cons_ne_nil s' texts), List.map_cons,
        List.flatten_cons]
      rfl

theorem map_write_rows (indent : Nat) (many : Bool) {placed : List Placed}
    (h : ∀ e ∈ placed, e.breaks = true) (widths : List Nat) :
    (List.zipWith (Row.write indent) (placed.map (Placed.row many)) widths).map
        (fun s => s.toList ++ [',']) =
      List.zipWith (Cell.line (indent + 1)) (placed.map (·.cell))
        (List.zipWith Row.blanks (placed.map (Placed.row many)) widths) := by
  induction placed generalizing widths with
  | nil => rfl
  | cons e placed ih =>
    obtain ⟨he, hrest⟩ := List.forall_mem_cons.1 h
    cases widths with
    | nil => rfl
    | cons width widths =>
      simp only [List.map_cons, List.zipWith_cons_cons, ih hrest]
      rw [Placed.row, Row.toList_write indent width many he]
      rfl

namespace PrintsCells

variable {depth indent l n : Nat} {cells : List Cell} {us : List Token}

/-- A broken list is a line for each element, and the indentation of its closing brace. -/
theorem toList_brokenList (h : PrintsCells (indent + 1) l cells us n) (hl : 0 < l) (hne : cells ≠ [])
    (measured : Bool) :
    (brokenList ⟨l, n + 1, measured⟩ indent cells).toList =
      (List.zipWith (Cell.line (indent + 1)) cells (columnBlanks (1 < cells.length)
        (placeCells measured ⟨l, 0, false, [], 0⟩ cells))).flatten ++
        '\n' :: List.replicate indent '\t' := by
  have hwrite := map_write_rows indent (1 < cells.length)
    (h.breaks hl measured (p := ⟨l, 0, false, [], 0⟩) rfl)
  rw [map_cell_placeCells] at hwrite
  have hrows : ",".toList ++ (newline indent).toList = [','] ++ '\n' :: List.replicate indent '\t' := by
    rw [toList_newline]
    rfl
  simp only [h.brokenList_eq hl hne measured, String.toList_append]
  rw [hrows, ← List.append_assoc, toList_intercalate_comma, columnBlanks, ← hwrite]
  · rfl
  · exact List.ne_nil_of_length_pos
      (by simpa [length_keyWidths, Nat.pos_iff_ne_zero] using hne)

end PrintsCells

mutual

/-- The composite literals anywhere in an expression, with the number of those around each. -/
def Expr.literals (depth : Nat) : Expr → List (Nat × Literal)
  | .ident _ _ | .basicLit _ _ _ | .funcLit _ _ => []
  | .compositeLit type? lbrace elts rbrace =>
    literalsOpt depth type? ++ (depth, ⟨type?, lbrace, elts, rbrace⟩) :: literalsAll (depth + 1) elts
  | .keyValue key _ value => key.literals depth ++ value.literals depth
  | .binary x _ _ y => x.literals depth ++ y.literals depth
  | .unary _ _ x => x.literals depth
  | .call callee _ args _ _ => callee.literals depth ++ literalsAll depth args
  | .selector x _ _ => x.literals depth
  | .index x _ index _ => x.literals depth ++ index.literals depth
  | .slice x _ low? high? max? _ _ =>
    x.literals depth ++ (literalsOpt depth low? ++ literalsOpt depth high? ++ literalsOpt depth max?)
  | .star _ x => x.literals depth
  | .paren _ x _ => x.literals depth
  | .ellipsis _ elt? => literalsOpt depth elt?
  | .arrayType _ len? elt => literalsOpt depth len? ++ elt.literals depth
  | .mapType _ key value => key.literals depth ++ value.literals depth

def literalsOpt (depth : Nat) : Option Expr → List (Nat × Literal)
  | none => []
  | some e => e.literals depth

def literalsAll (depth : Nat) : List Expr → List (Nat × Literal)
  | [] => []
  | e :: rest => e.literals depth ++ literalsAll depth rest

end

/-- A literal inside of `depth` others has its elements shown in a text that begins on the line `l`, on
the lines after that of its brace. -/
def Shows (lines l : Nat) (s : List Char) (depth : Nat) (lit : Literal) : Prop :=
  ∃ before after n us,
    s = before ++ (brokenList ⟨lit.lbrace, n + 1, true⟩ depth
      (printCells lines (depth + 1) lit.elts)).toList ++ after ∧
    lit.lbrace = l + before.count '\n' ∧ 0 < lit.lbrace ∧
    PrintsCells (depth + 1) lit.lbrace (printCells lines (depth + 1) lit.elts) us n ∧
    ∀ t ∈ us, '\n' ∉ t.text.toList

/-- A text from the line `l` to the line `m` that shows the elements of these literals. -/
structure Displays (lines l : Nat) (xs : List (Nat × Literal)) (s : List Char) (m : Nat) : Prop where
  count : m = l + s.count '\n'
  shows : ∀ x ∈ xs, x.2.elts ≠ [] → Shows lines l s x.1 x.2

namespace Displays

variable {lines l m n : Nat} {xs ys zs : List (Nat × Literal)} {s t : List Char}

theorem plain (h : '\n' ∉ s) (l : Nat) : Displays lines l [] s l :=
  ⟨by rw [List.count_eq_zero.2 h, Nat.add_zero], nofun⟩

theorem append (h : Displays lines l xs s m) (h' : Displays lines m ys t n) :
    Displays lines l (xs ++ ys) (s ++ t) n := by
  refine ⟨by rw [List.count_append, h'.count, h.count, Nat.add_assoc], fun x hx hne => ?_⟩
  rcases List.mem_append.1 hx with hx | hx
  · obtain ⟨before, after, k, us, rfl, hline, hrest⟩ := h.shows x hx hne
    exact ⟨before, after ++ t, k, us, by rw [List.append_assoc], hline, hrest⟩
  · obtain ⟨before, after, k, us, rfl, hline, hrest⟩ := h'.shows x hx hne
    refine ⟨s ++ before, after, k, us, by simp only [List.append_assoc], ?_, hrest⟩
    rw [hline, h.count, List.count_append, Nat.add_assoc]

theorem cons {x : Nat × Literal} (h : Displays lines l xs s m)
    (hx : x.2.elts ≠ [] → Shows lines l s x.1 x.2) : Displays lines l (x :: xs) s m :=
  ⟨h.count, List.forall_mem_cons.2 ⟨hx, h.shows⟩⟩

theorem after (h : Displays lines l xs s m) (ht : '\n' ∉ t) : Displays lines l xs (t ++ s) m :=
  (plain ht l).append h

theorem before (h : Displays lines l xs s m) (ht : '\n' ∉ t) : Displays lines l xs (s ++ t) m := by
  simpa only [List.append_nil] using h.append (plain ht m)

/-- A line break, and the tabs after it. -/
theorem newline (indent l : Nat) :
    Displays lines l [] ('\n' :: List.replicate indent '\t') (l + 1) := by
  refine ⟨?_, nofun⟩
  rw [List.count_cons_self, List.count_eq_zero.2 fun h => ?_, Nat.zero_add]
  cases List.eq_of_mem_replicate h

theorem parenthesize {s : String} (h : Displays lines l xs s.toList m) (wrap : Bool) :
    Displays lines l xs (parenthesize wrap s).toList m := by
  cases wrap with
  | false => exact h
  | true =>
    simp only [LiteralFill.parenthesize, ↓reduceIte, String.toList_append]
    exact (h.after (by decide)).before (by decide)

theorem glue {op right : String} (h : Displays lines l xs right.toList m) (hop : '\n' ∉ op.toList) :
    Displays lines l xs (glue op right).toList m := by
  rw [LiteralFill.glue, String.toList_append, String.toList_append, List.append_assoc]
  refine (h.after ?_).after hop
  split <;> decide

theorem spacedOperator {op right : String} (h : Displays lines l xs right.toList m)
    (hop : '\n' ∉ op.toList) (spaced : Prop) [Decidable spaced] :
    Displays lines l xs
      (if spaced then " " ++ op ++ " " ++ right else LiteralFill.glue op right).toList m := by
  split
  · simp only [String.toList_append, List.append_assoc]
    exact ((h.after (by decide)).after hop).after (by decide)
  · exact h.glue hop

theorem newline_notMem_sliceColon (blanks : Bool) (left right : Option String) :
    '\n' ∉ (sliceColon blanks left right).toList := by
  unfold sliceColon
  split <;> split <;> decide

theorem sliceBounds {k : Nat} {low? high? max? : Option String} {three : Bool} (blanks : Bool)
    (hlow : Displays lines l xs (low?.getD "").toList m)
    (hhigh : Displays lines m ys (high?.getD "").toList n)
    (hmax : Displays lines n zs (max?.getD "").toList k) (hthree : max?.isSome → three = true) :
    Displays lines l (xs ++ ys ++ zs) (sliceBounds blanks three low? high? max?).toList k := by
  have htwo := hlow.append (hhigh.after (newline_notMem_sliceColon blanks low? high?))
  cases three with
  | true =>
    simpa only [LiteralFill.sliceBounds, ↓reduceIte, String.toList_append, List.append_assoc] using
      htwo.append (hmax.after (newline_notMem_sliceColon blanks high? max?))
  | false =>
    obtain rfl : max? = none := by
      cases max? with
      | none => rfl
      | some _ => cases hthree rfl
    simpa only [LiteralFill.sliceBounds, Bool.false_eq_true, ↓reduceIte, String.toList_append,
      List.append_assoc, Option.getD_none] using htwo.append hmax

end Displays

namespace PrintsCells

variable {indent l n : Nat} {cells : List Cell} {us : List Token}

/-- What the lines of its elements show, a broken list does. -/
theorem displays_brokenList {lines : Nat} {xs : List (Nat × Literal)}
    (h : PrintsCells (indent + 1) l cells us n) (hl : 0 < l) (hne : cells ≠ [])
    (hlines : ∀ blanks : List Nat, blanks.length = cells.length →
      Displays lines l xs (List.zipWith (Cell.line (indent + 1)) cells blanks).flatten n) :
    Displays lines l xs (brokenList ⟨l, n + 1, true⟩ indent cells).toList (n + 1) := by
  rw [h.toList_brokenList hl hne]
  have hlist := (hlines (columnBlanks (1 < cells.length) (placeCells true ⟨l, 0, false, [], 0⟩ cells))
    (by rw [length_columnBlanks, length_placeCells])).append (.newline indent n)
  rwa [List.append_nil] at hlist

end PrintsCells

theorem length_printCells (lines indent : Nat) (es : List Expr) :
    (printCells lines indent es).length = es.length := by
  induction es with
  | nil => rfl
  | cons e rest ih =>
    obtain ⟨c, hc, -⟩ := printCells_cons lines indent e rest
    rw [hc, List.length_cons, ih, List.length_cons]

theorem forall_modifyHead_opened {ts : List Token} {P : String → Prop} :
    (∀ t ∈ ts.modifyHead Token.opened, P t.text) ↔ ∀ t ∈ ts, P t.text := by
  cases ts with
  | nil => rfl
  | cons t ts => simp only [List.modifyHead_cons, List.forall_mem_cons]; rfl

section Layout

variable {lines : Nat}

mutual

/-- Printed with room for all its lines, an expression that is laid out from the line `p` on shows the
elements of its literals, as long as nothing in it breaks a line. -/
theorem Expr.displays_layOut (prec depth indent : Nat) {p : Nat} (hp : 0 < p) :
    (e : Expr) → p + e.advances ≤ max lines 1 →
      (∀ t ∈ (e.layOut p).tokens indent, '\n' ∉ t.text.toList) →
      Displays lines p ((e.layOut p).literals indent)
        ((e.layOut p).print lines prec depth indent).toList (p + e.advances)
  | .ident _ _, _, hleaf | .basicLit _ _ _, _, hleaf | .funcLit _ _, _, hleaf =>
    .plain (hleaf _ List.mem_cons_self) p
  | .compositeLit type? _ [] _, hroom, hleaf => by
    simp only [Expr.layOut, Expr.tokens, List.forall_mem_append] at hleaf
    have htype := displays_layOutOpt highestPrec depth indent hp type? hroom hleaf.1.1
    have hbraces : Displays lines (p + advancesOpt type?) [] ['\x7b', '\x7d'] (p + advancesOpt type?) :=
      .plain (by decide) _
    simp only [Expr.layOut, Expr.literals, Expr.print, String.toList_append, List.append_assoc]
    exact htype.append (hbraces.cons (absurd rfl))
  | .compositeLit type? lbrace (e :: rest) rbrace, hroom, hleaf => by
    rw [Expr.advances_compositeLit_cons, ← Nat.add_assoc, ← Nat.add_assoc] at hroom ⊢
    rw [Expr.layOut_compositeLit_cons, Expr.tokens] at hleaf
    simp only [List.forall_mem_append, List.forall_mem_cons] at hleaf
    obtain ⟨⟨htype, -, helts⟩, -⟩ := hleaf
    have htype := displays_layOutOpt highestPrec depth indent hp type? (by omega) htype
    have hbrace : 0 < p + advancesOpt type? := by omega
    have hcells := printsCells_layOutElements (indent + 1) hbrace (e :: rest) (Nat.le_of_succ_le hroom)
    have hlist := hcells.displays_brokenList hbrace (printCells_ne_nil _ _ _ _) fun blanks hblanks =>
      displays_layOutElements (indent + 1) hbrace (e :: rest) (by omega) helts blanks
        (by rw [hblanks, length_printCells, length_layOutElements])
    rw [Expr.print_layOut_compositeLit_cons prec depth indent hp type? lbrace rbrace e rest hroom,
      Expr.layOut_compositeLit_cons, Expr.literals]
    simp only [String.toList_append, List.append_assoc]
    refine htype.append (.after (.before (hlist.cons fun _ => ?_) (by decide)) (by decide))
    exact ⟨[], [], _, _, by rw [List.nil_append, List.append_nil], rfl, hbrace, hcells, helts⟩
  | .keyValue key _ value, hroom, hleaf => by
    rw [Expr.advances] at hroom
    simp only [Expr.layOut, Expr.tokens, List.forall_mem_append, List.forall_mem_cons] at hleaf
    have hkey := key.displays_layOut lowestPrec 1 indent hp (by omega) hleaf.1
    have hvalue := value.displays_layOut lowestPrec 1 indent (p := p + key.advances) (by omega)
      (by omega) hleaf.2.2
    simp only [Expr.layOut, Expr.literals, Expr.print, Expr.advances, ← Nat.add_assoc,
      String.toList_append, List.append_assoc]
    exact hkey.append (hvalue.after (by decide))
  | .binary x _ op y, hroom, hleaf => by
    rw [Expr.advances] at hroom
    simp only [Expr.layOut, Expr.tokens, List.forall_mem_append, List.forall_mem_cons] at hleaf
    simp only [Expr.layOut, Expr.literals, Expr.print, Expr.advances, ← Nat.add_assoc]
    apply Displays.parenthesize
    rw [String.toList_append]
    exact (x.displays_layOut _ _ indent hp (by omega) hleaf.1).append
      ((y.displays_layOut _ _ indent (by omega) (by omega) hleaf.2.2).spacedOperator hleaf.2.1 _)
  | .unary _ op x, hroom, hleaf => by
    simp only [Expr.layOut, Expr.tokens, List.forall_mem_cons] at hleaf
    exact ((x.displays_layOut _ _ indent hp hroom hleaf.2).glue hleaf.1).parenthesize _
  | .call callee _ args spread _, hroom, hleaf => by
    rw [Expr.advances] at hroom
    simp only [Expr.layOut, Expr.tokens, List.forall_mem_append, List.forall_mem_cons] at hleaf
    have hargs := displays_layOutArgs (if 1 < (layOutArgs (p + callee.advances) args).length then
      depth + 1 else depth) indent (p := p + callee.advances) (by omega) args (by omega) hleaf.1.2.2
    simp only [Expr.layOut, Expr.literals, Expr.print, Expr.advances, ← Nat.add_assoc,
      String.toList_append, List.append_assoc]
    refine (callee.displays_layOut _ _ indent hp (by omega) hleaf.1.1).append
      (.after (.before hargs ?_) (by decide))
    split <;> decide
  | .selector x name _, hroom, hleaf => by
    simp only [Expr.layOut, Expr.tokens, List.forall_mem_append, List.forall_mem_cons] at hleaf
    simp only [Expr.layOut, Expr.literals, Expr.print, Expr.advances, String.toList_append,
      List.append_assoc]
    refine (x.displays_layOut _ _ indent hp hroom hleaf.1).before ?_
    rw [List.mem_append]
    exact not_or.2 ⟨by decide, hleaf.2.1⟩
  | .index x _ index _, hroom, hleaf => by
    rw [Expr.advances] at hroom
    simp only [Expr.layOut, Expr.tokens, List.forall_mem_append, List.forall_mem_cons] at hleaf
    simp only [Expr.layOut, Expr.literals, Expr.print, Expr.advances, ← Nat.add_assoc,
      String.toList_append, List.append_assoc]
    exact (x.displays_layOut _ _ indent hp (by omega) hleaf.1.1).append
      (.after ((index.displays_layOut _ _ indent (by omega) (by omega) hleaf.1.2.2).before (by decide))
        (by decide))
  | .slice x _ low? high? max? threeIndex _, hroom, hleaf => by
    rw [Expr.advances] at hroom
    simp only [Expr.layOut, Expr.tokens, List.forall_mem_append, List.forall_mem_cons] at hleaf
    obtain ⟨⟨⟨⟨hx, -, hlow⟩, hhigh⟩, hmax⟩, -⟩ := hleaf
    simp only [Expr.layOut, Expr.literals, Expr.print, Expr.advances, ← Nat.add_assoc,
      String.toList_append, List.append_assoc, isSome_layOutOpt]
    have hx := x.displays_layOut highestPrec 1 indent hp (by omega) hx
    have hlow := displays_layOutOpt lowestPrec (depth + 1) indent (p := p + x.advances) (by omega) low?
      (by omega) hlow
    have hhigh := displays_layOutOpt lowestPrec (depth + 1) indent
      (p := p + x.advances + advancesOpt low?) (by omega) high? (by omega) hhigh
    have hmax := displays_layOutOpt lowestPrec (depth + 1) indent
      (p := p + x.advances + advancesOpt low? + advancesOpt high?) (by omega) max? (by omega) hmax
    have hthree : (printOpt lines lowestPrec (depth + 1) indent (layOutOpt
        (p + x.advances + advancesOpt low? + advancesOpt high?) max?)).isSome →
        (threeIndex || max?.isSome) = true := by
      cases max? with
      | none => nofun
      | some _ => exact fun _ => Bool.or_true _
    have hbounds := fun blanks => ((Displays.sliceBounds blanks hlow hhigh hmax hthree).before
      (t := "]".toList) (by decide)).after (t := "[".toList) (by decide)
    simp only [List.append_assoc] at hbounds
    exact hx.append (hbounds _)
  | .star _ x, hroom, hleaf => by
    simp only [Expr.layOut, Expr.tokens, List.forall_mem_cons] at hleaf
    apply Displays.parenthesize
    rw [String.toList_append]
    exact (x.displays_layOut _ _ indent hp hroom hleaf.2).after (by decide)
  | .paren _ x _, hroom, hleaf => by
    simp only [Expr.layOut, Expr.tokens, List.forall_mem_append, List.forall_mem_cons] at hleaf
    simp only [Expr.layOut, Expr.literals, Expr.print, Expr.advances, String.toList_append]
    exact ((x.displays_layOut _ _ indent hp hroom hleaf.1.2).after (by decide)).before (by decide)
  | .ellipsis _ elt?, hroom, hleaf => by
    simp only [Expr.layOut, Expr.tokens, List.forall_mem_cons] at hleaf
    simp only [Expr.layOut, Expr.literals, Expr.print, Expr.advances, String.toList_append]
    exact (displays_layOutOpt _ _ indent hp elt? hroom hleaf.2).after (by decide)
  | .arrayType _ len? elt, hroom, hleaf => by
    rw [Expr.advances] at hroom
    simp only [Expr.layOut, Expr.tokens, List.forall_mem_append, List.forall_mem_cons] at hleaf
    simp only [Expr.layOut, Expr.literals, Expr.print, Expr.advances, ← Nat.add_assoc,
      String.toList_append, List.append_assoc]
    exact .after ((displays_layOutOpt _ _ indent hp len? (by omega) hleaf.1.2).append
      (.after (elt.displays_layOut _ _ indent (by omega) (by omega) hleaf.2) (by decide))) (by decide)
  | .mapType _ key value, hroom, hleaf => by
    rw [Expr.advances] at hroom
    simp only [Expr.layOut, Expr.tokens, List.forall_mem_append, List.forall_mem_cons] at hleaf
    simp only [Expr.layOut, Expr.literals, Expr.print, Expr.advances, ← Nat.add_assoc,
      String.toList_append, List.append_assoc]
    exact .after ((key.displays_layOut _ _ indent hp (by omega) hleaf.1.2).append
      (.after (value.displays_layOut _ _ indent (by omega) (by omega) hleaf.2) (by decide))) (by decide)

theorem displays_layOutOpt (prec depth indent : Nat) {p : Nat} (hp : 0 < p) :
    (e? : Option Expr) → p + advancesOpt e? ≤ max lines 1 →
      (∀ t ∈ tokensOpt indent (layOutOpt p e?), '\n' ∉ t.text.toList) →
      Displays lines p (literalsOpt indent (layOutOpt p e?))
        ((printOpt lines prec depth indent (layOutOpt p e?)).getD "").toList (p + advancesOpt e?)
  | none, _, _ => .plain List.not_mem_nil p
  | some e, hroom, hleaf => e.displays_layOut prec depth indent hp hroom hleaf

theorem displays_layOutArgs (depth indent : Nat) {p : Nat} (hp : 0 < p) :
    (es : List Expr) → p + advancesAll es ≤ max lines 1 →
      (∀ t ∈ tokensArgs indent (layOutArgs p es), '\n' ∉ t.text.toList) →
      Displays lines p (literalsAll indent (layOutArgs p es))
        (", ".intercalate (printArgs lines depth indent (layOutArgs p es))).toList (p + advancesAll es)
  | [], _, _ => .plain List.not_mem_nil p
  | [e], hroom, hleaf => by
    simp only [layOutArgs, tokensArgs, List.append_nil] at hleaf
    simpa only [layOutArgs, literalsAll, printArgs, String.intercalate_singleton, advancesAll,
      List.append_nil, Nat.add_zero] using e.displays_layOut lowestPrec depth indent hp hroom hleaf
  | e :: e' :: rest, hroom, hleaf => by
    rw [advancesAll] at hroom
    rw [layOutArgs, tokensArgs, List.forall_mem_append] at hleaf
    have hrest := displays_layOutArgs depth indent (p := p + e.advances) (by omega) (e' :: rest)
      (by omega) hleaf.2
    rw [layOutArgs, literalsAll, printArgs, advancesAll, ← Nat.add_assoc,
      String.intercalate_cons_of_ne_nil (by simp [layOutArgs, printArgs]), String.toList_append,
      String.toList_append, List.append_assoc]
    exact (e.displays_layOut _ _ indent hp (by omega) hleaf.1).append (hrest.after (by decide))

theorem displays_layOutElements (indent : Nat) {p : Nat} (hp : 0 < p) :
    (es : List Expr) → p + (es.length + advancesAll es) ≤ max lines 1 →
      (∀ t ∈ tokensElements indent (layOutElements p es), '\n' ∉ t.text.toList) →
      ∀ blanks : List Nat, blanks.length = es.length →
      Displays lines p (literalsAll indent (layOutElements p es))
        (List.zipWith (Cell.line indent) (printCells lines indent (layOutElements p es)) blanks).flatten
        (p + (es.length + advancesAll es))
  | [], _, _, _, _ => .plain List.not_mem_nil p
  | e :: rest, hroom, hleaf, blanks, hblanks => by
    obtain ⟨b, blanks, rfl⟩ := List.exists_cons_of_length_eq_add_one hblanks
    simp only [List.length_cons, advancesAll] at hroom
    rw [layOutElements, tokensElements, List.forall_mem_append, forall_modifyHead_opened
      (P := fun text => '\n' ∉ text.toList)] at hleaf
    have hrest := displays_layOutElements indent (p := p + 1 + e.advances) (by omega) rest (by omega)
      hleaf.2 blanks (Nat.succ.inj hblanks)
    obtain ⟨c, hc, -, -, hspaced⟩ := printCells_cons lines indent (e.layOut (p + 1))
      (layOutElements (p + 1 + e.advances) rest)
    have helement : Displays lines (p + 1) ((e.layOut (p + 1)).literals indent) (c.spaced b)
        (p + 1 + e.advances) := by
      rw [hspaced]
      have he := e.displays_layOut lowestPrec 1 indent (p := p + 1) (by omega) (by omega) hleaf.1
      cases e with
      | keyValue key _ value =>
        rw [Expr.advances] at hroom
        simp only [Expr.layOut, Expr.tokens, List.forall_mem_append, List.forall_mem_cons] at hleaf
        have hkey := key.displays_layOut lowestPrec 1 indent (p := p + 1) (by omega) (by omega)
          hleaf.1.1
        have hvalue := value.displays_layOut lowestPrec 1 indent (p := p + 1 + key.advances) (by omega)
          (by omega) hleaf.1.2.2
        rw [Expr.layOut, Expr.literals, Expr.advances, ← Nat.add_assoc]
        refine hkey.append (.after (t := [':']) (hvalue.after fun h => ?_) (by decide))
        cases List.eq_of_mem_replicate h
      | _ => exact he
    have hend : p + ((e :: rest).length + advancesAll (e :: rest)) =
        p + 1 + e.advances + (rest.length + advancesAll rest) := by
      simp only [List.length_cons, advancesAll]
      omega
    rw [layOutElements, hc, literalsAll, List.zipWith_cons_cons, List.flatten_cons, hend]
    exact (((Displays.newline indent p).append helement).before (by decide)).append hrest

end

end Layout

theorem Prints.count_newline {l m : Nat} {ts : List Token} {s : List Char} (h : Prints l ts s m)
    (hts : ∀ t ∈ ts, '\n' ∉ t.text.toList) : m = l + s.count '\n' := by
  induction h with
  | nil => rfl
  | @filler _ _ _ _ c hc _ ih =>
    have hne : c ≠ '\n' := by
      rintro rfl
      cases hc
    rw [List.count_cons_of_ne hne, ← ih hts]
  | token _ _ _ ih =>
    obtain ⟨ht, hts⟩ := List.forall_mem_cons.1 hts
    rw [List.count_append, List.count_eq_zero.2 ht, Nat.zero_add, ← ih hts]
  | line _ _ ih =>
    obtain ⟨ht, hts⟩ := List.forall_mem_cons.1 hts
    rw [List.count_append, List.count_cons_self, List.count_eq_zero.2 fun h => ?_,
      ih (List.forall_mem_cons.2 ⟨ht, hts⟩), Nat.zero_add, Nat.add_assoc]
    cases List.eq_of_mem_replicate h

theorem length_splitOn_newline (s : List Char) : (s.splitOn '\n').length = s.count '\n' + 1 := by
  induction s with
  | nil => rfl
  | cons c s ih =>
    rw [List.splitOn_cons_eq_if_modifyHead, List.count_cons]
    split
    · rw [List.length_cons, ih]
    · rw [List.length_modifyHead, ih, Nat.add_zero]

/-- An element has as many lines as its text has line breaks, and the next one starts below them. -/
theorem PrintsCells.firstLine_eq {depth l n : Nat} {cells : List Cell} {us : List Token}
    (h : PrintsCells depth l cells us n) (hus : ∀ t ∈ us, '\n' ∉ t.text.toList)
    {before after : List Cell} {c : Cell} (hcells : cells = before ++ c :: after) {blanks : List Nat}
    (hblanks : blanks.length = before.length) (indent : Nat) :
    c.firstLine = l + 1 + (List.zipWith (Cell.line indent) before blanks).flatten.count '\n' := by
  induction h generalizing before blanks with
  | nil => cases before <;> cases hcells
  | @cons l m n c' cells t ts us hfirst hlast hopens hdepth hc _ ih =>
    rw [List.forall_mem_append, List.forall_mem_cons] at hus
    cases before with
    | nil =>
      cases hcells
      exact hfirst
    | cons c'' before =>
      cases hcells
      obtain ⟨b, blanks, rfl⟩ := List.exists_cons_of_length_eq_add_one hblanks
      have hspaced := (hc b).count_newline (List.forall_mem_cons.2 hus.1)
      have hline : (c'.line indent b).count '\n' = 1 + (c'.spaced b).count '\n' := by
        simp [Cell.line, List.count_replicate, Nat.add_comm]
      rw [ih hus.2 rfl (Nat.succ.inj hblanks), List.zipWith_cons_cons, List.flatten_cons,
        List.count_append, hline]
      omega

theorem exists_lines_eq_newline_cons (depth : Nat) (cells : List Cell) (blanks : List Nat)
    (s : List Char) :
    ∃ t, (List.zipWith (Cell.line depth) cells blanks).flatten ++ '\n' :: s = '\n' :: t := by
  cases cells with
  | nil => exact ⟨s, rfl⟩
  | cons c cells =>
    cases blanks with
    | nil => exact ⟨s, rfl⟩
    | cons b blanks => exact ⟨_, rfl⟩

/-- An element is found on the lines of the text from that of its first token on, its value where the
columns of the list have it. -/
theorem Shows.splitOn_prefix {lines depth : Nat} {s : List Char} {lit : Literal}
    (h : Shows lines 1 s depth lit) :
    let cells := printCells lines (depth + 1) lit.elts
    ∃ p, (∀ e ∈ placeCells true p cells, e.breaks = true) ∧
      ∀ before c after bs b bs', cells = before ++ c :: after → bs.length = before.length →
        columnBlanks (1 < cells.length) (placeCells true p cells) = bs ++ b :: bs' →
        (List.replicate (depth + 1) '\t' ++ c.spaced b ++ [',']).splitOn '\n' <+:
          (s.splitOn '\n').drop (c.firstLine - 1) := by
  intro cells
  obtain ⟨above, below, n, us, rfl, hline, hpos, hcells, hus⟩ := h
  refine ⟨⟨lit.lbrace, 0, false, [], 0⟩, hcells.breaks hpos true rfl, ?_⟩
  intro before c after bs b bs' heq hlength hblanks
  have hne : cells ≠ [] := by
    rw [heq]
    exact List.append_ne_nil_of_right_ne_nil before (List.cons_ne_nil c after)
  obtain ⟨rest, hrest⟩ := exists_lines_eq_newline_cons (depth + 1) after bs'
    (List.replicate depth '\t' ++ below)
  let element := List.replicate (depth + 1) '\t' ++ c.spaced b ++ [',']
  let front := above ++ (List.zipWith (Cell.line (depth + 1)) before bs).flatten
  have htext : above ++ (brokenList ⟨lit.lbrace, n + 1, true⟩ depth cells).toList ++ below =
      front ++ '\n' :: (element ++ '\n' :: rest) := by
    have hlines : List.zipWith (Cell.line (depth + 1)) cells (bs ++ b :: bs') =
        List.zipWith (Cell.line (depth + 1)) before bs ++
          c.line (depth + 1) b :: List.zipWith (Cell.line (depth + 1)) after bs' := by
      rw [heq, List.zipWith_append hlength.symm, List.zipWith_cons_cons]
    rw [hcells.toList_brokenList hpos hne true, hblanks, ← hrest, hlines]
    simp only [List.flatten_append, List.flatten_cons, List.append_assoc, front, element, Cell.line,
      List.cons_append]
  have hfirst : c.firstLine - 1 = (front.splitOn '\n').length := by
    rw [hcells.firstLine_eq hus heq hlength (depth + 1), hline, length_splitOn_newline,
      List.count_append]
    omega
  rw [htext, List.splitOn_append_cons_self, List.splitOn_append_cons_self, hfirst, List.drop_left]
  exact List.prefix_append _ _

theorem Cell.newline_notMem_spaced {c : Cell} (h : '\n' ∉ c.text.toList) (blanks : Nat) :
    '\n' ∉ c.spaced blanks := by
  rw [Cell.toList_text] at h
  unfold spaced at h ⊢
  split at h
  · simp only [List.mem_append, List.mem_cons, List.mem_replicate] at h ⊢
    tauto
  · exact h

section Rows

variable {lines depth : Nat} {s : List Char} {lit : Literal}

/-- The line of an entry that belongs to a run. -/
theorem Shows.getElem?_of_run (h : Shows lines 1 s depth lit) {before run after : List Cell}
    (hcells : printCells lines (depth + 1) lit.elts = before ++ (run ++ after))
    (hrun : IsRun before run after) (hkeys : ∀ c ∈ run, 0 < c.keyLength ∧ c.keyLength ≤ smallKey)
    {c : Cell} (hc : c ∈ run) :
    ∃ key blanks, c.key? = some key ∧ key.length + blanks = maxKeyLength run + 1 ∧
      (s.splitOn '\n')[c.firstLine - 1]? = some (List.replicate (depth + 1) '\t' ++
        (key.toList ++ ':' :: (List.replicate blanks ' ' ++ c.value.toList)) ++ [',']) := by
  obtain ⟨p, hbreaks, hrows⟩ := h.splitOn_prefix
  obtain ⟨hkey, hline⟩ := hrun.entries c hc
  obtain ⟨key, hkey⟩ := Option.isSome_iff_exists.1 hkey
  have hle := Cell.keyLength_le hc
  have hkeyLength : c.keyLength = key.length := by rw [Cell.keyLength, hkey]; rfl
  refine ⟨key, maxKeyLength run - c.keyLength + 1, hkey, by omega, ?_⟩
  obtain ⟨front, back, rfl⟩ := List.append_of_mem hc
  obtain ⟨bs, bs', hlength, hblanks⟩ := columnBlanks_of_run_at hcells hbreaks hrun hkeys
  have hrow := hrows (before ++ front) c (back ++ after) bs _ bs'
    (by rw [hcells]; simp only [List.append_assoc, List.cons_append]) hlength hblanks
  rw [List.splitOn_eq_singleton] at hrow
  · obtain ⟨below, hbelow⟩ := hrow
    rw [← List.head?_drop, ← hbelow, Cell.spaced, hkey]
    rfl
  · rw [List.mem_append, List.mem_append]
    rintro ((htab | hc) | hcomma)
    · cases List.eq_of_mem_replicate htab
    · exact Cell.newline_notMem_spaced hline _ hc
    · cases List.mem_singleton.1 hcomma

/-- The lines of an element that belongs to none. -/
theorem Shows.splitOn_prefix_of_not_isEntry (h : Shows lines 1 s depth lit) {c : Cell}
    (hc : c ∈ printCells lines (depth + 1) lit.elts) (hentry : ¬c.IsEntry) :
    (List.replicate (depth + 1) '\t' ++ c.text.toList ++ [',']).splitOn '\n' <+:
      (s.splitOn '\n').drop (c.firstLine - 1) := by
  obtain ⟨p, -, hrows⟩ := h.splitOn_prefix
  obtain ⟨before, after, heq⟩ := List.append_of_mem hc
  obtain ⟨bs, bs', hlength, hblanks⟩ := columnBlanks_of_not_isEntry (p := p) _ heq hentry
  rw [Cell.toList_text]
  exact hrows before c after bs 1 bs' heq hlength hblanks

end Rows

end LiteralFill
