import LiteralFill.Proofs.Printer.KeyWidths
import LiteralFill.Proofs.Printer.Prints

namespace LiteralFill

@[simp] theorem toList_repeated (c : Char) (n : Nat) : (repeated c n).toList = List.replicate n c :=
  String.toList_ofList

@[simp] theorem toList_newline (n : Nat) : (newline n).toList = '\n' :: List.replicate n '\t' := by
  rw [newline, String.toList_append, toList_repeated]
  rfl

/-- The text of an element with its value any number of blanks behind its key. -/
def Cell.spaced (c : Cell) (blanks : Nat) : List Char :=
  match c.key? with
  | some key => key.toList ++ ':' :: (List.replicate blanks ' ' ++ c.value.toList)
  | none => c.value.toList

theorem Cell.toList_text (c : Cell) : c.text.toList = c.spaced 1 := by
  unfold text spaced
  cases c.key? with
  | none => rfl
  | some key => simp [String.toList_append]

/-- An element with its value any number of blanks behind its key. -/
def Cell.padded (c : Cell) (blanks : Nat) : String :=
  match c.key? with
  | some key => key ++ ":" ++ repeated ' ' blanks ++ c.value
  | none => c.value

theorem Cell.toList_padded (c : Cell) (blanks : Nat) : (c.padded blanks).toList = c.spaced blanks := by
  unfold padded spaced
  cases c.key? with
  | none => rfl
  | some key => simp [String.toList_append]

theorem Cell.text_eq_padded (c : Cell) : c.text = c.padded 1 := by
  rw [← String.toList_inj, Cell.toList_text, Cell.toList_padded]

/-- The blanks behind the key of a row. -/
def Row.blanks (r : Row) (width : Nat) : Nat :=
  match r.key? with
  | some key => width - key.length + 1
  | none => 1

/-- A row shows its elements in order. Only behind the key of the first are there blanks to set. -/
theorem Row.write_ofGroup (indent width : Nat) (many : Bool) (e : Placed) (rest : List Placed) :
    (Row.ofGroup many (e :: rest)).write indent width =
      (if e.breaks then newline (indent + 1) else "") ++
        ", ".intercalate
          (e.cell.padded ((Row.ofGroup many (e :: rest)).blanks width) :: rest.map (·.cell.text)) := by
  unfold Row.write Row.blanks Row.ofGroup
  dsimp only
  generalize hk : (if many && 0 < e.size && e.breaks then e.cell.key? else none) = key?
  cases key? with
  | none =>
    rw [Option.map_none, ← Cell.text_eq_padded]
    exact congrArg (· ++ _) String.append_empty
  | some key =>
    have hkey : e.cell.key? = some key := by
      split at hk
      · exact hk
      · cases hk
    rw [Option.map_some, Cell.padded, hkey, String.append_assoc]
    exact congrArg _ String.intercalate_cons_append.symm

theorem Row.exists_write (indent width : Nat) (many : Bool) (e : Placed) (rest : List Placed) :
    ∃ blanks, (Row.ofGroup many (e :: rest)).write indent width =
      (if e.breaks then newline (indent + 1) else "") ++
        ", ".intercalate (e.cell.padded blanks :: rest.map (·.cell.text)) :=
  ⟨_, Row.write_ofGroup indent width many e rest⟩

/-- An element that starts a line and is alone on it comes after the tabs of that line. -/
theorem Row.toList_write (indent width : Nat) (many : Bool) {e : Placed} (h : e.breaks = true) :
    ((Row.ofGroup many [e]).write indent width).toList =
      '\n' :: List.replicate (indent + 1) '\t' ++
        e.cell.spaced ((Row.ofGroup many [e]).blanks width) := by
  rw [Row.write_ofGroup, if_pos h, List.map_nil, String.intercalate_singleton, String.toList_append,
    toList_newline, Cell.toList_padded]

/-- Elements one below the other, the first on the line after `l`, that show their tokens at the given
depth however far their values are moved to the right. -/
inductive PrintsCells (depth : Nat) : Nat → List Cell → List Token → Nat → Prop where
  | nil (l : Nat) : PrintsCells depth l [] [] l
  | cons {l m n : Nat} {c : Cell} {cells : List Cell} {t : Token} {ts us : List Token} :
    c.firstLine = l + 1 → c.lastLine = m → t.opens = false → t.depth = depth →
      (∀ blanks, Prints (l + 1) (t :: ts) (c.spaced blanks) m) → PrintsCells depth m cells us n →
      PrintsCells depth l (c :: cells) (t.opened :: ts ++ us) n

theorem splitBy_eq_map_singleton {α : Type} {r : α → α → Bool} {xs : List α}
    (h : ∀ a, ∀ b ∈ xs, r a b = false) : xs.splitBy r = xs.map fun x => [x] := by
  rw [List.splitBy_eq_iff]
  refine ⟨?_, ?_, ?_, ?_⟩
  · rw [← List.flatMap_def, List.flatMap_singleton']
  · simp
  · intro m hm
    obtain ⟨x, -, rfl⟩ := List.mem_map.1 hm
    exact .singleton x
  · refine (List.pairwise_of_forall_mem_list fun a ha b hb => ?_).isChain
    obtain ⟨x, -, rfl⟩ := List.mem_map.1 ha
    obtain ⟨y, hy, rfl⟩ := List.mem_map.1 hb
    exact ⟨List.cons_ne_nil x [], List.cons_ne_nil y [], h x y hy⟩

@[simp] theorem length_placeCells (measured : Bool) (p : Progress) (cells : List Cell) :
    (placeCells measured p cells).length = cells.length := by
  induction cells generalizing p with
  | nil => rfl
  | cons c cells ih => rw [placeCells, List.length_cons, ih, List.length_cons]

theorem map_cell_placeCells (measured : Bool) (p : Progress) (cells : List Cell) :
    (placeCells measured p cells).map (·.cell) = cells := by
  induction cells generalizing p with
  | nil => rfl
  | cons c cells ih => exact congrArg (c :: ·) (ih _)

/-- A broken list is its elements in rows, and perhaps a comma with a line break behind them. -/
theorem exists_brokenList_eq (b : Braces) (indent : Nat) (cells : List Cell) :
    ∃ (groups : List (List Placed)) (widths : List Nat) (closes : Bool),
      brokenList b indent cells =
        ",".intercalate (List.zipWith (Row.write indent)
          (groups.map (Row.ofGroup (1 < cells.length))) widths) ++
          (if closes then "," ++ newline indent else "") ∧
      (∀ group ∈ groups, group ≠ []) ∧ widths.length = groups.length ∧
      groups.flatten.map (·.cell) = cells := by
  refine ⟨_, _, _, rfl, fun _ => List.ne_nil_of_mem_splitBy, ?_, ?_⟩
  · rw [length_keyWidths, List.length_map]
  · rw [List.flatten_splitBy, map_cell_placeCells]

namespace PrintsCells

variable {depth indent l n : Nat} {cells : List Cell} {us : List Token}

/-- All elements start a line. -/
theorem breaks (h : PrintsCells depth l cells us n) (hl : 0 < l) (measured : Bool) {p : Progress}
    (hp : p.line = l) : ∀ e ∈ placeCells measured p cells, e.breaks = true := by
  induction h generalizing p with
  | nil => nofun
  | @cons l m n c cells t ts us hfirst hlast _ _ hc _ ih =>
    have hle : l + 1 ≤ m := (hc 0).le
    intro e he
    rcases List.mem_cons.1 he with rfl | he
    · simp only [Progress.next, hp, hfirst, Bool.and_eq_true, decide_eq_true_eq]
      omega
    · exact ih (by omega) hlast e he

theorem prints_rows (h : PrintsCells (indent + 1) l cells us n) (hl : 0 < l) (measured many : Bool)
    {p : Progress} (hp : p.line = l) (widths : List Nat) (hw : widths.length = cells.length) :
    Prints l us (",".intercalate (List.zipWith (Row.write indent)
      ((placeCells measured p cells).map fun e => Row.ofGroup many [e]) widths)).toList n := by
  induction h generalizing p widths with
  | nil =>
    rw [placeCells, List.map_nil, List.zipWith_nil_left]
    exact .nil _
  | @cons l m n c cells t ts us hfirst hlast hopens hdepth hc hcells ih =>
    have hle : l + 1 ≤ m := (hc 0).le
    obtain ⟨width, widths, rfl⟩ := List.exists_cons_of_length_eq_add_one hw
    have hw : widths.length = cells.length := Nat.succ.inj hw
    have hbreaks : (p.next measured c).breaks = true := by
      simp only [Progress.next, hp, hfirst, Bool.and_eq_true, decide_eq_true_eq]
      omega
    have hrow := Row.toList_write indent width many hbreaks
    have hhead : Prints l (t.opened :: ts)
        ((Row.ofGroup many [p.next measured c]).write indent width).toList m := by
      rw [hrow, ← hdepth]
      exact .line hopens (hc _)
    have hrest := ih (by omega) (p := p.after (p.next measured c)) hlast widths hw
    simp only [placeCells, List.map_cons, List.zipWith_cons_cons]
    -- only between two rows there is a comma
    cases hcells with
    | nil =>
      obtain rfl := List.eq_nil_of_length_eq_zero hw
      rw [List.zipWith_nil_right, String.intercalate_singleton, List.append_nil]
      exact hhead
    | cons _ _ _ _ _ _ =>
      obtain ⟨width', widths, rfl⟩ := List.exists_cons_of_length_eq_add_one hw
      rw [String.intercalate_cons_of_ne_nil (by simp [placeCells]), String.toList_append,
        String.toList_append, List.append_assoc]
      exact hhead.append (.filler rfl hrest)

theorem getLast?_lastLine (h : PrintsCells depth l cells us n) (hne : cells ≠ []) :
    cells.getLast?.map (·.lastLine) = some n := by
  induction h with
  | nil => exact absurd rfl hne
  | cons _ hlast _ _ _ hcells ih =>
    cases hcells with
    | nil => exact congrArg some hlast
    | cons _ _ _ _ _ _ =>
      rw [List.getLast?_cons_cons]
      exact ih (List.cons_ne_nil _ _)

theorem le (h : PrintsCells depth l cells us n) : l ≤ n := by
  induction h with
  | nil => exact Nat.le_refl _
  | cons _ _ _ _ hc _ ih => exact Nat.le_trans (Nat.le_of_succ_le (hc 0).le) ih

/-- A broken list has its elements in a row each, and leaves the brace that closes it to a line of its
own. -/
theorem brokenList_eq (h : PrintsCells (indent + 1) l cells us n) (hl : 0 < l) (hne : cells ≠ [])
    (measured : Bool) :
    let rows := (placeCells measured ⟨l, 0, false, [], 0⟩ cells).map fun e =>
      Row.ofGroup (1 < cells.length) [e]
    brokenList ⟨l, n + 1, measured⟩ indent cells =
      ",".intercalate (List.zipWith (Row.write indent) rows (keyWidths rows)) ++
        ("," ++ newline indent) := by
  -- every element starts a line, so that no row has more than one of them
  have hsplit : (placeCells measured ⟨l, 0, false, [], 0⟩ cells).splitBy (fun _ e => !e.breaks) =
      (placeCells measured ⟨l, 0, false, [], 0⟩ cells).map fun e => [e] := by
    refine splitBy_eq_map_singleton fun _ e he => ?_
    rw [h.breaks hl measured rfl e he]
    rfl
  have hclose : 0 < n ∧ n < n + 1 := ⟨Nat.lt_of_lt_of_le hl h.le, Nat.lt_succ_self n⟩
  simp only [brokenList, h.getLast?_lastLine hne, Option.getD_some, hsplit, List.map_map, hclose,
    decide_true, Bool.and_self, ↓reduceIte]
  rfl

/-- A broken list shows its elements and the brace that closes it. -/
theorem prints_brokenList (h : PrintsCells (indent + 1) l cells us n) (hl : 0 < l)
    (hne : cells ≠ []) (measured : Bool) :
    Prints l (us ++ [.opened (.mark indent "\x7d" (n + 1))])
      ((brokenList ⟨l, n + 1, measured⟩ indent cells).toList ++ ['\x7d']) (n + 1) := by
  have hrows := by
    refine h.prints_rows hl measured (1 < cells.length) (p := ⟨l, 0, false, [], 0⟩) rfl
      (keyWidths ((placeCells measured ⟨l, 0, false, [], 0⟩ cells).map fun e =>
        Row.ofGroup (1 < cells.length) [e])) ?_
    rw [length_keyWidths, List.length_map, length_placeCells]
  simp only [h.brokenList_eq hl hne measured, String.toList_append, toList_newline, List.append_assoc]
  exact hrows.append (.filler rfl (.line rfl (.mark indent "\x7d" (n + 1))))

end PrintsCells

end LiteralFill
