namespace LiteralFill

/-- A printed element of a composite literal, with the lines of its first and last token. -/
structure Cell where
  key? : Option String
  value : String
  firstLine : Nat
  lastLine : Nat

def Cell.text (c : Cell) : String :=
  match c.key? with
  | some key => key ++ ": " ++ c.value
  | none => c.value

/-- An element is measured by its key, if it has one; of several lines, it has no size. -/
def Cell.size (c : Cell) : Nat :=
  if c.text.contains '\n' then 0 else (c.key?.getD c.value).length

/-- Keys no longer than this always align. -/
def smallKey : Nat := 40

/-- Longer keys align if they are less than this many times as long, or as short, as the keys above
them. -/
def keyRatio : Float := 2.5

def geometricMean (sizes : List Nat) : Float :=
  Float.exp (sizes.foldl (fun sum n => sum + Float.log n.toFloat) 0.0 / sizes.length.toFloat)

/-- Whether two neighbours of these sizes keep their own columns. `above` are the sizes so far, the
nearest first. -/
def sizesDiffer (above : List Nat) (prevSize size : Nat) : Bool :=
  if prevSize = 0 || size = 0 then true
  else if prevSize ≤ smallKey && size ≤ smallKey then false
  else
    let ratio := size.toFloat / geometricMean above.reverse
    keyRatio * ratio ≤ 1.0 || keyRatio ≤ ratio

/-- An element at its place: whether it starts a line, and the section whose columns that line shares. -/
structure Placed where
  cell : Cell
  size : Nat
  breaks : Bool
  sectionNo : Nat

/-- What the elements so far leave behind: the line reached, the size of the last element and whether
it started a line, the sizes so far with the nearest first, and the section. -/
structure Progress where
  line : Nat
  size : Nat
  broke : Bool
  above : List Nat
  sectionNo : Nat

/-- An element starts a line if it lies below the line reached. The line joins the section of the
line before it if that one holds a single element of like size. -/
def Progress.next (p : Progress) (measured : Bool) (c : Cell) : Placed :=
  let size := if measured then c.size else 0
  let breaks := decide (0 < p.line) && decide (p.line < c.firstLine)
  let joins := p.broke && !sizesDiffer p.above p.size size
  ⟨c, size, breaks, if breaks && !joins then p.sectionNo + 1 else p.sectionNo⟩

def Progress.after (p : Progress) (e : Placed) : Progress :=
  ⟨e.cell.lastLine, e.size, e.breaks, if 0 < e.size then e.size :: p.above else p.above, e.sectionNo⟩

def placeCells (measured : Bool) : Progress → List Cell → List Placed
  | _, [] => []
  | p, c :: rest =>
    let e := p.next measured c
    e :: placeCells measured (p.after e) rest

/-- A line of a broken list, or what stands before the first break. -/
structure Row where
  breaks : Bool
  key? : Option String
  text : String
  sectionNo : Nat

/-- The elements of one line. The first has its key in a column of its own if it starts the line. -/
def Row.ofGroup (many : Bool) : List Placed → Row
  | [] => ⟨false, none, "", 0⟩
  | e :: rest =>
    let key? := if many && 0 < e.size && e.breaks then e.cell.key? else none
    let first := if key?.isSome then e.cell.value else e.cell.text
    ⟨e.breaks, key?.map (· ++ ":"), ", ".intercalate (first :: rest.map (·.cell.text)), e.sectionNo⟩

/-- Whether the key of a row goes into a column that a row of this section began. -/
def Row.joinsColumn (sectionNo : Nat) (r : Row) : Bool := r.key?.isSome && r.sectionNo == sectionNo

/-- Where a column of keys ends that holds the rows up to `stop`. -/
@[semireducible]
def columnEnd (rows : List Row) (sectionNo stop : Nat) : Nat :=
  if h : stop < rows.length then
    if rows[stop].joinsColumn sectionNo then columnEnd rows sectionNo (stop + 1) else stop
  else stop
termination_by rows.length - stop

theorem le_columnEnd (rows : List Row) (sectionNo stop : Nat) : stop ≤ columnEnd rows sectionNo stop := by
  fun_induction columnEnd rows sectionNo stop <;> omega

def longestKey (rows : List Row) : Nat := ((rows.filterMap Row.key?).map String.length).max?.getD 0

/-- Makes the column of the rows from `start` up to `stop` as wide as their longest key. -/
def widen (rows : List Row) (start stop : Nat) (widths : List Nat) : List Nat :=
  widths.take start ++ List.replicate (stop - start) (longestKey ((rows.take stop).drop start)) ++
    widths.drop stop

/-- Widens the columns of the rows from `start` on, one after the other. -/
@[semireducible]
def keyWidthsFrom (rows : List Row) (start : Nat) (widths : List Nat) : List Nat :=
  if h : start < rows.length then
    if rows[start].key?.isSome then
      let stop := columnEnd rows rows[start].sectionNo (start + 1)
      keyWidthsFrom rows stop (widen rows start stop widths)
    else keyWidthsFrom rows (start + 1) widths
  else widths
termination_by rows.length - start
decreasing_by
  · have hlt := le_columnEnd rows rows[start].sectionNo (start + 1)
    omega
  · omega

/-- The width of the column of keys for each row. -/
def keyWidths (rows : List Row) : List Nat := keyWidthsFrom rows 0 (List.replicate rows.length 0)

def repeated (c : Char) (n : Nat) : String := String.ofList (List.replicate n c)

def newline (indent : Nat) : String := "\n" ++ repeated '\t' indent

/-- A row with its key padded to `width`. -/
def Row.write (indent : Nat) (r : Row) (width : Nat) : String :=
  (if r.breaks then newline (indent + 1) else "") ++
    (match r.key? with
      | some key => key ++ repeated ' ' (width - key.length + 1)
      | none => "") ++ r.text

/-- The lines that hold the braces of a literal, and whether both braces have a position. -/
structure Braces where
  openLine : Nat
  closeLine : Nat
  measured : Bool

/-- The inside of a literal whose elements do not all stand on the line of the brace. -/
def brokenList (b : Braces) (indent : Nat) (cells : List Cell) : String :=
  let placed := placeCells b.measured ⟨b.openLine, 0, false, [], 0⟩ cells
  let rows := (placed.splitBy fun _ next => !next.breaks).map (Row.ofGroup (1 < cells.length))
  let lastLine := (cells.getLast?.map (·.lastLine)).getD 0
  ",".intercalate (List.zipWith (Row.write indent) rows (keyWidths rows)) ++
    (if 0 < lastLine && lastLine < b.closeLine then "," ++ newline indent else "")

end LiteralFill
