import Reckon.Report.Figure
import Reckon.Text.Blank
import Reckon.Value.Told

/-!
Reports: text in which numbered tags stand for figures.

The figures are written when the report is shown, in settings that may differ each time. A report
appended to another one has its tags renumbered.
-/

set_option autoImplicit false

namespace Reckon

/-- A report: its text so far, the figures its tags stand for, and its own settings. -/
structure Report where
  content : String
  figures : List (Figure Float)
  style : Style

inductive Cell where
  | figure (figure : Figure Float)
  | value (value : Value)

namespace Report

def empty (style : Style) : Report := ⟨"", [], style⟩

def tag (index : Nat) : String :=
  "[[VAL" ++ Decimal.whole index ++ "]]"

def addText (text : String) (r : Report) : Report :=
  { r with content := r.content ++ text }

def addHeader (text : String) (level : Int) (r : Report) : Report :=
  r.addText (String.ofList (List.replicate level.toNat '#') ++ " " ++ text ++ "\n\n")

def addDivider (r : Report) : Report :=
  r.addText "\n---\n\n"

def addBreak (r : Report) : Report :=
  r.addText "\n\n"

def addPlain (text : String) (r : Report) : Report :=
  r.addText ("```\n" ++ text ++ "\n```\n\n")

def addFigure (figure : Figure Float) (last : String) (r : Report) : Report :=
  { r with
    content := r.content ++ tag r.figures.length ++ last
    figures := r.figures ++ [figure] }

def countFigure (figure : Figure Float) (r : Report) : Report :=
  { r with figures := r.figures ++ [figure] }

def renumber (offset : Nat) : (count : Nat) → String → String
  | 0, text => text
  | i + 1, text => renumber offset i (Text.replace (tag i) (tag (i + offset)) text)

def append (r other : Report) (last : String) : Report :=
  { r with
    content :=
      r.content ++ renumber r.figures.length other.figures.length other.content ++ last
    figures := r.figures ++ other.figures }

/-- Puts figures in the place of their tags, from the last figure to the first; the list holds the
figures in that order with `count` figures. -/
def fill (style : Style) : (figures : List (Figure Float)) → String → Except Failure String
  | [], text => .ok text
  | figure :: rest, text => do
    let written ← figure.text style
    fill style rest (Text.replace (tag rest.length) written text)

def markdown (r : Report) (outer : Style) : Except Failure String := do
  -- its own settings come before those that it is shown in
  let text ← fill (r.style.within outer) r.figures.reverse r.content
  return Text.trim text

end Report

namespace Cell

def text [Machine] : Cell → Except Failure String
  | figure f => f.text .empty
  | value v => v.told

/-- The text of a cell in a report that has some figures already, and the figures after it. -/
def insert (figures : List (Figure Float)) : Cell → String × List (Figure Float)
  | figure f => (Report.tag figures.length, figures ++ [f])
  | value v => (v.toText, figures)

def insertAll : List Cell → List (Figure Float) → List String × List (Figure Float)
  | [], figures => ([], figures)
  | cell :: rest, figures =>
    let (text, figures) := insert figures cell
    let (texts, figures) := insertAll rest figures
    (text :: texts, figures)

/-- A cell of the header as wide as its column: texts stand to the left, numbers to the right. -/
def headText (width : Nat) : Cell → Except Failure String
  | value (.text s) => .ok (Text.padRight width s)
  | value (.bool b) => .ok (Text.padLeft width (if b then "1" else "0"))
  | value (.int n) => .ok (Text.padLeft width (Decimal.whole n))
  | value (.real x) => .ok (Text.padLeft width (Decimal.plain x))
  | _ => .error (.unfit .kind)

end Cell

namespace Report

/-- The wider of two rows of columns; a single column stands for any number of them. -/
def widest (first second : List Nat) : Except Failure (List Nat) :=
  if first.length = second.length then .ok (first.zipWith max second)
  else
    match first, second with
    | [width], _ => .ok (second.map (max width))
    | _, [width] => .ok (first.map (max width))
    | _, _ => .error (.unsuitable (.columnCounts first.length second.length))

/-- The widths of the columns: room for every cell and a blank, for two blanks after the header, and
nine characters at least. -/
def columnWidths [Machine] (header : List Cell) (rows : List (List Cell)) :
    Except Failure (List Nat) := do
  let headers ← header.mapM Cell.text
  let widths ← rows.foldlM (fun widths row => do
    let texts ← row.mapM Cell.text
    widest widths (texts.map String.length)) (headers.map fun text => text.length + 1)
  return widths.map fun width => max (width + 1) 9

def tableRow (widths : List Nat) (texts : List String) : String :=
  Text.join " | " (widths.zipWith Text.padRight texts)

def tableRule (widths : List Nat) : String :=
  Text.join "|" (widths.map fun width => String.ofList (List.replicate width '-'))

def tableRows (widths : List Nat) : List (List Cell) → List (Figure Float) →
    List String × List (Figure Float)
  | [], figures => ([], figures)
  | row :: rest, figures =>
    let (texts, figures) := Cell.insertAll row figures
    let (lines, figures) := tableRows widths rest figures
    (tableRow widths texts :: lines, figures)

def barred (text : String) : String :=
  String.join ((Text.lines text).map fun line =>
    if line.isEmpty then "\n" else "|" ++ line ++ "|\n")

def addTable [Machine] (rows : List (List Cell)) (header : Option (List Cell)) (r : Report) :
    Except Failure Report := do
  let header ← match header, rows with
    | some header, _ => pure header
    -- a dash over each column stands for a header
    | none, first :: _ => pure (first.map fun _ => Cell.value (.text "-"))
    | none, [] => throw .outOfRange
  let widths ← columnWidths header rows
  let heads ← (widths.zip header).mapM fun (width, cell) => cell.headText width
  let (lines, figures) := tableRows widths rows r.figures
  let all := Text.join " | " heads :: tableRule widths :: lines
  let body := "\n" ++ String.join (all.map (· ++ "\n"))
  return { r with content := r.content ++ barred body ++ "\n\n", figures }

end Report

end Reckon
