import Reckon.Machine
import Reckon.Scalar.Spaced
import Reckon.Text.Lines
import Reckon.Value.Told

/-!
Bar charts of bin counts in plain text.

The bins are gathered into as many columns as the chart is wide. Rows are drawn from the top down
with an axis under them, under that a row that points out some values, and last the ends and the
middle of the range.
-/

set_option autoImplicit false

namespace Reckon

/-- A chart to draw: the counts of the bins, the range they cover, and the size of the chart. -/
structure Chart (R : Type) where
  bins : List R
  low : R
  high : R
  width : Int
  height : Int
  bar : String
  /-- The values to point out; without any row for them if there is none. -/
  marks : Option (List R)

namespace Chart

variable {R : Type} [Scalar R]

def standardWidth : Int := 60

def standardHeight : Int := 12

/-- Where the groups of bins begin and end: evenly spaced, without the fractions. -/
def groupEdges (R : Type) [Scalar R] (bins width : Nat) : List Nat :=
  (Scalar.spaced (Scalar.ofInt 0 : R) (Scalar.ofInt bins) width).map fun x =>
    (Scalar.floor x).toNat

def groupSum (bins : List R) (first last : Nat) : R :=
  Scalar.sumInPairs ((bins.drop first).take (max (first + 1) last - first))

def columns [Machine] (bins : List R) (width : Int) : Except Failure (List R) :=
  if bins.length = width then .ok bins
  else if width < -1 then
    .error ((Value.int (width + 1)).naming (.unsuitable (.negativePointCount (width + 1))))
  else if width ≤ 0 then .ok []
  else do
    Machine.points (width.toNat + 1)
    let edges := groupEdges R bins.length width.toNat
    return edges.zipWith (groupSum bins) (edges.drop 1)

def greatest (x : R) (rest : List R) : R :=
  rest.foldl (fun a b => if Scalar.le b a || !Scalar.le a a then a else b) x

def barHeight (top : R) (height : Int) (column : R) : Int :=
  Scalar.ceil (column / top * Scalar.ofInt height)

def heights (columns : List R) (height : Int) : List Int :=
  match columns with
  | [] => []
  | first :: rest =>
    let top := greatest first rest
    if Scalar.isZero top then columns.map fun _ => 0 else columns.map (barHeight top height)

def row (bar : String) (level : Nat) (heights : List Int) : String :=
  "|" ++ String.join (heights.map fun height => if (level : Int) ≤ height then bar else " ")

def rows (bar : String) (heights : List Int) : (height : Nat) → List String
  | 0 => []
  | level + 1 => row bar (level + 1) heights :: rows bar heights level

/-- The column that a value stands in, among `count` columns. -/
def markColumn (low high : R) (count : Nat) (value : R) : Except Failure Nat := do
  let spread := high - low
  let place ←
    if Scalar.lt (Scalar.ofInt 0) spread && Scalar.isFinite spread then
      Scalar.truncated ((value - low) / spread * Scalar.ofInt count)
    -- all values stand in the first column if they cannot be spread
    else pure 0
  if count = 0 then throw .outOfRange
  return min place.toNat (count - 1)

def markRow (low high : R) (count : Nat) (marks : List R) : Except Failure String := do
  let places ← marks.mapM (markColumn low high count)
  let cells := (List.range count).map fun i => if places.contains i then '^' else ' '
  return " " ++ String.ofList cells

def scale (low high : R) (count : Nat) : String :=
  let place := fun x : R => Text.padRight (count / 2 - 3) (Scalar.inGeneral 4 x)
  " " ++ place low ++ place ((low + high) / Scalar.ofInt 2) ++ Scalar.inGeneral 4 high

def lines [Machine] (chart : Chart R) : Except Failure (List String) := do
  let columns ← columns chart.bins chart.width
  let count := columns.length
  let body := rows chart.bar (heights columns chart.height) chart.height.toNat
  let axis := "+" ++ String.ofList (List.replicate count '-')
  let pointed ← match chart.marks with
    | none => pure []
    | some marks => do
      let row ← markRow chart.low chart.high count marks
      pure [row]
  return body ++ axis :: pointed ++ [scale chart.low chart.high count]

def text [Machine] (chart : Chart R) : Except Failure String := do
  let lines ← chart.lines
  return Text.join "\n" lines

end Chart

end Reckon
