import Reckon.Change
import Reckon.Report.Basic
import Reckon.Value.Reading

/-!
Steps that add to a report what was handed in as values.

A value of the wrong kind is refused. A figure or a report whose closing text is refused has been
counted by then, so what it holds stays in the report.
-/

set_option autoImplicit false

namespace Reckon.Report

def textOf : Value → Except Failure String
  | .text s => .ok s
  | _ => .error (.unfit .kind)

def levelOf : Value → Except Failure Int
  | .int n => .ok n
  | .bool b => .ok (if b then 1 else 0)
  | _ => .error (.unfit .kind)

def putHeader [Machine] (text level : Value) : Change Report Unit := do
  let level ← levelOf level
  Machine.text level
  Change.update (addHeader (← text.told) level)

def putText (text : Value) : Change Report Unit := do
  let text ← textOf text
  Change.update (addText text)

def putPlain (text : Value) : Change Report Unit := do
  let text ← textOf text
  Change.update (addPlain text)

def putFigure (figure : Figure Float) (last : Value) : Change Report Unit := do
  match textOf last with
  | .ok text => Change.update (addFigure figure text)
  | .error failure =>
    -- the figure is counted although it is not shown
    Change.update (countFigure figure)
    throw failure

def putReport (other : Report) (last : Value) : Change Report Unit := do
  -- the report is added even if the text is refused
  Change.update fun r => r.append other ""
  let text ← textOf last
  Change.update (addText text)

def cellsOf (cellOf : Value → Except Failure Cell) (row : Value) : Except Failure (List Cell) := do
  (← row.items).mapM cellOf

def rowsOf (cellOf : Value → Except Failure Cell) (rows : Value) :
    Except Failure (List (List Cell)) := do
  (← rows.items).mapM (cellsOf cellOf)

def putTable [Machine] (cellOf : Value → Except Failure Cell) (rows header : Value) :
    Change Report Unit := do
  let rows ← rowsOf cellOf rows
  let header ← match header with
    | .null => pure none
    | header => do
      let cells ← cellsOf cellOf header
      pure (some cells)
  let r ← Change.current
  let r ← r.addTable rows header
  Change.update fun _ => r

end Reckon.Report
