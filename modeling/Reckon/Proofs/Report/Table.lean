import Reckon.Proofs.Failing
import Reckon.Proofs.Report.Pieces
import Reckon.Proofs.Text.Lines

/-!
Tables as pieces.

A cell is as wide as its column while a tag stands in it, so the blanks after a figure depend on the
number of its tag. A row may have fewer cells than the table has columns, and none is left out as
long as there is a column at all.
-/

set_option autoImplicit false

namespace Reckon

/-! ## Rows of pieces -/

namespace Piece

/-- Several runs of pieces with tags in the place of the figures, numbered on from run to run. -/
def taggedAll (index : Nat) : List (List Piece) → List (List Char)
  | [] => []
  | pieces :: rest => tagged index pieces :: taggedAll (index + (figures pieces).length) rest

theorem tagged_intercalate (separator : List Char) (index : Nat) (runs : List (List Piece)) :
    tagged index ((separator.map char).intercalate runs) =
      separator.intercalate (taggedAll index runs) := by
  induction runs generalizing index with
  | nil => rfl
  | cons pieces rest ih =>
    cases rest with
    | nil => simp [taggedAll]
    | cons next rest =>
      have others := ih (index + (figures pieces).length)
      rw [taggedAll] at others ⊢
      rw [taggedAll, List.intercalate_cons_cons, List.intercalate_cons_cons, tagged_append,
        tagged_append, tagged_map_char, figures_append, figures_map_char, List.append_nil, others]

theorem figures_intercalate (separator : List Char) (runs : List (List Piece)) :
    figures ((separator.map char).intercalate runs) = runs.flatMap figures := by
  induction runs with
  | nil => rfl
  | cons pieces rest ih =>
    cases rest with
    | nil => simp
    | cons next rest =>
      rw [List.intercalate_cons_cons, figures_append, figures_append, figures_map_char,
        List.append_nil, ih, ← List.flatMap_cons]

theorem free_intercalate {separator : List Char} (free : '[' ∉ separator) {runs : List (List Piece)}
    (each : ∀ pieces ∈ runs, Free pieces) : Free ((separator.map char).intercalate runs) := by
  intro member
  rcases Text.mem_intercalate member with between | ⟨pieces, isRun, inside⟩
  · exact free_map_char.mpr free between
  · exact each pieces isRun inside

end Piece

namespace Cell

open Piece (tagged taggedAll)

def figures (cells : List Cell) : List (Figure Float) :=
  cells.filterMap fun
    | figure f => some f
    | value _ => none

/-- The cell as wide as its column, where a figure takes the room of its tag. -/
def padded (width index : Nat) : Cell → List Piece
  | figure f => .figure f ::
      (List.replicate (width - (Report.tag index).length) ' ').map .char
  | value v => Piece.ofText (Text.padRight width v.toText)

def paddedAll : (widths : List Nat) → (index : Nat) → List Cell → List (List Piece)
  | width :: widths, index, cell :: cells =>
    cell.padded width index :: paddedAll widths (index + (figures [cell]).length) cells
  | _, _, _ => []

def Free : Cell → Prop
  | figure _ => True
  | value v => '[' ∉ v.toText.toList

theorem figures_padded (width index : Nat) (cell : Cell) :
    Piece.figures (cell.padded width index) = figures [cell] := by
  cases cell with
  | figure f => exact congrArg (f :: ·) (Piece.figures_map_char _)
  | value v => exact Piece.figures_map_char _

theorem figures_cons (cell : Cell) (cells : List Cell) :
    figures (cell :: cells) = figures [cell] ++ figures cells :=
  List.filterMap_append (l := [cell])

theorem insertAll_snd (cells : List Cell) (before : List (Figure Float)) :
    (insertAll cells before).2 = before ++ figures cells := by
  induction cells generalizing before with
  | nil => exact (List.append_nil _).symm
  | cons cell cells ih =>
    rw [figures_cons, ← List.append_assoc, insertAll]
    cases cell with
    | figure f => exact ih _
    | value v => simpa [insert, figures] using ih before

theorem tagged_padded (width : Nat) (before : List (Figure Float)) (cell : Cell) :
    tagged before.length (cell.padded width before.length) =
      (Text.padRight width (cell.insert before).1).toList := by
  cases cell with
  | figure f =>
    rw [padded, tagged, Piece.tagged_map_char, insert, Text.padRight, String.toList_append,
      String.toList_ofList]
  | value v => exact Piece.tagged_map_char _ _

theorem taggedAll_paddedAll (widths : List Nat) (cells : List Cell)
    (before : List (Figure Float)) :
    taggedAll before.length (paddedAll widths before.length cells) =
      (widths.zipWith Text.padRight (insertAll cells before).1).map String.toList := by
  induction cells generalizing widths before with
  | nil => cases widths <;> rfl
  | cons cell cells ih =>
    cases widths with
    | nil => rfl
    | cons width widths =>
      have next : (cell.insert before).2.length = before.length + (figures [cell]).length := by
        cases cell <;> simp [insert, figures]
      rw [paddedAll, taggedAll, figures_padded, ← next, ih, tagged_padded, insertAll,
        List.zipWith_cons_cons, List.map_cons]

/-- There is a column for every cell, or at least no figure without one. -/
def Seated (widths : List Nat) (cells : List Cell) : Prop :=
  cells.length ≤ widths.length ∨ figures cells = []

theorem flatMap_paddedAll {widths : List Nat} {cells : List Cell} (seated : Seated widths cells)
    (index : Nat) : (paddedAll widths index cells).flatMap Piece.figures = figures cells := by
  induction cells generalizing widths index with
  | nil => cases widths <;> rfl
  | cons cell cells ih =>
    cases widths with
    | nil =>
      rcases seated with few | none
      · cases few
      · exact none.symm
    | cons width widths =>
      have others : Seated widths cells := by
        rw [Seated, figures_cons, List.append_eq_nil_iff] at seated
        simp only [List.length_cons, Nat.add_le_add_iff_right] at seated
        exact seated.imp_right And.right
      rw [paddedAll, List.flatMap_cons, figures_padded, ih others, ← figures_cons]

theorem free_padded {cell : Cell} (free : cell.Free) (width index : Nat) :
    Piece.Free (cell.padded width index) := by
  have blanks (count : Nat) : '[' ∉ List.replicate count ' ' := by
    intro member
    cases List.eq_of_mem_replicate member
  cases cell with
  | figure f =>
    have room := Piece.free_map_char.mpr (blanks (width - (Report.tag index).length))
    exact List.not_mem_cons_of_ne_of_not_mem (by simp) room
  | value v =>
    refine Piece.free_map_char.mpr ?_
    rw [Text.padRight, String.toList_append, String.toList_ofList, List.mem_append, not_or]
    exact ⟨free, blanks _⟩

theorem free_of_mem_paddedAll {widths : List Nat} {cells : List Cell} {index : Nat}
    (free : ∀ cell ∈ cells, cell.Free) :
    ∀ pieces ∈ paddedAll widths index cells, Piece.Free pieces := by
  induction cells generalizing widths index with
  | nil => cases widths <;> exact List.forall_mem_nil _
  | cons cell cells ih =>
    rw [List.forall_mem_cons] at free
    cases widths with
    | nil => exact List.forall_mem_nil _
    | cons width widths => exact List.forall_mem_cons.mpr ⟨free_padded free.1 width index, ih free.2⟩

end Cell

/-! ## Lines with bars -/

namespace Text

/-- A line with a bar at either end, if there is anything on it. -/
def barredLine (line : List Char) : List Char :=
  if line.isEmpty then ['\n'] else '|' :: (line ++ ['|', '\n'])

end Text

namespace Piece

/-- What ends a line: the bar is left out where nothing stands on the line. -/
def lineEnd (started : Bool) : List Piece :=
  ofText (if started then "|\n" else "\n")

/-- What stands before a piece: a bar where the line begins with it. -/
def lineStart (started : Bool) : List Piece :=
  ofText (if started then "" else "|")

/-- Lines with a bar at either end, a figure being part of its line. It is told whether the line has
been started. -/
def barred : (started : Bool) → List Piece → List Piece
  | started, [] => if started then lineEnd started else []
  | started, char '\r' :: char '\n' :: rest => lineEnd started ++ barred false rest
  | started, char c :: rest =>
    if Text.isLineEnd c then lineEnd started ++ barred false rest
    else lineStart started ++ char c :: barred true rest
  | started, figure f :: rest => lineStart started ++ figure f :: barred true rest

variable {pieces : List Piece}

theorem figures_lineEnd (started : Bool) : figures (lineEnd started) = [] := figures_map_char _

theorem figures_lineStart (started : Bool) : figures (lineStart started) = [] := figures_map_char _

theorem figures_barred (started : Bool) (pieces : List Piece) :
    figures (barred started pieces) = figures pieces := by
  fun_induction barred started pieces with
  | case1 => exact figures_lineEnd true
  | case2 => rfl
  | case3 started rest ih => simp [figures_lineEnd, ih]
  | case4 started c rest _ _ ih => simp [figures_lineEnd, ih]
  | case5 started c rest _ _ ih => simp [figures_lineStart, ih]
  | case6 started f rest ih => simp [figures_lineStart, ih]

@[simp] theorem free_lineEnd (started : Bool) : Free (lineEnd started) := by
  cases started <;> exact free_map_char.mpr (by decide)

@[simp] theorem free_lineStart (started : Bool) : Free (lineStart started) := by
  cases started <;> exact free_map_char.mpr (by decide)

theorem free_barred (started : Bool) (free : Free pieces) : Free (barred started pieces) := by
  fun_induction barred started pieces with
  | case1 => exact free_lineEnd true
  | case2 => exact free
  | case3 started rest ih => exact free_append.mpr ⟨free_lineEnd started, ih (by simpa using free)⟩
  | case4 started c rest _ _ ih =>
    exact free_append.mpr ⟨free_lineEnd started, ih (free_char.mp free).2⟩
  | case5 started c rest _ _ ih =>
    rw [free_char] at free
    exact free_append.mpr ⟨free_lineStart started, free_char.mpr ⟨free.1, ih free.2⟩⟩
  | case6 started f rest ih =>
    rw [free_figure] at free
    exact free_append.mpr ⟨free_lineStart started, free_figure.mpr (ih free)⟩

theorem isLineEnd_tag (index : Nat) :
    ∀ c ∈ (Report.tag index).toList, Text.isLineEnd c = false := by
  have digit {c : Char} (isDigit : Text.isAsciiDigit c = true) : Text.isLineEnd c = false := by
    rw [Text.isAsciiDigit, Bool.and_eq_true, decide_eq_true_eq, decide_eq_true_eq] at isDigit
    have low : 48 ≤ c.toNat := isDigit.1
    have high : c.toNat ≤ 57 := isDigit.2
    simp [Text.isLineEnd]
    omega
  rw [Report.toList_tag]
  simp only [List.forall_mem_cons, List.forall_mem_append]
  refine ⟨by decide, by decide, by decide, by decide, by decide, fun c member => ?_, by decide,
    by decide, List.forall_mem_nil _⟩
  exact digit (Decimal.isAsciiDigit_of_mem_digits member)

/-- What stands on the current line already, with the bar before it. -/
def openLine (line : List Char) : List Char :=
  if line.isEmpty then [] else '|' :: line.reverse

theorem barredLine_reverse (index : Nat) (line : List Char) :
    Text.barredLine line.reverse = openLine line ++ tagged index (lineEnd (!line.isEmpty)) := by
  cases line <;> simp [Text.barredLine, openLine, lineEnd, ofText, tagged]

theorem eq_of_tagged_eq_cons {index : Nat} {c : Char} (other : c ≠ '[') {cs : List Char}
    (same : tagged index pieces = c :: cs) : ∃ rest, pieces = char c :: rest := by
  match pieces with
  | [] => cases same
  | char d :: rest => exact ⟨rest, by rw [(List.cons.inj same).1]⟩
  | figure f :: rest =>
    rw [tagged, Report.toList_tag] at same
    exact absurd (List.cons.inj same).1.symm other

/-- A figure counts as part of its line, as a tag holds no end of a line. -/
theorem barred_tagged (index : Nat) (line : List Char) (pieces : List Piece) :
    (Text.linesFrom line (tagged index pieces)).flatMap Text.barredLine =
      openLine line ++ tagged index (barred (!line.isEmpty) pieces) := by
  generalize isStarted : (!line.isEmpty) = started
  -- a carriage return alone has no line feed after it among the characters either
  have alone {index : Nat} {c : Char} {rest : List Piece}
      (pair : ∀ others, rest = char '\n' :: others → c = '\r' → False) (cs : List Char)
      (isReturn : c = '\r') (same : tagged index rest = '\n' :: cs) : False := by
    obtain ⟨others, isPair⟩ := eq_of_tagged_eq_cons (by decide) same
    exact pair others isPair isReturn
  fun_induction barred started pieces generalizing index line with
  | case1 =>
    obtain ⟨c, line, rfl⟩ := List.exists_cons_of_ne_nil (by simpa using isStarted)
    rw [tagged, Text.linesFrom]
    simpa using barredLine_reverse index (c :: line)
  | case2 started notStarted =>
    obtain rfl : line = [] := by simpa [notStarted] using isStarted
    rfl
  | case3 started rest ih =>
    subst isStarted
    rw [tagged, tagged, Text.linesFrom, List.flatMap_cons, ih _ _ rfl, barredLine_reverse index,
      tagged_append, List.append_assoc]
    simp [openLine, figures_lineEnd]
  | case4 started c rest pair ends ih =>
    subst isStarted
    rw [tagged, Text.linesFrom, if_pos ends, List.flatMap_cons, ih _ _ rfl,
      barredLine_reverse index, tagged_append, List.append_assoc]
    · simp [openLine, figures_lineEnd]
    · exact alone pair
  | case5 started c rest pair inLine ih =>
    subst isStarted
    rw [tagged, Text.linesFrom, if_neg inLine, ih _ _ rfl, tagged_append]
    · cases line <;> simp [openLine, lineStart, ofText, tagged]
    · exact alone pair
  | case6 started f rest ih =>
    subst isStarted
    have within : (!((Report.tag index).toList.reverse ++ line).isEmpty) = true := by
      simp [Report.toList_tag]
    rw [tagged, Text.linesFrom_append (isLineEnd_tag index), ih _ _ within, tagged_append]
    cases line <;> simp [openLine, lineStart, ofText, tagged, Report.toList_tag]

end Piece

/-! ## Tables -/

namespace Report

open Cell (Seated)
open Piece (tagged ofText)

def rowPieces (widths : List Nat) (index : Nat) (row : List Cell) : List Piece :=
  (ofText " | ").intercalate (Cell.paddedAll widths index row)

def linePieces (widths : List Nat) (index : Nat) : List (List Cell) → List Piece
  | [] => []
  | row :: rows =>
    rowPieces widths index row ++ .char '\n' ::
      linePieces widths (index + (Cell.figures row).length) rows

/-- A table with its columns told, where figures are numbered from an index on. -/
def bodyPieces (widths : List Nat) (heads : List String) (rows : List (List Cell)) (index : Nat) :
    List Piece :=
  let head := "\n" ++ Text.join " | " heads ++ "\n" ++ tableRule widths ++ "\n"
  Piece.barred false (ofText head ++ linePieces widths index rows) ++ ofText "\n\n"

/-- The header of a table, with a dash over each column of the first row if it is left open. -/
def headOf (rows : List (List Cell)) : Option (List Cell) → Except Failure (List Cell)
  | some header => .ok header
  | none =>
    match rows with
    | [] => .error .outOfRange
    | first :: _ => .ok (first.map fun _ => Cell.value (.text "-"))

def tablePieces [Machine] (rows : List (List Cell)) (header : Option (List Cell)) (index : Nat) :
    Except Failure (List Piece) := do
  let head ← headOf rows header
  let widths ← columnWidths head rows
  let heads ← (widths.zip head).mapM fun (width, cell) => cell.headText width
  return bodyPieces widths heads rows index

/-- Adds pieces, with the next tags in the place of their figures. -/
def addPieces (pieces : List Piece) (r : Report) : Report :=
  { r with
    content := String.ofList (r.content.toList ++ tagged r.figures.length pieces)
    figures := r.figures ++ Piece.figures pieces }

variable {widths : List Nat}

theorem rowPieces_spec {row : List Cell} (seated : Seated widths row)
    (before : List (Figure Float)) :
    tagged before.length (rowPieces widths before.length row) =
        (tableRow widths (Cell.insertAll row before).1).toList ∧
      Piece.figures (rowPieces widths before.length row) = Cell.figures row := by
  constructor
  · rw [tableRow, Text.join, String.toList_intercalate, ← Cell.taggedAll_paddedAll]
    exact Piece.tagged_intercalate _ _ _
  · rw [← Cell.flatMap_paddedAll seated before.length]
    exact Piece.figures_intercalate _ _

theorem tableRows_snd (widths : List Nat) (rows : List (List Cell)) (before : List (Figure Float)) :
    (tableRows widths rows before).2 = before ++ rows.flatMap Cell.figures := by
  induction rows generalizing before with
  | nil => exact (List.append_nil _).symm
  | cons row rows ih => rw [tableRows, ih, Cell.insertAll_snd, List.flatMap_cons, List.append_assoc]

theorem linePieces_spec {rows : List (List Cell)} (seated : ∀ row ∈ rows, Seated widths row)
    (before : List (Figure Float)) :
    tagged before.length (linePieces widths before.length rows) =
        (tableRows widths rows before).1.flatMap (fun line => (line ++ "\n").toList) ∧
      Piece.figures (linePieces widths before.length rows) = rows.flatMap Cell.figures := by
  induction rows generalizing before with
  | nil => simp [linePieces, tableRows, tagged]
  | cons row rows ih =>
    obtain ⟨first, others⟩ := List.forall_mem_cons.mp seated
    obtain ⟨text, figures⟩ := rowPieces_spec first before
    obtain ⟨texts, otherFigures⟩ := ih others (Cell.insertAll row before).2
    rw [Cell.insertAll_snd, List.length_append] at texts otherFigures
    constructor
    · rw [linePieces, Piece.tagged_append, text, figures, tagged, texts, tableRows]
      simp [Cell.insertAll_snd]
    · rw [linePieces, Piece.figures_append, figures, Piece.figures_char, otherFigures,
        List.flatMap_cons]

theorem toList_barred (text : String) :
    (barred text).toList = (Text.linesFrom [] text.toList).flatMap Text.barredLine := by
  rw [barred, String.toList_join, Text.lines, List.flatMap_map, List.flatMap_map]
  congr
  funext line
  cases line <;> simp [Text.barredLine]

theorem bodyPieces_spec {rows : List (List Cell)} (seated : ∀ row ∈ rows, Seated widths row)
    (heads : List String) (before : List (Figure Float)) :
    tagged before.length (bodyPieces widths heads rows before.length) =
        (barred ("\n" ++ String.join ((Text.join " | " heads :: tableRule widths ::
          (tableRows widths rows before).1).map (· ++ "\n"))) ++ "\n\n").toList ∧
      Piece.figures (bodyPieces widths heads rows before.length) = rows.flatMap Cell.figures := by
  obtain ⟨texts, figures⟩ := linePieces_spec seated before
  constructor
  · -- no line is open before the table
    have lines := Piece.barred_tagged before.length []
    simp only [Piece.openLine, List.isEmpty_nil, if_true, List.nil_append, Bool.not_true] at lines
    rw [bodyPieces, Piece.tagged_append, ← lines, Piece.tagged_append, ofText,
      Piece.tagged_map_char, Piece.figures_map_char, List.length_nil, Nat.add_zero, texts,
      ofText, Piece.tagged_map_char]
    simp [toList_barred, String.toList_join, List.flatMap_map]
  · rw [bodyPieces, Piece.figures_append, Piece.figures_barred, Piece.figures_append, figures,
      ofText, ofText, Piece.figures_map_char, Piece.figures_map_char, List.nil_append,
      List.append_nil]

/-! ### Columns -/

theorem length_widest {first second widths : List Nat} (wide : widest first second = .ok widths)
    (headed : first ≠ []) (filled : second ≠ []) :
    first.length ≤ widths.length ∧ second.length ≤ widths.length := by
  have one {columns : List Nat} (some : columns ≠ []) : 1 ≤ columns.length :=
    List.length_pos_iff.mpr some
  unfold widest at wide
  split at wide
  · next same =>
    cases wide
    simp [same]
  · split at wide
    · cases wide
      simpa using one filled
    · cases wide
      simpa using one headed
    · cases wide

theorem length_of_foldlM [Machine] {rows : List (List Cell)} {before after : List Nat}
    (wide : rows.foldlM (fun widths row => do
      let texts ← row.mapM Cell.text
      widest widths (texts.map String.length)) before = .ok after)
    (headed : before ≠ []) (filled : [] ∉ rows) :
    before.length ≤ after.length ∧ ∀ row ∈ rows, row.length ≤ after.length := by
  induction rows generalizing before with
  | nil =>
    cases wide
    exact ⟨le_rfl, List.forall_mem_nil _⟩
  | cons row rows ih =>
    rw [List.foldlM_cons] at wide
    obtain ⟨between, stepped, wide⟩ := bind_eq_ok.mp wide
    obtain ⟨texts, areTexts, widened⟩ := bind_eq_ok.mp stepped
    rw [List.mem_cons, not_or] at filled
    have count : (texts.map String.length).length = row.length := by
      rw [List.length_map, length_of_mapM areTexts]
    have some {first second : List Nat} (below : first.length ≤ second.length)
        (some : first ≠ []) : second ≠ [] :=
      List.length_pos_iff.mp ((List.length_pos_iff.mpr some).trans_le below)
    have cells : texts.map String.length ≠ [] := by
      rw [← List.length_pos_iff, count]
      exact List.length_pos_iff.mpr (Ne.symm filled.1)
    obtain ⟨fromBefore, fromRow⟩ := length_widest widened headed cells
    obtain ⟨onwards, others⟩ := ih wide (some fromBefore headed) filled.2
    exact ⟨by omega, List.forall_mem_cons.mpr ⟨by omega, others⟩⟩

theorem length_le_of_columnWidths [Machine] {header : List Cell} {rows : List (List Cell)}
    (columns : columnWidths header rows = .ok widths) (headed : header ≠ [])
    (filled : [] ∉ rows) : ∀ row ∈ rows, row.length ≤ widths.length := by
  obtain ⟨headers, areHeaders, columns⟩ := bind_eq_ok.mp columns
  obtain ⟨after, wide, columns⟩ := bind_eq_ok.mp columns
  cases columns
  rw [List.length_map]
  refine (length_of_foldlM wide ?_ filled).2
  rw [← List.length_pos_iff, List.length_map, length_of_mapM areHeaders]
  exact List.length_pos_iff.mpr headed

/-- The figures of the cells have columns to stand in: if there are any, neither the header nor a
row is empty. -/
def Columned (rows : List (List Cell)) (header : Option (List Cell)) : Prop :=
  (header.toList ++ rows).flatMap Cell.figures ≠ [] → header ≠ some [] ∧ [] ∉ rows

variable {rows : List (List Cell)} {header : Option (List Cell)} {head : List Cell}

theorem columned_head (columned : Columned rows header) (isHead : headOf rows header = .ok head) :
    Columned rows (some head) := by
  cases header with
  | some header =>
    cases isHead
    exact columned
  | none =>
    cases rows with
    | nil => cases isHead
    | cons first rows =>
      cases isHead
      intro some
      -- the dashes bring no figures with them
      have dashes : Cell.figures (first.map fun _ => Cell.value (.text "-")) = [] := by
        simp [Cell.figures]
      have same : ([first.map fun _ => Cell.value (.text "-")] ++ (first :: rows)).flatMap
          Cell.figures = (first :: rows).flatMap Cell.figures := by
        rw [List.singleton_append, List.flatMap_cons, dashes, List.nil_append]
      obtain ⟨_, filled⟩ := columned fun none => some (same.trans none)
      rw [List.mem_cons, not_or] at filled
      simp [Ne.symm filled.1, filled.2]

theorem seated_of_columnWidths [Machine] (columned : Columned rows header)
    (isHead : headOf rows header = .ok head) (columns : columnWidths head rows = .ok widths) :
    ∀ row ∈ rows, Seated widths row := by
  intro row member
  by_cases none : ((some head).toList ++ rows).flatMap Cell.figures = []
  · exact .inr (List.flatMap_eq_nil_iff.mp none row (List.mem_append_right _ member))
  · obtain ⟨headed, filled⟩ := columned_head columned isHead none
    exact .inl (length_le_of_columnWidths columns (by simpa using headed) filled row member)

theorem addTable_eq [Machine] (columned : Columned rows header) (r : Report) :
    r.addTable rows header =
      (tablePieces rows header r.figures.length).map fun pieces => r.addPieces pieces := by
  have unfolded : r.addTable rows header = (headOf rows header).bind fun head =>
      r.addTable rows (some head) := by
    cases header with
    | some header => rfl
    | none => cases rows <;> rfl
  rw [unfolded, tablePieces]
  cases isHead : headOf rows header with
  | error failure => rfl
  | ok head =>
    change r.addTable rows (some head) = Except.map _ (columnWidths head rows >>= _)
    rw [addTable]
    simp only [pure_bind]
    cases columns : columnWidths head rows with
    | error failure => rfl
    | ok widths =>
      have seated := seated_of_columnWidths columned isHead columns
      simp only [bind, Except.bind]
      cases (widths.zip head).mapM fun (width, cell) => cell.headText width with
      | error failure => rfl
      | ok heads =>
        obtain ⟨texts, figures⟩ := bodyPieces_spec seated heads r.figures
        simp only [Except.map, pure, Except.pure, Except.ok.injEq, addPieces, texts, figures,
          tableRows_snd]
        rw [← String.toList_append, String.ofList_toList, String.append_assoc]

theorem figures_tablePieces [Machine] (columned : Columned rows header)
    {before : List (Figure Float)}
    {pieces : List Piece} (isTable : tablePieces rows header before.length = .ok pieces) :
    Piece.figures pieces = rows.flatMap Cell.figures := by
  obtain ⟨head, isHead, isTable⟩ := bind_eq_ok.mp isTable
  obtain ⟨widths, columns, isTable⟩ := bind_eq_ok.mp isTable
  obtain ⟨heads, _, isTable⟩ := bind_eq_ok.mp isTable
  cases isTable
  exact (bodyPieces_spec (seated_of_columnWidths columned isHead columns) heads before).2

/-! ### Texts -/

theorem bracket_not_mem_headText {cell : Cell} (free : cell.Free) {width : Nat} {text : String}
    (written : cell.headText width = .ok text) : '[' ∉ text.toList := by
  have left {s : String} (free : '[' ∉ s.toList) : '[' ∉ (Text.padLeft width s).toList := by
    simp [Text.padLeft, free]
  unfold Cell.headText at written
  split at written
  · cases written
    rw [Text.padRight, String.toList_append, List.mem_append, not_or]
    exact ⟨free, by simp⟩
  · next b =>
    cases written
    cases b <;> exact left (by decide)
  · cases written
    exact left free
  · cases written
    exact left free
  · cases written

theorem bracket_not_mem_join {separator : String} (free : '[' ∉ separator.toList)
    {texts : List String} (each : ∀ text ∈ texts, '[' ∉ text.toList) :
    '[' ∉ (Text.join separator texts).toList := by
  intro member
  rw [Text.join, String.toList_intercalate] at member
  rcases Text.mem_intercalate member with between | ⟨run, isRun, inside⟩
  · exact free between
  · obtain ⟨text, isText, rfl⟩ := List.mem_map.mp isRun
    exact each text isText inside

theorem free_linePieces (cells : ∀ row ∈ rows, ∀ cell ∈ row, cell.Free)
    (index : Nat) : Piece.Free (linePieces widths index rows) := by
  induction rows generalizing index with
  | nil => exact Piece.free_nil
  | cons row rows ih =>
    rw [List.forall_mem_cons] at cells
    have first : Piece.Free (rowPieces widths index row) :=
      Piece.free_intercalate (by decide) (Cell.free_of_mem_paddedAll cells.1)
    exact Piece.free_append.mpr ⟨first, Piece.free_char.mpr ⟨by decide, ih cells.2 _⟩⟩

theorem free_bodyPieces {heads : List String} (headed : ∀ text ∈ heads, '[' ∉ text.toList)
    (cells : ∀ row ∈ rows, ∀ cell ∈ row, cell.Free) (index : Nat) :
    Piece.Free (bodyPieces widths heads rows index) := by
  have rule : '[' ∉ (tableRule widths).toList := by
    refine bracket_not_mem_join (by decide) ?_
    simp
  have header : '[' ∉ (Text.join " | " heads).toList := bracket_not_mem_join (by decide) headed
  refine Piece.free_append.mpr ⟨Piece.free_barred false (Piece.free_append.mpr ⟨?_, ?_⟩), ?_⟩
  · exact Piece.free_map_char.mpr (by simp [rule, header])
  · exact free_linePieces cells index
  · exact Piece.free_map_char.mpr (by decide)

theorem free_tablePieces [Machine] {index : Nat} {pieces : List Piece}
    (free : ∀ cells ∈ header, ∀ cell ∈ cells, cell.Free)
    (cells : ∀ row ∈ rows, ∀ cell ∈ row, cell.Free)
    (isTable : tablePieces rows header index = .ok pieces) : Piece.Free pieces := by
  obtain ⟨head, isHead, isTable⟩ := bind_eq_ok.mp isTable
  obtain ⟨widths, _, isTable⟩ := bind_eq_ok.mp isTable
  obtain ⟨texts, areTexts, isTable⟩ := bind_eq_ok.mp isTable
  cases isTable
  have headFree : ∀ cell ∈ head, cell.Free := by
    cases header with
    | some header =>
      cases isHead
      exact free head rfl
    | none =>
      cases rows with
      | nil => cases isHead
      | cons first rows =>
        cases isHead
        simp [Cell.Free, Value.toText]
  refine free_bodyPieces (fun text member => ?_) cells index
  obtain ⟨⟨width, cell⟩, column, written⟩ := exists_of_mem_mapM areTexts member
  exact bracket_not_mem_headText (headFree cell (List.of_mem_zip column).2) written

end Report

end Reckon
