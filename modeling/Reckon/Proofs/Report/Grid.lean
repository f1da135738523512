import Reckon.Proofs.Report.Basic
import Reckon.Proofs.Report.Table
import Reckon.Proofs.Text.Fields

/-!
Tables as grids that can be read back.

The texts and the tags in a table are found again between the bars of its lines, as long as no text
holds a bar or the end of a line. Main statement: such a table has a line for the header, one for the
rule and one for each row, all with as many fields as there are columns, and its figures are counted
on from left to right and from row to row.
-/

set_option autoImplicit false

namespace Reckon

namespace Report

open Text (Inline IsLine HasFields)

/-! ## Lines -/

theorem barred_lines {lines : List String} (each : ∀ line ∈ lines, IsLine line) :
    barred ("\n" ++ String.join (lines.map (· ++ "\n"))) =
      "\n" ++ String.join ((lines.map fun line => "|" ++ line ++ "|").map (· ++ "\n")) := by
  have unbroken : ∀ line ∈ lines.map String.toList, ∀ c ∈ line,
      Text.isLineEnd c = false := by
    intro line member
    obtain ⟨s, isLine, rfl⟩ := List.mem_map.mp member
    exact (each s isLine).2
  have letters : ("\n" ++ String.join (lines.map (· ++ "\n"))).toList =
      '\n' :: (lines.map String.toList).flatMap (· ++ ['\n']) := by
    simp [String.toList_join, List.flatMap_map]
  have first (rest : List Char) :
      Text.linesFrom [] ('\n' :: rest) = [] :: Text.linesFrom [] rest := rfl
  have between (line : String) (member : line ∈ lines) : Text.barredLine line.toList =
      ("|" ++ line ++ "|" ++ "\n").toList := by
    have some : line.toList ≠ [] := mt String.toList_eq_nil_iff.mp (each line member).1
    simp [Text.barredLine, some]
  apply String.toList_injective
  rw [toList_barred, letters, first, Text.linesFrom_flatMap unbroken, List.flatMap_cons,
    List.flatMap_map, List.flatMap_congr between]
  simp [String.toList_join, List.flatMap_map, Text.barredLine]

section

variable {widths : List Nat} (columns : widths ≠ []) (wide : ∀ width ∈ widths, 9 ≤ width)

include columns wide

theorem tableRow_spec {texts : List String} (count : texts.length = widths.length)
    (inline : ∀ text ∈ texts, Inline text) :
    IsLine (tableRow widths texts) ∧
      ∃ parts, HasFields ("|" ++ tableRow widths texts ++ "|") parts ∧
        parts.map Text.trim = texts.map Text.trim := by
  have each : ∀ part ∈ widths.zipWith Text.padRight texts, Inline part := by
    intro part member
    rw [← List.map_uncurry_zip_eq_zipWith] at member
    obtain ⟨⟨width, text⟩, column, rfl⟩ := List.mem_map.mp member
    exact (inline text (List.of_mem_zip column).2).padRight width
  have trims : (widths.zipWith Text.padRight texts).map Text.trim = texts.map Text.trim := by
    have trimmed : Text.trim ∘ Function.uncurry Text.padRight = Text.trim ∘ Prod.snd :=
      funext fun column => Text.trim_padRight column.1 column.2
    rw [← List.map_uncurry_zip_eq_zipWith, List.map_map, trimmed, ← List.map_map,
      List.map_snd_zip count.le]
  obtain ⟨width, widths, rfl⟩ := List.exists_cons_of_ne_nil columns
  cases texts with
  | nil => cases count
  | cons text texts =>
    have some : Text.padRight width text ≠ "" :=
      Text.padRight_ne_empty ((by decide : 0 < 9).trans_le (wide width List.mem_cons_self)) text
    obtain ⟨parts, fields, same⟩ := Text.exists_fields_row (List.cons_ne_nil _ _) each
    exact ⟨Text.isLine_join (by decide) some each, parts, fields, same.trans trims⟩

theorem tableRule_spec :
    IsLine (tableRule widths) ∧ HasFields ("|" ++ tableRule widths ++ "|")
      (widths.map fun width => String.ofList (List.replicate width '-')) := by
  have each : ∀ part ∈ widths.map fun width => String.ofList (List.replicate width '-'),
      Inline part := by
    intro part member
    obtain ⟨width, _, rfl⟩ := List.mem_map.mp member
    intro c inside
    rw [String.toList_ofList] at inside
    rw [List.eq_of_mem_replicate inside]
    decide
  obtain ⟨width, widths, rfl⟩ := List.exists_cons_of_ne_nil columns
  have some : String.ofList (List.replicate width '-') ≠ "" := by
    have positive := wide width List.mem_cons_self
    intro none
    have length := congrArg String.length none
    rw [String.length_ofList, List.length_replicate, String.length_empty] at length
    omega
  exact ⟨Text.isLine_join (by decide) some each, Text.hasFields_rule (List.cons_ne_nil _ _) each⟩

end

end Report

/-! ## Cells -/

namespace Cell

/-- The cell is a figure or a text that stays between two bars on one line. -/
def Inline : Cell → Prop
  | figure _ => True
  | value v => ∃ s, v = .text s ∧ Text.Inline s

/-- What the field of a cell holds but for blanks around it: the text of the cell or the tag of its
figure, which has this index among the figures. -/
def HeldBy (figures : List (Figure Float)) (index : Nat) (field : String) : Cell → Prop
  | figure f => Text.trim field = Report.tag index ∧ figures[index]? = some f
  | value v => Text.trim field = Text.trim v.toText

theorem inline_tag (index : Nat) : Text.Inline (Report.tag index) := by
  intro c member
  refine ⟨?_, Piece.isLineEnd_tag index c member⟩
  rintro rfl
  have digit : '|' ∉ Decimal.digits index := fun inside =>
    absurd (Decimal.isAsciiDigit_of_mem_digits inside) (by decide)
  simp [Report.toList_tag, digit] at member

theorem trim_tag (index : Nat) : Text.trim (Report.tag index) = Report.tag index := by
  have trimmed : Text.Trimmed (Report.tag index).toList := by
    have letters : (Report.tag index).toList =
        '[' :: ('[' :: 'V' :: 'A' :: 'L' :: (Decimal.digits index ++ [']'])) ++ [']'] := by
      simp [Report.toList_tag]
    rw [letters]
    constructor
    · intro c first
      cases first
      decide
    · intro c last
      rw [List.getLast?_concat] at last
      cases last
      decide
  rw [Text.trim, trimmed.trimChars_eq, String.ofList_toList]

theorem inline_insert {cell : Cell} (inline : cell.Inline) (before : List (Figure Float)) :
    Text.Inline (cell.insert before).1 := by
  cases cell with
  | figure f => exact inline_tag _
  | value v =>
    obtain ⟨s, rfl, inline⟩ := inline
    exact inline

theorem getElem?_insertAll (cells : List Cell) (before : List (Figure Float)) (j : Nat) :
    (insertAll cells before).1[j]? =
      cells[j]?.map fun cell => (cell.insert (before ++ figures (cells.take j))).1 := by
  induction cells generalizing before j with
  | nil => rfl
  | cons cell cells ih =>
    have next : (cell.insert before).2 = before ++ figures [cell] := by
      cases cell <;> simp [insert, figures]
    cases j with
    | zero => simp [insertAll, figures]
    | succ j =>
      rw [insertAll, List.getElem?_cons_succ, List.getElem?_cons_succ, ih, next, List.take_succ_cons,
        figures_cons cell (cells.take j), List.append_assoc]

theorem inline_of_mem_insertAll {cells : List Cell} (inline : ∀ cell ∈ cells, cell.Inline)
    {before : List (Figure Float)} : ∀ text ∈ (insertAll cells before).1, Text.Inline text := by
  intro text member
  obtain ⟨j, isText⟩ := List.getElem?_of_mem member
  rw [getElem?_insertAll] at isText
  obtain ⟨cell, isCell, rfl⟩ := Option.map_eq_some_iff.mp isText
  exact inline_insert (inline cell (List.mem_of_getElem? isCell)) _

theorem length_insertAll (cells : List Cell) (before : List (Figure Float)) :
    (insertAll cells before).1.length = cells.length := by
  induction cells generalizing before with
  | nil => rfl
  | cons cell cells ih => rw [insertAll, List.length_cons, List.length_cons, ih]

end Cell

namespace Report

open Text (Inline IsLine HasFields)

theorem getElem?_tableRows (widths : List Nat) (rows : List (List Cell))
    (before : List (Figure Float)) (i : Nat) :
    (tableRows widths rows before).1[i]? = rows[i]?.map fun row =>
      tableRow widths (Cell.insertAll row (before ++ (rows.take i).flatMap Cell.figures)).1 := by
  induction rows generalizing before i with
  | nil => rfl
  | cons row rows ih =>
    cases i with
    | zero => simp [tableRows]
    | succ i =>
      rw [tableRows, List.getElem?_cons_succ, List.getElem?_cons_succ, ih, Cell.insertAll_snd,
        List.take_succ_cons, List.flatMap_cons, List.append_assoc]

theorem length_tableRows (widths : List Nat) (rows : List (List Cell))
    (before : List (Figure Float)) : (tableRows widths rows before).1.length = rows.length := by
  induction rows generalizing before with
  | nil => rfl
  | cons row rows ih => rw [tableRows, List.length_cons, List.length_cons, ih]

/-! ## Tables -/

def headCells (header : List String) : List Cell :=
  header.map fun s => .value (.text s)

/-- A header, and rows of as many cells, without bars or ends of lines in the texts. -/
structure Grid (header : List String) (rows : List (List Cell)) : Prop where
  headed : header ≠ []
  heads : ∀ s ∈ header, Inline s
  square : ∀ row ∈ rows, row.length = header.length
  cells : ∀ row ∈ rows, ∀ cell ∈ row, cell.Inline

/-- The lines show a header, a rule and rows; the figures of the rows stand among all figures from
`index` on, from left to right and from row to row. -/
structure Shows (header : List String) (rows : List (List Cell)) (index : Nat)
    (figures : List (Figure Float)) (head rule : String) (lines : List String) : Prop where
  head : ∃ parts, HasFields head parts ∧ parts.map Text.trim = header.map Text.trim
  rule : ∃ widths : List Nat, widths.length = header.length ∧ (∀ width ∈ widths, 9 ≤ width) ∧
    HasFields rule (widths.map fun width => String.ofList (List.replicate width '-'))
  count : lines.length = rows.length
  rows : ∀ i row line, rows[i]? = some row → lines[i]? = some line →
    ∃ parts, HasFields line parts ∧ parts.length = header.length ∧
      ∀ (j : Nat) (cell : Cell) (part : String), row[j]? = some cell → parts[j]? = some part →
        cell.HeldBy figures (index + ((rows.take i).flatMap Cell.figures ++
          Cell.figures (row.take j)).length) part

theorem nine_le_of_columnWidths [Machine] {header : List Cell} {rows : List (List Cell)}
    {widths : List Nat}
    (columns : columnWidths header rows = .ok widths) : ∀ width ∈ widths, 9 ≤ width := by
  obtain ⟨headers, _, columns⟩ := bind_eq_ok.mp columns
  obtain ⟨room, _, columns⟩ := bind_eq_ok.mp columns
  cases columns
  intro width member
  obtain ⟨_, _, rfl⟩ := List.mem_map.mp member
  exact le_max_right _ _

theorem exists_text_of_foldlM [Machine] {rows : List (List Cell)} {before after : List Nat}
    (wide : rows.foldlM (fun widths row => do
      let texts ← row.mapM Cell.text
      widest widths (texts.map String.length)) before = .ok after) :
    ∀ row ∈ rows, ∀ cell ∈ row, ∃ text, cell.text = .ok text := by
  induction rows generalizing before with
  | nil => exact List.forall_mem_nil _
  | cons row rows ih =>
    rw [List.foldlM_cons] at wide
    obtain ⟨between, stepped, wide⟩ := bind_eq_ok.mp wide
    obtain ⟨texts, areTexts, _⟩ := bind_eq_ok.mp stepped
    exact List.forall_mem_cons.mpr ⟨exists_of_mapM areTexts, ih wide⟩

theorem mapM_headText (widths : List Nat) (header : List String) :
    ((widths.zip (headCells header)).mapM fun (width, cell) => cell.headText width) =
      .ok (widths.zipWith Text.padRight header) := by
  induction header generalizing widths with
  | nil => cases widths <;> rfl
  | cons s header ih =>
    cases widths with
    | nil => rfl
    | cons width widths =>
      rw [headCells, List.map_cons, List.zip_cons_cons, List.mapM_cons, ← headCells, ih]
      rfl

theorem take_append_cons_drop {α : Type} {items : List α} {i : Nat} {item : α}
    (found : items[i]? = some item) : items = items.take i ++ item :: items.drop (i + 1) := by
  obtain ⟨inside, rfl⟩ := List.getElem?_eq_some_iff.mp found
  rw [← List.drop_eq_getElem_cons inside, List.take_append_drop]

section

variable {header : List String} {rows : List (List Cell)}

/-- A figure of a table follows those before it in the order of rows and cells. -/
theorem getElem?_figures {i j : Nat} {row : List Cell} {f : Figure Float}
    (isRow : rows[i]? = some row) (isCell : row[j]? = some (.figure f))
    (before : List (Figure Float)) :
    (before ++ rows.flatMap Cell.figures)[before.length + ((rows.take i).flatMap Cell.figures ++
      Cell.figures (row.take j)).length]? = some f := by
  have inRow : Cell.figures row =
      Cell.figures (row.take j) ++ f :: Cell.figures (row.drop (j + 1)) := by
    conv_lhs => rw [take_append_cons_drop isCell]
    exact List.filterMap_append
  have inRows : rows.flatMap Cell.figures = (rows.take i).flatMap Cell.figures ++
      (Cell.figures row ++ (rows.drop (i + 1)).flatMap Cell.figures) := by
    conv_lhs => rw [take_append_cons_drop isRow]
    rw [List.flatMap_append, List.flatMap_cons]
  rw [inRows, inRow, List.getElem?_append_right (Nat.le_add_right _ _), Nat.add_sub_cancel_left,
    List.append_assoc, ← List.append_assoc]
  generalize (rows.take i).flatMap Cell.figures ++ Cell.figures (row.take j) = earlier
  simp

section

variable (grid : Grid header rows) {widths : List Nat} (count : widths.length = header.length)
  (wide : ∀ width ∈ widths, 9 ≤ width)

include grid count

theorem Grid.columns_ne_nil : widths ≠ [] := by
  rw [← List.length_pos_iff, count]
  exact List.length_pos_iff.mpr grid.headed

include wide

theorem Grid.row_spec {row : List Cell} (isRow : row ∈ rows) (before : List (Figure Float)) :
    IsLine (tableRow widths (Cell.insertAll row before).1) ∧
      ∃ parts, HasFields ("|" ++ tableRow widths (Cell.insertAll row before).1 ++ "|") parts ∧
        parts.map Text.trim = (Cell.insertAll row before).1.map Text.trim := by
  have textCount : (Cell.insertAll row before).1.length = widths.length := by
    rw [Cell.length_insertAll, grid.square row isRow, count]
  exact tableRow_spec (grid.columns_ne_nil count) wide textCount
    (Cell.inline_of_mem_insertAll (grid.cells row isRow))

theorem Grid.shows (before : List (Figure Float)) :
    Shows header rows before.length (before ++ rows.flatMap Cell.figures)
      ("|" ++ tableRow widths header ++ "|") ("|" ++ tableRule widths ++ "|")
      ((tableRows widths rows before).1.map fun line => "|" ++ line ++ "|") := by
  have columns := grid.columns_ne_nil count
  obtain ⟨_, head⟩ := tableRow_spec columns wide count.symm grid.heads
  obtain ⟨_, rule⟩ := tableRule_spec columns wide
  refine ⟨head, ⟨widths, count, wide, rule⟩, ?_, fun i row line isRow isLine => ?_⟩
  · rw [List.length_map, length_tableRows]
  · rw [List.getElem?_map, getElem?_tableRows, isRow] at isLine
    cases isLine
    have member := List.mem_of_getElem? isRow
    obtain ⟨_, parts, fields, trims⟩ :=
      grid.row_spec count wide member (before ++ (rows.take i).flatMap Cell.figures)
    have partCount : parts.length = header.length := by
      rw [← List.length_map Text.trim, trims, List.length_map, Cell.length_insertAll,
        grid.square row member]
    refine ⟨parts, fields, partCount, fun j cell part isCell isPart => ?_⟩
    have trimmed : Text.trim part = Text.trim (cell.insert (before ++
        (rows.take i).flatMap Cell.figures ++ Cell.figures (row.take j))).1 := by
      have same := congrArg (·[j]?) trims
      simpa [isPart, Cell.getElem?_insertAll, isCell] using same
    cases cell with
    | value v => exact trimmed
    | figure f =>
      refine ⟨?_, getElem?_figures isRow isCell before⟩
      rw [trimmed, Cell.insert, Cell.trim_tag, List.append_assoc, List.length_append]

theorem Grid.barred_eq (before : List (Figure Float)) :
    barred ("\n" ++ String.join ((tableRow widths header :: tableRule widths ::
        (tableRows widths rows before).1).map (· ++ "\n"))) =
      "\n" ++ String.join ((("|" ++ tableRow widths header ++ "|") ::
        ("|" ++ tableRule widths ++ "|") ::
        (tableRows widths rows before).1.map fun line => "|" ++ line ++ "|").map (· ++ "\n")) := by
  have columns := grid.columns_ne_nil count
  obtain ⟨headLine, _⟩ := tableRow_spec columns wide count.symm grid.heads
  obtain ⟨ruleLine, _⟩ := tableRule_spec columns wide
  have rowLines : ∀ line ∈ (tableRows widths rows before).1, IsLine line := by
    intro line member
    obtain ⟨i, isLine⟩ := List.getElem?_of_mem member
    rw [getElem?_tableRows] at isLine
    obtain ⟨row, isRow, rfl⟩ := Option.map_eq_some_iff.mp isLine
    exact (grid.row_spec count wide (List.mem_of_getElem? isRow) _).1
  exact barred_lines
    (List.forall_mem_cons.mpr ⟨headLine, List.forall_mem_cons.mpr ⟨ruleLine, rowLines⟩⟩)

end

theorem columns_of_addTable [Machine] {header : List Cell} {r r' : Report}
    (added : r.addTable rows (some header) = .ok r') :
    ∃ widths, columnWidths header rows = .ok widths := by
  rw [addTable] at added
  obtain ⟨header', same, added⟩ := bind_eq_ok.mp added
  cases same
  obtain ⟨widths, columns, _⟩ := bind_eq_ok.mp added
  exact ⟨widths, columns⟩

theorem exists_text_of_addTable [Machine] {header : List Cell} {r r' : Report}
    (added : r.addTable rows (some header) = .ok r') :
    ∀ row ∈ rows, ∀ cell ∈ row, ∃ text, cell.text = .ok text := by
  obtain ⟨widths, columns⟩ := columns_of_addTable added
  obtain ⟨headers, _, columns⟩ := bind_eq_ok.mp columns
  obtain ⟨room, wide, _⟩ := bind_eq_ok.mp columns
  exact exists_text_of_foldlM wide

theorem addTable_of_written [Machine] (grid : Grid header rows)
    (written : ∀ row ∈ rows, ∀ cell ∈ row, ∃ text, cell.text = .ok text) (r : Report) :
    ∃ head rule lines,
      r.addTable rows (some (headCells header)) = .ok
        { r with
          content := r.content ++ "\n" ++
            String.join ((head :: rule :: lines).map (· ++ "\n")) ++ "\n\n"
          figures := r.figures ++ rows.flatMap Cell.figures } ∧
      Shows header rows r.figures.length (r.figures ++ rows.flatMap Cell.figures) head rule
        lines := by
  have headed : ∀ cell ∈ headCells header, ∃ text, cell.text = .ok text := by
    intro cell member
    obtain ⟨s, _, rfl⟩ := List.mem_map.mp member
    exact ⟨s, rfl⟩
  have square : ∀ row ∈ rows, row.length = (headCells header).length ∧
      ∀ cell ∈ row, ∃ text, cell.text = .ok text := by
    intro row member
    rw [headCells, List.length_map]
    exact ⟨grid.square row member, written row member⟩
  obtain ⟨widths, columns, count⟩ := exists_columnWidths headed square
  have wide := nine_le_of_columnWidths columns
  rw [headCells, List.length_map] at count
  refine ⟨_, _, _, ?_, grid.shows count wide r.figures⟩
  have barred := grid.barred_eq count wide r.figures
  rw [addTable_of_columns columns (mapM_headText widths header), tableRows_snd, ← tableRow, barred,
    ← String.append_assoc]

/-- A table is added if and only if each of its figures can be written by itself, which valid settings
are enough for. Then a line feed, the lines of the table and two more line feeds follow what was
there, and its figures follow the figures. -/
theorem addTable_spec [Machine] (grid : Grid header rows) (r : Report) :
    ((∃ r', r.addTable rows (some (headCells header)) = .ok r') ↔
      ∀ row ∈ rows, ∀ f, Cell.figure f ∈ row → ∃ text, f.text .empty = .ok text) ∧
    ((∀ row ∈ rows, ∀ f, Cell.figure f ∈ row → f.style.Valid) →
      ∃ r', r.addTable rows (some (headCells header)) = .ok r') ∧
    ∀ r', r.addTable rows (some (headCells header)) = .ok r' →
      r'.style = r.style ∧ r'.figures = r.figures ++ rows.flatMap Cell.figures ∧
      ∃ head rule lines,
        r'.content = r.content ++ "\n" ++
          String.join ((head :: rule :: lines).map (· ++ "\n")) ++ "\n\n" ∧
        Shows header rows r.figures.length r'.figures head rule lines := by
  have cells (figures : ∀ row ∈ rows, ∀ f, Cell.figure f ∈ row → ∃ text, f.text .empty = .ok text) :
      ∀ row ∈ rows, ∀ cell ∈ row, ∃ text, cell.text = .ok text := by
    intro row isRow cell isCell
    cases cell with
    | figure f => exact figures row isRow f isCell
    | value v =>
      obtain ⟨s, rfl, _⟩ := grid.cells row isRow (.value v) isCell
      exact ⟨s, rfl⟩
  have exact_iff : (∃ r', r.addTable rows (some (headCells header)) = .ok r') ↔
      ∀ row ∈ rows, ∀ f, Cell.figure f ∈ row → ∃ text, f.text .empty = .ok text := by
    constructor
    · rintro ⟨r', added⟩ row isRow f isCell
      exact exists_text_of_addTable added row isRow (.figure f) isCell
    · intro figures
      obtain ⟨head, rule, lines, added, _⟩ := addTable_of_written grid (cells figures) r
      exact ⟨_, added⟩
  refine ⟨exact_iff, fun valid => exact_iff.mpr fun row isRow f isCell => ?_, fun r' added => ?_⟩
  · exact Figure.exists_text_of_valid ((valid row isRow f isCell).within_empty)
  · obtain ⟨head, rule, lines, same, shows⟩ :=
      addTable_of_written grid (exists_text_of_addTable added) r
    rw [same] at added
    cases added
    exact ⟨rfl, rfl, head, rule, lines, rfl, shows⟩

end

def threeDigits : Style :=
  { Style.empty with digits := some (.int 3) }

theorem valid_threeDigits : threeDigits.Valid :=
  { Style.Valid.empty with
    digits := by
      rintro _ ⟨⟩
      exact ⟨3, rfl, by decide⟩ }

/-- A text and a figure in the first row, and texts in the second one. -/
def statistics : List (List Cell) :=
  [[.value (.text " Mean"), .figure ⟨some 3.14159, threeDigits⟩],
    [.value (.text "Runs"), .value (.text "")]]

def counted : Report :=
  (Report.empty .empty).addFigure ⟨some 2.71828, .empty⟩ " units"

theorem grid_statistics : Grid ["Statistic", "Value"] statistics where
  headed := List.cons_ne_nil _ _
  heads := by decide
  square := by decide
  cells := by
    simp only [statistics, List.forall_mem_cons, List.not_mem_nil, false_implies, implies_true,
      and_true, Cell.Inline]
    exact ⟨⟨_, rfl, by decide⟩, ⟨_, rfl, by decide⟩, ⟨_, rfl, by decide⟩⟩

section

attribute [local instance] Machine.standard

theorem addTable_spec_statistics :
    Grid ["Statistic", "Value"] statistics ∧
    (∀ row ∈ statistics, ∀ f, Cell.figure f ∈ row → f.style.Valid) ∧
    ∃ r', counted.addTable statistics (some (headCells ["Statistic", "Value"])) = .ok r' ∧
      r'.style = counted.style ∧
      r'.figures = counted.figures ++ statistics.flatMap Cell.figures ∧
      ∃ head rule lines,
        r'.content = "[[VAL0]] units" ++ "\n" ++
          String.join ((head :: rule :: lines).map (· ++ "\n")) ++ "\n\n" ∧
        Shows ["Statistic", "Value"] statistics 1 r'.figures head rule lines := by
  have valid : ∀ row ∈ statistics, ∀ f, Cell.figure f ∈ row → f.style.Valid := by
    intro row isRow f isCell
    simp only [statistics, List.mem_cons, List.not_mem_nil, or_false] at isRow
    rcases isRow with rfl | rfl
    · simp only [List.mem_cons, reduceCtorEq, Cell.figure.injEq, List.not_mem_nil, or_false,
        false_or] at isCell
      subst isCell
      exact valid_threeDigits
    · simp at isCell
  obtain ⟨_, made, spec⟩ := addTable_spec grid_statistics counted
  obtain ⟨r', added⟩ := made valid
  exact ⟨grid_statistics, valid, r', added, spec r' added⟩

end

end Report

end Reckon
