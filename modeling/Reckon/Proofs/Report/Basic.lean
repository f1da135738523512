import Mathlib.Data.List.Basic
import Reckon.Proofs.Report.Figure
import Reckon.Report.Basic

/-!
Reports without settings.

Where every setting is left open, a figure of any number has a text, so a report is always written.
Tables keep the figures of their cells and add none.
-/

set_option autoImplicit false

namespace Reckon

theorem exists_mapM {α β : Type} {f : α → Except Failure β} {items : List α}
    (each : ∀ item ∈ items, ∃ value, f item = .ok value) :
    ∃ values, items.mapM f = .ok values ∧ values.length = items.length := by
  induction items with
  | nil => exact ⟨[], rfl, rfl⟩
  | cons item items ih =>
    obtain ⟨first, others⟩ := List.forall_mem_cons.mp each
    obtain ⟨value, isValue⟩ := first
    obtain ⟨values, areValues, count⟩ := ih others
    refine ⟨value :: values, ?_, ?_⟩
    · rw [List.mapM_cons, isValue, areValues]
      rfl
    · rw [List.length_cons, List.length_cons, count]

/-! ## Tables -/

namespace Cell

def Plain : Cell → Prop
  | figure f => f.style = .empty
  | value v => ∃ s, v = .text s

theorem Plain.exists_text [Machine] {cell : Cell} (plain : cell.Plain) :
    ∃ text, cell.text = .ok text := by
  cases cell with
  | figure f => exact Figure.exists_text plain
  | value v =>
    obtain ⟨s, rfl⟩ := plain
    exact ⟨s, rfl⟩

theorem mem_insertAll {cells : List Cell} {figures : List (Figure Float)} {f : Figure Float}
    (member : f ∈ (insertAll cells figures).2) : f ∈ figures ∨ figure f ∈ cells := by
  induction cells generalizing figures with
  | nil => exact .inl member
  | cons cell cells ih =>
    rw [insertAll] at member
    rcases ih member with earlier | later
    · -- a value among the cells brings no figure with it
      cases cell with
      | value v => exact .inl earlier
      | figure g =>
        rcases List.mem_append.mp earlier with old | new
        · exact .inl old
        · rw [List.mem_singleton.mp new]
          exact .inr List.mem_cons_self
    · exact .inr (List.mem_cons_of_mem _ later)

end Cell

namespace Report

open Cell

theorem mem_tableRows {widths : List Nat} {rows : List (List Cell)} {figures : List (Figure Float)}
    {f : Figure Float} (member : f ∈ (tableRows widths rows figures).2) :
    f ∈ figures ∨ ∃ row ∈ rows, figure f ∈ row := by
  induction rows generalizing figures with
  | nil => exact .inl member
  | cons row rows ih =>
    rw [tableRows] at member
    rcases ih member with earlier | ⟨row, isRow, isCell⟩
    · rcases mem_insertAll earlier with old | new
      · exact .inl old
      · exact .inr ⟨_, List.mem_cons_self, new⟩
    · exact .inr ⟨row, List.mem_cons_of_mem _ isRow, isCell⟩

section

variable {header : List Cell} {rows : List (List Cell)}

theorem exists_widths [Machine] {count : Nat} {widths : List Nat} (enough : widths.length = count)
    (written : ∀ row ∈ rows, row.length = count ∧ ∀ cell ∈ row, ∃ text, cell.text = .ok text) :
    ∃ widths', rows.foldlM (fun widths row => do
      let texts ← row.mapM Cell.text
      widest widths (texts.map String.length)) widths = .ok widths' ∧ widths'.length = count := by
  induction rows generalizing widths with
  | nil => exact ⟨widths, rfl, enough⟩
  | cons row rows ih =>
    obtain ⟨⟨sameCount, cells⟩, others⟩ := List.forall_mem_cons.mp written
    obtain ⟨texts, areTexts, textCount⟩ := exists_mapM cells
    have same : widths.length = (texts.map String.length).length := by
      rw [List.length_map, textCount, sameCount, enough]
    have wide : widest widths (texts.map String.length) =
        .ok (widths.zipWith max (texts.map String.length)) := by
      unfold widest
      rw [if_pos same]
    have zipped : (widths.zipWith max (texts.map String.length)).length = count := by
      rw [List.length_zipWith, ← same, Nat.min_self, enough]
    -- the widths after the first row belong to as many columns again
    obtain ⟨widths', areWidths, lasting⟩ := ih zipped others
    refine ⟨widths', ?_, lasting⟩
    rw [List.foldlM_cons, areTexts]
    change Except.bind (widest widths (texts.map String.length)) _ = _
    rw [wide]
    exact areWidths

/-- Where every cell has a text and the rows are as long as the header, each column has a width. -/
theorem exists_columnWidths [Machine] (headed : ∀ cell ∈ header, ∃ text, cell.text = .ok text)
    (written : ∀ row ∈ rows,
      row.length = header.length ∧ ∀ cell ∈ row, ∃ text, cell.text = .ok text) :
    ∃ widths, columnWidths header rows = .ok widths ∧ widths.length = header.length := by
  obtain ⟨headers, areHeaders, headCount⟩ := exists_mapM headed
  have enough : (headers.map fun text => text.length + 1).length = header.length := by
    rw [List.length_map, headCount]
  obtain ⟨widths, areWidths, count⟩ := exists_widths enough written
  refine ⟨widths.map fun width => max (width + 1) 9, ?_, by rw [List.length_map, count]⟩
  rw [columnWidths, areHeaders]
  change Except.bind (rows.foldlM _ _) _ = _
  rw [areWidths]
  rfl

theorem addTable_of_columns [Machine] {widths : List Nat} {heads : List String}
    (columns : columnWidths header rows = .ok widths)
    (headed : ((widths.zip header).mapM fun (width, cell) => cell.headText width) = .ok heads)
    (r : Report) :
    r.addTable rows (some header) = .ok
      { r with
        content := r.content ++ barred ("\n" ++ String.join ((Text.join " | " heads ::
          tableRule widths :: (tableRows widths rows r.figures).1).map (· ++ "\n"))) ++ "\n\n"
        figures := (tableRows widths rows r.figures).2 } := by
  rw [addTable]
  change Except.bind (columnWidths header rows) _ = _
  rw [columns]
  change Except.bind (List.mapM _ _) _ = _
  rw [headed]
  rfl

/-- A table whose rows are as long as its header is added, with no figures but those of its cells. -/
theorem exists_addTable [Machine] (heads : ∀ cell ∈ header, ∃ s, cell = .value (.text s))
    (plain : ∀ row ∈ rows, row.length = header.length ∧ ∀ cell ∈ row, cell.Plain) (r : Report) :
    ∃ r', r.addTable rows (some header) = .ok r' ∧ r'.style = r.style ∧
      ∀ f ∈ r'.figures, f ∈ r.figures ∨ ∃ row ∈ rows, figure f ∈ row := by
  have headTexts (cell : Cell) (member : cell ∈ header) : ∃ text, cell.text = .ok text := by
    obtain ⟨s, rfl⟩ := heads cell member
    exact ⟨_, rfl⟩
  obtain ⟨widths, columns, _⟩ := exists_columnWidths headTexts fun row member =>
    (plain row member).imp_right fun cells cell isCell => (cells cell isCell).exists_text
  have headCells : ∀ column ∈ widths.zip header,
      ∃ text, column.2.headText column.1 = .ok text := by
    intro column member
    obtain ⟨s, isText⟩ := heads column.2 (List.of_mem_zip member).2
    rw [isText]
    exact ⟨_, rfl⟩
  obtain ⟨texts, areTexts, _⟩ := exists_mapM headCells
  exact ⟨_, addTable_of_columns columns areTexts r, rfl, fun f member => mem_tableRows member⟩

end

/-! ## Writing -/

/-- No setting is made, neither for the report nor for a figure in it. -/
structure Plain (r : Report) : Prop where
  style : r.style = .empty
  figures : ∀ f ∈ r.figures, f.style = .empty

namespace Plain

variable {r other : Report}

theorem empty : (Report.empty .empty).Plain := ⟨rfl, by simp [Report.empty]⟩

theorem addText (plain : r.Plain) (text : String) : (r.addText text).Plain :=
  ⟨plain.style, plain.figures⟩

theorem append (plain : r.Plain) (others : other.Plain) (last : String) :
    (r.append other last).Plain := by
  refine ⟨plain.style, ?_⟩
  intro f member
  rcases List.mem_append.mp member with first | second
  · exact plain.figures f first
  · exact others.figures f second

theorem exists_fill {figures : List (Figure Float)} (plain : ∀ f ∈ figures, f.style = .empty)
    (content : String) : ∃ text, fill .empty figures content = .ok text := by
  induction figures generalizing content with
  | nil => exact ⟨content, rfl⟩
  | cons f figures ih =>
    obtain ⟨first, others⟩ := List.forall_mem_cons.mp plain
    obtain ⟨written, isWritten⟩ := f.exists_text first
    rw [fill, isWritten]
    exact ih others _

theorem exists_markdown (plain : r.Plain) : ∃ text, r.markdown .empty = .ok text := by
  have figures : ∀ f ∈ r.figures.reverse, f.style = .empty := by
    intro f member
    exact plain.figures f (List.mem_reverse.mp member)
  obtain ⟨text, isText⟩ := exists_fill figures r.content
  refine ⟨Text.trim text, ?_⟩
  rw [markdown, plain.style]
  exact congrArg (Except.bind · _) isText

end Plain

end Report

end Reckon
