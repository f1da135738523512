import Reckon.Proofs.Report.Figure
import Reckon.Proofs.Report.Table

/-!
Reports that are built step by step, and what they show.

The figures of an appended report take the numbers after those already there, so the text of a
report is at any time its pieces with tags numbered from zero. Showing it puts each figure back in
the place it was added at.
-/

set_option autoImplicit false

namespace Reckon.Report

open Piece (ofText shown tagged)

/-- The report is built by adding these pieces, with these figures added one after another. An
appended report is built in the same way, with settings of its own. -/
inductive Built [Machine] : Report → List Piece → List (Figure Float) → Prop where
  | empty (style : Style) : Built (.empty style) [] []
  | header {r : Report} {pieces : List Piece} {added : List (Figure Float)}
      (built : Built r pieces added) {text : String} (free : '[' ∉ text.toList) (level : Int) :
      Built (r.addHeader text level)
        (pieces ++ ofText (String.ofList (List.replicate level.toNat '#') ++ " " ++ text ++ "\n\n"))
        added
  | text {r : Report} {pieces : List Piece} {added : List (Figure Float)}
      (built : Built r pieces added) {text : String} (free : '[' ∉ text.toList) :
      Built (r.addText text) (pieces ++ ofText text) added
  | plain {r : Report} {pieces : List Piece} {added : List (Figure Float)}
      (built : Built r pieces added) {text : String} (free : '[' ∉ text.toList) :
      Built (r.addPlain text) (pieces ++ ofText ("```\n" ++ text ++ "\n```\n\n")) added
  | divider {r : Report} {pieces : List Piece} {added : List (Figure Float)}
      (built : Built r pieces added) : Built r.addDivider (pieces ++ ofText "\n---\n\n") added
  | paragraph {r : Report} {pieces : List Piece} {added : List (Figure Float)}
      (built : Built r pieces added) : Built r.addBreak (pieces ++ ofText "\n\n") added
  | figure {r : Report} {pieces : List Piece} {added : List (Figure Float)}
      (built : Built r pieces added) (f : Figure Float) {last : String} (free : '[' ∉ last.toList) :
      Built (r.addFigure f last) (pieces ++ .figure f :: ofText last) (added ++ [f])
  | table {r next : Report} {pieces table : List Piece} {added : List (Figure Float)}
      (built : Built r pieces added) {rows : List (List Cell)} {header : Option (List Cell)}
      (columned : Columned rows header) (heads : ∀ cells ∈ header, ∀ cell ∈ cells, cell.Free)
      (cells : ∀ row ∈ rows, ∀ cell ∈ row, cell.Free)
      (isTable : tablePieces rows header r.figures.length = .ok table)
      (isNext : r.addTable rows header = .ok next) :
      Built next (pieces ++ table) (added ++ rows.flatMap Cell.figures)
  | append {r other : Report} {pieces others : List Piece} {added further : List (Figure Float)}
      (built : Built r pieces added) (inner : Built other others further) {last : String}
      (free : '[' ∉ last.toList) :
      Built (r.append other last) (pieces ++ (others ++ ofText last)) (added ++ further)

variable {r other : Report} {pieces others : List Piece} {added : List (Figure Float)}

theorem Built.exists_table [Machine] (built : Built r pieces added) {rows : List (List Cell)}
    {header : Option (List Cell)} (columned : Columned rows header)
    (heads : ∀ cells ∈ header, ∀ cell ∈ cells, cell.Free)
    (cells : ∀ row ∈ rows, ∀ cell ∈ row, cell.Free) (isNext : r.addTable rows header = .ok other) :
    ∃ table, Built other (pieces ++ table) (added ++ rows.flatMap Cell.figures) := by
  have same := addTable_eq columned r
  rw [isNext] at same
  cases isTable : tablePieces rows header r.figures.length with
  | error failure =>
    rw [isTable] at same
    cases same
  | ok table => exact ⟨table, .table built columned heads cells isTable isNext⟩

/-- The report holds the pieces, with tags in the place of the figures. -/
structure Holds (r : Report) (pieces : List Piece) : Prop where
  content : r.content.toList = tagged 0 pieces
  figures : r.figures = Piece.figures pieces
  free : Piece.Free pieces

namespace Holds

theorem empty (style : Style) : (Report.empty style).Holds [] := ⟨rfl, rfl, Piece.free_nil⟩

theorem addPieces (holds : r.Holds pieces) (free : Piece.Free others) :
    (r.addPieces others).Holds (pieces ++ others) where
  content := by
    rw [Report.addPieces, String.toList_ofList, holds.content, holds.figures, Piece.tagged_append,
      Nat.zero_add]
  figures := by rw [Report.addPieces, holds.figures, Piece.figures_append]
  free := Piece.free_append.mpr ⟨holds.free, free⟩

theorem addText (holds : r.Holds pieces) {text : String} (free : '[' ∉ text.toList) :
    (r.addText text).Holds (pieces ++ ofText text) := by
  have same : r.addText text = r.addPieces (ofText text) := by
    simp [Report.addText, Report.addPieces, ofText, ← String.toList_append]
  rw [same]
  exact holds.addPieces (Piece.free_map_char.mpr free)

theorem addFigure (holds : r.Holds pieces) (f : Figure Float) {last : String}
    (free : '[' ∉ last.toList) : (r.addFigure f last).Holds (pieces ++ .figure f :: ofText last) := by
  have same : r.addFigure f last = r.addPieces (.figure f :: ofText last) := by
    simp [Report.addFigure, Report.addPieces, ofText, tagged, ← String.toList_append,
      String.append_assoc]
  rw [same]
  exact holds.addPieces (Piece.free_figure.mpr (Piece.free_map_char.mpr free))

/-- The tags of an appended report become those after the ones already there. -/
theorem append (holds : r.Holds pieces) (inner : other.Holds others) {last : String}
    (free : '[' ∉ last.toList) : (r.append other last).Holds (pieces ++ (others ++ ofText last)) := by
  have renumbered : renumber r.figures.length other.figures.length other.content =
      String.ofList (tagged r.figures.length others) := by
    have renumbered := Piece.renumber_tagged inner.free r.figures.length
      fun i _ => Text.Passes.nil (tag i).toList
    rwa [List.append_nil, List.append_nil, ← inner.content, ← inner.figures,
      String.ofList_toList] at renumbered
  have same : r.append other last = r.addPieces (others ++ ofText last) := by
    rw [Report.append, renumbered, inner.figures]
    simp [Report.addPieces, ofText, Piece.tagged_append, String.append_assoc]
  rw [same]
  exact holds.addPieces (Piece.free_append.mpr ⟨inner.free, Piece.free_map_char.mpr free⟩)

end Holds

theorem Built.holds [Machine] (built : Built r pieces added) :
    r.Holds pieces ∧ Piece.figures pieces = added := by
  -- text of any kind brings no figures with it
  have texted {text : String} (free : '[' ∉ text.toList) {r : Report} {pieces : List Piece}
      {added : List (Figure Float)} (ih : r.Holds pieces ∧ Piece.figures pieces = added) :
      (r.addText text).Holds (pieces ++ ofText text) ∧
        Piece.figures (pieces ++ ofText text) = added := by
    refine ⟨ih.1.addText free, ?_⟩
    rw [Piece.figures_append, ofText, Piece.figures_map_char, List.append_nil, ih.2]
  induction built with
  | empty style => exact ⟨.empty style, rfl⟩
  | header built free level ih => exact texted (by simp [free]) ih
  | text built free ih => exact texted free ih
  | plain built free ih => exact texted (by simp [free]) ih
  | divider built ih => exact texted (by decide) ih
  | paragraph built ih => exact texted (by decide) ih
  | figure built f free ih =>
    refine ⟨ih.1.addFigure f free, ?_⟩
    rw [Piece.figures_append, Piece.figures_figure, ofText, Piece.figures_map_char, ih.2]
  | table built columned heads cells isTable isNext ih =>
    rw [addTable_eq columned, isTable] at isNext
    cases isNext
    refine ⟨ih.1.addPieces (free_tablePieces heads cells isTable), ?_⟩
    rw [Piece.figures_append, ih.2, figures_tablePieces columned isTable]
  | append built inner free ih ihInner =>
    refine ⟨ih.1.append ihInner.1 free, ?_⟩
    rw [Piece.figures_append, Piece.figures_append, ofText, Piece.figures_map_char,
      List.append_nil, ih.2, ihInner.2]

/-- A report that was built shows its pieces in the order they were added in, each figure once and
in its own place. The settings it is shown in give way to its own, and both to a figure's. There is
a text as soon as there is one for every figure, and no bracket is left in it. -/
theorem markdown_built [Machine] (built : Built r pieces added) (outer : Style)
    (suffixes : ∀ f ∈ added, ∀ suffix,
      (f.style.within (r.style.within outer)).suffixText = .ok suffix → '[' ∉ suffix.toList) :
    r.markdown outer = (shown (r.style.within outer) pieces).map
        (fun cs => Text.trim (String.ofList cs)) ∧
      Piece.figures pieces = added ∧
      ((∃ text, r.markdown outer = .ok text) ↔
        ∀ f ∈ added, ∃ s, f.text (r.style.within outer) = .ok s) ∧
      ∀ text, r.markdown outer = .ok text → '[' ∉ text.toList := by
  obtain ⟨holds, inOrder⟩ := built.holds
  have written : ∀ f ∈ Piece.figures pieces, ∀ s,
      f.text (r.style.within outer) = .ok s → '[' ∉ s.toList := by
    intro f member s isText
    exact f.bracket_not_mem_text isText (suffixes f (inOrder ▸ member))
  have filled : r.markdown outer = (shown (r.style.within outer) pieces).map
      (fun cs => Text.trim (String.ofList cs)) := by
    have filled := Piece.fill_tagged holds.free (r.style.within outer) written
      fun i _ => Text.Passes.nil (tag i).toList
    rw [List.append_nil, ← holds.content, ← holds.figures, String.ofList_toList] at filled
    rw [markdown, filled]
    cases shown (r.style.within outer) pieces with
    | error failure => rfl
    | ok cs => simp [Except.map, bind, Except.bind, pure, Except.pure]
  refine ⟨filled, inOrder, ?_, ?_⟩
  · rw [filled, ← inOrder, ← Piece.exists_shown_iff]
    cases shown (r.style.within outer) pieces <;> simp [Except.map]
  · intro text isText
    rw [filled] at isText
    cases isShown : shown (r.style.within outer) pieces with
    | error failure =>
      rw [isShown] at isText
      cases isText
    | ok cs =>
      rw [isShown] at isText
      cases isText
      have free := Piece.bracket_not_mem_shown holds.free written isShown
      intro member
      simp only [Text.trim, String.toList_ofList] at member
      exact free (Text.mem_of_mem_trimChars member)

/-! ### A table in a report in another one -/

def followedBy (suffix : String) : Style := { Style.empty with suffix := some (.text suffix) }

def zeroIn (style : Style) : Figure Float := ⟨some 0, style⟩

def namedRow : List Cell := [.value (.text "a"), .figure (zeroIn (followedBy " g"))]

def nameHeads : List Cell := [.value (.text "k"), .value (.text "v")]

section

attribute [local instance] Machine.standard

/-- The percent sign is put where a figure has no sign of its own. That of the inner report is not
put anywhere. -/
theorem markdown_built_nested :
    ∃ inner, (Report.empty (followedBy "?")).addTable [namedRow] (some nameHeads) = .ok inner ∧
      ((((Report.empty .empty).addFigure (zeroIn .empty) ", ").append
        (inner.addFigure (zeroIn .empty) "") "!").markdown (followedBy "%")).toOption = some
          "0%, \n|k         | v        |\n|---------|---------|\n|a         | 0 g |\n\n\n0%!" := by
  refine ⟨_, rfl, ?_⟩
  have columned : Columned [namedRow] (some nameHeads) := by
    intro _
    simp [namedRow, nameHeads]
  have heads : ∀ cells ∈ some nameHeads, ∀ cell ∈ cells, cell.Free := by
    simp [nameHeads, Cell.Free, Value.toText]
  have cells : ∀ row ∈ [namedRow], ∀ cell ∈ row, cell.Free := by
    simp [namedRow, Cell.Free, Value.toText]
  have suffixes : ∀ f ∈ [zeroIn .empty, zeroIn (followedBy " g"), zeroIn .empty], ∀ suffix,
      (f.style.within (Style.empty.within (followedBy "%"))).suffixText = .ok suffix →
        '[' ∉ suffix.toList := by
    simp [zeroIn, followedBy, Style.within, Style.suffixText, Style.empty]
  have free : ∀ s ∈ ["", ", ", "!"], '[' ∉ s.toList := by decide
  have table := Built.table (.empty (followedBy "?")) columned heads cells rfl rfl
  have inner := table.figure (zeroIn .empty) (free "" (by decide))
  have first := (Built.empty .empty).figure (zeroIn .empty) (free ", " (by decide))
  have built := first.append inner (free "!" (by decide))
  rw [(markdown_built built (followedBy "%") suffixes).1]
  decide +kernel

end

section

attribute [local instance] Machine.standard

/-- A table without columns counts the figures of its cells and shows none of them. -/
theorem addTable_without_columns : ∃ r,
    (Report.empty .empty).addTable [[.figure (zeroIn .empty)], []] (some [.value (.text "x")]) =
      .ok r ∧
    r.figures = [zeroIn .empty] ∧ (zeroIn .empty).text .empty = .ok "0" ∧
    r.markdown .empty = .ok "" :=
  ⟨⟨"\n\n\n\n\n\n\n", [zeroIn .empty], .empty⟩, rfl, rfl, rfl, rfl⟩

end

end Reckon.Report
