import Mathlib.Data.List.Basic
import Reckon.Proofs.Text.Fields

/-!
Lines of a text, and fields on a line, that were put together from parts.

A line begins and ends with a bar, and bars divide it into fields. Parts without bars are found again
as they are, or with blanks around them if blanks stand around the bars.
-/

set_option autoImplicit false

namespace Reckon.Text

/-! ## Parts and separators -/

theorem mem_intercalate {α : Type} {separator : List α} {runs : List (List α)} {x : α}
    (member : x ∈ separator.intercalate runs) : x ∈ separator ∨ ∃ run ∈ runs, x ∈ run := by
  induction runs with
  | nil => simp at member
  | cons run runs ih =>
    cases runs with
    | nil => exact .inr ⟨run, List.mem_cons_self, by simpa using member⟩
    | cons next runs =>
      rw [List.intercalate_cons_cons, List.mem_append, List.mem_append] at member
      rcases member with (first | between) | later
      · exact .inr ⟨run, List.mem_cons_self, first⟩
      · exact .inl between
      · exact (ih later).imp_right fun ⟨other, isRun, inside⟩ =>
          ⟨other, List.mem_cons_of_mem run isRun, inside⟩

theorem flatMap_intercalate {separator : List Char} {parts : List (List Char)}
    (some : parts ≠ []) :
    separator.intercalate parts ++ separator = parts.flatMap (· ++ separator) := by
  induction parts with
  | nil => exact absurd rfl some
  | cons part parts ih =>
    cases parts with
    | nil => simp
    | cons next parts =>
      rw [List.flatMap_cons, ← ih (List.cons_ne_nil next parts), List.intercalate_cons_cons]
      simp

/-! ## Lines -/

def IsLine (s : String) : Prop :=
  s ≠ "" ∧ ∀ c ∈ s.toList, isLineEnd c = false

theorem linesFrom_append {front : List Char} (inLine : ∀ c ∈ front, isLineEnd c = false)
    (line rest : List Char) :
    linesFrom line (front ++ rest) = linesFrom (front.reverse ++ line) rest := by
  induction front generalizing line with
  | nil => rfl
  | cons c front ih =>
    rw [List.forall_mem_cons] at inLine
    have other : c ≠ '\r' := by
      rintro rfl
      exact absurd inLine.1 (by decide)
    rw [List.cons_append, linesFrom, if_neg (by simp [inLine.1]), ih inLine.2]
    · simp
    · exact fun _ same _ => absurd same other

theorem linesFrom_flatMap {lines : List (List Char)}
    (unbroken : ∀ line ∈ lines, ∀ c ∈ line, isLineEnd c = false) :
    linesFrom [] (lines.flatMap (· ++ ['\n'])) = lines := by
  induction lines with
  | nil => rfl
  | cons line lines ih =>
    obtain ⟨first, others⟩ := List.forall_mem_cons.mp unbroken
    have ended (rest : List Char) :
        linesFrom (line.reverse ++ []) ('\n' :: rest) = line :: linesFrom [] rest := by
      rw [linesFrom, if_pos (by decide), List.append_nil, List.reverse_reverse]
      exact fun _ same _ => absurd same (by decide)
    rw [List.flatMap_cons, List.append_assoc, List.singleton_append, linesFrom_append first, ended,
      ih others]

/-! ## Texts of fields -/

def Inline (s : String) : Prop :=
  ∀ c ∈ s.toList, c ≠ '|' ∧ isLineEnd c = false

instance (s : String) : Decidable (Inline s) :=
  decidable_of_iff (s.toList.all fun c => c != '|' && !isLineEnd c) (by simp [Inline])

theorem Inline.padRight {s : String} (inline : Inline s) (width : Nat) :
    Inline (padRight width s) := by
  intro c member
  rw [Text.padRight, String.toList_append, String.toList_ofList, List.mem_append] at member
  rcases member with inside | room
  · exact inline c inside
  · rw [List.eq_of_mem_replicate room]
    decide

theorem trim_padRight (width : Nat) (s : String) : trim (padRight width s) = trim s := by
  have blank : ∀ c ∈ List.replicate (width - s.length) ' ', isBlank c = true := by
    intro c member
    rw [List.eq_of_mem_replicate member]
    decide
  have trimmed := trimChars_around blank_nil s.toList blank
  rw [List.nil_append] at trimmed
  rw [trim, trim, padRight, String.toList_append, String.toList_ofList, trimmed]

theorem padRight_ne_empty {width : Nat} (wide : 0 < width) (s : String) :
    padRight width s ≠ "" := by
  intro none
  have length : (padRight width s).toList.length = 0 := by rw [none]; rfl
  rw [padRight, String.toList_append, String.toList_ofList, List.length_append,
    List.length_replicate, String.length_toList] at length
  omega

/-! ## Parts on a line -/

theorem join_ne_empty {separator first : String} (some : first ≠ "") (others : List String) :
    join separator (first :: others) ≠ "" := by
  intro none
  have letters := congrArg String.toList none
  rw [join, String.toList_intercalate, List.map_cons] at letters
  cases others with
  | nil => exact some (String.toList_eq_nil_iff.mp (by simpa using letters))
  | cons next others =>
    rw [List.map_cons, List.intercalate_cons_cons, List.append_assoc] at letters
    exact some (String.toList_eq_nil_iff.mp (List.append_eq_nil_iff.mp letters).1)

theorem unbroken_join {separator : String} (between : separator.toList.any isLineEnd = false)
    {parts : List String} (each : ∀ part ∈ parts, Inline part) :
    ∀ c ∈ (join separator parts).toList, isLineEnd c = false := by
  intro c member
  rw [join, String.toList_intercalate] at member
  rcases mem_intercalate member with inBetween | ⟨run, isRun, inside⟩
  · simpa using List.any_eq_false.mp between c inBetween
  · obtain ⟨part, isPart, rfl⟩ := List.mem_map.mp isRun
    exact (each part isPart c inside).2

theorem isLine_join {separator first : String} {others : List String}
    (between : separator.toList.any isLineEnd = false) (some : first ≠ "")
    (each : ∀ part ∈ first :: others, Inline part) : IsLine (join separator (first :: others)) :=
  ⟨join_ne_empty some others, unbroken_join between each⟩

/-! ## Fields between bars -/

/-- The line begins and ends with a bar, and these are the fields between its bars. -/
structure HasFields (line : String) (parts : List String) : Prop where
  bars : ∃ inside, line = "|" ++ inside ++ "|"
  unbroken : ∀ c ∈ line.toList, isLineEnd c = false
  fields : (fields '|' line.toList).map String.ofList = [""] ++ parts ++ [""]

theorem HasFields.of_flatMap {inside : String} {parts : List (List Char)}
    (same : inside.toList ++ ['|'] = parts.flatMap (· ++ ['|']))
    (absent : ∀ part ∈ parts, '|' ∉ part) (unbroken : ∀ c ∈ inside.toList, isLineEnd c = false) :
    HasFields ("|" ++ inside ++ "|") (parts.map String.ofList) where
  bars := ⟨inside, rfl⟩
  unbroken := by
    have bar : isLineEnd '|' = false := by decide
    simpa [or_imp, forall_and, bar] using unbroken
  fields := by
    have letters : ("|" ++ inside ++ "|").toList = '|' :: (inside.toList ++ ['|']) := by simp
    rw [letters, Text.fields, if_pos rfl, same, fields_flatMap_concat absent]
    simp

/-- Parts with a blank at every place where two of them meet, and blanks before the first one. -/
def spaced (before : List Char) : List (List Char) → List (List Char)
  | [] => []
  | [last] => [before ++ last]
  | part :: next :: rest => (before ++ (part ++ [' '])) :: spaced [' '] (next :: rest)

theorem flatMap_spaced (before : List Char) {parts : List (List Char)} (some : parts ≠ []) :
    before ++ ([' ', '|', ' '].intercalate parts ++ ['|']) =
      (spaced before parts).flatMap (· ++ ['|']) := by
  induction parts generalizing before with
  | nil => exact absurd rfl some
  | cons part parts ih =>
    cases parts with
    | nil => simp [spaced]
    | cons next parts =>
      have others := ih [' '] (List.cons_ne_nil next parts)
      rw [List.singleton_append] at others
      rw [spaced, List.flatMap_cons, ← others, List.intercalate_cons_cons]
      simp

theorem trimChars_spaced {before : List Char} (blank : ∀ c ∈ before, isBlank c = true)
    (parts : List (List Char)) :
    (spaced before parts).map trimChars = parts.map trimChars := by
  have space : ∀ c ∈ [' '], isBlank c = true := List.forall_mem_singleton.mpr rfl
  fun_induction spaced before parts with
  | case1 => rfl
  | case2 before last =>
    have trimmed := trimChars_around blank last blank_nil
    rw [List.append_nil] at trimmed
    rw [List.map_singleton, List.map_singleton, trimmed]
  | case3 before part next rest ih =>
    rw [List.map_cons, List.map_cons, ih space, trimChars_around blank part space]

theorem not_mem_spaced {c : Char} (visible : c ≠ ' ') {before : List Char} (absent : c ∉ before)
    {parts : List (List Char)} (each : ∀ part ∈ parts, c ∉ part) :
    ∀ part ∈ spaced before parts, c ∉ part := by
  fun_induction spaced before parts with
  | case1 => exact List.forall_mem_nil _
  | case2 before last =>
    have absentLast := each last List.mem_cons_self
    simpa using ⟨absent, absentLast⟩
  | case3 before part next rest ih =>
    obtain ⟨absentPart, others⟩ := List.forall_mem_cons.mp each
    have absentLater : c ∉ [' '] := by simpa using visible
    exact List.forall_mem_cons.mpr
      ⟨by simp [absent, absentPart, visible], ih absentLater others⟩

section

variable {parts : List String} (some : parts ≠ []) (each : ∀ part ∈ parts, Inline part)

include each in
theorem bar_not_mem_of_inline : ∀ part ∈ parts.map String.toList, '|' ∉ part := by
  intro part isPart member
  obtain ⟨s, isText, rfl⟩ := List.mem_map.mp isPart
  exact (each s isText '|' member).1 rfl

include some each

theorem exists_fields_row : ∃ found, HasFields ("|" ++ join " | " parts ++ "|") found ∧
    found.map trim = parts.map trim := by
  have someParts : parts.map String.toList ≠ [] := by simpa using some
  refine ⟨(spaced [] (parts.map String.toList)).map String.ofList, .of_flatMap ?_ ?_ ?_, ?_⟩
  · rw [← flatMap_spaced [] someParts, join, String.toList_intercalate]
    rfl
  · exact not_mem_spaced (by decide) List.not_mem_nil (bar_not_mem_of_inline each)
  · exact unbroken_join (by decide) each
  · have trimmed := congrArg (List.map String.ofList)
      (trimChars_spaced blank_nil (parts.map String.toList))
    have trims : trim = fun s => String.ofList (trimChars s.toList) := rfl
    simpa [trims, Function.comp_def] using trimmed

theorem hasFields_rule : HasFields ("|" ++ join "|" parts ++ "|") parts := by
  have someParts : parts.map String.toList ≠ [] := by simpa using some
  have found : HasFields ("|" ++ join "|" parts ++ "|")
      ((parts.map String.toList).map String.ofList) := by
    refine .of_flatMap ?_ (bar_not_mem_of_inline each) (unbroken_join (by decide) each)
    rw [join, String.toList_intercalate]
    exact flatMap_intercalate someParts
  simpa [Function.comp_def] using found

end

end Reckon.Text
