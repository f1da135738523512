import Reckon.Proofs.Text.Trim

/-!
The fields of a text that was put together from parts without the separator.
-/

set_option autoImplicit false

namespace Reckon.Text

variable {separator : Char}

theorem fields_of_not_mem {cs : List Char} (absent : separator ∉ cs) :
    fields separator cs = [cs] := by
  induction cs with
  | nil => rfl
  | cons c cs ih =>
    rw [List.mem_cons, not_or] at absent
    rw [fields, if_neg (Ne.symm absent.1), ih absent.2]

theorem fields_append {front : List Char} (absent : separator ∉ front) (rest : List Char) :
    fields separator (front ++ separator :: rest) = front :: fields separator rest := by
  induction front with
  | nil => rw [List.nil_append, fields, if_pos rfl]
  | cons c front ih =>
    rw [List.mem_cons, not_or] at absent
    rw [List.cons_append, fields, if_neg (Ne.symm absent.1), ih absent.2]

theorem fields_flatMap {first : List Char} {others : List (List Char)}
    (absent : ∀ part ∈ first :: others, separator ∉ part) :
    fields separator (first ++ others.flatMap (separator :: ·)) = first :: others := by
  induction others generalizing first with
  | nil => simpa using fields_of_not_mem (absent first List.mem_cons_self)
  | cons second others ih =>
    obtain ⟨absentFirst, absentOthers⟩ := List.forall_mem_cons.mp absent
    rw [List.flatMap_cons, List.cons_append, fields_append absentFirst, ih absentOthers]

/-- Parts that end with a separator each are found again before an empty field. -/
theorem fields_flatMap_concat {parts : List (List Char)}
    (absent : ∀ part ∈ parts, separator ∉ part) :
    fields separator (parts.flatMap (· ++ [separator])) = parts ++ [[]] := by
  induction parts with
  | nil => rfl
  | cons part parts ih =>
    obtain ⟨absentFirst, absentOthers⟩ := List.forall_mem_cons.mp absent
    rw [List.flatMap_cons, List.append_assoc, List.singleton_append, fields_append absentFirst,
      ih absentOthers, List.cons_append]

/-! ## What trimming leaves -/

theorem mem_dropWhile {drop : Char → Bool} {cs : List Char} {c : Char} (member : c ∈ cs)
    (kept : drop c = false) : c ∈ cs.dropWhile drop := by
  rw [← List.takeWhile_append_dropWhile (p := drop) (l := cs), List.mem_append] at member
  refine member.resolve_left fun dropped => ?_
  rw [List.mem_takeWhile_imp dropped] at kept
  cases kept

theorem mem_dropAround {drop : Char → Bool} {cs : List Char} {c : Char} (member : c ∈ cs)
    (kept : drop c = false) : c ∈ dropAround drop cs := by
  have front := mem_dropWhile member kept
  rw [dropAround, List.mem_reverse]
  exact mem_dropWhile (List.mem_reverse.mpr front) kept

theorem not_mem_of_not_mem_trimChars {cs : List Char} {c : Char} (visible : isBlank c = false)
    (absent : c ∉ trimChars cs) : c ∉ cs :=
  fun member => absent (mem_dropAround member visible)

end Reckon.Text
