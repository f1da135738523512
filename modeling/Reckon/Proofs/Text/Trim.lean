import Mathlib.Data.List.TakeWhile
import Reckon.Text.Blank
import Reckon.Text.Lines

/-!
Trimmed texts, and the parts of a text around a separator.
-/

set_option autoImplicit false

namespace Reckon.Text

structure Trimmed (cs : List Char) : Prop where
  first : ∀ c ∈ cs.head?, isBlank c = false
  last : ∀ c ∈ cs.getLast?, isBlank c = false

theorem dropWhile_eq_self {cs : List Char} (first : ∀ c ∈ cs.head?, isBlank c = false) :
    cs.dropWhile isBlank = cs := by
  cases cs with
  | nil => rfl
  | cons c cs => exact List.dropWhile_cons_of_neg (by simp [first c rfl])

theorem visible_of_head?_dropWhile {cs : List Char} :
    ∀ c ∈ (cs.dropWhile isBlank).head?, isBlank c = false := by
  intro c member
  have first := List.head?_dropWhile_not isBlank cs
  rw [Option.mem_def.mp member] at first
  exact first

theorem Trimmed.trimChars_eq {cs : List Char} (trimmed : Trimmed cs) : trimChars cs = cs := by
  have last : ∀ c ∈ cs.reverse.head?, isBlank c = false := by
    rw [List.head?_reverse]
    exact trimmed.last
  rw [trimChars, dropAround, dropWhile_eq_self trimmed.first, dropWhile_eq_self last,
    List.reverse_reverse]

theorem trimChars_around {before after : List Char} (blankBefore : ∀ c ∈ before, isBlank c = true)
    (cs : List Char) (blankAfter : ∀ c ∈ after, isBlank c = true) :
    trimChars (before ++ (cs ++ after)) = trimChars cs := by
  have blankReverse : ∀ c ∈ after.reverse, isBlank c = true := by simpa using blankAfter
  rw [trimChars, trimChars, dropAround, dropAround, List.dropWhile_append_of_pos blankBefore,
    List.dropWhile_append]
  split
  · next none =>
    have gone : after.dropWhile isBlank = [] := List.dropWhile_eq_nil_iff.mpr blankAfter
    rw [gone, List.isEmpty_iff.mp none]
  · rw [List.reverse_append, List.dropWhile_append_of_pos blankReverse]

theorem trimChars_between {before cs after : List Char}
    (blankBefore : ∀ c ∈ before, isBlank c = true) (trimmed : Trimmed cs)
    (blankAfter : ∀ c ∈ after, isBlank c = true) : trimChars (before ++ (cs ++ after)) = cs := by
  rw [trimChars_around blankBefore cs blankAfter, trimmed.trimChars_eq]

theorem blank_nil : ∀ c ∈ ([] : List Char), isBlank c = true :=
  List.forall_mem_nil _

theorem trimChars_cons {c : Char} {cs : List Char} (blank : isBlank c = true)
    (trimmed : Trimmed cs) : trimChars (c :: cs) = cs := by
  simpa using trimChars_between (List.forall_mem_singleton.mpr blank) trimmed blank_nil

theorem trimChars_concat {c : Char} {cs : List Char} (blank : isBlank c = true)
    (trimmed : Trimmed cs) : trimChars (cs ++ [c]) = cs := by
  simpa using trimChars_between blank_nil trimmed (List.forall_mem_singleton.mpr blank)

theorem trimChars_split (cs : List Char) :
    ∃ before after, cs = before ++ (trimChars cs ++ after) ∧ cs.dropWhile isBlank =
      trimChars cs ++ after := by
  refine ⟨cs.takeWhile isBlank, ((cs.dropWhile isBlank).reverse.takeWhile isBlank).reverse, ?_⟩
  have back : cs.dropWhile isBlank =
      trimChars cs ++ ((cs.dropWhile isBlank).reverse.takeWhile isBlank).reverse := by
    rw [trimChars, dropAround, ← List.reverse_append, List.takeWhile_append_dropWhile,
      List.reverse_reverse]
  refine ⟨?_, back⟩
  rw [← back, List.takeWhile_append_dropWhile]

theorem mem_of_mem_trimChars {cs : List Char} {c : Char} (member : c ∈ trimChars cs) : c ∈ cs := by
  obtain ⟨before, after, same, _⟩ := trimChars_split cs
  rw [same]
  exact List.mem_append_right _ (List.mem_append_left _ member)

theorem trimmed_trimChars (cs : List Char) : Trimmed (trimChars cs) where
  first := by
    intro c member
    obtain ⟨before, after, _, front⟩ := trimChars_split cs
    have firstLeft : c ∈ (cs.dropWhile isBlank).head? := by
      rw [front, List.head?_append, Option.mem_def.mp member]
      rfl
    exact visible_of_head?_dropWhile c firstLeft
  last := by
    rw [trimChars, dropAround, List.getLast?_reverse]
    exact visible_of_head?_dropWhile

theorem cut?_append {separator : Char} {before : List Char} (absent : separator ∉ before)
    (after : List Char) : cut? separator (before ++ separator :: after) = some (before, after) := by
  induction before with
  | nil => simp [cut?]
  | cons c before ih =>
    rw [List.mem_cons, not_or] at absent
    rw [List.cons_append, cut?, if_neg (Ne.symm absent.1), ih absent.2]
    rfl

theorem cut?_eq_some {separator : Char} {cs before after : List Char}
    (cut : cut? separator cs = some (before, after)) :
    separator ∉ before ∧ cs = before ++ separator :: after := by
  induction cs generalizing before with
  | nil => cases cut
  | cons c cs ih =>
    rw [cut?] at cut
    split at cut
    · next same =>
      cases cut
      exact ⟨List.not_mem_nil, by rw [same, List.nil_append]⟩
    · next other =>
      obtain ⟨⟨before', after'⟩, cutRest, same⟩ := Option.map_eq_some_iff.mp cut
      cases same
      obtain ⟨absent, rfl⟩ := ih cutRest
      exact ⟨by rw [List.mem_cons, not_or]; exact ⟨Ne.symm other, absent⟩, rfl⟩

end Reckon.Text
