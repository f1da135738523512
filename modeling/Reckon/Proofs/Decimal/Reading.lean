import Reckon.Decimal.Whole
import Reckon.Proofs.Text.Fields

/-!
What stands in a text that writes a number.

Every step of reading takes blanks, digits, signs, points and exponent marks away, and nothing else
may be left, so there is no semicolon in the text.
-/

set_option autoImplicit false

namespace Reckon.Decimal

theorem mem_dropUnderscores {afterDigit : Bool} {cs rest : List Char} {c : Char}
    (dropped : dropUnderscores? afterDigit cs = some rest) (member : c ∈ cs) (other : c ≠ '_') :
    c ∈ rest := by
  fun_induction dropUnderscores? afterDigit cs generalizing rest with
  | case1 => cases member
  | case2 afterDigit d cs digits ih =>
    obtain ⟨kept, isKept, rfl⟩ := Option.map_eq_some_iff.mp dropped
    rcases List.mem_cons.mp (List.mem_of_ne_of_mem other member) with rfl | later
    · exact List.mem_cons_self
    · exact List.mem_cons_of_mem d (ih isKept later)
  | case3 => cases dropped
  | case4 => cases dropped
  | case5 afterDigit d cs _ _ ih =>
    obtain ⟨kept, isKept, rfl⟩ := Option.map_eq_some_iff.mp dropped
    rcases List.mem_cons.mp member with rfl | later
    · exact List.mem_cons_self
    · exact List.mem_cons_of_mem d (ih isKept later)

structure IsStray (c : Char) : Prop where
  noDigit : Text.isAsciiDigit c = false
  noPoint : c ≠ '.'
  noMark : c ≠ 'e' ∧ c ≠ 'E'
  noSign : c ≠ '+' ∧ c ≠ '-'

theorem exponent?_cons (mark : Char) (cs : List Char) :
    exponent? (mark :: cs) =
      if mark = 'e' ∨ mark = 'E' then
        match spanDigits (splitSign cs).2 with
        | ([], _) => none
        | (found, rest) =>
          let size : Int := digitsValue found
          some (if (splitSign cs).1 then -size else size, rest)
      else none :=
  rfl

section

variable {cs rest : List Char} {c : Char} (stray : IsStray c)

include stray

theorem mem_spanDigits (member : c ∈ cs) : c ∈ (spanDigits cs).2 :=
  Text.mem_dropWhile member stray.noDigit

theorem mem_fraction (member : c ∈ cs) : c ∈ (fraction cs).2 := by
  unfold fraction
  split
  · exact mem_spanDigits stray (List.mem_of_ne_of_mem stray.noPoint member)
  · exact member

theorem mem_splitSign (member : c ∈ cs) : c ∈ (splitSign cs).2 := by
  unfold splitSign
  split
  · exact List.mem_of_ne_of_mem stray.noSign.2 member
  · exact List.mem_of_ne_of_mem stray.noSign.1 member
  · exact member

theorem mem_exponent {power : Int} (found : exponent? cs = some (power, rest)) (member : c ∈ cs) :
    c ∈ rest := by
  cases cs with
  | nil => cases member
  | cons mark cs =>
    rw [exponent?_cons] at found
    split at found
    · next isMark =>
      have later : c ∈ cs := by
        refine List.mem_of_ne_of_mem ?_ member
        rintro rfl
        exact isMark.elim stray.noMark.1 stray.noMark.2
      have left := mem_spanDigits stray (mem_splitSign stray later)
      split at found
      · cases found
      · next same =>
        cases found
        rwa [same] at left
    · cases found

theorem mem_unsigned {negative : Bool} {value : Float}
    (found : unsigned? negative cs = some (value, rest)) (member : c ∈ cs) : c ∈ rest := by
  have left : c ∈ (fraction (spanDigits cs).2).2 := mem_fraction stray (mem_spanDigits stray member)
  unfold unsigned? at found
  dsimp only at found
  split at found
  · cases found
  · split at found
    · next power tail isPower =>
      cases found
      exact mem_exponent stray isPower left
    · cases found
      exact left

end

theorem isStray_semicolon : IsStray ';' :=
  ⟨by decide, by decide, by decide, by decide⟩

theorem semicolon_not_mem_of_real? {s : String} {x : Float} (reads : real? s = some x) :
    ';' ∉ s.toList := by
  intro member
  unfold real? at reads
  obtain ⟨cs, normal, reads⟩ := Option.bind_eq_some_iff.mp reads
  have kept : ';' ∈ asciiDigits (Text.dropAround Text.isPadding s.toList) :=
    List.mem_map.mpr ⟨';', Text.mem_dropAround member (by decide), by decide⟩
  have inside : ';' ∈ cs := mem_dropUnderscores normal kept (by decide)
  have inBody : ';' ∈ (splitSign cs).2 := mem_splitSign isStray_semicolon inside
  have inName : ';' ∈ (String.ofList ((splitSign cs).2.map Char.toLower)).toList := by
    rw [String.toList_ofList]
    exact List.mem_map.mpr ⟨';', inBody, by decide⟩
  have unnamed {name : String} (absent : ';' ∉ name.toList) :
      String.ofList ((splitSign cs).2.map Char.toLower) ≠ name := by
    rintro rfl
    exact absent inName
  dsimp only at reads
  rw [if_neg, if_neg] at reads
  · split at reads
    · next value isValue => exact List.not_mem_nil (mem_unsigned isStray_semicolon isValue inBody)
    · cases reads
  · exact unnamed (by decide)
  · exact fun named => named.elim (unnamed (by decide)) (unnamed (by decide))

end Reckon.Decimal
