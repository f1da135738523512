import Mathlib.Data.List.Induction
import Reckon.Proofs.Decimal.Digits
import Reckon.Proofs.Failing
import Reckon.Proofs.Text.Replace
import Reckon.Proofs.Text.Trim
import Reckon.Report.Basic

/-!
Reports as pieces: characters, and figures that are written when the report is shown.

A report holds its pieces with tags in the place of the figures. The tags are taken from the last
one to the first, so behind the tag in question there may be anything that no earlier tag occurs in.
-/

set_option autoImplicit false

namespace Reckon

open Text (Passes replaceChars)

/-! ## Tags -/

namespace Report

theorem toList_tag (index : Nat) :
    (tag index).toList = '[' :: '[' :: 'V' :: 'A' :: 'L' :: (Decimal.digits index ++ [']', ']']) := by
  rw [tag, String.toList_append, String.toList_append, Decimal.whole_natCast]
  simp

theorem bracket_not_mem_digits (n : Nat) :
    '[' ∉ Decimal.digits n ∧ ']' ∉ Decimal.digits n := by
  constructor <;> exact fun member => absurd (Decimal.isAsciiDigit_of_mem_digits member) (by decide)

/-- Where one tag begins another does not, even if the digits of the one begin those of the
other. -/
theorem after?_tag {m n : Nat} (other : m ≠ n) (rest : List Char) :
    Text.after? (tag m).toList ((tag n).toList ++ rest) = none := by
  cases found : Text.after? (tag m).toList ((tag n).toList ++ rest) with
  | none => rfl
  | some tail =>
    have same := Text.after?_eq_some found
    simp only [toList_tag, List.cons_append, List.append_assoc, List.cons.injEq, true_and,
      List.nil_append] at same
    -- the digits end at the first closing bracket on either side
    have cut := congrArg (Text.cut? ']') same
    rw [Text.cut?_append (bracket_not_mem_digits n).2,
      Text.cut?_append (bracket_not_mem_digits m).2] at cut
    exact absurd (Decimal.digits_injective (Prod.mk.inj (Option.some.inj cut)).1).symm other

theorem tag_passes {m n : Nat} (other : m ≠ n) : Passes (tag m).toList (tag n).toList := by
  have name : '[' ∉ 'V' :: 'A' :: 'L' :: (Decimal.digits n ++ [']', ']']) := by
    simp [bracket_not_mem_digits]
  intro replacement rest
  have first := after?_tag other rest
  rw [toList_tag m, toList_tag n] at *
  have second (cs : List Char) : Text.after? ('[' :: '[' :: cs)
      ('[' :: ('V' :: 'A' :: 'L' :: (Decimal.digits n ++ [']', ']']) ++ rest)) = none := by
    simp [Text.after?]
  rw [List.cons_append] at first ⊢
  rw [Text.replaceChars_skip first, List.cons_append, Text.replaceChars_skip (second _),
    Passes.of_not_mem name]
  rfl

theorem passes_of_not_mem {cs : List Char} (free : '[' ∉ cs) (index : Nat) :
    Passes (tag index).toList cs := by
  rw [toList_tag]
  exact Passes.of_not_mem free

theorem replace_tag (index : Nat) (written : String) (cs rest : List Char)
    (front : Passes (tag index).toList cs) (back : Passes (tag index).toList rest) :
    Text.replace (tag index) written (String.ofList (cs ++ ((tag index).toList ++ rest))) =
      String.ofList (cs ++ (written.toList ++ rest)) := by
  have found : replaceChars (tag index).toList written.toList ((tag index).toList ++ rest) =
      written.toList ++ replaceChars (tag index).toList written.toList rest := by
    rw [toList_tag]
    exact Text.replaceChars_found rest
  rw [Text.replace, String.toList_ofList, front, found, back.replaceChars_eq]

end Report

/-! ## Pieces -/

inductive Piece where
  | char (c : Char)
  | figure (f : Figure Float)

namespace Piece

def ofText (s : String) : List Piece := s.toList.map char

def figures (pieces : List Piece) : List (Figure Float) :=
  pieces.filterMap fun
    | char _ => none
    | figure f => some f

/-- The characters with tags in the place of the figures, numbered from an index on. -/
def tagged (index : Nat) : List Piece → List Char
  | [] => []
  | char c :: pieces => c :: tagged index pieces
  | figure _ :: pieces => (Report.tag index).toList ++ tagged (index + 1) pieces

/-- The characters with the figures written in their places. Of several figures that have no text
the last one is reported. -/
def shown (style : Style) : List Piece → Except Failure (List Char)
  | [] => .ok []
  | char c :: pieces => do
    let rest ← shown style pieces
    return c :: rest
  | figure f :: pieces => do
    let rest ← shown style pieces
    let written ← f.text style
    return written.toList ++ rest

def Free (pieces : List Piece) : Prop := char '[' ∉ pieces

variable {pieces others : List Piece}

@[simp] theorem figures_nil : figures [] = [] := rfl

@[simp] theorem figures_char (c : Char) : figures (char c :: pieces) = figures pieces := rfl

@[simp] theorem figures_figure (f : Figure Float) :
    figures (figure f :: pieces) = f :: figures pieces := rfl

@[simp] theorem figures_append :
    figures (pieces ++ others) = figures pieces ++ figures others :=
  List.filterMap_append

@[simp] theorem figures_map_char (cs : List Char) : figures (cs.map char) = [] := by
  induction cs with
  | nil => rfl
  | cons c cs ih => exact ih

@[simp] theorem free_nil : Free [] := List.not_mem_nil

@[simp] theorem free_char {c : Char} : Free (char c :: pieces) ↔ '[' ≠ c ∧ Free pieces := by
  simp [Free]

@[simp] theorem free_figure {f : Figure Float} : Free (figure f :: pieces) ↔ Free pieces := by
  simp [Free]

@[simp] theorem free_append : Free (pieces ++ others) ↔ Free pieces ∧ Free others := by
  simp [Free, not_or]

@[simp] theorem free_map_char {cs : List Char} : Free (cs.map char) ↔ '[' ∉ cs := by
  simp [Free]

@[simp] theorem tagged_map_char (index : Nat) (cs : List Char) :
    tagged index (cs.map char) = cs := by
  induction cs with
  | nil => rfl
  | cons c cs ih => exact congrArg (c :: ·) ih

theorem tagged_append (index : Nat) :
    tagged index (pieces ++ others) =
      tagged index pieces ++ tagged (index + (figures pieces).length) others := by
  induction pieces generalizing index with
  | nil => rfl
  | cons piece pieces ih =>
    cases piece with
    | char c => simp only [List.cons_append, tagged, ih, figures_char]
    | figure f =>
      simp only [List.cons_append, tagged, ih, figures_figure, List.length_cons,
        List.append_assoc, Nat.add_assoc, Nat.add_comm 1]

theorem shown_append (style : Style) :
    shown style (pieces ++ others) = do
      let back ← shown style others
      let front ← shown style pieces
      return front ++ back := by
  induction pieces with
  | nil => exact (bind_pure _).symm
  | cons piece pieces ih =>
    cases piece <;> simp only [List.cons_append, shown, ih, bind_assoc, pure_bind]
    simp only [List.append_assoc]

theorem shown_char_eq_ok {style : Style} {c : Char} {cs : List Char} :
    shown style (char c :: pieces) = .ok cs ↔
      ∃ rest, shown style pieces = .ok rest ∧ cs = c :: rest := by
  rw [shown, bind_eq_ok]
  simp [pure, Except.pure, eq_comm]

theorem shown_figure_eq_ok {style : Style} {f : Figure Float} {cs : List Char} :
    shown style (figure f :: pieces) = .ok cs ↔
      ∃ rest s, shown style pieces = .ok rest ∧ f.text style = .ok s ∧ cs = s.toList ++ rest := by
  simp only [shown, bind_eq_ok]
  simp [pure, Except.pure, eq_comm]

theorem exists_shown_iff {style : Style} :
    (∃ cs, shown style pieces = .ok cs) ↔ ∀ f ∈ figures pieces, ∃ s, f.text style = .ok s := by
  induction pieces with
  | nil => simp [shown]
  | cons piece pieces ih =>
    cases piece with
    | char c =>
      rw [figures_char, ← ih]
      simp [shown_char_eq_ok]
    | figure f =>
      rw [figures_figure, List.forall_mem_cons, ← ih]
      simp only [shown_figure_eq_ok]
      constructor
      · rintro ⟨cs, rest, s, isRest, isText, _⟩
        exact ⟨⟨s, isText⟩, rest, isRest⟩
      · rintro ⟨⟨s, isText⟩, rest, isRest⟩
        exact ⟨_, rest, s, isRest, isText, rfl⟩

theorem bracket_not_mem_shown {style : Style} (free : Free pieces)
    (written : ∀ f ∈ figures pieces, ∀ s, f.text style = .ok s → '[' ∉ s.toList)
    {cs : List Char} (isShown : shown style pieces = .ok cs) : '[' ∉ cs := by
  induction pieces generalizing cs with
  | nil =>
    cases isShown
    exact List.not_mem_nil
  | cons piece pieces ih =>
    cases piece with
    | char c =>
      obtain ⟨rest, isRest, rfl⟩ := shown_char_eq_ok.mp isShown
      obtain ⟨first, others⟩ := free_char.mp free
      exact List.not_mem_cons_of_ne_of_not_mem first (ih others written isRest)
    | figure f =>
      obtain ⟨rest, s, isRest, isText, rfl⟩ := shown_figure_eq_ok.mp isShown
      obtain ⟨first, others⟩ := List.forall_mem_cons.mp written
      rw [List.mem_append, not_or]
      exact ⟨first s isText, ih (free_figure.mp free) others isRest⟩

theorem tagged_passes (free : Free pieces) {index m : Nat}
    (beyond : m < index ∨ index + (figures pieces).length ≤ m) :
    Passes (Report.tag m).toList (tagged index pieces) := by
  induction pieces generalizing index with
  | nil => exact Passes.nil _
  | cons piece pieces ih =>
    cases piece with
    | char c =>
      rw [free_char] at free
      have other : '[' ∉ [c] := by simpa using free.1
      exact (Report.passes_of_not_mem other m).append (ih free.2 beyond)
    | figure f =>
      rw [free_figure] at free
      rw [figures_figure, List.length_cons] at beyond
      have other : m ≠ index := by omega
      exact (Report.tag_passes other).append (ih free (by omega))

theorem renumber_tagged (free : Free pieces) (offset : Nat) {done : List Char}
    (passes : ∀ i < (figures pieces).length, Passes (Report.tag i).toList done) :
    Report.renumber offset (figures pieces).length (String.ofList (tagged 0 pieces ++ done)) =
      String.ofList (tagged offset pieces ++ done) := by
  induction pieces using List.reverseRecOn generalizing done with
  | nil => rfl
  | append_singleton pieces piece ih =>
    obtain ⟨freeFront, freeLast⟩ := free_append.mp free
    cases piece with
    | char c =>
      have other : '[' ∉ [c] := by simpa using freeLast
      simp only [figures_append, figures_char, figures_nil, List.append_nil, tagged_append, tagged,
        List.append_assoc] at passes ⊢
      exact ih freeFront fun i small => (Report.passes_of_not_mem other i).append (passes i small)
    | figure f =>
      simp only [figures_append, figures_figure, figures_nil, List.length_append, tagged_append,
        List.length_singleton, tagged, List.append_nil, List.append_assoc, Nat.zero_add]
        at passes ⊢
      -- only the tag of the last figure is that of the greatest number
      have front : Passes (Report.tag (figures pieces).length).toList (tagged 0 pieces) :=
        tagged_passes freeFront (.inr (by omega))
      rw [Report.renumber, Report.replace_tag _ _ _ _ front (passes _ (by omega)),
        Nat.add_comm offset]
      refine ih freeFront fun i small => ?_
      exact (Report.tag_passes (by omega)).append (passes i (by omega))

theorem fill_tagged (free : Free pieces) (style : Style)
    (written : ∀ f ∈ figures pieces, ∀ s, f.text style = .ok s → '[' ∉ s.toList) {done : List Char}
    (passes : ∀ i < (figures pieces).length, Passes (Report.tag i).toList done) :
    Report.fill style (figures pieces).reverse (String.ofList (tagged 0 pieces ++ done)) =
      (shown style pieces).map fun cs => String.ofList (cs ++ done) := by
  induction pieces using List.reverseRecOn generalizing done with
  | nil => rfl
  | append_singleton pieces piece ih =>
    obtain ⟨freeFront, freeLast⟩ := free_append.mp free
    rw [shown_append]
    cases piece with
    | char c =>
      have other : '[' ∉ [c] := by simpa using freeLast
      simp only [figures_append, figures_char, figures_nil, List.append_nil, tagged_append, tagged,
        List.append_assoc] at written passes ⊢
      rw [ih freeFront written fun i small =>
        (Report.passes_of_not_mem other i).append (passes i small)]
      simp only [shown]
      cases shown style pieces <;> simp [Except.map, bind, Except.bind, pure, Except.pure]
    | figure f =>
      simp only [figures_append, figures_figure, figures_nil, List.length_append, tagged_append,
        List.length_singleton, tagged, List.append_nil, List.append_assoc, Nat.zero_add,
        List.mem_append, List.reverse_append, List.reverse_singleton, List.singleton_append]
        at written passes ⊢
      rw [Report.fill, List.length_reverse]
      cases isText : f.text style with
      | error failure => simp [shown, isText, Except.map, bind, Except.bind]
      | ok s =>
        have front : Passes (Report.tag (figures pieces).length).toList (tagged 0 pieces) :=
          tagged_passes freeFront (.inr (by omega))
        have noTag : '[' ∉ s.toList := written f (.inr (by simp)) s isText
        change Report.fill style _ (Text.replace _ _ _) = _
        rw [Report.replace_tag _ _ _ _ front (passes _ (by omega)),
          ih freeFront (fun g member => written g (.inl member)) fun i small =>
            (Report.passes_of_not_mem noTag i).append (passes i (by omega))]
        cases shown style pieces <;> simp [shown, isText, Except.map, bind, Except.bind, pure,
          Except.pure]

end Piece

end Reckon
