import Reckon.Proofs.Command.Assignments
import Reckon.Proofs.Decimal.Reading
import Reckon.Proofs.Text.Fields
import Reckon.Proofs.Value.Fields

/-!
Words of a command line that spell distributions.

Such a word holds the name of a variable and then, each after a semicolon, a piece for the kind and
one for every parameter, in any order and with blanks anywhere around the parts. It does what the
assignment of the distribution itself does.
-/

set_option autoImplicit false

namespace Reckon

open Entries

namespace Command

/-- A key and a value, with whatever stands around them next to the equals sign. -/
structure Piece where
  key : List Char
  value : List Char

namespace Piece

def chars (p : Piece) : List Char :=
  p.key ++ '=' :: p.value

/-- The field that is written, and the field without the blanks around its parts. -/
def rawField (p : Piece) : String × Value :=
  (String.ofList p.key, .text (String.ofList p.value))

def field (p : Piece) : String × Value :=
  (String.ofList (Text.trimChars p.key), .text (String.ofList (Text.trimChars p.value)))

end Piece

/-- The pieces give the kind of a distribution and the double for every parameter, in any order. -/
def Describe (pieces : List Piece) (d : Distribution) : Prop :=
  ∃ given, d.inDoubles.SetBy given ∧
    (pieces.map Piece.field).Perm (("type", .text d.kind.name) :: given)

/-- The word spells the name and the distribution of a variable, with blanks around the parts. -/
def Spells (word : String) (entry : String × Distribution) : Prop :=
  ∃ name pieces, word.toList = name ++ pieces.flatMap (fun piece => ';' :: piece.chars) ∧
    Text.trimChars name = entry.1.toList ∧ Describe pieces entry.2

/-! ## Separators -/

theorem spelling_unmarked (kind : Kind) :
    ∀ name ∈ Distribution.spellings kind, '=' ∉ name.toList ∧ ';' ∉ name.toList := by
  cases kind <;> decide

theorem kindName_unmarked (kind : Kind) : ';' ∉ kind.name.toList := by
  cases kind <;> decide

theorem unkept_of_spelling (kind : Kind) :
    ∀ name ∈ Distribution.spellings kind, name ∉ Model.keptNames := by
  cases kind <;> decide

/-- No separator is part of the key or the value of a piece. -/
structure Piece.Plain (p : Piece) : Prop where
  key : '=' ∉ p.key
  chars : ';' ∉ p.chars

theorem Piece.plain_of_trimmed {p : Piece} {name value : String}
    (same : p.field = (name, .text value)) (unmarked : '=' ∉ name.toList ∧ ';' ∉ name.toList)
    (unmarkedValue : ';' ∉ value.toList) : p.Plain := by
  obtain ⟨isName, isValue⟩ := Prod.mk.inj same
  obtain rfl := isName
  obtain rfl := Value.text.inj isValue
  rw [String.toList_ofList] at unmarked unmarkedValue
  have key : '=' ∉ p.key := Text.not_mem_of_not_mem_trimChars (by decide) unmarked.1
  refine ⟨key, ?_⟩
  rw [Piece.chars, List.mem_append, List.mem_cons, not_or, not_or]
  refine ⟨?_, by decide, ?_⟩
  · exact Text.not_mem_of_not_mem_trimChars (by decide) unmarked.2
  · exact Text.not_mem_of_not_mem_trimChars (by decide) unmarkedValue

section

variable {d : Distribution} {pieces : List Piece} {given : List (String × Value)}
  (set : d.SetBy given)
  (perm : (pieces.map Piece.field).Perm (("type", .text d.kind.name) :: given))

include set perm

theorem plain_of_describe : ∀ piece ∈ pieces, piece.Plain := by
  intro piece member
  have isField := perm.mem_iff.mp (List.mem_map_of_mem member)
  rcases List.mem_cons.mp isField with kind | parameter
  · exact piece.plain_of_trimmed kind (by decide) (kindName_unmarked d.kind)
  · -- a text with a semicolon in it would not be read as a number
    have spelled := Distribution.mem_spellings (set.mem_parameters parameter)
    obtain ⟨x, read⟩ := set.readable parameter
    refine piece.plain_of_trimmed rfl (spelling_unmarked d.kind _ spelled) ?_
    unfold Piece.field Value.toReal Value.realOf at read
    dsimp only at read
    split at read
    · next reads => exact Decimal.semicolon_not_mem_of_real? reads
    · cases read

theorem nodup_fields : ((pieces.map Piece.field).map Prod.fst).Nodup := by
  rw [(perm.map Prod.fst).nodup_iff, List.map_cons, List.nodup_cons]
  constructor
  · intro member
    obtain ⟨field, isGiven, same⟩ := List.mem_map.mp member
    exact (set.not_kept isGiven).1 same
  · have shortened := set.nodup
    rw [← Function.comp_def, ← List.map_map] at shortened
    exact shortened.of_map _

end

/-! ## Reading the pieces -/

theorem parameters_chars {pieces : List Piece} (plain : ∀ piece ∈ pieces, piece.Plain)
    (index : Nat) :
    parameters index (pieces.map Piece.chars) = .ok (ofFields (pieces.map Piece.rawField)) := by
  induction pieces generalizing index with
  | nil => rfl
  | cons piece pieces ih =>
    obtain ⟨plainFirst, plainRest⟩ := List.forall_mem_cons.mp plain
    rw [List.map_cons, parameters, parameter, Piece.chars, Text.cut?_append plainFirst.key]
    simp only [ih plainRest]
    rfl

theorem filter_chars (pieces : List Piece) :
    ((pieces.map Piece.chars).filter fun text => !(Text.trimChars text).isEmpty) =
      pieces.map Piece.chars := by
  refine List.filter_eq_self.mpr fun text member => ?_
  obtain ⟨piece, _, rfl⟩ := List.mem_map.mp member
  have sign : '=' ∈ piece.chars := List.mem_append_right _ List.mem_cons_self
  have kept : '=' ∈ Text.trimChars piece.chars := Text.mem_dropAround sign (by decide)
  simpa using List.ne_nil_of_mem kept

/-- The fields without the blanks around their parts, however a function puts it. -/
theorem map_rawFields {f : Value × Value → Value × Value}
    (trims : ∀ key value, f (key, value) = (trimmed key, trimmed value)) (pieces : List Piece) :
    (ofFields (pieces.map Piece.rawField)).map f = ofFields (pieces.map Piece.field) := by
  rw [ofFields, ofFields, List.map_map, List.map_map, List.map_map]
  refine List.map_congr_left fun piece _ => (trims _ _).trans ?_
  simp [Piece.field, trimmed, Value.toText, Text.trim]

theorem given_rawFields {pieces : List Piece}
    (distinct : ((pieces.map Piece.field).map Prod.fst).Nodup) :
    given (ofFields (pieces.map Piece.rawField)) = ofFields (pieces.map Piece.field) := by
  -- the record is made up twice, before the trimming and after it, and loses nothing either time
  have distinctRaw : ((pieces.map Piece.rawField).map Prod.fst).Nodup := by
    have trims : (pieces.map Piece.field).map Prod.fst =
        ((pieces.map Piece.rawField).map Prod.fst).map Text.trim := by
      simp [Piece.field, Piece.rawField, Text.trim]
    rw [trims] at distinct
    exact distinct.of_map _
  rw [given, ofPairs_ofFields distinctRaw, map_rawFields fun _ _ => rfl, ofPairs_ofFields distinct]

/-! ## What the pieces describe -/

section

variable {d : Distribution} {fields given : List (String × Value)} (set : d.SetBy given)
  (perm : fields.Perm (("type", .text d.kind.name) :: given))

include set perm

theorem filter_perm : (fields.filter fun field => field.1 != "type").Perm given := by
  have others : ∀ field ∈ given, (field.1 != "type") = true := by
    intro field member
    simpa using (set.not_kept member).1
  have filtered := perm.filter fun field => field.1 != "type"
  rwa [List.filter_cons_of_neg (by simp), List.filter_eq_self.mpr others] at filtered

theorem leads_assignNamed [Machine] (distinct : (fields.map Prod.fst).Nodup) {name : String}
    {m : Model}
    {current : Distribution} (found : m.bindings.find? name = some current) :
    (Model.assignNamed name (((ofFields fields).get? "type").getD .null)
      ((ofFields fields).without "type")).Leads m ()
      { m with bindings := m.bindings.set name d } := by
  have isKind : fields.lookup "type" = some (.text d.kind.name) :=
    lookup_of_mem distinct (perm.mem_iff.mpr List.mem_cons_self)
  have others := filter_perm set perm
  have made := Distribution.result_make set others
  rw [get?_ofFields, isKind, without_ofFields, Option.getD_some]
  generalize fields.filter (fun field => field.1 != "type") = rest at others made
  -- all that is left names parameters, and no parameter has a kept name
  have free : ∀ kept ∈ Model.keptNames, (ofFields rest).get? kept = none := by
    intro kept isKept
    rw [get?_ofFields, lookup_eq_none_iff]
    intro present
    obtain ⟨field, isField, rfl⟩ := List.mem_map.mp present
    have member := others.mem_iff.mp isField
    exact unkept_of_spelling d.kind _ (Distribution.mem_spellings (set.mem_parameters member))
      isKept
  rw [Model.assignNamed_of_free free]
  change (Model.assign name (.kind d.kind.name (ofFields rest))).Leads m () _
  exact Model.leads_assign found made

end

/-! ## What a word does -/

/-- A word assigns the distribution that it spells, with doubles for parameters. -/
theorem leads_assignWord [Machine] {word name : String} {d : Distribution}
    (spells : Spells word (name, d)) (unmarked : ';' ∉ name.toList) {m : Model}
    {current : Distribution} (found : m.bindings.find? name = some current) :
    (assignWord word).Leads m () { m with bindings := m.bindings.set name d.inDoubles } := by
  obtain ⟨written, pieces, letters, isName, given, set, perm⟩ := spells
  rw [← d.kind_inDoubles] at perm
  have plain := plain_of_describe set perm
  have distinct := nodup_fields set perm
  -- no part has a semicolon in it, so the parts are found again between them
  have parts : Text.fields ';' word.toList = written :: pieces.map Piece.chars := by
    have joined : pieces.flatMap (fun piece => ';' :: piece.chars) =
        (pieces.map Piece.chars).flatMap (';' :: ·) := (List.flatMap_map _ _ _).symm
    rw [letters, joined]
    refine Text.fields_flatMap (List.forall_mem_cons.mpr ⟨?_, fun text member => ?_⟩)
    · rw [← isName] at unmarked
      exact Text.not_mem_of_not_mem_trimChars (by decide) unmarked
    · obtain ⟨piece, isPiece, rfl⟩ := List.mem_map.mp member
      exact (plain piece isPiece).chars
  obtain ⟨events, assigned⟩ := leads_assignNamed set perm distinct found
  refine ⟨events, ?_⟩
  rw [assignWord_eq, parts]
  dsimp only
  rw [filter_chars, parameters_chars plain]
  dsimp only
  rw [given_rawFields distinct, isName, String.ofList_toList, assigned]

theorem leads_forM_assignWord [Machine] {words : List String} {chosen : Bindings}
    (spell : List.Forall₂ Spells words chosen) (unmarked : ∀ name ∈ chosen.names, ';' ∉ name.toList)
    {m : Model} (bound : ∀ name ∈ chosen.names, name ∈ m.bindings.names) :
    (words.forM assignWord).Leads m ()
      { m with bindings := m.bindings.setAll chosen.inDoubles } := by
  refine Model.leads_setAll ?_ (by rwa [Bindings.names_inDoubles])
  have unmarkedEntry : ∀ entry ∈ chosen, ';' ∉ entry.1.toList := fun entry member =>
    unmarked entry.1 (List.mem_map_of_mem member)
  have both := (List.forall₂_and_left chosen words).mpr ⟨unmarkedEntry, spell.flip⟩
  refine List.forall₂_map_right_iff.mpr (List.Forall₂.flip
    (both.imp fun entry word spells m isBound => ?_))
  obtain ⟨current, found⟩ := Bindings.exists_find? isBound
  exact leads_assignWord spells.2 spells.1 found

end Command

end Reckon
