import Mathlib.Data.List.Forall2
import Reckon.Document.Reader
import Reckon.Project.Basic
import Reckon.Proofs.Project.Estimate

/-!
Projects saved to a document and loaded from it.

The document of a project is that of each item in turn, each a list of one record, and is read as
one list. What writes and reads is a parameter here. A project without items has an empty document,
and that describes no project.
-/

set_option autoImplicit false

namespace Reckon

open Entries

namespace Estimate

/-! ## Estimates with any description -/

/-- The fields of the record of an estimate whose description counts as true. -/
def describedFields (u : Estimate) : List (String × Value) :=
  [("mode", .text "estimate"), ("name", u.name), ("function", .text u.model.name),
    ("formula", .text u.model.formula), ("samples", u.samples)] ++ u.seedField
    ++ [("description", u.description)]
    ++ [("inputs", .list (u.model.bindings.config.map .record))]

/-- The estimate that a record tells: a description that counts as false is not part of it. -/
def told (u : Estimate) : Estimate :=
  { u with
    description := match u.description.truth with
      | .ok true => u.description
      | _ => .text ""
    result := none }

/-- The estimate that is read back, in which every parameter is a double. -/
def reloaded (u : Estimate) : Estimate :=
  { u.told with model := u.model.inDoubles }

section

variable {u : Estimate} {record : Entries}

theorem config_cases (described : u.config = .ok record) :
    (u.description.truth = .ok false ∧ record = ofFields (u.fields "")) ∨
    (u.description.truth = .ok true ∧ record = ofFields u.describedFields) := by
  unfold config at described
  cases truth : u.description.truth with
  | error failure =>
    rw [truth] at described
    cases described
  | ok isDescribed =>
    rw [truth] at described
    cases described
    cases isDescribed with
    | false => exact .inl ⟨rfl, rfl⟩
    | true => exact .inr ⟨rfl, rfl⟩

theorem tells_describedFields (u : Estimate) : Tells (ofFields u.describedFields) u := by
  have seed : (u.describedFields.lookup "seed").getD .null = u.seed := by
    rcases u.seedField_cases with ⟨null, absent⟩ | present
    · simp [describedFields, List.lookup_cons, absent, null]
    · simp [describedFields, List.lookup_cons, present]
  constructor <;> rw [get?_ofFields]
  case seed => exact seed
  all_goals simp [describedFields, List.lookup_append, List.lookup_cons, lookup_seedField]

theorem tells_told (described : u.config = .ok record) : Tells record u.told := by
  -- a description that counts as false comes back as the empty text
  rcases config_cases described with ⟨truth, rfl⟩ | ⟨truth, rfl⟩
  · have left : u.told.description = .text "" := by rw [told, truth]
    exact tells_fields left
  · have kept : u.told = { u with result := none } := by rw [told, truth]
    rw [kept]
    exact tells_describedFields { u with result := none }

theorem config_reloaded (described : u.config = .ok record) :
    u.reloaded.config = .ok record := by
  have same : u.reloaded.config = u.told.config := config_inDoubles u.told
  rw [same]
  rcases config_cases described with ⟨truth, rfl⟩ | ⟨truth, rfl⟩
  · have left : u.told.description = .text "" := by rw [told, truth]
    exact config_eq left
  · have kept : u.told = { u with result := none } := by rw [told, truth]
    rw [kept]
    exact described

theorem get?_mode (described : u.config = .ok record) :
    record.get? "mode" = some (.text "estimate") := by
  rcases config_cases described with ⟨_, rfl⟩ | ⟨_, rfl⟩ <;> rw [get?_ofFields] <;> rfl

theorem ofConfig_described [Machine] {n : Int} (reachable : u.model.Reachable)
    (samples : u.samples = .int n) (described : u.config = .ok record) :
    (ofConfig (.record record)).result = .ok u.reloaded := by
  obtain ⟨e, made⟩ := result_initial
  have leads := load_leads_of_tells (u := u.told) reachable.coherent samples (tells_told described) e
  have loaded := leads.result_from?
  rw [ofConfig, Outcome.result_bind, made]
  exact loaded

end

end Estimate

namespace Project

/-! ## Documents -/

/-- The document of the items when `write` writes the document of a list. -/
def documentBy (write : List Value → String) (p : Project) : Except Failure String := do
  return String.join (← p.mapM fun item => do return write [.record (← item.config)])

theorem document_eq (p : Project) : p.document = documentBy Document.ofList p := rfl

/-- Reading gives back the records that were written, also when they were written one by one and
joined; a text without anything in it is read as null. -/
structure Faithful (write : List Value → String) (read : String → Except Failure (Option Value))
    (records : List Value) : Prop where
  back : read (write records) = .ok (some (.list records))
  joined : records ≠ [] →
    read (String.join (records.map fun record => write [record])) = read (write records)
  nothing : read "" = .ok (some .null)

section

variable {estimates : List Estimate} {records : List Entries}

/-- The records are those that describe the estimates, in order. -/
abbrev Describe (estimates : List Estimate) (records : List Entries) : Prop :=
  List.Forall₂ (fun u record => u.config = .ok record) estimates records

theorem documentBy_estimates (write : List Value → String)
    (described : Describe estimates records) :
    documentBy write (estimates.map .estimate) =
      .ok (String.join ((records.map Value.record).map fun record => write [record])) := by
  have written : (estimates.map Item.estimate).mapM
      (fun item => do return write [.record (← item.config)]) =
      Except.ok (ε := Failure) ((records.map Value.record).map fun record => write [record]) := by
    induction described with
    | nil => rfl
    | cons first _ ih =>
      rw [List.map_cons, List.mapM_cons, ih, Item.config, first]
      rfl
  rw [documentBy, written]
  rfl

theorem ofRecords_described [Machine] (reachable : ∀ u ∈ estimates, u.model.Reachable)
    (counted : ∀ u ∈ estimates, ∃ n, u.samples = .int n) (described : Describe estimates records) :
    (ofRecords (records.map .record)).result =
      .ok (some (estimates.map fun u => .estimate u.reloaded)) := by
  induction described with
  | nil => rfl
  | @cons u record estimates records first _ ih =>
    obtain ⟨reachableFirst, reachableRest⟩ := List.forall_mem_cons.mp reachable
    obtain ⟨⟨n, samples⟩, countedRest⟩ := List.forall_mem_cons.mp counted
    have item : itemOf (.record record) = some (do
        let e ← Estimate.ofConfig (.record record)
        return .estimate e) := by
      simp [itemOf, Value.bare, Estimate.get?_mode first]
    have loaded := Estimate.ofConfig_described reachableFirst samples first
    rw [List.map_cons, ofRecords, item]
    simp only [Outcome.result_bind, loaded, ih reachableRest countedRest]
    rfl

/-- A project of estimates is loaded from what it was saved as, item by item with the same records;
without any item it is not loaded at all. -/
theorem ofDocument_documentBy [Machine] {write : List Value → String}
    {read : String → Except Failure (Option Value)}
    (reachable : ∀ u ∈ estimates, u.model.Reachable)
    (counted : ∀ u ∈ estimates, ∃ n, u.samples = .int n) (described : Describe estimates records)
    (faithful : Faithful write read (records.map .record)) :
    document (estimates.map .estimate) = documentBy Document.ofList (estimates.map .estimate) ∧
    ∃ text document, documentBy write (estimates.map .estimate) = .ok text ∧
      read text = .ok document ∧
      (estimates = [] → (ofDocument document).result = .ok none) ∧
      (estimates ≠ [] → ∃ loaded : Project, (ofDocument document).result = .ok (some loaded) ∧
        loaded.length = estimates.length ∧
        List.Forall₂ (fun item record => item.config = .ok record) loaded records) := by
  refine ⟨document_eq _, ?_⟩
  have written := documentBy_estimates write described
  by_cases empty : estimates = []
  · -- no item writes the empty text, which is read as null
    subst empty
    cases described
    exact ⟨_, _, written, faithful.nothing, fun _ => rfl, fun some => absurd rfl some⟩
  · have someRecords : records.map Value.record ≠ [] := by
      intro none
      rw [List.map_eq_nil_iff.mp none] at described
      exact empty (List.forall₂_nil_right_iff.mp described)
    have joined := (faithful.joined someRecords).trans faithful.back
    have loaded : (ofDocument (some (.list (records.map .record)))).result =
        .ok (some (estimates.map fun u => .estimate u.reloaded)) := by
      simp only [ofDocument, Option.map_some, Value.bare]
      exact ofRecords_described reachable counted described
    refine ⟨_, _, written, joined, fun none => absurd none empty, fun _ => ?_⟩
    refine ⟨_, loaded, List.length_map _, ?_⟩
    rw [List.forall₂_map_left_iff]
    exact described.imp fun u record first => Estimate.config_reloaded first

end

/-! ### Two estimates -/

section

attribute [local instance] Machine.standard

/-- The posts of a fence, with a description that is no text. -/
def posts : Estimate :=
  { model := .field, name := .text "posts", samples := .int 20, seed := .null
    description := .list [.text "one a metre", .int 2], result := none }

def fencing : List Estimate := [.fence, posts]

def fencingRecords : List Entries :=
  [ofFields (Estimate.fence.fields ""), ofFields posts.describedFields]

def fenceText : String :=
  "- mode: estimate\n  name: fence\n  function: area of field\n  formula: height* width\n"
    ++ "  samples: -50\n  seed: 7\n  inputs:\n  - name: height\n    type: poisson\n    lambda: 3.0\n"
    ++ "  - name: width\n    type: lognormal\n    low: 1.0\n    high: 2.0\n"

def postsText : String :=
  "- mode: estimate\n  name: posts\n  function: area of field\n  formula: height* width\n"
    ++ "  samples: 20\n  description:\n  - one a metre\n  - 2\n  inputs:\n  - name: height\n"
    ++ "    type: poisson\n    lambda: 3.0\n  - name: width\n    type: lognormal\n    low: 1.0\n"
    ++ "    high: 2.0\n"

/-- What is written for the two records and for each of them; only the first has a seed. -/
def writeFencing : List Value → String
  | [.record entries] => if (Entries.get? entries "seed").isSome then fenceText else postsText
  | [_, _] => fenceText ++ postsText
  | _ => "[]\n"

def readFencing (text : String) : Except Failure (Option Value) :=
  if text = fenceText ++ postsText then .ok (some (.list (fencingRecords.map .record)))
  else if text = "" then .ok (some .null)
  else .ok none

theorem faithful_fencing : Faithful writeFencing readFencing (fencingRecords.map .record) where
  back := if_pos rfl
  joined _ := by
    have texts : ((fencingRecords.map Value.record).map fun record => writeFencing [record]) =
        [fenceText, postsText] := by
      have seeded : Entries.get? (ofFields (Estimate.fence.fields "")) "seed" = some (.int 7) := by
        rw [get?_ofFields]
        rfl
      have unseeded : Entries.get? (ofFields posts.describedFields) "seed" = none := by
        rw [get?_ofFields]
        rfl
      simp [fencingRecords, writeFencing, seeded, unseeded]
    rw [texts]
    simp [String.join, writeFencing, fencingRecords]
  nothing := by
    have some : "" ≠ fenceText ++ postsText := by decide
    rw [readFencing, if_neg some, if_pos rfl]

theorem ofDocument_documentBy_fencing :
    (∀ u ∈ fencing, u.model.Reachable) ∧ (∀ u ∈ fencing, ∃ n, u.samples = .int n) ∧
    Describe fencing fencingRecords ∧
    Faithful writeFencing readFencing (fencingRecords.map .record) ∧
    document (fencing.map .estimate) = documentBy Document.ofList (fencing.map .estimate) ∧
    ∃ text document, documentBy writeFencing (fencing.map .estimate) = .ok text ∧
      readFencing text = .ok document ∧
      (fencing = [] → (ofDocument document).result = .ok none) ∧
      (fencing ≠ [] → ∃ loaded : Project, (ofDocument document).result = .ok (some loaded) ∧
        loaded.length = fencing.length ∧
        List.Forall₂ (fun item record => item.config = .ok record) loaded fencingRecords) := by
  have reachable : ∀ u ∈ fencing, u.model.Reachable :=
    List.forall_mem_cons.mpr ⟨Model.reachable_field,
      List.forall_mem_singleton.mpr Model.reachable_field⟩
  have counted : ∀ u ∈ fencing, ∃ n, u.samples = .int n :=
    List.forall_mem_cons.mpr ⟨⟨-50, rfl⟩, List.forall_mem_singleton.mpr ⟨20, rfl⟩⟩
  have described : Describe fencing fencingRecords := .cons rfl (.cons rfl .nil)
  exact ⟨reachable, counted, described, faithful_fencing,
    ofDocument_documentBy reachable counted described faithful_fencing⟩

/-- A project without items is saved as a text that describes no project. -/
theorem ofDocument_document_nil :
    ∃ text document, Project.document [] = .ok text ∧ Document.read text = .ok document ∧
      (ofDocument document).result = .ok none :=
  ⟨"", some .null, rfl, rfl, rfl⟩

end

end Project

end Reckon
