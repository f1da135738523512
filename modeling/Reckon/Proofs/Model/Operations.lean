import Reckon.Proofs.Distribution.Record
import Reckon.Proofs.Model.Bindings

/-!
Bindings under operations, written down and read back.

Whatever has been done to bindings, every name is bound once, so that the records of all names, set
one after the other, are the bindings again, with every parameter a double.
-/

set_option autoImplicit false

namespace Reckon.Bindings

inductive Operation where
  | set (name : String) (d : Distribution)
  /-- Sets a name to what a value describes. -/
  | assign (name : String) (value : Value)
  | erase (name : String)
  | refresh (names : List String)
  /-- Reads bindings that take the place of those before. -/
  | load (config : Value)

def Operation.outcome [Machine] (b : Bindings) : Operation → Outcome Bindings
  | set name d => pure (b.set name d)
  | assign name value => b.assign name value
  | erase name => .ofExcept (b.erase name)
  | refresh names => pure (b.refreshed names)
  | load config => ofConfig config

/-- The bindings after an operation; one that fails leaves them as they were. -/
def after [Machine] (b : Bindings) (operation : Operation) : Bindings :=
  match (operation.outcome b).result with
  | .ok next => next
  | .error _ => b

def run [Machine] (b : Bindings) (operations : List Operation) : Bindings :=
  operations.foldl after b

/-! ## Names are bound once -/

variable {b : Bindings}

theorem nodup_nil : (names []).Nodup :=
  List.nodup_nil

theorem nodup_set (distinct : b.names.Nodup) (name : String) (d : Distribution) :
    (set name d b).names.Nodup := by
  by_cases bound : name ∈ b.names
  · rwa [names_set_of_mem bound]
  · rw [set_of_notMem bound, names_append, List.nodup_append_comm]
    exact List.nodup_cons.mpr ⟨bound, distinct⟩

theorem nodup_foldl_set (distinct : b.names.Nodup) (f : String → Distribution)
    (names : List String) :
    (names.foldl (fun new name => set name (f name) new) b).names.Nodup := by
  induction names generalizing b with
  | nil => exact distinct
  | cons name names ih => exact ih (nodup_set distinct name (f name))

theorem nodup_remove (distinct : b.names.Nodup) (name : String) : (b.remove name).names.Nodup :=
  distinct.sublist (List.filter_sublist.map Prod.fst)

theorem nodup_load [Machine] {item : Value} {next : Bindings} (distinct : b.names.Nodup)
    (loaded : (load b item).result = .ok next) : next.names.Nodup := by
  rw [load, Outcome.result_bind, Outcome.result_lift] at loaded
  obtain ⟨record, _, loaded⟩ := bind_eq_ok.mp loaded
  split at loaded
  · cases loaded
  · rw [Outcome.result_bind] at loaded
    obtain ⟨d, _, loaded⟩ := bind_eq_ok.mp loaded
    split at loaded
    · cases loaded
    · cases loaded
      exact nodup_set distinct _ d

theorem nodup_foldlM_load [Machine] {items : List Value} {next : Bindings}
    (distinct : b.names.Nodup)
    (loaded : (items.foldlM load b).result = .ok next) : next.names.Nodup := by
  induction items generalizing b with
  | nil =>
    cases loaded
    exact distinct
  | cons item items ih =>
    rw [List.foldlM_cons, Outcome.result_bind] at loaded
    obtain ⟨further, first, loaded⟩ := bind_eq_ok.mp loaded
    exact ih (nodup_load distinct first) loaded

theorem nodup_ofConfig [Machine] {config : Value} {next : Bindings}
    (loaded : (ofConfig config).result = .ok next) : next.names.Nodup := by
  rw [ofConfig, Outcome.result_bind, Outcome.result_lift] at loaded
  obtain ⟨items, _, loaded⟩ := bind_eq_ok.mp loaded
  exact nodup_foldlM_load nodup_nil loaded

theorem Operation.nodup [Machine] {operation : Operation} {next : Bindings}
    (distinct : b.names.Nodup)
    (done : (operation.outcome b).result = .ok next) : next.names.Nodup := by
  cases operation with
  | set name d =>
    cases done
    exact nodup_set distinct name d
  | assign name value =>
    rw [outcome, Bindings.assign, Outcome.result_bind] at done
    obtain ⟨d, _, done⟩ := bind_eq_ok.mp done
    cases done
    exact nodup_set distinct name d
  | erase name =>
    obtain ⟨_, _, done⟩ := bind_eq_ok.mp done
    cases done
    exact nodup_remove distinct name
  | refresh names =>
    cases done
    exact nodup_foldl_set nodup_nil b.kept names
  | load config => exact nodup_ofConfig done

theorem nodup_after [Machine] (distinct : b.names.Nodup) (operation : Operation) :
    (b.after operation).names.Nodup := by
  rw [after]
  split
  · next done => exact operation.nodup distinct done
  · exact distinct

theorem nodup_run [Machine] (distinct : b.names.Nodup) (operations : List Operation) :
    (b.run operations).names.Nodup := by
  induction operations generalizing b with
  | nil => exact distinct
  | cons operation operations ih => exact ih (nodup_after distinct operation)

/-! ## Writing and reading -/

/-- The bindings with the double that each parameter stands for. -/
def inDoubles (b : Bindings) : Bindings :=
  b.map fun (name, d) => (name, d.inDoubles)

@[simp] theorem names_inDoubles (b : Bindings) : b.inDoubles.names = b.names := by
  simp [inDoubles, names, Function.comp_def]

@[simp] theorem inDoubles_inDoubles (b : Bindings) : b.inDoubles.inDoubles = b.inDoubles := by
  simp [inDoubles, Function.comp_def]

theorem config_inDoubles (b : Bindings) : b.inDoubles.config = b.config := by
  simp [inDoubles, config, Function.comp_def, Distribution.config_inDoubles]

theorem result_load [Machine] (b : Bindings) (name : String) (d : Distribution) :
    (load b (.record ((.text "name", .text name) :: d.config))).result =
      .ok (b.set name d.inDoubles) := by
  have named : Entries.get? ((.text "name", .text name) :: d.config) "name" =
      some (.text name) := by
    simp [Entries.get?, Entries.find?]
  have isName : (Value.text name).isName = true := by simp [Value.isName, Value.bare]
  rw [load, Outcome.result_bind, Outcome.result_lift]
  simp only [Value.toRecord, Value.bare, Except.bind, named, Distribution.without_name,
    Outcome.result_bind, Distribution.ofRecord_config, isName]
  rfl

theorem result_foldlM_load [Machine] {front back : Bindings}
    (distinct : (front ++ back).names.Nodup) :
    ((back.config.map Value.record).foldlM load front).result =
      .ok (front ++ back.inDoubles) := by
  -- the front holds what has been read already
  induction back generalizing front with
  | nil =>
    rw [inDoubles, List.map_nil, List.append_nil]
    rfl
  | cons entry back ih =>
    obtain ⟨name, d⟩ := entry
    have missing : name ∉ front.names := by
      intro bound
      rw [names_append, List.nodup_append] at distinct
      exact distinct.2.2 name bound name List.mem_cons_self rfl
    have distinctRest : (front ++ [(name, d.inDoubles)] ++ back).names.Nodup := by
      simpa using distinct
    have rest := ih distinctRest
    have both : config ((name, d) :: back) =
        ((.text "name", .text name) :: d.config) :: config back := rfl
    rw [both, List.map_cons, List.foldlM_cons, Outcome.result_bind, result_load,
      set_of_notMem missing]
    rw [List.append_assoc] at rest
    exact rest

theorem result_ofConfig [Machine] (distinct : b.names.Nodup) :
    (ofConfig (.list (b.config.map .record))).result = .ok b.inDoubles := by
  have start : (names ([] ++ b)).Nodup := distinct
  exact result_foldlM_load start

/-- What can be read is written with every parameter and read back with the same parameters, each as
a double, whether it is a distribution or the bindings that any operations have led to. -/
theorem config_spec [Machine] :
    (∀ described d, (Distribution.ofConfig described).result = .ok d →
      (∃ record fields, described.toRecord = .ok record ∧
        (record.get? "type").getD (.text "uniform") = .text d.kind.name ∧
        record.without "type" = Entries.ofFields fields ∧
        d.config.map Prod.fst = .text "type" :: d.kind.parameters.map .text ∧
        d.config.get? "type" = some (.text d.kind.name) ∧
        ∀ parameter ∈ d.kind.parameters, ∃ x,
          d.config.get? parameter = some (.real x.toFloat) ∧
          (Distribution.ofKind d.kind).valueWith fields parameter = some x) ∧
      (Distribution.ofConfig (.record d.config)).result = .ok d.inDoubles ∧
      ∀ again, (Distribution.ofConfig (.record d.config)).result = .ok again →
        again.config = d.config) ∧
    ∀ names operations,
      (ofConfig (.list (((ofNames names).run operations).config.map .record))).result =
        .ok ((ofNames names).run operations).inDoubles := by
  refine ⟨fun described d made => ?_, fun names operations => ?_⟩
  · obtain ⟨record, fields, isRecord, isKind, areFields, describes⟩ :=
      Distribution.exists_fields made
    refine ⟨⟨record, fields, isRecord, isKind, areFields, d.keys_config, d.get?_type,
      fun parameter has => ?_⟩, d.ofConfig_record_config, fun again read => ?_⟩
    · obtain ⟨x, isValue⟩ := Distribution.exists_value? has
      refine ⟨x, ?_, ?_⟩
      · rw [Distribution.get?_config has, isValue]
        rfl
      · rw [← describes.values parameter has, isValue]
    · rw [d.ofConfig_record_config] at read
      rw [← Except.ok.inj read, d.config_inDoubles]
  · exact result_ofConfig (nodup_run (nodup_foldl_set nodup_nil _ names) operations)

def rate : Value :=
  .record (Entries.ofFields [("lam", .real 2.5), ("type", .text "poisson")])

def comings : List Operation :=
  [.assign "y" rate, .erase "x", .refresh ["z", "y", "z"], .set "x" (.gaussian 1 2), .erase "w",
    .assign "z" .null]

section

attribute [local instance] Machine.standard

theorem ofConfig_rate : (Distribution.ofConfig rate).result = .ok (.poisson 2.5) := by
  have describes : Distribution.Describes [("lam", .real 2.5)] (.poisson 2.5) := by
    refine ⟨?_, ?_⟩
    · simp [Distribution.kind, Kind.parameters, Distribution.listedName]
    · simp [Distribution.kind, Kind.parameters, Distribution.valueWith, Distribution.given?]
      rfl
  refine Distribution.ofRecord_eq_ok_iff.mpr ⟨?_, _, ?_, describes⟩
  · rw [Entries.get?_ofFields]
    rfl
  · rw [Entries.without_ofFields]
    rfl

theorem config_spec_rate :
    (Distribution.ofConfig rate).result = .ok (.poisson 2.5) ∧
    ((∃ record fields, rate.toRecord = .ok record ∧
        (record.get? "type").getD (.text "uniform") = .text "poisson" ∧
        record.without "type" = Entries.ofFields fields ∧
        (Distribution.poisson 2.5).config.map Prod.fst = [.text "type", .text "lambda"] ∧
        (Distribution.poisson 2.5).config.get? "type" = some (.text "poisson") ∧
        ∀ parameter ∈ ["lambda"],
          ∃ x, (Distribution.poisson 2.5).config.get? parameter = some (.real x.toFloat) ∧
            (Distribution.ofKind .poisson).valueWith fields parameter = some x) ∧
      (Distribution.ofConfig (.record (Distribution.poisson 2.5).config)).result =
        .ok (.poisson 2.5) ∧
      ∀ again, (Distribution.ofConfig (.record (Distribution.poisson 2.5).config)).result =
        .ok again → again.config = (Distribution.poisson 2.5).config) ∧
    (ofConfig (.list (((ofNames ["x", "y"]).run comings).config.map .record))).result =
      .ok ((ofNames ["x", "y"]).run comings).inDoubles :=
  ⟨ofConfig_rate, config_spec.1 rate (.poisson 2.5) ofConfig_rate,
    config_spec.2 ["x", "y"] comings⟩

end

end Reckon.Bindings
