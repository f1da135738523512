import Reckon.Distribution.Reading

/-!
Bindings: the distribution of each variable, in the order of the variables.

Every name is bound once. Setting a name that is bound keeps its place.
-/

set_option autoImplicit false

namespace Reckon

abbrev Bindings := List (String × Distribution)

namespace Bindings

def names (b : Bindings) : List String :=
  b.map Prod.fst

def find? (b : Bindings) (name : String) : Option Distribution :=
  b.lookup name

def get (b : Bindings) (name : String) : Except Failure Distribution :=
  match b.find? name with
  | some d => .ok d
  | none => .error (.absent (.binding name))

def set (name : String) (d : Distribution) : Bindings → Bindings
  | [] => [(name, d)]
  | (name', d') :: rest =>
    if name' = name then (name', d) :: rest else (name', d') :: set name d rest

def remove (name : String) (b : Bindings) : Bindings :=
  b.filter fun (name', _) => name' != name

def erase (b : Bindings) (name : String) : Except Failure Bindings := do
  let _ ← b.get name
  return b.remove name

/-- Each name once, at the start of all that follow it, with the usual distribution. -/
def ofNames (names : List String) : Bindings :=
  names.foldl (fun b name => set name .initial b) []

def kept (b : Bindings) (name : String) : Distribution :=
  (b.find? name).getD .initial

/-- The bindings of a new list of names: a name that was bound keeps its distribution. -/
def refreshed (names : List String) (b : Bindings) : Bindings :=
  names.foldl (fun new name => set name (b.kept name) new) []

def added (names : List String) (b : Bindings) : List String :=
  names.filter fun name => !b.names.contains name

def removed (names : List String) (b : Bindings) : List String :=
  b.names.filter fun name => !names.contains name

def asDistribution [Machine] (value : Value) : Outcome Distribution :=
  match value with
  | .record entries => Distribution.ofRecord entries
  | _ => .fail (value.naming (.unfit (.notDistribution value)))

def assign [Machine] (b : Bindings) (name : String) (value : Value) : Outcome Bindings := do
  let d ← asDistribution value
  return b.set name d

def config (b : Bindings) : List Entries :=
  b.map fun (name, d) => (.text "name", .text name) :: d.config

/-- Binds the name that a record gives to the distribution that the rest of it describes. -/
def load [Machine] (b : Bindings) (item : Value) : Outcome Bindings := do
  let record ← item.toRecord
  match record.get? "name" with
  | none => throw (.absent (.entry "name"))
  | some name =>
    let d ← Distribution.ofRecord (record.without "name")
    if !name.isName then throw (.unfit .kind)
    return b.set name.toText d

def ofConfig [Machine] (config : Value) : Outcome Bindings := do
  let items ← config.items
  items.foldlM load []

def describe (b : Bindings) : String :=
  "<VariableBindings "
    ++ Text.join ", " (b.map fun (name, d) => name ++ ": " ++ d.describe) ++ ">"

end Bindings

end Reckon
