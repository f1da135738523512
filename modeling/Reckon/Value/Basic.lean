import Reckon.Decimal.Shortest
import Reckon.Text.Quoted
import Reckon.Text.Lines
import Reckon.Value.Moment

/-!
Values of setup documents: scalars, lists and records nested in any way.

Two texts belong to every value. `shown` is the value as a message names it, with texts in quotes;
`toText` is the value as it reads inside a sentence, where a text stands for itself.

A document may use one value in several places. Such a value carries a label, the same one in every
place; what it holds does not depend on the label.
-/

set_option autoImplicit false

namespace Reckon

/-- A value that a setup document or a caller may hand in. -/
inductive Value where
  | null
  | bool (value : Bool)
  | int (value : Int)
  | real (value : Float)
  | text (value : String)
  | bytes (content : List UInt8)
  | date (year month day : Nat)
  | moment (moment : Moment)
  | list (items : List Value)
  | tuple (items : List Value)
  /-- A block of numbers; it counts as true only if it is a single number that does. -/
  | array (items : List Value)
  | set (items : List Value)
  | record (entries : List (Value × Value))
  | shared (label : Nat) (value : Value)
  deriving Inhabited

namespace Value

def bare : Value → Value
  | shared _ value => value.bare
  | value => value

def ellipsis : Value → String
  | record _ => "\x7b...\x7d"
  | tuple _ => "(...)"
  | _ => "[...]"

def bracketed : List String → String
  | [single] => "(" ++ single ++ ",)"
  | parts => "(" ++ Text.join ", " parts ++ ")"

mutual

def shownWithin (around : List Nat) : Value → String
  | null => "None"
  | bool value => if value then "True" else "False"
  | int value => Decimal.whole value
  | real value => Decimal.plain value
  | text value => Text.quoted value
  | bytes content => Text.quotedBytes content
  | date year month day =>
    "datetime.date(" ++ Decimal.whole year ++ ", " ++ Decimal.whole month ++ ", "
      ++ Decimal.whole day ++ ")"
  | moment m => m.shown
  | list items => "[" ++ Text.join ", " (shownItems around items) ++ "]"
  | tuple items => bracketed (shownItems around items)
  | array items => "array([" ++ Text.join ", " (shownItems around items) ++ "])"
  | set items =>
    if items.isEmpty then "set()"
    else "\x7b" ++ Text.join ", " (shownItems around items) ++ "\x7d"
  | record entries => "\x7b" ++ Text.join ", " (shownEntries around entries) ++ "\x7d"
  | shared label value =>
    if around.contains label then value.ellipsis else shownWithin (label :: around) value

def shownItems (around : List Nat) : List Value → List String
  | [] => []
  | item :: rest => shownWithin around item :: shownItems around rest

def shownEntries (around : List Nat) : List (Value × Value) → List String
  | [] => []
  | (key, value) :: rest =>
    (shownWithin around key ++ ": " ++ shownWithin around value) :: shownEntries around rest

end

def shown (v : Value) : String :=
  shownWithin [] v

def toText : Value → String
  | text value => value
  | date year month day => Calendar.dayText year month day
  | moment m => m.text
  | array items => "[" ++ Text.join " " (shownItems [] items) ++ "]"
  | shared label value =>
    match value with
    | list _ | tuple _ | set _ | record _ => (shared label value).shown
    | value => value.toText
  | value => value.shown

mutual

def unlabelled : Value → Value
  | list items => list (unlabelledItems items)
  | tuple items => tuple (unlabelledItems items)
  | array items => array (unlabelledItems items)
  | set items => set (unlabelledItems items)
  | record entries => record (unlabelledEntries entries)
  | shared _ value => unlabelled value
  | value => value

def unlabelledItems : List Value → List Value
  | [] => []
  | item :: rest => unlabelled item :: unlabelledItems rest

def unlabelledEntries : List (Value × Value) → List (Value × Value)
  | [] => []
  | (key, value) :: rest => (unlabelled key, unlabelled value) :: unlabelledEntries rest

end

mutual

/-- Whether two values without labels are equal; numbers are compared by what they are worth, and a
truth value counts as zero or one. -/
def sameAs : Value → Value → Bool
  | null, null => true
  | bool a, bool b => a == b
  | bool a, int b => (if a then 1 else 0) == b
  | int a, bool b => a == (if b then 1 else 0)
  | int a, int b => a == b
  | real a, real b => a == b
  | real a, int b => a.isFinite && Binary.toRat a == (b : Rat)
  | int a, real b => b.isFinite && Binary.toRat b == (a : Rat)
  | real a, bool b => a == (if b then 1 else 0)
  | bool a, real b => (if a then 1 else 0) == b
  | text a, text b => a == b
  | bytes a, bytes b => a == b
  | date y m d, date y' m' d' => y == y' && m == m' && d == d'
  | moment a, moment b => a.same b
  | list a, list b => sameItems a b
  | tuple a, tuple b => sameItems a b
  | array a, array b => sameItems a b
  | set a, set b => a.length == b.length && sameMembers a b
  | record a, record b => a.length == b.length && sameEntries a b
  | _, _ => false

def sameItems : List Value → List Value → Bool
  | [], [] => true
  | a :: as, b :: bs => sameAs a b && sameItems as bs
  | _, _ => false

def sameMembers : List Value → List Value → Bool
  | [], _ => true
  | a :: as, bs => bs.any (sameAs a) && sameMembers as bs

def sameEntries : List (Value × Value) → List (Value × Value) → Bool
  | [], _ => true
  | (key, value) :: rest, others =>
    (others.any fun (key', value') => sameAs key key' && sameAs value value')
      && sameEntries rest others

end

def same (a b : Value) : Bool :=
  a.unlabelled.sameAs b.unlabelled

def isName (v : Value) : Bool :=
  match v.bare with
  | list _ | array _ | set _ | record _ => false
  | tuple items => (unlabelledItems items).all fun
    | list _ | array _ | set _ | record _ => false
    | _ => true
  | _ => true

end Value

abbrev Entries := List (Value × Value)

namespace Entries

def find? (key : Value) : Entries → Option Value
  | [] => none
  | (key', value) :: rest => if key'.same key then some value else find? key rest

def get? (entries : Entries) (key : String) : Option Value :=
  entries.find? (.text key)

def put (key value : Value) : Entries → Entries
  | [] => [(key, value)]
  | (key', old) :: rest =>
    if key'.same key then (key', value) :: rest else (key', old) :: put key value rest

/-- The entries with further ones put in, each in the place of an earlier one under its key. -/
def merge (entries further : Entries) : Entries :=
  further.foldl (fun all (key, value) => put key value all) entries

def without (entries : Entries) (key : String) : Entries :=
  entries.filter fun (key', _) => !key'.same (.text key)

def ofPairs (pairs : List (Value × Value)) : Entries :=
  merge [] pairs

end Entries

end Reckon
