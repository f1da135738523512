import Reckon.Failure
import Reckon.Text.Lines

/-!
Directories that hold files only, and where the path of a file leads from there.

A path is walked name by name, so of two faults the one that is met first counts. A path that ends
with a slash can only mean a directory.
-/

set_option autoImplicit false

namespace Reckon.Command

abbrev Directory := List (String × ByteArray)

inductive Place where
  /-- A file of the directory, or a name that is free for one. -/
  | inside (name : String)
  /-- A file that is always empty and is not in the directory. -/
  | elsewhere
  | nowhere (why : FileTrouble)
  deriving DecidableEq, Repr

namespace Directory

def nameLimit : Nat := 255

def pathLimit : Nat := 4095

def systemNames : List String := ["dev", "etc", "home", "tmp", "usr", "var"]

def fits (name : String) : Bool :=
  name.utf8ByteSize ≤ nameLimit

/-- Where the names of a path lead that has left the directory, given whether it may make a file. -/
def walkOutside (writing : Bool) : List String → Place
  | [] => .nowhere .isDirectory
  | [name] =>
    if name = "." ∨ name = ".." then .nowhere .isDirectory
    else if !fits name then .nowhere .nameTooLong
    else if writing then .elsewhere
    else .nowhere .missing
  | name :: rest =>
    if name = "." ∨ name = ".." then walkOutside writing rest
    else .nowhere (if fits name then .missing else .nameTooLong)

def walkFromRoot (writing : Bool) : List String → Place
  | ["dev", "null"] => .elsewhere
  | [name] =>
    if systemNames.contains name then .nowhere .isDirectory else walkOutside writing [name]
  | name :: rest =>
    if systemNames.contains name then walkOutside writing rest
    else walkOutside writing (name :: rest)
  | [] => .nowhere .isDirectory

/-- Where the names of a path lead from a directory; `slash` tells whether a slash follows. -/
def walk (d : Directory) (writing slash : Bool) : List String → Place
  | [] => .nowhere .isDirectory
  | [name] =>
    if name = "." ∨ name = ".." ∨ (writing && slash) then .nowhere .isDirectory
    else if !fits name then .nowhere .nameTooLong
    else
      match d.lookup name with
      | some _ => if slash then .nowhere .notDirectory else .inside name
      | none => if writing then .inside name else .nowhere .missing
  | name :: rest =>
    if name = "." then walk d writing slash rest
    else if name = ".." then walkOutside writing rest
    else if !fits name then .nowhere .nameTooLong
    else .nowhere (if (d.lookup name).isSome then .notDirectory else .missing)

def locate (d : Directory) (writing : Bool) (path : String) : Place :=
  let names := ((Text.fields '/' path.toList).filter (!·.isEmpty)).map String.ofList
  if path.isEmpty then .nowhere .missing
  else if pathLimit < path.utf8ByteSize then .nowhere .nameTooLong
  else if path.toList.head? = some '/' then walkFromRoot writing names
  else d.walk writing (path.toList.getLast? = some '/') names

def read (d : Directory) (path : String) : Except Failure ByteArray :=
  if path.toList.contains (Char.ofNat 0) then .error (.unsuitable .endInName)
  else
    match d.locate false path with
    | .inside name => .ok ((d.lookup name).getD .empty)
    | .elsewhere => .ok .empty
    | .nowhere why => .error (.noFile why)

def clear (d : Directory) (name : String) : Directory :=
  (name, .empty) :: d.filter fun (name', _) => name' != name

end Directory

end Reckon.Command
