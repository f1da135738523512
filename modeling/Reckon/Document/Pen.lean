import Reckon.Document.Writing

/-!
A pen that writes a document mark by mark.

A mark is set off by a blank unless one has just been written. A line begins with blanks up to its
indentation; marks that stand at its beginning count as indentation for what follows them.
-/

set_option autoImplicit false

namespace Reckon.Document

structure Pen where
  written : List Char
  column : Nat
  afterBlank : Bool
  onlyMarks : Bool

namespace Pen

def start : Pen := ⟨[], 0, true, true⟩

def columnAfter (column : Nat) : List Char → Nat
  | [] => column
  | '\n' :: rest => columnAfter 0 rest
  | _ :: rest => columnAfter (column + 1) rest

def put (cs : List Char) (p : Pen) : Pen :=
  { p with written := cs.reverseAux p.written, column := columnAfter p.column cs }

def breakLine (p : Pen) : Pen :=
  { p.put ['\n'] with afterBlank := true, onlyMarks := true }

def toIndent (indent : Nat) (p : Pen) : Pen :=
  let p :=
    if !p.onlyMarks || indent < p.column || (indent == p.column && !p.afterBlank) then p.breakLine
    else p
  if p.column < indent then { p.put (spaces (indent - p.column)) with afterBlank := true } else p

def apart (p : Pen) : Pen :=
  if p.afterBlank then p else p.put [' ']

def mark (cs : List Char) (isLead : Bool) (p : Pen) : Pen :=
  { p.put cs with afterBlank := false, onlyMarks := p.onlyMarks && isLead }

def scalar (cs : Nat → List Char) (p : Pen) : Pen :=
  let p := p.apart
  p.mark (cs p.column) false

end Pen

end Reckon.Document
