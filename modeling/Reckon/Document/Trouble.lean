import Reckon.Failure

/-!
Why a text is no document.
-/

set_option autoImplicit false

namespace Reckon.Document

inductive Trouble where
  | illFormed
  | refused (failure : Failure)

abbrev Attempt := Except Trouble

namespace Attempt

variable {α : Type}

def ofOption : Option α → Attempt α
  | some value => .ok value
  | none => .error .illFormed

def ofExcept : Except Failure α → Attempt α
  | .ok value => .ok value
  | .error failure => .error (.refused failure)

end Attempt

end Reckon.Document
