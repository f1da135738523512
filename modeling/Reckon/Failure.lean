import Reckon.Decimal.Rounded
import Reckon.Decimal.Whole
import Reckon.Value.Basic

/-!
Why an operation is refused, and the text that says so.

Failures are sorted by what the caller can do about them: a formula that cannot be read, a formula
that cannot be evaluated, a run without a single valid sample, a value that is unsuitable, a name
that is not there, a value of the wrong kind, a file that cannot be opened, and the limits of
arithmetic, of lists and of memory.
-/

set_option autoImplicit false

namespace Reckon

inductive Fault where
  | notText (value : Value)
  | ended
  | noOperand (found : Char)
  /-- A character follows a formula that is already complete. -/
  | trailing (found : Char)
  | unclosed
  | tooDeep

/-- A formula that cannot be read: what is wrong, and the position where it is wrong. -/
structure Malformed where
  position : Nat
  fault : Fault

def Malformed.message (m : Malformed) : String :=
  let place := " at position " ++ Decimal.whole m.position
  match m.fault with
  | .notText value => "Non string formula " ++ value.shown
  | .ended => "Unexpected end of formula" ++ place
  | .noOperand found => "Unexpected character '" ++ found.toString ++ "'" ++ place
  | .trailing found => "Unexpected '" ++ found.toString ++ "'" ++ place
  | .unclosed => "Unmatched parenthesis: expected ')'" ++ place
  | .tooDeep => "Formula is nested too deeply"

def Malformed.position? (m : Malformed) : Option Nat :=
  match m.fault with
  | .tooDeep => none
  | _ => some m.position

inductive Undefined where
  | unknownVariable (name : String)
  | unknownFunction (name : String)
  | unknownOperator (name : String)
  deriving DecidableEq, Repr

def Undefined.kind : Undefined → String
  | unknownVariable _ => "UnknownVariable"
  | unknownFunction _ => "UnknownFunction"
  | unknownOperator _ => "UnknownOperator"

def Undefined.name : Undefined → String
  | unknownVariable name | unknownFunction name | unknownOperator name => name

inductive Unsuitable where
  | notNumeral (written : Value)
  | notWhole (base : Nat) (written : Value)
  | tooManyDigits (count : Nat)
  | unwritten
  | notANumber
  | notListed (item : Value)
  | pairLength (index length : Nat)
  | negativeSeed
  | negativeBins
  | negativeBinIndex
  | negativePointCount (count : Int)
  | columnCounts (first second : Nat)
  | ambiguousTruth
  | emptyTruth
  | distributionKind (kind : String)
  | parameterName (parameter kind : String)
  | parameterValues (kind : String) (parameters : Entries)
  | numberFormat
  | figureCount
  /-- A count of places that is no whole number, before the mark of the exponent. -/
  | placeCount (count : Float) (mark : Char)
  | precisionLimit
  | tooManyPlaceDigits
  | quantile (q : Float)
  | noFormula
  | strayInput (name : Value) (formula : String)
  | projectMode (mode : Value)
  | itemMode
  | beyond (what : String) (first last : Nat)
  | noSuchDay
  | yearZero
  /-- A zone that is a day or more away from universal time. -/
  | zoneOffset (minutes : Int)
  | noCharacter
  | seedText
  | beyondCount
  | beyondPlaces
  | beyondSteps
  /-- The name of a file holds the character that ends names. -/
  | endInName

def numberFormats : List String := ["auto", "decimal", "scientific", "sci"]

def Unsuitable.message : Unsuitable → String
  | notNumeral written => "could not convert string to float: " ++ written.shown
  | notWhole base written =>
    "invalid literal for int() with base " ++ Decimal.whole base ++ ": "
      ++ Text.start 200 written.shown
  | tooManyDigits count =>
    "Exceeds the limit (" ++ Decimal.whole Decimal.digitLimit
      ++ " digits) for integer string conversion: value has " ++ Decimal.whole count
      ++ " digits; use sys.set_int_max_str_digits() to increase the limit"
  | unwritten =>
    "Exceeds the limit (" ++ Decimal.whole Decimal.digitLimit
      ++ " digits) for integer string conversion; "
      ++ "use sys.set_int_max_str_digits() to increase the limit"
  | notANumber => "cannot convert float NaN to integer"
  | notListed item => item.shown ++ " is not in list"
  | pairLength index length =>
    "dictionary update sequence element #" ++ Decimal.whole index ++ " has length "
      ++ Decimal.whole length ++ "; 2 is required"
  | negativeSeed => "expected non-negative integer"
  | negativeBins => "negative dimensions are not allowed"
  | negativeBinIndex => "'list' argument must have no negative elements"
  | negativePointCount count =>
    "Number of samples, " ++ Decimal.whole count ++ ", must be non-negative."
  | columnCounts first second =>
    "operands could not be broadcast together with shapes (" ++ Decimal.whole first ++ ",) ("
      ++ Decimal.whole second ++ ",) "
  | ambiguousTruth =>
    "The truth value of an array with more than one element is ambiguous. Use a.any() or a.all()"
  | emptyTruth =>
    "The truth value of an empty array is ambiguous. Use `array.size > 0` to check that an array "
      ++ "is not empty."
  | distributionKind kind => "Unknown distribution type `" ++ kind ++ "`"
  | parameterName parameter kind =>
    "Invalid parameter `" ++ parameter ++ "` for " ++ kind ++ " distribution"
  | parameterValues kind parameters =>
    "Non-numeric parameter for " ++ kind ++ " distribution: " ++ (Value.record parameters).shown
  | numberFormat => "Number Format must be one of " ++ Text.join ", " numberFormats
  | figureCount => "Significant Figures must be >= 1"
  | placeCount count mark =>
    if count.isFinite then
      "Invalid format specifier '." ++ Decimal.plain count ++ mark.toString
        ++ "' for object of type 'float'"
    else "Format specifier missing precision"
  | precisionLimit => "precision too big"
  | tooManyPlaceDigits => "Too many decimal digits in format string"
  | quantile q => "Quantile must be in [0, 1), got " ++ Decimal.plain q
  | noFormula => "Estimate config requires a formula"
  | strayInput name formula =>
    "Input `" ++ name.toText ++ "` is not a variable in formula \"" ++ formula ++ "\""
  | projectMode mode => "Unsupported project mode " ++ mode.toText
  | itemMode => "Unknown item"
  | beyond what first last =>
    what ++ " must be in " ++ Decimal.whole first ++ ".." ++ Decimal.whole last
  | noSuchDay => "day is out of range for month"
  | yearZero => "year 0 is out of range"
  | zoneOffset minutes =>
    "offset must be a timedelta strictly between -timedelta(hours=24) and timedelta(hours=24), not "
      ++ Moment.spanShown minutes ++ "."
  | noCharacter => "chr() arg not in range(0x110000)"
  | seedText => "unrecognized seed string"
  | beyondCount => "Maximum allowed dimension exceeded"
  | beyondSteps => "Maximum allowed size exceeded"
  | beyondPlaces =>
    "array is too big; `arr.size * arr.dtype.itemsize` is larger than the maximum possible size."
  | endInName => "embedded null byte"

inductive Absent where
  | inFormula (name : String) (formula : String)
  | binding (name : String)
  | entry (key : String)
  deriving DecidableEq, Repr

def Absent.message : Absent → String
  | inFormula name formula => "Variable `" ++ name ++ "` is not in formula \"" ++ formula ++ "\""
  | binding name | entry name => name

inductive Unfit where
  | notDistribution (value : Value)
  | notExpression (value : Value)
  | kind
  /-- An argument is given twice, under a name that the operation keeps for itself, or not at all. -/
  | reservedName

/-- The text that says how a value is of the wrong kind, for the cases that have one. -/
def Unfit.message? : Unfit → Option String
  | notDistribution value => some ("Not a distribution: " ++ value.shown)
  | notExpression value => some ("Not an expression node: " ++ value.shown)
  | kind | reservedName => none

inductive FileTrouble where
  | missing
  | isDirectory
  | notDirectory
  | nameTooLong
  deriving DecidableEq, Repr

namespace FileTrouble

def message : FileTrouble → String
  | missing => "No such file or directory"
  | isDirectory => "Is a directory"
  | notDirectory => "Not a directory"
  | nameTooLong => "File name too long"

def code : FileTrouble → Nat
  | missing => 2
  | notDirectory => 20
  | isDirectory => 21
  | nameTooLong => 36

end FileTrouble

def memoryUnits : List String := ["bytes", "KiB", "MiB", "GiB", "TiB", "PiB", "EiB"]

/-- An amount of memory in the greatest unit that it reaches, with three digits at least and a
point. -/
def memoryText (bytes : Nat) : String :=
  let place := min (bytes.log2 / 10) (memoryUnits.length - 1)
  let amount := mkRat bytes (Binary.twoPow (10 * place))
  let whole := Binary.divEven bytes (Binary.twoPow (10 * place))
  let written :=
    if whole < 1000 then (Decimal.significant 3 amount).positional else Decimal.digits whole
  String.ofList (if written.contains '.' then written else written ++ ['.']) ++ " "
    ++ memoryUnits.getD place ""

inductive Failure where
  | malformed (error : Malformed)
  | undefined (reference : Undefined)
  | noValidSamples (trials : Int)
  | unsuitable (reason : Unsuitable)
  | absent (what : Absent)
  | unfit (how : Unfit)
  | noSuchPart
  | outOfRange
  /-- The number is beyond the doubles, or infinite where a whole number is needed. -/
  | overflow
  | divisionByZero
  | drawsExhausted
  /-- There is no memory for so many numbers in a row, which are whole or not. -/
  | outOfMemory (count : Nat) (whole : Bool)
  | noMemory
  | tooNested
  | noFile (why : FileTrouble)

def Failure.message? : Failure → Option String
  | malformed error => some error.message
  | undefined reference => some (reference.kind ++ ": " ++ reference.name)
  | noValidSamples trials =>
    some ("No valid samples produced in " ++ Decimal.whole trials ++ " trials")
  | unsuitable reason => some reason.message
  | absent what => some what.message
  | unfit how => how.message?
  | drawsExhausted => some "no draws left"
  | noMemory => some ""
  | outOfMemory count whole =>
    some ("Unable to allocate " ++ memoryText (8 * count) ++ " for an array with shape ("
      ++ Decimal.whole count ++ ",) and data type " ++ (if whole then "int64" else "float64"))
  | noFile why => some why.message
  | tooNested => some "maximum recursion depth exceeded while getting the repr of an object"
  | noSuchPart | outOfRange | overflow | divisionByZero => none

end Reckon
