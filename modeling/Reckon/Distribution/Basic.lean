import Reckon.Decimal.Rounded
import Reckon.Scalar.Basic
import Reckon.Value.Basic

/-!
Distributions of a single number, their kinds, and the parameters each kind has.

A parameter is declared to be a double. A whole number that a double holds exactly may stand for
it, as in the distributions that nothing is known about; in a description every parameter is a
double.
-/

set_option autoImplicit false

namespace Reckon

inductive Kind where
  | uniform
  | gaussian
  | lognormal
  | poisson
  deriving DecidableEq, Repr

namespace Kind

def all : List Kind := [uniform, gaussian, lognormal, poisson]

def name : Kind → String
  | uniform => "uniform"
  | gaussian => "gaussian"
  | lognormal => "lognormal"
  | poisson => "poisson"

def ofName? (name : String) : Option Kind :=
  all.find? fun kind => kind.name = name

def parameters : Kind → List String
  | uniform => ["min", "max"]
  | gaussian => ["mean", "stddev"]
  | lognormal => ["low", "high"]
  | poisson => ["lambda"]

end Kind

/-- A double, or a whole number that a double holds exactly. -/
inductive Parameter where
  | real (x : Float)
  | whole (n : Int) (exact : n.natAbs ≤ Binary.twoPow 53)

namespace Parameter

def toFloat : Parameter → Float
  | real x => x
  | whole n _ => Scalar.ofInt n

/-- The difference of two parameters; that of whole numbers is taken before it is rounded. -/
def minus : Parameter → Parameter → Float
  | whole a _, whole b _ => Scalar.ofInt (a - b)
  | a, b => a.toFloat - b.toFloat

instance : Inhabited Parameter := ⟨real 0⟩

instance : Coe Float Parameter := ⟨real⟩

instance {n : Nat} : OfNat Parameter n :=
  ⟨if exact : n ≤ Binary.twoPow 53 then whole n exact else real (OfNat.ofNat n)⟩

instance : OfScientific Parameter := ⟨fun mantissa negative exponent =>
  real (OfScientific.ofScientific mantissa negative exponent)⟩

end Parameter

inductive Distribution where
  /-- Every number between the ends is as likely as another. -/
  | uniform (min max : Parameter)
  | gaussian (mean stddev : Parameter)
  /-- The logarithm is normal; given by the 10th and the 90th percentile. -/
  | lognormal (low high : Parameter)
  | poisson (rate : Parameter)
  deriving Inhabited

namespace Distribution

def kind : Distribution → Kind
  | uniform .. => .uniform
  | gaussian .. => .gaussian
  | lognormal .. => .lognormal
  | poisson _ => .poisson

def values : Distribution → List Parameter
  | uniform min max => [min, max]
  | gaussian mean stddev => [mean, stddev]
  | lognormal low high => [low, high]
  | poisson rate => [rate]

def ofKind : Kind → Distribution
  | .uniform => uniform 0 100
  | .gaussian => gaussian 50 10
  | .lognormal => lognormal 10 1000
  | .poisson => poisson 10

def initial : Distribution := ofKind .uniform

/-- The distribution with one parameter changed; a name that is no parameter changes nothing. -/
def set (parameter : String) (value : Float) : Distribution → Distribution
  | uniform min max =>
    if parameter = "min" then uniform value max
    else if parameter = "max" then uniform min value
    else uniform min max
  | gaussian mean stddev =>
    if parameter = "mean" then gaussian value stddev
    else if parameter = "stddev" then gaussian mean value
    else gaussian mean stddev
  | lognormal low high =>
    if parameter = "low" then lognormal value high
    else if parameter = "high" then lognormal low value
    else lognormal low high
  | poisson rate => if parameter = "lambda" then poisson value else poisson rate

def config (d : Distribution) : Entries :=
  (.text "type", .text d.kind.name) ::
    (d.kind.parameters.zip d.values).map fun (name, value) => (.text name, .real value.toFloat)

def labels : Kind → List String
  | .uniform => ["min", "max"]
  | .gaussian => ["mean", "stddev"]
  | .lognormal => ["P10", "P90"]
  | .poisson => ["lambda"]

def describe (d : Distribution) : String :=
  let parts := (labels d.kind).zip d.values |>.map fun (label, value) =>
    label ++ "=" ++ Decimal.generalText 6 value.toFloat
  d.kind.name ++ "(" ++ Text.join ", " parts ++ ")"

end Distribution

end Reckon
