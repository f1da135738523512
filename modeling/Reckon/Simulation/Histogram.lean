import Reckon.Machine
import Reckon.Scalar.Spaced

/-!
Histograms: how many samples fall into each of several bins of one width.

A bin holds the samples from its lower edge up to its upper edge, which belongs to the next bin; the
last bin holds its upper edge too. Samples without a finite spread are all in the first bin.
-/

set_option autoImplicit false

namespace Reckon

structure Histogram (R : Type) where
  low : R
  high : R
  counts : List Nat

namespace Histogram

variable {R : Type} [Scalar R]

def standardBins : Nat := 60

def width (low high : R) (bins : Nat) : R :=
  (high - low) / Scalar.ofInt bins

def isSpread (width : R) : Bool :=
  Scalar.lt (Scalar.ofInt 0) width && Scalar.isFinite width

def binOf (low width : R) (bins : Nat) (sample : R) : Int :=
  min (Scalar.floor ((sample - low) / width)) (bins - 1)

def tally (bins : Nat) (indexes : List Int) : List Nat :=
  (List.range bins).map fun (i : Nat) => indexes.count (Int.ofNat i)

/-- The histogram of samples in ascending order. -/
def ofSorted [Machine] (samples : List R) (bins : Int) : Except Failure (Histogram R) :=
  match samples.head?, samples.getLast? with
  | some low, some high => do
    -- the spread is divided by the number of bins before there are any counters
    if bins = 0 then throw .divisionByZero
    else if (Binary.ofInt? bins).isNone then throw .overflow
    else if bins < 0 then throw (.unsuitable .negativeBins)
    else
      let bins := bins.toNat
      Machine.row true bins
      let width := width low high bins
      if isSpread width then
        let indexes := samples.map (binOf low width bins)
        if indexes.any (· < 0) then throw (.unsuitable .negativeBinIndex)
        else return { low, high, counts := tally bins indexes }
      else return { low, high, counts := samples.length :: List.replicate (bins - 1) 0 }
  | _, _ => .error .outOfRange

def edges (h : Histogram R) : List R :=
  Scalar.spaced h.low h.high h.counts.length

end Histogram

end Reckon
