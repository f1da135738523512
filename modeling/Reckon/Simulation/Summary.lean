import Reckon.Simulation.Histogram

/-!
Summaries of samples in ascending order.

A percentile is a sample: the one that stands where the given share of the samples has been passed,
without interpolation.
-/

set_option autoImplicit false

namespace Reckon

/-- The sample at a share of the list, which must lie from zero up to one, one left out. -/
def nearestRank? {α R : Type} [Scalar R] (samples : List α) (q : R) : Option α :=
  if Scalar.le (Scalar.ofInt 0) q && Scalar.lt q (Scalar.ofInt 1) then
    samples[(Scalar.share samples.length q).toNat]?
  else none

structure Summary where
  samples : List Float
  mean : Float
  median : Float
  p5 : Float
  p10 : Float
  p90 : Float
  p95 : Float
  histogram : Histogram Float
  trials : Int

namespace Summary

def atShare (samples : List Float) (q : Float) : Except Failure Float :=
  match nearestRank? samples q with
  | some x => .ok x
  | none => .error .outOfRange

def ofSorted [Machine] (samples : List Float) (trials : Int) : Except Failure Summary :=
  if samples.isEmpty then .error (.noValidSamples trials)
  else do
    let p5 ← atShare samples 0.05
    let p10 ← atShare samples 0.10
    let median ← atShare samples 0.5
    let p90 ← atShare samples 0.90
    let p95 ← atShare samples 0.95
    let histogram ← Histogram.ofSorted samples Histogram.standardBins
    return { samples, mean := Scalar.mean samples, median, p5, p10, p90, p95, histogram, trials }

def count (s : Summary) : Nat :=
  s.samples.length

def discarded (s : Summary) : Nat :=
  (s.trials - s.count).toNat

def percentile (s : Summary) (q : Float) : Except Failure Float :=
  if 0 ≤ q && q < 1 then atShare s.samples q else .error (.unsuitable (.quantile q))

/-- The standard deviation of the samples as a sample themselves; a single one has none. -/
def deviation (s : Summary) : Float :=
  if s.count < 2 then 0
  else
    let mean : Float := Scalar.mean s.samples
    let squares := s.samples.map fun x => (x - mean) * (x - mean)
    Float.sqrt (Scalar.sumInPairs squares / Scalar.ofInt (s.count - 1))

end Summary

end Reckon
