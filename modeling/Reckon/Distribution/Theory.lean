import Reckon.Distribution.Sample

/-!
The mean and the standard deviation of distributions.
-/

set_option autoImplicit false

namespace Reckon.Distribution

/-- The mean and the standard deviation, which a distribution without a positive scale lacks. -/
def moments : Distribution → Float × Float
  | uniform min max =>
    let spread := max.minus min
    if 0 < spread then ((min.toFloat + max.toFloat) / 2, spread / Float.sqrt 12)
    else (Binary.nan, Binary.nan)
  | gaussian mean stddev =>
    if 0 < stddev.toFloat then (mean.toFloat, stddev.toFloat) else (Binary.nan, Binary.nan)
  | lognormal low high =>
    let deviation := logDeviation low.toFloat high.toFloat
    if 0 < deviation then
      let mean := Float.exp (logMean low.toFloat high.toFloat + deviation * deviation / 2)
      (mean, mean * Float.sqrt (Float.exp (deviation * deviation) - 1))
    else (Binary.nan, Binary.nan)
  | poisson rate =>
    if 0 ≤ rate.toFloat then (rate.toFloat, Float.sqrt rate.toFloat) else (Binary.nan, Binary.nan)

end Reckon.Distribution
