import Reckon.Distribution.Sample
import Reckon.Proofs.Random.Stream

/-!
Numbers made of two draws that are not zero.

Gaussian and lognormal numbers pass over draws that are zero, so a stream gives the same numbers
with any zeros put in or left out. The arithmetic of a number is written for any way of taking
logarithms: it is run as it is, and with a note of what each logarithm is taken of.
-/

set_option autoImplicit false

namespace Reckon.Distribution

open Reckon.Random
open Source (nonzeros nonzeros_append eq_false_of_mem_nonzeros)

/-- Numbers from several distributions one after the other. -/
def sampleAll? : List Distribution → Source → Option (List Float × Source)
  | [], s => some ([], s)
  | d :: ds, s => do
    let (x, s) ← d.sample? s
    let (xs, s) ← sampleAll? ds s
    return (x :: xs, s)

/-- A distribution whose numbers are made of standard normal ones. -/
inductive Bell where
  | gaussian (mean stddev : Parameter)
  | lognormal (low high : Parameter)

namespace Bell

def distribution : Bell → Distribution
  | gaussian mean stddev => .gaussian mean stddev
  | lognormal low high => .lognormal low high

/-- The percentiles that a lognormal distribution is given by. -/
def percentiles : Bell → List Float
  | gaussian _ _ => []
  | lognormal low high => [low.toFloat, high.toFloat]

/-! ## Numbers from two draws -/

/-- The next two draws that are not zero, and the source after them. -/
def pair? (s : Source) : Option ((Float × Float) × Source) := do
  let (u₁, s) ← s.nonzero?
  let (u₂, s) ← s.nonzero?
  return ((u₁, u₂), s)

section

variable {m : Type → Type} [Monad m] (log : Float → m Float)

def normalBy (u₁ u₂ : Float) : m Float := do
  let size ← log u₁
  return Float.sqrt (-2 * size) * Float.cos (2 * Binary.pi * u₂)

def valueBy (u₁ u₂ : Float) : Bell → m Float
  | gaussian mean stddev => do
    let z ← normalBy log u₁ u₂
    return mean.toFloat + stddev.toFloat * z
  | lognormal low high => do
    let mean := ((← log low.toFloat) + (← log high.toFloat)) / 2
    let deviation := ((← log high.toFloat) - (← log low.toFloat)) / (2 * normalNinetieth)
    let z ← normalBy log u₁ u₂
    return Float.exp (mean + deviation * z)

/-- Numbers from several distributions one after the other. -/
def valuesBy : List Bell → Source → m (Option (List Float × Source))
  | [], s => return some ([], s)
  | d :: ds, s =>
    match pair? s with
    | none => return none
    | some ((u₁, u₂), s) => do
      let x ← d.valueBy log u₁ u₂
      let later ← valuesBy ds s
      return later.map fun (xs, s) => (x :: xs, s)

end

def value (d : Bell) (u₁ u₂ : Float) : Float :=
  Id.run (d.valueBy (fun x => pure x.log) u₁ u₂)

def noted (x : Float) : StateM (List Float) Float := do
  modify (· ++ [x])
  return x.log

/-- Numbers from several distributions, and what logarithms are taken of for them. -/
def observe (ds : List Bell) (s : Source) : Option (List Float × Source) × List Float :=
  (valuesBy noted ds s).run []

/-- The numbers that the draws make, two for each distribution. -/
def values : List Bell → List Float → List Float
  | d :: ds, u₁ :: u₂ :: draws => d.value u₁ u₂ :: values ds draws
  | _, _ => []

def heard (d : Bell) (u₁ : Float) : List Float :=
  d.percentiles ++ d.percentiles.reverse ++ [u₁]

/-- What logarithms are taken of for each of the numbers that the draws make. -/
def heardAll : List Bell → List Float → List (List Float)
  | d :: ds, u₁ :: _ :: draws => d.heard u₁ :: heardAll ds draws
  | _, _ => []

variable {d : Bell} {ds : List Bell} {s t last : Source} {u₁ u₂ x : Float} {draws : List Float}

/-! ## One number -/

theorem pair?_eq_some_iff :
    pair? s = some ((u₁, u₂), t) ↔
      ∃ front back, s.Yields (front ++ u₁ :: (back ++ [u₂])) t ∧
        (∀ z ∈ front ++ back, (z == 0) = true) ∧ (u₁ == 0) = false ∧ (u₂ == 0) = false := by
  constructor
  · intro done
    obtain ⟨⟨u₁, middle⟩, first, done⟩ := Option.bind_eq_some_iff.mp done
    obtain ⟨⟨u₂, t'⟩, second, done⟩ := Option.bind_eq_some_iff.mp done
    cases done
    obtain ⟨front, yields, zerosFront, kept₁⟩ := Source.nonzero?_eq_some_iff.mp first
    obtain ⟨back, further, zerosBack, kept₂⟩ := Source.nonzero?_eq_some_iff.mp second
    refine ⟨front, back, ?_, List.forall_mem_append.mpr ⟨zerosFront, zerosBack⟩, kept₁, kept₂⟩
    rw [List.append_cons]
    exact yields.append further
  · rintro ⟨front, back, yields, zeros, kept₁, kept₂⟩
    obtain ⟨zerosFront, zerosBack⟩ := List.forall_mem_append.mp zeros
    rw [List.append_cons] at yields
    obtain ⟨middle, yields, further⟩ := yields.of_append
    have first := Source.nonzero?_eq_some_iff.mpr ⟨front, yields, zerosFront, kept₁⟩
    have second := Source.nonzero?_eq_some_iff.mpr ⟨back, further, zerosBack, kept₂⟩
    simp [pair?, first, second]

theorem exists_pair? {others : List Float} (yields : s.Yields draws last)
    (found : nonzeros draws = u₁ :: u₂ :: others) :
    ∃ taken rest t, draws = taken ++ rest ∧ nonzeros taken = [u₁, u₂] ∧
      taken.getLast? = some u₂ ∧ nonzeros rest = others ∧ s.Yields taken t ∧
      t.Yields rest last ∧ pair? s = some ((u₁, u₂), t) := by
  obtain ⟨front, rest, middle, rfl, isFirst, _, areOthers, yieldsFront, further, first⟩ :=
    Source.exists_nonzero? yields found
  obtain ⟨back, rest, t, rfl, isSecond, isLast, areOthers, yieldsBack, further, second⟩ :=
    Source.exists_nonzero? further areOthers
  refine ⟨front ++ back, rest, t, by simp, ?_, by simp [List.getLast?_append, isLast], areOthers,
    yieldsFront.append yieldsBack, further, by simp [pair?, first, second]⟩
  rw [nonzeros_append, isFirst, isSecond]
  rfl

theorem sample?_eq (d : Bell) (s : Source) :
    d.distribution.sample? s = (pair? s).map fun ((u₁, u₂), t) => (d.value u₁ u₂, t) := by
  have normal : standardNormal? s = (pair? s).map fun ((u₁, u₂), t) => (normalOf u₁ u₂, t) := by
    cases first : s.nonzero? with
    | none => simp [standardNormal?, pair?, first]
    | some next => cases second : next.2.nonzero? <;> simp [standardNormal?, pair?, first, second]
  cases d with
  | gaussian mean stddev =>
    rw [distribution, sample?, normal]
    cases pair? s <;> rfl
  | lognormal low high =>
    rw [distribution, sample?, normal]
    cases pair? s <;> rfl

theorem sample?_eq_some_iff :
    d.distribution.sample? s = some (x, t) ↔
      ∃ u₁ u₂, pair? s = some ((u₁, u₂), t) ∧ x = d.value u₁ u₂ := by
  rw [sample?_eq, Option.map_eq_some_iff]
  constructor
  · rintro ⟨⟨⟨u₁, u₂⟩, t'⟩, found, same⟩
    cases same
    exact ⟨u₁, u₂, found, rfl⟩
  · rintro ⟨u₁, u₂, found, rfl⟩
    exact ⟨_, found, rfl⟩

theorem mem_heard : x ∈ d.heard u₁ ↔ x = u₁ ∨ x ∈ d.percentiles := by
  simp only [heard, List.mem_append, List.mem_reverse, List.mem_singleton, or_self]
  exact or_comm

theorem run_valueBy (d : Bell) (u₁ u₂ : Float) (before : List Float) :
    (d.valueBy noted u₁ u₂).run before = (d.value u₁ u₂, before ++ d.heard u₁) := by
  cases d with
  | gaussian mean stddev => rfl
  | lognormal low high =>
    -- a note is added for each logarithm in turn
    have notes : before ++ (lognormal low high).heard u₁ = before ++ [low.toFloat]
        ++ [high.toFloat] ++ [high.toFloat] ++ [low.toFloat] ++ [u₁] := by
      simp [heard, percentiles]
    rw [notes]
    rfl

/-! ## Several numbers -/

theorem sampleAll?_of_some (found : pair? s = some ((u₁, u₂), t)) :
    sampleAll? ((d :: ds).map distribution) s =
      (sampleAll? (ds.map distribution) t).map fun (xs, s) => (d.value u₁ u₂ :: xs, s) := by
  cases later : sampleAll? (ds.map distribution) t <;>
    simp [sampleAll?, sample?_eq, found, later]

theorem run_valuesBy_of_some (pair : pair? s = some ((u₁, u₂), t)) (before : List Float) :
    (valuesBy noted (d :: ds) s).run before =
      let (sampled, notes) := (valuesBy noted ds t).run (before ++ d.heard u₁)
      (sampled.map fun (xs, s) => (d.value u₁ u₂ :: xs, s), notes) := by
  have step : (valuesBy noted (d :: ds) s).run before =
      let (x, notes) := (d.valueBy noted u₁ u₂).run before
      let (sampled, notes) := (valuesBy noted ds t).run notes
      (sampled.map fun (xs, s) => (x :: xs, s), notes) := by
    rw [valuesBy, pair]
    rfl
  rw [step, run_valueBy]

theorem exists_two {count : Nat} (enough : 2 * (count + 1) ≤ draws.length) :
    ∃ u₁ u₂ others, draws = u₁ :: u₂ :: others ∧ 2 * count ≤ others.length := by
  obtain ⟨u₁, others, rfl⟩ := List.exists_cons_of_length_pos (l := draws) (by omega)
  rw [List.length_cons] at enough
  obtain ⟨u₂, others, rfl⟩ := List.exists_cons_of_length_pos (l := others) (by omega)
  rw [List.length_cons] at enough
  exact ⟨u₁, u₂, others, rfl, by omega⟩

/-- The numbers are made of the first draws that are not zero, and nothing is taken after the last
one of these. A run that takes notes gives the same numbers. -/
theorem exists_sampleAll? (yields : s.Yields draws last)
    (enough : 2 * ds.length ≤ (nonzeros draws).length) :
    ∃ taken rest t, draws = taken ++ rest ∧
      nonzeros taken = (nonzeros draws).take (2 * ds.length) ∧
      (∀ u ∈ taken.getLast?, (u == 0) = false) ∧ s.Yields taken t ∧ t.Yields rest last ∧
      sampleAll? (ds.map distribution) s = some (values ds (nonzeros draws), t) ∧
      ∀ before, (valuesBy noted ds s).run before =
        (some (values ds (nonzeros draws), t), before ++ (heardAll ds (nonzeros draws)).flatten) := by
  induction ds generalizing s draws with
  | nil =>
    refine ⟨[], draws, s, rfl, rfl, by simp, .nil, yields, rfl, fun before => ?_⟩
    have nothing : heardAll [] (nonzeros draws) = [] := rfl
    rw [nothing, List.flatten_nil, List.append_nil]
    rfl
  | cons d ds ih =>
    obtain ⟨u₁, u₂, others, found, enough⟩ := exists_two enough
    obtain ⟨front, rest, middle, rfl, areFirst, isLast, rfl, yieldsFront, further, pair⟩ :=
      exists_pair? yields found
    obtain ⟨taken, rest, t, rfl, kept, ends, yieldsLater, left, done, noted⟩ :=
      ih further enough
    refine ⟨front ++ taken, rest, t, by simp, ?_, ?_, yieldsFront.append yieldsLater, left, ?_,
      fun before => ?_⟩
    · rw [nonzeros_append, areFirst, kept, found, List.length_cons, Nat.mul_succ]
      rfl
    · intro u isEnd
      rw [List.getLast?_append, isLast] at isEnd
      cases later : taken.getLast? with
      | none =>
        -- nothing more was taken, so the second draw is the last one
        rw [later] at isEnd
        cases isEnd
        have member : u₂ ∈ nonzeros front := by simp [areFirst]
        exact eq_false_of_mem_nonzeros member
      | some v =>
        rw [later] at isEnd
        cases isEnd
        exact ends u later
    · rw [sampleAll?_of_some pair, done, found]
      rfl
    · rw [run_valuesBy_of_some pair, noted, found, heardAll, List.flatten_cons, List.append_assoc]
      rfl

theorem values_spec (enough : 2 * ds.length ≤ draws.length) :
    (values ds draws).length = ds.length ∧ (heardAll ds draws).length = ds.length ∧
      ∀ i d, ds[i]? = some d → ∃ u₁ u₂, draws[2 * i]? = some u₁ ∧ draws[2 * i + 1]? = some u₂ ∧
        (values ds draws)[i]? = some (d.value u₁ u₂) ∧
        (heardAll ds draws)[i]? = some (d.heard u₁) := by
  induction ds generalizing draws with
  | nil => exact ⟨rfl, rfl, by simp⟩
  | cons d ds ih =>
    obtain ⟨u₁, u₂, others, rfl, further⟩ := exists_two enough
    obtain ⟨length, lengthHeard, each⟩ := ih further
    refine ⟨by rw [values, List.length_cons, length, List.length_cons],
      by rw [heardAll, List.length_cons, lengthHeard, List.length_cons], fun i d' isNext => ?_⟩
    cases i with
    | zero =>
      cases isNext
      exact ⟨u₁, u₂, rfl, rfl, rfl, rfl⟩
    | succ i => exact each i d' isNext

/-- A logarithm is taken of zero only if it is taken of a percentile that is zero. -/
theorem exists_zero_heardAll_iff (enough : 2 * ds.length ≤ draws.length)
    (kept : ∀ u ∈ draws, (u == 0) = false) :
    (∃ x ∈ (heardAll ds draws).flatten, (x == 0) = true) ↔
      ∃ d ∈ ds, ∃ x ∈ d.percentiles, (x == 0) = true := by
  induction ds generalizing draws with
  | nil => simp [heardAll]
  | cons d ds ih =>
    obtain ⟨u₁, u₂, others, rfl, further⟩ := exists_two enough
    have keptOthers (u : Float) (member : u ∈ others) : (u == 0) = false :=
      kept u (List.mem_cons_of_mem _ (List.mem_cons_of_mem _ member))
    have keptFirst : (u₁ == 0) = false := kept u₁ List.mem_cons_self
    have now : (∃ x ∈ d.heard u₁, (x == 0) = true) ↔ ∃ x ∈ d.percentiles, (x == 0) = true := by
      simp only [mem_heard]
      constructor
      · rintro ⟨x, rfl | percentile, isZero⟩
        · rw [keptFirst] at isZero
          cases isZero
        · exact ⟨x, percentile, isZero⟩
      · rintro ⟨x, percentile, isZero⟩
        exact ⟨x, .inr percentile, isZero⟩
    rw [heardAll, List.flatten_cons]
    simp only [List.mem_append, or_and_right, exists_or, ih further keptOthers, now,
      List.mem_cons, exists_eq_left]

/-- A number is made of the next two draws that are not zero, and the second of them is the last one
taken. So whatever zeros are put in between the draws or left out, the same numbers follow one after
the other, each from two draws of its own. For each number logarithms are taken of the first of its
draws and of the percentiles of its distribution, and of nothing else; so one is taken of zero only
if a percentile is zero. -/
theorem sampleAll?_spec (ds : List Bell) {draws : List Float}
    (enough : 2 * ds.length ≤ (nonzeros draws).length) :
    (∀ (d : Bell) s t x, d.distribution.sample? s = some (x, t) ↔
      ∃ u₁ u₂ front back, s.Yields (front ++ u₁ :: (back ++ [u₂])) t ∧
        (∀ z ∈ front ++ back, (z == 0) = true) ∧ (u₁ == 0) = false ∧ (u₂ == 0) = false ∧
        x = d.value u₁ u₂) ∧
    ∃ (xs : List Float) (logs : List (List Float)), xs.length = ds.length ∧ logs.length = ds.length ∧
      (∀ i d, ds[i]? = some d → ∃ u₁ u₂ taken, (nonzeros draws)[2 * i]? = some u₁ ∧
        (nonzeros draws)[2 * i + 1]? = some u₂ ∧ xs[i]? = some (d.value u₁ u₂) ∧
        logs[i]? = some taken ∧ ∀ x, x ∈ taken ↔ x = u₁ ∨ x ∈ d.percentiles) ∧
      ((∃ x ∈ logs.flatten, (x == 0) = true) ↔
        ∃ d ∈ ds, ∃ x ∈ d.percentiles, (x == 0) = true) ∧
      ∀ s draws' last, s.Yields draws' last → nonzeros draws' = nonzeros draws →
        ∃ taken rest t, draws' = taken ++ rest ∧
          nonzeros taken = (nonzeros draws).take (2 * ds.length) ∧
          (∀ u ∈ taken.getLast?, (u == 0) = false) ∧ s.Yields taken t ∧ t.Yields rest last ∧
          sampleAll? (ds.map distribution) s = some (xs, t) ∧
          observe ds s = (some (xs, t), logs.flatten) := by
  obtain ⟨length, lengthHeard, each⟩ := values_spec enough
  refine ⟨fun d s t x => ?_, values ds (nonzeros draws), heardAll ds (nonzeros draws), length,
    lengthHeard, fun i d isNext => ?_, ?_, fun s draws' last yields same => ?_⟩
  · rw [sample?_eq_some_iff]
    simp only [pair?_eq_some_iff]
    grind
  · obtain ⟨u₁, u₂, first, second, isValue, isHeard⟩ := each i d isNext
    exact ⟨u₁, u₂, d.heard u₁, first, second, isValue, isHeard, fun _ => mem_heard⟩
  · exact exists_zero_heardAll_iff enough fun _ => eq_false_of_mem_nonzeros
  · rw [← same] at enough
    obtain ⟨taken, rest, t, cut, kept, ends, yieldsTaken, left, done, noted⟩ :=
      exists_sampleAll? yields enough
    rw [same] at kept done noted
    exact ⟨taken, rest, t, cut, kept, ends, yieldsTaken, left, done, noted []⟩

/-- A gaussian and a lognormal distribution, the second with a percentile of zero. -/
def mixed : List Bell := [.gaussian 5 2, .lognormal 0 10]

/-- Zeros of either sign before, between and after the draws that are kept. -/
theorem sampleAll?_spec_interleaved :
    ∃ (xs : List Float) (logs : List (List Float)) (s t : Source),
      2 * mixed.length ≤ (nonzeros [0.5, 0.25, 0.75, 0.1]).length ∧
      nonzeros [0, 0.5, -0.0, 0, 0.25, 0.75, 0, 0.1, 0] = nonzeros [0.5, 0.25, 0.75, 0.1] ∧
      xs[1]? = some (Bell.value (.lognormal 0 10) 0.75 0.1) ∧
      (∃ taken, logs[1]? = some taken ∧ 0.75 ∈ taken ∧ 0 ∈ taken ∧ 10 ∈ taken) ∧
      (∃ x ∈ logs.flatten, (x == 0) = true) ∧
      sampleAll? (mixed.map distribution)
        (.listed [0, 0.5, -0.0, 0, 0.25, 0.75, 0, 0.1, 0]) = some (xs, s) ∧
      sampleAll? (mixed.map distribution) (.listed [0.5, 0.25, 0.75, 0.1]) = some (xs, t) ∧
      observe mixed (.listed [0.5, 0.25, 0.75, 0.1]) = (some (xs, t), logs.flatten) := by
  have enough : 2 * mixed.length ≤ (nonzeros [0.5, 0.25, 0.75, 0.1]).length := by decide +kernel
  have same : nonzeros [0, 0.5, -0.0, 0, 0.25, 0.75, 0, 0.1, 0] =
      nonzeros [0.5, 0.25, 0.75, 0.1] := by decide +kernel
  have third : (nonzeros [0.5, 0.25, 0.75, 0.1])[2]? = some 0.75 := by decide +kernel
  have fourth : (nonzeros [0.5, 0.25, 0.75, 0.1])[3]? = some 0.1 := by decide +kernel
  obtain ⟨-, xs, logs, -, -, each, zero, any⟩ := sampleAll?_spec mixed enough
  obtain ⟨u₁, u₂, taken, first, second, isValue, isTaken, areTaken⟩ :=
    each 1 (.lognormal 0 10) rfl
  obtain rfl := Option.some.inj (first.symm.trans third)
  obtain rfl := Option.some.inj (second.symm.trans fourth)
  obtain ⟨-, -, s, -, -, -, -, -, withZeros, -⟩ := any _ _ _ (Source.yields_listed _) same
  obtain ⟨-, -, t, -, -, -, -, -, without, observed⟩ := any _ _ _ (Source.yields_listed _) rfl
  refine ⟨xs, logs, s, t, enough, same, isValue, ⟨taken, isTaken, ?_⟩, zero.mpr ?_, withZeros,
    without, observed⟩
  · exact ⟨(areTaken _).mpr (.inl rfl), (areTaken _).mpr (.inr List.mem_cons_self),
      (areTaken _).mpr (.inr (List.mem_cons_of_mem _ List.mem_cons_self))⟩
  · exact ⟨.lognormal 0 10, List.mem_cons_of_mem _ List.mem_cons_self, 0, List.mem_cons_self,
      by decide +kernel⟩

/-- The logarithm of a percentile may be one of zero. -/
theorem observe_zeroPercentile :
    ¬∀ (ds : List Bell) (s last : Source) (draws : List Float), s.Yields draws last →
      2 * ds.length ≤ (nonzeros draws).length → ∀ x ∈ (observe ds s).2, (x == 0) = false := by
  intro always
  have yields := Source.yields_listed [0.5, 0.5]
  have enough : 2 * [lognormal 0 10].length ≤ (nonzeros [0.5, 0.5]).length := by decide +kernel
  obtain ⟨_, _, _, _, _, _, _, _, _, noted⟩ := exists_sampleAll? yields enough
  obtain ⟨x, member, isZero⟩ := (exists_zero_heardAll_iff enough
    fun _ => eq_false_of_mem_nonzeros).mpr
    ⟨_, List.mem_cons_self, 0, List.mem_cons_self, by decide +kernel⟩
  have observed : x ∈ (observe [lognormal 0 10] (.listed [0.5, 0.5])).2 := by
    rw [observe, noted []]
    exact member
  rw [always _ _ _ _ yields enough x observed] at isZero
  cases isZero

end Bell

end Reckon.Distribution
