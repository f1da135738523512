import Mathlib.Algebra.Order.Ring.Rat
import Reckon.Proofs.Scalar.Sum
import Reckon.Proofs.Simulation.Histogram
import Reckon.Report.Chart

/-!
The columns of a chart lose no bin and count none twice.

The edges between the groups of bins are whole parts of even steps. With as many bins as columns or
more they are all different, so the groups cut the bins into pieces that follow each other. With
fewer bins two neighbouring edges are one apart at most, so every column shows one bin and every bin
is shown.
-/

set_option autoImplicit false

namespace Reckon.Chart

def edge (count width i : Nat) : Nat :=
  i * count / width

/-- The bins from one index up to another, one bin at least. -/
def group (bins : List Rat) (first last : Nat) : List Rat :=
  (bins.drop first).take (max (first + 1) last - first)

theorem groupSum_exact (bins : List Rat) (first last : Nat) :
    groupSum bins first last = (group bins first last).sum :=
  Scalar.sumInPairs_exact _

/-! ## Edges -/

section

variable {count width : Nat}

@[simp] theorem edge_zero : edge count width 0 = 0 := by
  simp [edge]

theorem edge_last (wide : 1 ≤ width) : edge count width width = count :=
  Nat.mul_div_cancel_left count wide

theorem monotone_edge (count width : Nat) : Monotone (edge count width) := by
  intro i j le
  exact Nat.div_le_div_right (Nat.mul_le_mul_right count le)

theorem edge_lt_succ (wide : 1 ≤ width) (many : width ≤ count) (i : Nat) :
    edge count width i < edge count width (i + 1) := by
  -- a step is as wide as a bin, so it passes a whole number
  have step : edge count width i + 1 = (i * count + width) / width :=
    (Nat.add_div_right _ wide).symm
  refine Nat.lt_of_succ_le (step.le.trans (Nat.div_le_div_right ?_))
  rw [Nat.succ_mul]
  omega

theorem edge_succ_le (wide : 1 ≤ width) (few : count ≤ width) (i : Nat) :
    edge count width (i + 1) ≤ edge count width i + 1 := by
  have step : edge count width i + 1 = (i * count + width) / width :=
    (Nat.add_div_right _ wide).symm
  rw [step]
  refine Nat.div_le_div_right ?_
  rw [Nat.succ_mul]
  omega

theorem edge_lt (some : 1 ≤ count) {i : Nat} (inside : i < width) : edge count width i < count := by
  refine (Nat.div_lt_iff_lt_mul (by omega)).mpr ?_
  rw [Nat.mul_comm count]
  exact Nat.mul_lt_mul_of_pos_right inside some

theorem exists_edge_eq (few : count ≤ width) {j : Nat} (inside : j < count) :
    ∃ i < width, edge count width i = j := by
  have some : 0 < count := by omega
  have wide : 0 < width := by omega
  -- the first step that does not end before the bin
  obtain ⟨i, isFirst⟩ : ∃ i, i = (j * width + (count - 1)) / count := ⟨_, rfl⟩
  have above : j * width ≤ i * count := by
    have rest := Nat.mod_lt (j * width + (count - 1)) some
    have split := Nat.div_add_mod (j * width + (count - 1)) count
    rw [← isFirst, Nat.mul_comm count] at split
    omega
  have below : i * count < j * width + count := by
    have le := Nat.div_mul_le_self (j * width + (count - 1)) count
    rw [← isFirst] at le
    omega
  have next : j * width + width ≤ count * width := by
    rw [← Nat.succ_mul]
    exact Nat.mul_le_mul_right width inside
  refine ⟨i, ?_, ?_⟩
  · refine Nat.lt_of_mul_lt_mul_right (a := count) ?_
    rw [Nat.mul_comm width]
    omega
  · refine Nat.div_eq_of_lt_le above ?_
    rw [Nat.succ_mul]
    omega

theorem groupEdges_exact (count : Nat) (wide : 1 ≤ width) :
    groupEdges Rat count width = (List.range (width + 1)).map (edge count width) := by
  have spaced := Scalar.spaced_exact 0 (count : Rat) (show width ≠ 0 by omega)
  have floor (i : Nat) :
      (Scalar.floor (0 + (i : Rat) * (count - 0) / width)).toNat = edge count width i := by
    have quotient : 0 + (i : Rat) * (count - 0) / width = ((i * count : Nat) : Rat) / width := by
      push_cast
      ring
    rw [quotient]
    exact congrArg Int.toNat (Rat.floor_natCast_div_natCast _ _)
  change (Scalar.spaced (0 : Rat) (count : Rat) width).map _ = _
  rw [spaced, List.map_map]
  exact List.map_congr_left fun i _ => floor i

end

/-! ## Groups -/

section

variable (bins : List Rat) (width : Nat)

def columnGroup (i : Nat) : List Rat :=
  group bins (edge bins.length width i) (edge bins.length width (i + 1))

def groups : List (List Rat) :=
  (List.range width).map (columnGroup bins width)

theorem length_groups : (groups bins width).length = width := by
  simp [groups]

variable {bins width}

theorem columnGroup_ne_nil (some : 1 ≤ bins.length) {i : Nat} (inside : i < width) :
    columnGroup bins width i ≠ [] := by
  have before := edge_lt some inside
  rw [columnGroup, group, ne_eq, List.take_eq_nil_iff, List.drop_eq_nil_iff]
  omega

variable (wide : 1 ≤ width)

include wide

theorem groups_of_length (same : bins.length = width) :
    (groups bins width).map List.sum = bins := by
  refine List.ext_getElem (by simp [groups, same]) fun i inside inside' => ?_
  have self (i : Nat) : edge bins.length width i = i := by
    rw [edge, same]
    exact Nat.mul_div_cancel i wide
  simp [groups, columnGroup, group, self, List.take_one, inside']

/-- The columns of a chart are the sums of the groups, also where each bin is a column. -/
theorem columns_exact [Machine]
    (room : bins.length = width ∨ Machine.points (width + 1) = .ok ()) :
    columns bins width = .ok ((groups bins width).map List.sum) := by
  by_cases same : bins.length = width
  · rw [columns, if_pos (by omega), groups_of_length wide same]
  · have fits := room.resolve_left same
    have pairs : (groupEdges Rat bins.length width).zipWith (groupSum bins)
        ((groupEdges Rat bins.length width).drop 1) = (groups bins width).map List.sum := by
      rw [groupEdges_exact _ wide, groups, List.map_map]
      refine List.ext_getElem (by simp) fun i inside inside' => ?_
      simp [columnGroup, groupSum_exact]
    rw [columns, if_neg (by omega), if_neg (by omega), if_neg (by omega), Int.toNat_natCast, fits,
      ← pairs]
    rfl

theorem columns_refused [Machine] (other : bins.length ≠ width) {refusal : Failure}
    (refused : Machine.points (width + 1) = .error refusal) :
    columns bins width = .error refusal := by
  rw [columns, if_neg (by omega), if_neg (by omega), if_neg (by omega), Int.toNat_natCast, refused]
  rfl

section

variable (many : width ≤ bins.length)

include many

theorem flatten_groups_take (k : Nat) :
    ((List.range k).map (columnGroup bins width)).flatten =
      bins.take (edge bins.length width k) := by
  induction k with
  | zero => simp
  | succ k ih =>
    have next := edge_lt_succ wide many k
    have length : max (edge bins.length width k + 1) (edge bins.length width (k + 1)) -
        edge bins.length width k =
        edge bins.length width (k + 1) - edge bins.length width k := by omega
    rw [List.range_succ, List.map_append, List.flatten_append, ih, List.map_singleton,
      List.flatten_singleton, columnGroup, group, length, ← List.take_add]
    congr 1
    omega

theorem flatten_groups : (groups bins width).flatten = bins := by
  rw [groups, flatten_groups_take wide many, edge_last wide, List.take_length]

end

theorem columnGroup_of_few (some : 1 ≤ bins.length) (few : bins.length ≤ width) {i : Nat}
    (inside : i < width) :
    columnGroup bins width i = [bins.get ⟨edge bins.length width i, edge_lt some inside⟩] := by
  have before := edge_lt some inside
  have step := edge_succ_le wide few i
  have one : max (edge bins.length width i + 1) (edge bins.length width (i + 1)) -
      edge bins.length width i = 1 := by omega
  rw [columnGroup, group, one, List.take_one, List.head?_drop, List.getElem?_eq_getElem before]
  rfl

end

/-- The columns show the bins: as sums of groups that follow each other, or, where there are fewer
bins than columns, one bin each, in order and without leaving one out. -/
structure Shows (bins columns : List Rat) : Prop where
  groups : columns.length ≤ bins.length → ∃ groups : List (List Rat), groups.flatten = bins ∧
    (∀ group ∈ groups, group ≠ []) ∧ columns = groups.map List.sum
  single : bins.length < columns.length → ∃ place : Nat → Nat, Monotone place ∧
    (∀ i < columns.length, place i < bins.length ∧ columns[i]? = bins[place i]?) ∧
    ∀ j < bins.length, ∃ i < columns.length, place i = j

theorem shows_groups {bins : List Rat} {width : Nat} (some : bins ≠ []) (wide : 1 ≤ width) :
    Shows bins ((groups bins width).map List.sum) := by
  have count := List.length_pos_of_ne_nil some
  constructor
  · intro many
    rw [List.length_map, length_groups] at many
    refine ⟨groups bins width, flatten_groups wide many, ?_, rfl⟩
    intro group member
    obtain ⟨i, inside, rfl⟩ := List.mem_map.mp member
    exact columnGroup_ne_nil count (List.mem_range.mp inside)
  · intro few
    rw [List.length_map, length_groups] at few ⊢
    refine ⟨edge bins.length width, monotone_edge _ _, fun i inside => ?_,
      fun j inside => exists_edge_eq few.le inside⟩
    have before := edge_lt count inside
    refine ⟨before, ?_⟩
    rw [List.getElem?_eq_getElem before, groups, List.map_map, List.getElem?_map,
      List.getElem?_range inside, Option.map_some, Function.comp_apply,
      columnGroup_of_few wide count few.le inside, List.sum_singleton, List.get_eq_getElem]

end Reckon.Chart
