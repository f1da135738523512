import Reckon.Proofs.Failing
import Reckon.Proofs.Value.Entries
import Reckon.Proofs.Value.Told

/-!
How deep the parts of a value are nested.

What a value is read for, be it its items or the entries of a record, is nested no deeper than the
value.
-/

set_option autoImplicit false

namespace Reckon.Value

@[simp] theorem depth_bare (v : Value) : v.bare.depth = v.depth := by
  induction v using bare.induct with
  | case1 label value ih => rw [bare, ih, depth]
  | case2 value unlabelled => rw [bare.eq_2 value unlabelled]

theorem depthAmong_le_iff {items : List Value} {bound : Nat} :
    depthAmong items ≤ bound ↔ ∀ item ∈ items, item.depth ≤ bound := by
  induction items with
  | nil => simp [depthAmong]
  | cons item rest ih => rw [depthAmong, Nat.max_le, ih, List.forall_mem_cons]

section

variable {v item : Value} {items : List Value}

theorem depth_le_of_mem_items (done : v.items = .ok items) (member : item ∈ items) :
    item.depth ≤ v.depth := by
  induction v using bare.induct with
  | case1 label value ih =>
    rw [depth]
    exact ih done
  | case2 value unlabelled =>
    cases value with
    | shared label value => exact absurd rfl (unlabelled label value)
    | list parts | tuple parts | array parts | set parts =>
      cases done
      rw [depth]
      exact Nat.le_succ_of_le (depthAmong_le_iff.mp (Nat.le_refl _) item member)
    | record entries =>
      cases done
      obtain ⟨entry, isEntry, rfl⟩ := List.mem_map.mp member
      rw [depth]
      exact Nat.le_succ_of_le (depthIn_le_iff.mp (Nat.le_refl _) entry isEntry).1
    | text s =>
      cases done
      obtain ⟨c, _, rfl⟩ := List.mem_map.mp member
      exact Nat.le_refl _
    | bytes content =>
      cases done
      obtain ⟨byte, _, rfl⟩ := List.mem_map.mp member
      exact Nat.le_refl _
    | _ => cases done

theorem depth_lt_of_mem_list (member : item ∈ items) : item.depth < (list items).depth := by
  rw [depth]
  exact Nat.lt_succ_of_le (depthAmong_le_iff.mp (Nat.le_refl _) item member)

end

/-! ## Records -/

section

variable {v value : Value} {bound : Nat} {record : Entries}

theorem depth_record_le_iff :
    (Value.record record).depth ≤ bound + 1 ↔
      record.Each (fun key => key.depth ≤ bound) fun value => value.depth ≤ bound := by
  rw [depth, Nat.succ_le_succ_iff, depthIn_le_iff]
  rfl

theorem depth_record_pos (record : Entries) : 0 < (Value.record record).depth := by
  rw [depth]
  exact Nat.succ_pos _

theorem depth_lt_of_get? {key : String} (found : record.get? key = some value) :
    value.depth < (Value.record record).depth := by
  obtain ⟨first, member, _⟩ := Entries.mem_of_get? found
  rw [depth]
  exact Nat.lt_succ_of_le (depthIn_le_iff.mp (Nat.le_refl _) _ member).2

theorem depth_getD_lt (record : Entries) (key : String) {usual : Value} (flat : usual.depth = 0) :
    ((record.get? key).getD usual).depth < (Value.record record).depth := by
  cases found : record.get? key with
  | none =>
    rw [Option.getD_none, flat]
    exact depth_record_pos record
  | some value => exact depth_lt_of_get? found

theorem depth_without_le (record : Entries) (key : String) :
    (Value.record (record.without key)).depth ≤ (Value.record record).depth := by
  rw [depth, depth]
  refine Nat.succ_le_succ (depthIn_le_iff.mpr fun entry member => ?_)
  exact depthIn_le_iff.mp (Nat.le_refl _) entry (List.mem_of_mem_filter member)

theorem each_pairs {index : Nat} {items : List Value} {entries : Entries}
    (done : pairs index items = .ok entries) (shallow : ∀ item ∈ items, item.depth ≤ bound) :
    entries.Each (fun key => key.depth ≤ bound) fun value => value.depth ≤ bound := by
  induction items generalizing index entries with
  | nil =>
    cases done
    exact List.forall_mem_nil _
  | cons item items ih =>
    obtain ⟨first, others⟩ := List.forall_mem_cons.mp shallow
    rw [pairs] at done
    split at done
    · cases done
    · next key value parts =>
      have part {v : Value} (member : v ∈ [key, value]) : v.depth ≤ bound :=
        Nat.le_trans (depth_le_of_mem_items parts member) first
      split at done
      · cases done
      · obtain ⟨rest, isRest, done⟩ := bind_eq_ok.mp done
        cases done
        exact List.forall_mem_cons.mpr ⟨⟨part (by simp), part (by simp)⟩, ih isRest others⟩
    · cases done

/-- The pairs in a list may be texts, so the record that they make is one level deeper. -/
theorem depth_toRecord_le (done : v.toRecord = .ok record) :
    (Value.record record).depth ≤ v.depth + 1 := by
  rw [← depth_bare v]
  have ofItems {value : Value} (done : (do
        let items ← value.items
        let pairs ← pairs 0 items
        return Entries.ofPairs pairs) = .ok record) :
      (Value.record record).depth ≤ value.depth + 1 := by
    obtain ⟨items, isItems, done⟩ := bind_eq_ok.mp done
    obtain ⟨entries, isPairs, done⟩ := bind_eq_ok.mp done
    cases done
    have each := each_pairs isPairs fun item => depth_le_of_mem_items isItems
    exact depth_record_le_iff.mpr each.ofPairs
  unfold toRecord at done
  generalize v.bare = value at done ⊢
  cases value with
  | record entries =>
    cases done
    exact Nat.le_succ _
  | _ => exact ofItems done

end

end Reckon.Value
