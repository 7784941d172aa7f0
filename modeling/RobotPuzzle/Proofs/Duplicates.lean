import Mathlib.Data.List.Basic

/-! Lists without the items that came before. -/

namespace RobotPuzzle

variable {α : Type} [BEq α] [LawfulBEq α]

theorem eraseDups_of_nodup {items : List α} (distinct : items.Nodup) : items.eraseDups = items := by
  induction items with
  | nil => rfl
  | cons first rest ih =>
      obtain ⟨apart, distinctRest⟩ := List.nodup_cons.1 distinct
      have kept : rest.filter (fun item => !item == first) = rest := by
        rw [List.filter_eq_self]
        intro item member
        have different : item ≠ first := fun same => apart (same ▸ member)
        simpa using different
      rw [List.eraseDups_cons, kept, ih distinctRest]

theorem eraseDups_append_of_mem {items : List α} {item : α} (member : item ∈ items)
    (more : List α) : (items ++ item :: more).eraseDups = (items ++ more).eraseDups := by
  have dropped : (item :: more).removeAll items = more.removeAll items := by
    simp [List.removeAll, member]
  rw [List.eraseDups_append, List.eraseDups_append, dropped]

theorem eraseDups_append_of_subset {items more : List α} (subset : more ⊆ items) :
    (items ++ more).eraseDups = items.eraseDups := by
  induction more with
  | nil => rw [List.append_nil]
  | cons first rest ih =>
      obtain ⟨member, restSubset⟩ := List.cons_subset.1 subset
      rw [eraseDups_append_of_mem member, ih restSubset]

theorem nodup_eraseDups : ∀ items : List α, items.eraseDups.Nodup
  | [] => by simp
  | first :: rest => by
      rw [List.eraseDups_cons, List.nodup_cons]
      constructor
      · intro again
        rw [List.mem_eraseDups, List.mem_filter] at again
        simp at again
      · exact nodup_eraseDups (rest.filter fun item => !item == first)
termination_by items => items.length
decreasing_by
  have shorter := List.length_filter_le (fun item => !item == first) rest
  simp only [List.length_cons]
  omega

theorem eraseDups_eraseDups_append (items more : List α) :
    (items.eraseDups ++ more).eraseDups = (items ++ more).eraseDups := by
  have same : more.removeAll items.eraseDups = more.removeAll items := by
    refine List.filter_congr fun item _ => ?_
    simp [List.mem_eraseDups]
  rw [List.eraseDups_append, List.eraseDups_append, same, eraseDups_of_nodup (nodup_eraseDups items)]

end RobotPuzzle
