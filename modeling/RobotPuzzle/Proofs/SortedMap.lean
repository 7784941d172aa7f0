import Mathlib.Algebra.GroupWithZero.Nat
import Mathlib.Data.List.Sort
import RobotPuzzle.SortedMap

/-! Lookups in a sorted map after each operation, its keys, and sums of stored numbers. -/

namespace RobotPuzzle.SortedMap

variable {κ ν : Type} [Ord κ]

@[simp] theorem get?_empty (key : κ) : (∅ : SortedMap κ ν).get? key = none := rfl

section

variable [Std.LawfulEqOrd κ] [DecidableEq κ]

theorem get?_erase (map : SortedMap κ ν) (key other : κ) :
    (map.erase key).get? other = if other = key then none else map.get? other := by
  obtain ⟨entries, ordered⟩ := map
  simp only [get?, erase, List.find?_filter]
  by_cases same : other = key
  · subst same
    simp
  · rw [if_neg same]
    congr 2
    funext entry
    by_cases here : other = entry.1
    · simp [← here, Ne.symm same]
    · simp [here]

theorem get?_eq_some_iff {map : SortedMap κ ν} {key : κ} {value : ν} :
    map.get? key = some value ↔ (key, value) ∈ map.entries := by
  obtain ⟨entries, ordered⟩ := map
  simp only [get?]
  induction entries with
  | nil => simp
  | cons first rest ih =>
      obtain ⟨place, kept⟩ := first
      rw [List.pairwise_cons] at ordered
      by_cases here : key = place
      · subst here
        have fresh : (key, value) ∉ rest := by
          intro member
          simpa [Std.compare_self] using ordered.1 _ member
        simp [fresh, eq_comm]
      · simpa [List.find?_cons, here, Std.compare_eq_iff_eq] using ih ordered.2

theorem mem_values_iff {map : SortedMap κ ν} {value : ν} :
    value ∈ map.values ↔ ∃ key, map.get? key = some value := by
  simp [values, get?_eq_some_iff]

omit [DecidableEq κ] in
theorem keys_nodup (map : SortedMap κ ν) : (map.entries.map (·.1)).Nodup := by
  refine List.pairwise_map.2 (map.ordered.imp ?_)
  intro earlier later isLt same
  simp [same, Std.compare_self] at isLt

omit [DecidableEq κ] in
theorem nodup_entries (map : SortedMap κ ν) : map.entries.Nodup := by
  refine map.ordered.imp ?_
  rintro earlier later isLt rfl
  simp [Std.compare_self] at isLt

theorem values_erase_perm (map : SortedMap κ ν) (key : κ) :
    ((map.erase key).values ++ (map.get? key).toList).Perm map.values := by
  have split : ((map.erase key).entries ++ ((map.get? key).map (key, ·)).toList).Perm
      map.entries := by
    have member : ∀ place value, (place, value) ∈ (map.erase key).entries ↔
        place ≠ key ∧ (place, value) ∈ map.entries := by
      intro place value
      rw [← get?_eq_some_iff, get?_erase, ← get?_eq_some_iff]
      by_cases same : place = key <;> simp [same]
    refine (List.perm_ext_iff_of_nodup ?_ map.nodup_entries).2 ?_
    · refine List.nodup_append'.2 ⟨(map.erase key).nodup_entries, ?_, ?_⟩
      · cases map.get? key <;> simp
      · rintro ⟨place, value⟩ kept here
        have same : key = place := by
          obtain ⟨_, -, same⟩ : ∃ held, map.get? key = some held ∧ (key, held) = (place, value) := by
            simpa using here
          exact congrArg Prod.fst same
        exact ((member place value).1 kept).1 same.symm
    · rintro ⟨place, value⟩
      rw [List.mem_append, member]
      by_cases same : place = key
      · subst same
        simp [get?_eq_some_iff]
      · simp [same, Ne.symm same]
  have values := split.map (·.2)
  rw [List.map_append] at values
  cases held : map.get? key <;> simpa [held, SortedMap.values] using values

def filterMap {μ : Type} (map : SortedMap κ ν) (change : ν → Option μ) : SortedMap κ μ where
  entries := map.entries.filterMap fun entry => (change entry.2).map fun value => (entry.1, value)
  ordered := by
    refine map.ordered.filterMap _ ?_
    intro earlier later isLt first firstKept second secondKept
    obtain ⟨_, -, rfl⟩ := Option.map_eq_some_iff.1 firstKept
    obtain ⟨_, -, rfl⟩ := Option.map_eq_some_iff.1 secondKept
    exact isLt

theorem get?_filterMap {μ : Type} (map : SortedMap κ ν) (change : ν → Option μ) (key : κ) :
    (map.filterMap change).get? key = (map.get? key).bind change := by
  apply Option.ext
  intro value
  rw [get?_eq_some_iff, Option.bind_eq_some_iff]
  simp only [filterMap, List.mem_filterMap, Option.map_eq_some_iff, Prod.mk.injEq, Prod.exists,
    get?_eq_some_iff]
  constructor
  · rintro ⟨place, held, member, result, kept, rfl, rfl⟩
    exact ⟨held, member, kept⟩
  · rintro ⟨held, member, kept⟩
    exact ⟨key, held, member, value, kept, rfl, rfl⟩

theorem lookup_entries (map : SortedMap κ ν) (key : κ) : map.entries.lookup key = map.get? key := by
  obtain ⟨entries, ordered⟩ := map
  simp only [get?]
  clear ordered
  induction entries with
  | nil => rfl
  | cons first rest ih =>
      obtain ⟨place, kept⟩ := first
      by_cases here : key = place
      · simp [here]
      · have passed : (key == place) = false := beq_false_of_ne here
        simpa [List.lookup_cons, passed, here, Std.compare_eq_iff_eq] using ih

theorem filter_entries (map : SortedMap κ ν) (key : κ) :
    (map.entries.filter fun entry => entry.1 == key) =
      ((map.get? key).map fun value => (key, value)).toList := by
  obtain ⟨entries, ordered⟩ := map
  simp only [get?]
  induction entries with
  | nil => rfl
  | cons first rest ih =>
      obtain ⟨place, kept⟩ := first
      rw [List.pairwise_cons] at ordered
      by_cases here : place = key
      · subst here
        have others : (rest.filter fun entry => entry.1 == place) = [] := by
          rw [List.filter_eq_nil_iff]
          intro entry member same
          rw [beq_iff_eq] at same
          simpa [same, Std.compare_self] using ordered.1 entry member
        simp [others]
      · have passed : compare key place ≠ .eq := fun same =>
          here (Std.compare_eq_iff_eq.1 same).symm
        simpa [here, passed] using ih ordered.2

variable [Std.TransOrd κ]

theorem ext_get? {left right : SortedMap κ ν} (same : ∀ key, left.get? key = right.get? key) :
    left = right := by
  have irreflexive : Std.Irrefl fun earlier later : κ × ν => compare earlier.1 later.1 = .lt :=
    ⟨fun entry isLt => by simp [Std.compare_self] at isLt⟩
  have antisymmetric : Std.Antisymm fun earlier later : κ × ν =>
      compare earlier.1 later.1 = .lt := by
    refine ⟨fun first second isLt isGt => ?_⟩
    have loop := Std.TransCmp.lt_trans isLt isGt
    simp [Std.compare_self] at loop
  refine ext_entries (left.ordered.eq_of_mem_iff right.ordered ?_)
  rintro ⟨key, value⟩
  simp only [← get?_eq_some_iff, same]

theorem filter_entries_congr {left right : SortedMap κ ν} {keep keepToo : ν → Bool}
    (same : ∀ key, (left.get? key).filter keep = (right.get? key).filter keepToo) :
    (left.entries.filter fun entry => keep entry.2) =
      right.entries.filter fun entry => keepToo entry.2 := by
  have kept : ∀ (map : SortedMap κ ν) (keep : ν → Bool),
      (map.filterMap (Option.guard keep)).entries = map.entries.filter fun entry => keep entry.2 := by
    intro map keep
    rw [filterMap, ← List.filterMap_eq_filter]
    refine List.filterMap_congr fun entry _ => ?_
    by_cases stays : keep entry.2 = true <;> simp [Option.guard, stays]
  rw [← kept, ← kept]
  congr 1
  refine ext_get? fun key => ?_
  rw [get?_filterMap, get?_filterMap, Option.bind_guard, Option.bind_guard]
  exact same key

theorem get?_insert (map : SortedMap κ ν) (key other : κ) (value : ν) :
    (map.insert key value).get? other = if other = key then some value else map.get? other := by
  obtain ⟨entries, ordered⟩ := map
  simp only [get?, insert]
  clear ordered
  induction entries with
  | nil => by_cases same : other = key <;> simp [insertEntry, same]
  | cons first rest ih =>
      obtain ⟨place, kept⟩ := first
      simp only [insertEntry]
      split
      next => by_cases same : other = key <;> simp [same]
      next isEq =>
        have same : key = place := Std.compare_eq_iff_eq.1 isEq
        subst same
        by_cases same : other = key <;> simp [same]
      next isGt =>
        have different : key ≠ place := by
          intro same
          subst same
          simp [Std.compare_self] at isGt
        by_cases here : other = place
        · simp [here, different.symm]
        · simpa [List.find?_cons, here, Std.compare_eq_iff_eq] using ih

@[simp] theorem get?_insert_self (map : SortedMap κ ν) (key : κ) (value : ν) :
    (map.insert key value).get? key = some value := by
  simp [get?_insert]

theorem get?_insert_of_ne {map : SortedMap κ ν} {key other : κ} {value : ν}
    (different : other ≠ key) : (map.insert key value).get? other = map.get? other := by
  simp [get?_insert, different]

theorem insert_eq_self {map : SortedMap κ ν} {key : κ} {value : ν}
    (held : map.get? key = some value) : map.insert key value = map := by
  apply ext_get?
  intro other
  rw [get?_insert]
  split
  next here => rw [here, held]
  next => rfl

theorem erase_eq_self {map : SortedMap κ ν} {key : κ} (absent : map.get? key = none) :
    map.erase key = map := by
  apply ext_get?
  intro other
  rw [get?_erase]
  split
  next here => rw [here, absent]
  next => rfl

@[simp] theorem insert_erase (map : SortedMap κ ν) (key : κ) (value : ν) :
    (map.erase key).insert key value = map.insert key value := by
  apply ext_get?
  intro other
  rw [get?_insert, get?_insert, get?_erase]
  split <;> rfl

@[simp] theorem erase_insert (map : SortedMap κ ν) (key : κ) (value : ν) :
    (map.insert key value).erase key = map.erase key := by
  apply ext_get?
  intro other
  rw [get?_erase, get?_erase, get?_insert]
  split <;> rfl

theorem keys_insert_of_get?_eq_some {map : SortedMap κ ν} {key : κ} {old : ν} (value : ν)
    (found : map.get? key = some old) : (map.insert key value).keys = map.keys := by
  rw [get?_eq_some_iff] at found
  obtain ⟨entries, ordered⟩ := map
  simp only [keys, insert] at found ⊢
  induction entries with
  | nil => simp at found
  | cons first rest ih =>
      obtain ⟨place, kept⟩ := first
      rw [List.pairwise_cons] at ordered
      simp only [insertEntry]
      split
      next isLt =>
        rcases List.mem_cons.1 found with here | member
        · obtain ⟨rfl, rfl⟩ := Prod.mk.inj here
          simp [Std.compare_self] at isLt
        · have above := Std.TransCmp.lt_trans isLt (ordered.1 _ member)
          simp [Std.compare_self] at above
      next => rfl
      next isGt =>
        rcases List.mem_cons.1 found with here | member
        · obtain ⟨rfl, rfl⟩ := Prod.mk.inj here
          simp [Std.compare_self] at isGt
        · simp [ih ordered.2 member]

omit [Std.LawfulEqOrd κ] [DecidableEq κ] in
theorem entries_insert_of_lt {map : SortedMap κ ν} {key : κ} (value : ν)
    (above : ∀ entry ∈ map.entries, compare entry.1 key = .lt) :
    (map.insert key value).entries = map.entries ++ [(key, value)] := by
  obtain ⟨entries, ordered⟩ := map
  simp only [insert] at above ⊢
  clear ordered
  induction entries with
  | nil => rfl
  | cons first rest ih =>
      obtain ⟨place, kept⟩ := first
      rw [List.forall_mem_cons] at above
      have below : compare key place = .gt := Std.OrientedCmp.gt_of_lt above.1
      simp [insertEntry, below, ih above.2]

theorem get?_foldl_insert (entries : List (κ × ν)) (map : SortedMap κ ν)
    (distinct : (entries.map (·.1)).Nodup) (key : κ) (value : ν) :
    (entries.foldl (fun map entry => map.insert entry.1 entry.2) map).get? key = some value ↔
      (key, value) ∈ entries ∨ key ∉ entries.map (·.1) ∧ map.get? key = some value := by
  induction entries generalizing map with
  | nil => simp
  | cons first rest ih =>
      obtain ⟨place, kept⟩ := first
      simp only [List.map_cons, List.nodup_cons] at distinct
      rw [List.foldl_cons, ih _ distinct.2, get?_insert]
      by_cases here : key = place
      · subst here
        have absent : (key, value) ∉ rest := fun member =>
          distinct.1 (List.mem_map.2 ⟨_, member, rfl⟩)
        simp [absent, distinct.1, eq_comm]
      · simp [here]

theorem get?_ofList {entries : List (κ × ν)} (distinct : (entries.map (·.1)).Nodup) (key : κ)
    (value : ν) : (ofList entries).get? key = some value ↔ (key, value) ∈ entries := by
  have stored := get?_foldl_insert entries empty distinct key value
  simpa [ofList, show (empty : SortedMap κ ν).get? key = none from rfl] using stored

theorem ofList_entries (map : SortedMap κ ν) : ofList map.entries = map := by
  refine ext_get? fun key => Option.ext fun value => ?_
  rw [get?_ofList map.keys_nodup, get?_eq_some_iff]

def sortEntries (entries : List (κ × ν)) : List (κ × ν) :=
  entries.mergeSort fun earlier later => (compare earlier.1 later.1).isLE

omit [Std.LawfulEqOrd κ] [DecidableEq κ] [Std.TransOrd κ] in
theorem sortEntries_perm (entries : List (κ × ν)) : (sortEntries entries).Perm entries :=
  entries.mergeSort_perm _

omit [Std.LawfulEqOrd κ] [DecidableEq κ] [Std.TransOrd κ] in
theorem map_sortEntries {μ : Type} (entries : List (κ × ν)) (change : ν → μ) :
    (sortEntries entries).map (fun entry => (entry.1, change entry.2)) =
      sortEntries (entries.map fun entry => (entry.1, change entry.2)) :=
  List.map_mergeSort fun _ _ _ _ => rfl

theorem entries_ofList {entries : List (κ × ν)} (distinct : (entries.map (·.1)).Nodup) :
    (ofList entries).entries = sortEntries entries := by
  have upward : (sortEntries entries).Pairwise fun earlier later =>
      (compare earlier.1 later.1).isLE := by
    refine List.pairwise_mergeSort (fun _ _ _ => Std.TransCmp.isLE_trans) ?_ entries
    intro first second
    cases order : compare first.1 second.1 with
    | lt | eq => rfl
    | gt => simp [Std.OrientedCmp.lt_of_gt order]
  have apart : (sortEntries entries).Pairwise fun earlier later => earlier.1 ≠ later.1 :=
    List.pairwise_map.1 (((sortEntries_perm entries).map Prod.fst).nodup_iff.2 distinct)
  have ordered : (sortEntries entries).Pairwise fun earlier later =>
      compare earlier.1 later.1 = .lt := by
    refine (upward.and apart).imp ?_
    rintro earlier later ⟨below, different⟩
    cases order : compare earlier.1 later.1 with
    | lt => rfl
    | eq => exact absurd (Std.compare_eq_iff_eq.1 order) different
    | gt => simp [order] at below
  have same : ofList entries = ⟨sortEntries entries, ordered⟩ := by
    apply ext_get?
    intro key
    apply Option.ext
    intro value
    rw [get?_ofList distinct, get?_eq_some_iff]
    exact (sortEntries_perm entries).mem_iff.symm
  exact congrArg SortedMap.entries same

theorem mem_of_mem_foldl_insert {entries : List (κ × ν)} {map : SortedMap κ ν} {entry : κ × ν}
    (member : entry ∈ (entries.foldl (fun map entry => map.insert entry.1 entry.2) map).entries) :
    entry ∈ entries ∨ entry ∈ map.entries := by
  induction entries generalizing map with
  | nil => exact .inr member
  | cons first rest ih =>
      rcases ih member with later | before
      · exact .inl (List.mem_cons_of_mem _ later)
      · rw [← get?_eq_some_iff, get?_insert] at before
        split at before
        next same =>
          obtain ⟨key, value⟩ := entry
          obtain rfl : key = first.1 := same
          obtain rfl := Option.some.inj before
          exact .inl List.mem_cons_self
        next => exact .inr (get?_eq_some_iff.1 before)

theorem mem_of_mem_ofList {entries : List (κ × ν)} {entry : κ × ν}
    (member : entry ∈ (ofList entries).entries) : entry ∈ entries :=
  (mem_of_mem_foldl_insert member).resolve_right List.not_mem_nil

end

theorem sum_values_insert [Std.TransOrd κ] (map : SortedMap κ ν) (size : ν → Nat) (key : κ)
    (value : ν) :
    ((map.insert key value).values.map size).sum + ((map.get? key).map size).getD 0 =
      (map.values.map size).sum + size value := by
  obtain ⟨entries, ordered⟩ := map
  simp only [values, insert, get?]
  induction entries with
  | nil => simp [insertEntry]
  | cons first rest ih =>
      obtain ⟨place, kept⟩ := first
      have tail := ih (List.pairwise_cons.1 ordered).2
      simp only [insertEntry]
      split
      next isLt =>
        have absent : ((place, kept) :: rest).find? (fun entry => compare key entry.1 == .eq) =
            none := by
          rw [List.find?_eq_none]
          intro entry member
          have below : compare key entry.1 = .lt := by
            rcases List.mem_cons.1 member with rfl | inRest
            · exact isLt
            · exact Std.TransCmp.lt_trans isLt ((List.pairwise_cons.1 ordered).1 entry inRest)
          simp [below]
        simp only [absent, List.map_cons, List.sum_cons, Option.map_none, Option.getD_none]
        omega
      next isEq =>
        simp only [List.find?_cons, isEq, List.map_cons, List.sum_cons, beq_self_eq_true,
          Option.map_some, Option.getD_some]
        omega
      next isGt =>
        have notHere : (compare key place == .eq) = false := by simp [isGt]
        simp only [List.find?_cons, notHere, List.map_cons, List.sum_cons]
        omega

end RobotPuzzle.SortedMap
