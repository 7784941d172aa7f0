/-!
Finite maps as lists of entries in strictly increasing key order. The order is part of the type,
so two maps with the same entries are equal and printing a map needs no sorting.
-/

namespace RobotPuzzle

/-- Entries in strictly increasing key order, at most one for each key. -/
structure SortedMap (κ : Type) (ν : Type) [Ord κ] where
  entries : List (κ × ν)
  ordered : entries.Pairwise fun earlier later => compare earlier.1 later.1 = .lt
deriving DecidableEq

namespace SortedMap

variable {κ ν : Type} [Ord κ]

theorem ext_entries {left right : SortedMap κ ν} (same : left.entries = right.entries) :
    left = right := by
  cases left; cases right; simp_all

def empty : SortedMap κ ν := ⟨[], .nil⟩

instance : EmptyCollection (SortedMap κ ν) := ⟨empty⟩

instance : Inhabited (SortedMap κ ν) := ⟨empty⟩

def keys (map : SortedMap κ ν) : List κ := map.entries.map (·.1)

def values (map : SortedMap κ ν) : List ν := map.entries.map (·.2)

def size (map : SortedMap κ ν) : Nat := map.entries.length

def get? (map : SortedMap κ ν) (key : κ) : Option ν :=
  (map.entries.find? fun entry => compare key entry.1 == .eq).map (·.2)

def contains (map : SortedMap κ ν) (key : κ) : Bool := (map.get? key).isSome

/-- Places an entry in a list in key order; an entry with the same key is replaced. -/
def insertEntry (key : κ) (value : ν) : List (κ × ν) → List (κ × ν)
  | [] => [(key, value)]
  | (other, kept) :: rest =>
    match compare key other with
    | .lt => (key, value) :: (other, kept) :: rest
    | .eq => (other, value) :: rest
    | .gt => (other, kept) :: insertEntry key value rest

theorem mem_insertEntry {key : κ} {value : ν} {entry : κ × ν} {entries : List (κ × ν)}
    (member : entry ∈ insertEntry key value entries) :
    entry.1 = key ∨ ∃ found ∈ entries, found.1 = entry.1 := by
  induction entries with
  | nil => simp_all [insertEntry]
  | cons first rest ih =>
    obtain ⟨other, kept⟩ := first
    simp only [insertEntry] at member
    split at member
    · rcases List.mem_cons.1 member with rfl | member
      · exact .inl rfl
      · exact .inr ⟨entry, member, rfl⟩
    · rcases List.mem_cons.1 member with rfl | member
      · exact .inr ⟨(other, kept), by simp, rfl⟩
      · exact .inr ⟨entry, by simp [member], rfl⟩
    · rcases List.mem_cons.1 member with rfl | member
      · exact .inr ⟨(other, kept), by simp, rfl⟩
      · rcases ih member with same | ⟨found, inRest, same⟩
        · exact .inl same
        · exact .inr ⟨found, by simp [inRest], same⟩

theorem insertEntry_ordered [Std.TransOrd κ] {key : κ} {value : ν} {entries : List (κ × ν)}
    (ordered : entries.Pairwise fun earlier later => compare earlier.1 later.1 = .lt) :
    (insertEntry key value entries).Pairwise
      fun earlier later => compare earlier.1 later.1 = .lt := by
  induction entries with
  | nil => simp [insertEntry]
  | cons first rest ih =>
    obtain ⟨other, kept⟩ := first
    rw [List.pairwise_cons] at ordered
    obtain ⟨below, tailOrdered⟩ := ordered
    simp only [insertEntry]
    split
    next isLt =>
      refine List.pairwise_cons.2 ⟨?_, List.pairwise_cons.2 ⟨below, tailOrdered⟩⟩
      intro entry member
      rcases List.mem_cons.1 member with rfl | member
      · exact isLt
      · exact Std.TransCmp.lt_trans isLt (below entry member)
    next => exact List.pairwise_cons.2 ⟨below, tailOrdered⟩
    next isGt =>
      refine List.pairwise_cons.2 ⟨?_, ih tailOrdered⟩
      intro entry member
      rcases mem_insertEntry member with same | ⟨found, inRest, same⟩
      · simpa [same] using Std.OrientedCmp.lt_of_gt isGt
      · simpa [same] using below found inRest

def insert [Std.TransOrd κ] (map : SortedMap κ ν) (key : κ) (value : ν) : SortedMap κ ν :=
  ⟨insertEntry key value map.entries, insertEntry_ordered map.ordered⟩

def erase (map : SortedMap κ ν) (key : κ) : SortedMap κ ν :=
  ⟨map.entries.filter fun entry => compare key entry.1 != .eq, map.ordered.filter _⟩

def modify (map : SortedMap κ ν) (key : κ) (change : ν → ν) : SortedMap κ ν :=
  ⟨map.entries.map fun entry =>
      (entry.1, if compare key entry.1 == .eq then change entry.2 else entry.2),
    List.pairwise_map.2 map.ordered⟩

/-- Stores the entries of a list from left to right: of two with one key the later stays. -/
def ofList [Std.TransOrd κ] (entries : List (κ × ν)) : SortedMap κ ν :=
  entries.foldl (fun map entry => map.insert entry.1 entry.2) empty

end SortedMap

end RobotPuzzle
