import RobotPuzzle.Json.Record
import RobotPuzzle.Proofs.Json.Double
import RobotPuzzle.Proofs.SortedMap

/-!
Writers and readers that lose nothing, and how those of a record come from those of its members.
-/

namespace RobotPuzzle.Json

/-- The values that a text can have: it has no way to write a number that is not finite. -/
inductive Finite : Json → Prop
  | null : Finite .null
  | bool (value : Bool) : Finite (.bool value)
  | int (value : Int) : Finite (.int value)
  | float (value : Float) (finite : value.isFinite = true) : Finite (.float value)
  | str (value : String) : Finite (.str value)
  | arr (items : List Json) (each : ∀ item ∈ items, Finite item) : Finite (.arr items)
  | obj (members : List (String × Json)) (each : ∀ entry ∈ members, Finite entry.2) :
      Finite (.obj members)
  | unfit : Finite .unfit

def Members.Finite (members : Members) : Prop := ∀ entry ∈ members.entries, entry.2.Finite

def Sound {α : Type} (fit : α → Prop) (read : Json → Option α) : Prop :=
  ∀ json value, json.Finite → read json = some value → fit value

/-- A value that is fit to be written is read back, and every value that is read is fit. -/
structure Lossless {α : Type} (fit : α → Prop) (write : α → Json) (read : Json → Option α) :
    Prop where
  read_write : ∀ value, fit value → read (write value) = some value
  sound : Sound fit read

variable {α κ ν : Type} {fit : α → Prop} {write : α → Json} {read : Json → Option α}
variable {json : Json} {members : Members} {names : List String} {name other : String}
variable {entries : List (String × Json)}

/-! Plain values. -/

@[simp] theorem str?_str (text : String) : (Json.str text).str? = some text := rfl

@[simp] theorem bool?_bool (value : Bool) : (Json.bool value).bool? = some value := rfl

theorem lossless_str : Lossless (fun _ => True) .str str? where
  read_write text _ := str?_str text
  sound _ _ _ _ := trivial

theorem int?_eq_some_iff {low high value : Int} :
    json.int? low high = some value ↔ json = .int value ∧ low ≤ value ∧ value < high := by
  cases json with
  | int number =>
      simp only [int?, Json.int.injEq]
      constructor
      · intro found
        split at found
        next inside =>
          obtain rfl := Option.some.inj found
          exact ⟨rfl, inside⟩
        next => contradiction
      · rintro ⟨rfl, inside⟩
        rw [if_pos inside]
  | _ => simp [int?]

theorem lossless_int64 : Lossless
    (fun value => -0x8000000000000000 ≤ value ∧ value < 0x8000000000000000) .int int64? where
  read_write _ inside := int?_eq_some_iff.2 ⟨rfl, inside⟩
  sound _ _ _ found := (int?_eq_some_iff.1 found).2

theorem nat?_eq_some_iff {bound value : Nat} :
    json.nat? bound = some value ↔ json = ofNat value ∧ value < bound := by
  simp only [nat?, Option.map_eq_some_iff, int?_eq_some_iff, ofNat]
  constructor
  · rintro ⟨number, ⟨rfl, lower, upper⟩, rfl⟩
    rw [Int.toNat_of_nonneg lower]
    exact ⟨rfl, by omega⟩
  · rintro ⟨rfl, below⟩
    exact ⟨value, ⟨rfl, by omega, by omega⟩, Int.toNat_natCast value⟩

theorem lossless_nat (bound : Nat) : Lossless (· < bound) ofNat (nat? bound) where
  read_write _ below := nat?_eq_some_iff.2 ⟨rfl, below⟩
  sound _ _ _ found := (nat?_eq_some_iff.1 found).2

@[simp] theorem uint32?_ofNat (value : UInt32) : (ofNat value.toNat).uint32? = some value := by
  have read := nat?_eq_some_iff.2 ⟨rfl, value.toNat_lt⟩
  simp [uint32?, UInt32.size, read]

@[simp] theorem uint64?_ofNat (value : UInt64) : (ofNat value.toNat).uint64? = some value := by
  have read := nat?_eq_some_iff.2 ⟨rfl, value.toNat_lt⟩
  simp [uint64?, UInt64.size, read]

theorem lossless_float : Lossless (fun value => value.isFinite = true) ofFloat float? where
  read_write value finite := by
    rw [ofFloat, if_pos finite]
    rfl
  sound json value finite found := by
    cases finite with
    | float number finite => exact Option.some.inj found ▸ finite
    | int number => exact Option.some.inj found ▸ isFinite_floatOfInt number
    | _ => contradiction

/-! The steps of a reader are taken apart as they stand: `Option.bind` has a rule of its own for
rewriting under it, with which the time for `simp` doubles with every step. -/

theorem bind_eq_some_iff {β : Type} {step : Option α} {next : α → Option β} {result : β} :
    (step >>= next) = some result ↔ ∃ value, step = some value ∧ next value = some result :=
  Option.bind_eq_some_iff

theorem pure_eq_some_iff {value result : α} :
    (pure value : Option α) = some result ↔ value = result :=
  Option.some_inj

@[simp] theorem some_bind {β : Type} (value : α) (next : α → Option β) :
    (some value >>= next) = next value := rfl

/-! Lists and maps. -/

theorem mapM_map_eq_some {β : Type} {encode : α → β} {decode : β → Option α} {values : List α}
    (each : ∀ value ∈ values, decode (encode value) = some value) :
    (values.map encode).mapM decode = some values := by
  induction values with
  | nil => rfl
  | cons first rest ih =>
      rw [List.forall_mem_cons] at each
      simp [List.mapM_cons, each.1, ih each.2]

theorem exists_of_mem_mapM {β : Type} {decode : α → Option β} {items : List α} {values : List β}
    (read : items.mapM decode = some values) {value : β} (member : value ∈ values) :
    ∃ item ∈ items, decode item = some value := by
  induction items generalizing values with
  | nil => simp_all
  | cons first rest ih =>
      simp only [List.mapM_cons, bind_eq_some_iff, pure_eq_some_iff] at read
      obtain ⟨head, headRead, tail, tailRead, rfl⟩ := read
      rcases List.mem_cons.1 member with rfl | later
      · exact ⟨first, List.mem_cons_self, headRead⟩
      · obtain ⟨item, inRest, itemRead⟩ := ih tailRead later
        exact ⟨item, List.mem_cons_of_mem _ inRest, itemRead⟩

theorem Sound.list (sound : Sound fit read) :
    Sound (fun values => ∀ value ∈ values, fit value) (list? read) := by
  intro json values finite found
  cases finite with
  | arr items each =>
      intro value member
      obtain ⟨item, inItems, itemRead⟩ := exists_of_mem_mapM found member
      exact sound item value (each item inItems) itemRead
  | _ => contradiction

theorem Lossless.list (lossless : Lossless fit write read) :
    Lossless (fun values => ∀ value ∈ values, fit value) (ofList write) (list? read) where
  read_write _ fits :=
    mapM_map_eq_some fun value member => lossless.read_write value (fits value member)
  sound := lossless.sound.list

section

variable [Ord κ] [Std.TransOrd κ] [Std.LawfulEqOrd κ] [DecidableEq κ] {fitKey : κ → Prop}
variable {keyName : κ → String} {key? : String → Option κ}

/-- Keys are written as names, so they need a reader of their own. -/
theorem Lossless.sortedMap {fit : ν → Prop} {write : ν → Json} {read : Json → Option ν}
    (lossless : Lossless fit write read)
    (keyRead : ∀ key, fitKey key → key? (keyName key) = some key)
    (keyFit : ∀ text key, key? text = some key → fitKey key) :
    Lossless (fun map : SortedMap κ ν => ∀ entry ∈ map.entries, fitKey entry.1 ∧ fit entry.2)
      (ofSortedMap keyName write) (sortedMap? key? read) where
  read_write map fits := by
    have all : (map.entries.map fun entry => (keyName entry.1, write entry.2)).mapM
        (fun (name, value) => do return (← key? name, ← read value)) = some map.entries := by
      refine mapM_map_eq_some fun entry member => ?_
      obtain ⟨keyFits, valueFits⟩ := fits entry member
      simp [keyRead entry.1 keyFits, lossless.read_write entry.2 valueFits]
    simp only [ofSortedMap, sortedMap?, all, Option.map_some, SortedMap.ofList_entries]
  sound json map finite found := by
    cases finite with
    | obj members each =>
        simp only [sortedMap?, Option.map_eq_some_iff] at found
        obtain ⟨entries, read, rfl⟩ := found
        intro entry member
        obtain ⟨item, inMembers, itemRead⟩ :=
          exists_of_mem_mapM read (SortedMap.mem_of_mem_ofList member)
        simp only [bind_eq_some_iff, pure_eq_some_iff] at itemRead
        obtain ⟨key, keyRead, value, valueRead, rfl⟩ := itemRead
        exact ⟨keyFit _ _ keyRead, lossless.sound _ _ (each item inMembers) valueRead⟩
    | _ => contradiction

end

/-! Members of a record. -/

theorem unrepeated?_eq_self (distinct : (entries.map (·.1)).Nodup) :
    Members.unrepeated? ⟨entries⟩ names = some ⟨entries⟩ := by
  rw [Members.unrepeated?, if_pos]
  rw [List.all_eq_true]
  intro name _
  have once := List.nodup_iff_count_le_one.1 distinct name
  rw [List.count, List.countP_map, List.countP_eq_length_filter] at once
  exact decide_eq_true once

theorem record?_obj (least : Nat) (distinct : (entries.map (·.1)).Nodup) :
    (Json.obj entries).record? names least = some ⟨entries⟩ :=
  unrepeated?_eq_self distinct

theorem object?_obj (distinct : (entries.map (·.1)).Nodup) :
    (Json.obj entries).object? names = some ⟨entries⟩ :=
  unrepeated?_eq_self distinct

theorem tagged?_obj {tag : String} (distinct : (((name, .str tag) :: entries).map (·.1)).Nodup) :
    (Json.obj ((name, .str tag) :: entries)).tagged? name =
      some (tag, .obj ((name, .str tag) :: entries)) := by
  simp only [tagged?, object?_obj distinct, some_bind, Members.required, Members.get?,
    List.lookup_cons_self, Option.bind_some, str?_str]
  rfl

theorem get?_cons (json : Json) : Members.get? ⟨(other, json) :: entries⟩ name =
    if name = other then some json else Members.get? ⟨entries⟩ name := by
  simp only [Members.get?, List.lookup_cons]
  by_cases same : name = other
  · simp [same]
  · simp [same, beq_false_of_ne same]

@[simp] theorem required_cons (json : Json) :
    Members.required ⟨(other, json) :: entries⟩ name read =
      if name = other then read json else Members.required ⟨entries⟩ name read := by
  rw [Members.required, get?_cons]
  split <;> rfl

def nullable? (read : Json → Option α) : Json → Option (Option α)
  | .null => some none
  | json => (read json).map some

@[simp] theorem optional_cons (json : Json) :
    Members.optional ⟨(other, json) :: entries⟩ name read =
      if name = other then nullable? read json else Members.optional ⟨entries⟩ name read := by
  simp only [Members.optional, get?_cons]
  by_cases same : name = other
  · simp only [if_pos same]
    cases json <;> rfl
  · simp only [if_neg same]

@[simp] theorem withDefault_cons (json : Json) (default : α) :
    Members.withDefault ⟨(other, json) :: entries⟩ name default read =
      if name = other then read json else Members.withDefault ⟨entries⟩ name default read := by
  simp only [Members.withDefault, get?_cons]
  by_cases same : name = other
  · simp only [if_pos same]
  · simp only [if_neg same]

theorem Lossless.nullable (lossless : Lossless fit write read)
    (visible : ∀ value, write value ≠ .null) :
    Lossless (fun value : Option α => ∀ inner ∈ value, fit inner) (ofOption write)
      (nullable? read) where
  read_write value fits := by
    cases value with
    | none => rfl
    | some inner =>
        have back := lossless.read_write inner (fits inner rfl)
        have shown := visible inner
        simp only [ofOption]
        generalize write inner = json at back shown
        cases json <;> simp_all [nullable?]
  sound json value finite found := by
    unfold nullable? at found
    split at found
    · obtain rfl := Option.some.inj found
      nofun
    · obtain ⟨inner, read, rfl⟩ := Option.map_eq_some_iff.1 found
      rintro _ ⟨⟩
      exact lossless.sound _ _ finite read

@[simp] theorem nullable?_str (text : Option String) :
    nullable? str? (ofOption .str text) = some text := by
  cases text <;> rfl

theorem finite_of_unrepeated? {kept : Members} (finite : members.Finite)
    (found : members.unrepeated? names = some kept) : kept.Finite := by
  rw [Members.unrepeated?] at found
  split at found
  · exact Option.some.inj found ▸ finite
  · contradiction

theorem finite_of_object? (finite : json.Finite) (found : json.object? names = some members) :
    members.Finite := by
  cases finite with
  | obj entries each => exact finite_of_unrepeated? each found
  | _ => contradiction

theorem finite_of_record? {least : Nat} (finite : json.Finite)
    (found : json.record? names least = some members) : members.Finite := by
  cases finite with
  | arr items each =>
      simp only [record?] at found
      split at found
      · obtain rfl := Option.some.inj found
        intro entry member
        exact each _ (List.of_mem_zip member).2
      · contradiction
  | obj entries each => exact finite_of_unrepeated? each found
  | _ => contradiction

theorem finite_of_tagged? {tag : String} {record : Json} (finite : json.Finite)
    (found : json.tagged? name = some (tag, record)) : record.Finite := by
  unfold tagged? at found
  split at found
  next rest =>
    obtain ⟨rfl, rfl⟩ := Prod.mk.inj (Option.some.inj found)
    cases finite with
    | arr items each => exact .arr rest fun item member => each item (List.mem_cons_of_mem _ member)
  next =>
    simp only [bind_eq_some_iff, pure_eq_some_iff, Prod.mk.injEq] at found
    obtain ⟨_, -, _, -, -, rfl⟩ := found
    exact finite

theorem finite_of_get? (finite : members.Finite) (found : members.get? name = some json) :
    json.Finite := by
  obtain ⟨before, behind, split, -⟩ := List.lookup_eq_some_iff.1 found
  exact finite (name, json) (by simp [split])

theorem Sound.required {value : α} (sound : Sound fit read) (finite : members.Finite)
    (found : members.required name read = some value) : fit value := by
  obtain ⟨json, stored, found⟩ := Option.bind_eq_some_iff.1 found
  exact sound json value (finite_of_get? finite stored) found

theorem Sound.optional {value : Option α} (sound : Sound fit read) (finite : members.Finite)
    (found : members.optional name read = some value) : ∀ inner ∈ value, fit inner := by
  rw [Members.optional] at found
  split at found
  · obtain rfl := Option.some.inj found
    nofun
  · obtain rfl := Option.some.inj found
    nofun
  next json _ stored =>
    obtain ⟨inner, read, rfl⟩ := Option.map_eq_some_iff.1 found
    rintro _ ⟨⟩
    exact sound json inner (finite_of_get? finite stored) read

theorem Sound.withDefault {value default : α} (sound : Sound fit read) (fits : fit default)
    (finite : members.Finite) (found : members.withDefault name default read = some value) :
    fit value := by
  rw [Members.withDefault] at found
  split at found
  · exact Option.some.inj found ▸ fits
  next json stored => exact sound json value (finite_of_get? finite stored) found

end RobotPuzzle.Json
