import RobotPuzzle.Json.Basic
import RobotPuzzle.SortedMap

/-!
Records in JSON: objects with named members, of which unknown ones are ignored and known ones may
not be repeated, or arrays of the members in their declared order. A tagged record has its tag as a
member more, or as the first item of the array.
-/

namespace RobotPuzzle.Json

structure Members where
  entries : List (String × Json)

namespace Members

def get? (members : Members) (name : String) : Option Json := members.entries.lookup name

def required {α : Type} (members : Members) (name : String) (read : Json → Option α) : Option α :=
  (members.get? name).bind read

/-- A member that may be missing or `null`. -/
def optional {α : Type} (members : Members) (name : String) (read : Json → Option α) :
    Option (Option α) :=
  match members.get? name with
  | none => some none
  | some .null => some none
  | some value => (read value).map some

/-- A member that may be missing but not `null`. -/
def withDefault {α : Type} (members : Members) (name : String) (default : α)
    (read : Json → Option α) : Option α :=
  match members.get? name with
  | none => some default
  | some value => read value

end Members

def Members.unrepeated? (members : Members) (names : List String) : Option Members :=
  if names.all fun name => (members.entries.filter fun entry => entry.1 == name).length ≤ 1 then
    some members
  else none

def object? (names : List String) : Json → Option Members
  | .obj members => Members.unrepeated? ⟨members⟩ names
  | _ => none

/-- The members of a record. In an array the ones after the first `least` may be left out. -/
def record? (names : List String) (least : Nat) : Json → Option Members
  | .arr items =>
    if least ≤ items.length ∧ items.length ≤ names.length then some ⟨names.zip items⟩ else none
  | json => object? names json

def tagged? (tagName : String) : Json → Option (String × Json)
  | .arr (.str tag :: rest) => some (tag, .arr rest)
  | json => do
    let members ← json.object? [tagName]
    return (← members.required tagName str?, json)

/-- A name, alone or as that of a single `null` member. -/
def name? : Json → Option String
  | .str text => some text
  | .obj [(text, .null)] => some text
  | _ => none

/-- A name inside a tagged value, where an empty object may stand in place of the `null`. -/
def taggedName? : Json → Option String
  | .obj [(text, .obj [])] => some text
  | json => json.name?

def choiceBy? {α : Type} (read : Json → Option String) (all : List α) (name : α → String)
    (json : Json) : Option α :=
  (read json).bind fun text => all.find? fun value => name value == text

def choice? {α : Type} (all : List α) (name : α → String) : Json → Option α :=
  choiceBy? name? all name

def taggedChoice? {α : Type} (all : List α) (name : α → String) : Json → Option α :=
  choiceBy? taggedName? all name

def nameOrPlace? {α : Type} (all : List α) (name : α → String) : Json → Option α
  | .str text => all.find? fun value => name value == text
  | .int place => if 0 ≤ place then all[place.toNat]? else none
  | _ => none

/-- A map with keys of its own; of two members with one key the later stays. -/
def sortedMap? {κ ν : Type} [Ord κ] [Std.TransOrd κ] (key : String → Option κ)
    (read : Json → Option ν) : Json → Option (SortedMap κ ν)
  | .obj members =>
    (members.mapM fun (name, value) => do return (← key name, ← read value)).map SortedMap.ofList
  | _ => none

def ofSortedMap {κ ν : Type} [Ord κ] (key : κ → String) (encode : ν → Json)
    (map : SortedMap κ ν) : Json :=
  .obj (map.entries.map fun (name, value) => (key name, encode value))

end RobotPuzzle.Json
