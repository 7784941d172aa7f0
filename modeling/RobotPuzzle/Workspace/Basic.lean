import RobotPuzzle.Workspace.Kind
import RobotPuzzle.Workspace.Slot

/-!
The blocks of an editor's workspace, known by id in the order in which they first appeared. A
connection is kept at both ends: in a slot of the parent and as the parent of the child. Deleted
blocks stay, marked as deleted, so that bringing one back keeps its place in the order.
-/

namespace RobotPuzzle

structure BlockSpec where
  id : String
  type : String
  fields : SortedMap String String
  children : List (Slot × BlockSpec)

def BlockSpec.leaf (id type : String) : BlockSpec := ⟨id, type, ∅, []⟩

/-- Hangs the blocks one below the other on the next slot of `head`. -/
def BlockSpec.chain (head : BlockSpec) : List BlockSpec → BlockSpec
  | [] => head
  | block :: rest => { head with children := head.children ++ [(.next, chain block rest)] }

structure Block where
  id : String
  type : String
  /-- The block held by each slot. -/
  children : SortedMap Slot String
  fields : SortedMap String String
  parent : Option String
  top : Bool
  deleted : Bool
deriving DecidableEq

def Block.kind (block : Block) : Kind := .ofType block.type

def Block.held (block : Block) : List String := block.children.values

structure Workspace where
  blocks : List Block
  distinct : (blocks.map (·.id)).Nodup
deriving DecidableEq

namespace Workspace

def empty : Workspace := ⟨[], .nil⟩

def ids (workspace : Workspace) : List String := workspace.blocks.map (·.id)

def find? (workspace : Workspace) (id : String) : Option Block :=
  workspace.blocks.find? (·.id == id)

def contains (workspace : Workspace) (id : String) : Bool := (workspace.find? id).isSome

def live? (workspace : Workspace) (id : String) : Option Block :=
  (workspace.find? id).filter fun block => !block.deleted

theorem id_of_find? {workspace : Workspace} {id : String} {block : Block}
    (found : workspace.find? id = some block) : block.id = id := by
  simpa using List.find?_some found

theorem contains_eq_false_iff {workspace : Workspace} {id : String} :
    workspace.contains id = false ↔ id ∉ workspace.ids := by
  simp [contains, find?, ids]

def map (workspace : Workspace) (change : Block → Block) : Workspace where
  blocks := workspace.blocks.map fun block => { change block with id := block.id }
  distinct := by simpa [Function.comp_def] using workspace.distinct

def update (workspace : Workspace) (id : String) (change : Block → Block) : Workspace :=
  workspace.map fun block => if block.id = id then change block else block

/-- Stores a block in place of the one with its id, or behind all others. -/
def put (workspace : Workspace) (block : Block) : Workspace :=
  if known : workspace.contains block.id then workspace.update block.id fun _ => block
  else
    { blocks := workspace.blocks ++ [block]
      distinct := by
        have fresh : block.id ∉ workspace.ids := contains_eq_false_iff.1 (by simpa using known)
        rw [List.map_append, List.nodup_append]
        refine ⟨workspace.distinct, by simp, ?_⟩
        intro id member other isNew same
        simp only [List.map_cons, List.map_nil, List.mem_singleton] at isNew
        exact fresh (by simpa [ids, ← isNew, ← same] using member) }

def freshBlock (spec : BlockSpec) (parent : Option String) : Block :=
  { id := spec.id
    type := spec.type
    children := .ofList (spec.children.map fun (slot, child) => (slot, child.id))
    fields := spec.fields
    parent
    top := parent.isNone
    deleted := false }

mutual

def putTree (workspace : Workspace) (parent : Option String) : BlockSpec → Workspace
  | ⟨id, type, fields, children⟩ =>
    putTrees (workspace.put (freshBlock ⟨id, type, fields, children⟩ parent)) id children

def putTrees (workspace : Workspace) (parent : String) : List (Slot × BlockSpec) → Workspace
  | [] => workspace
  | (_, child) :: rest => putTrees (putTree workspace (some parent) child) parent rest

end

def attach (workspace : Workspace) (parent : String) (slot : Slot) (child : String) : Workspace :=
  (workspace.update parent fun block => { block with children := block.children.insert slot child })
    |>.update child fun block => { block with parent := some parent, top := false }

/-- Adds a tree at a slot of a known block; under an unknown one, or with no place named, it stands
alone. A known id starts afresh in its old place of the order. -/
def insert (workspace : Workspace) (spec : BlockSpec) (place : Option (String × Slot)) :
    Workspace :=
  match place with
  | none => workspace.putTree none spec
  | some (parent, slot) =>
    if workspace.contains parent then
      (workspace.putTree (some parent) spec).attach parent slot spec.id
    else workspace.putTree none spec

def setField (workspace : Workspace) (id name : String) (value : Option String) : Workspace :=
  workspace.update id fun block =>
    { block with
      fields :=
        match value with
        | some value => block.fields.insert name value
        | none => block.fields.erase name }

def weightOutside (weight : Block → Nat) (seen : List String) : List Block → Nat
  | [] => 0
  | block :: rest =>
    (if block.id ∈ seen then 0 else weight block) + weightOutside weight seen rest

theorem weightOutside_cons_le (weight : Block → Nat) (id : String) (seen : List String)
    (blocks : List Block) :
    weightOutside weight (id :: seen) blocks ≤ weightOutside weight seen blocks := by
  induction blocks with
  | nil => exact Nat.le_refl 0
  | cons first rest ih =>
    by_cases inSeen : first.id ∈ seen
    · simpa [weightOutside, inSeen] using ih
    · by_cases isId : first.id = id
      · simp only [weightOutside, List.mem_cons, isId, true_or, ↓reduceIte]
        omega
      · simpa [weightOutside, inSeen, isId] using ih

/-- Marking a block that was found and not yet seen takes at least its weight off. -/
theorem weightOutside_cons_add_le (weight : Block → Nat) {id : String} {block : Block}
    {seen : List String} {blocks : List Block}
    (found : blocks.find? (·.id == id) = some block) (fresh : id ∉ seen) :
    weightOutside weight (id :: seen) blocks + weight block ≤ weightOutside weight seen blocks := by
  induction blocks with
  | nil => simp at found
  | cons first rest ih =>
    by_cases isId : first.id = id
    · have same : first = block := by simpa [isId] using found
      have below := weightOutside_cons_le weight id seen rest
      subst same
      simp only [weightOutside, List.mem_cons, isId, fresh, true_or, ↓reduceIte]
      omega
    · have inRest : rest.find? (·.id == id) = some block := by simpa [isId] using found
      have below := ih inRest
      simp only [weightOutside, List.mem_cons, isId, false_or]
      omega

def unseen (workspace : Workspace) (seen : List String) : Nat :=
  weightOutside (fun _ => 1) seen workspace.blocks

theorem unseen_cons_lt {workspace : Workspace} {id : String} {block : Block} {seen : List String}
    (found : workspace.find? id = some block) (fresh : id ∉ seen) :
    workspace.unseen (id :: seen) < workspace.unseen seen :=
  weightOutside_cons_add_le (fun _ => 1) found fresh

/-- Whether `target` is `id` itself or one of its ancestors. A second visit ends the walk. -/
def isAncestorOrSelf (workspace : Workspace) (target : String) (seen : List String)
    (id : String) : Bool :=
  if id = target then true
  else if _fresh : id ∈ seen then false
  else
    match _found : workspace.find? id with
    | none => false
    | some block =>
      match block.parent with
      | none => false
      | some parent => workspace.isAncestorOrSelf target (id :: seen) parent
termination_by workspace.unseen seen
decreasing_by exact unseen_cons_lt _found _fresh

/-- Takes a block off its parent. Its slot is emptied only if it does hold the block. -/
def detach (workspace : Workspace) (id parent : String) (slot : Slot) : Workspace :=
  (workspace.update parent fun block =>
    if block.children.get? slot = some id then { block with children := block.children.erase slot }
    else block)
    |>.update id fun block => { block with parent := none, top := true }

/-- Moves a block off the named old parent and onto the named new one. A move onto an unknown block
or into the block's own tree leaves it where the first half put it. -/
def reparent (workspace : Workspace) (id : String) (source target : Option (String × Slot)) :
    Workspace :=
  if workspace.contains id then
    let freed :=
      match source with
      | none => workspace
      | some (parent, slot) => workspace.detach id parent slot
    match target with
    | none => freed
    | some (parent, slot) =>
      if !freed.contains parent || freed.isAncestorOrSelf id [] parent then freed
      else freed.attach parent slot id
  else workspace

end Workspace

end RobotPuzzle
