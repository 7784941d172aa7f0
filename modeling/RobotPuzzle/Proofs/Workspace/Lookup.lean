import RobotPuzzle.Workspace.Walk

/-! The block found under an id after each change of a workspace, field by field. -/

namespace RobotPuzzle.Workspace

variable {workspace : Workspace} {id : String} {block : Block}

theorem find?_eq_some_iff : workspace.find? id = some block ↔
    block ∈ workspace.blocks ∧ block.id = id := by
  constructor
  · intro found
    exact ⟨List.mem_of_find?_eq_some found, id_of_find? found⟩
  · rintro ⟨member, rfl⟩
    have distinct := workspace.distinct
    rw [List.Nodup, List.pairwise_map] at distinct
    simp only [find?]
    generalize workspace.blocks = blocks at member distinct
    induction blocks with
    | nil => simp at member
    | cons first rest ih =>
        rw [List.pairwise_cons] at distinct
        rcases List.mem_cons.1 member with rfl | inRest
        · simp
        · simpa [distinct.1 block inRest] using ih inRest distinct.2

theorem contains_iff : workspace.contains id = true ↔ ∃ block, workspace.find? id = some block := by
  simp [contains, Option.isSome_iff_exists]

theorem live?_eq_some_iff : workspace.live? id = some block ↔
    workspace.find? id = some block ∧ block.deleted = false := by
  simp [live?, Option.filter_eq_some_iff]

theorem id_of_live? (found : workspace.live? id = some block) : block.id = id :=
  id_of_find? (live?_eq_some_iff.1 found).1

@[simp] theorem find?_empty (id : String) : empty.find? id = none := rfl

theorem find?_map (workspace : Workspace) (change : Block → Block) (id : String) :
    (workspace.map change).find? id =
      (workspace.find? id).map fun block => { change block with id := block.id } := by
  simp only [find?, map, List.find?_map]
  rfl

theorem find?_map_eq {change result : Block → Block}
    (same : ∀ block, workspace.find? id = some block →
      { change block with id := block.id } = result block) :
    (workspace.map change).find? id = (workspace.find? id).map result := by
  rw [find?_map]
  cases found : workspace.find? id with
  | none => rfl
  | some block => simp [same block found]

theorem find?_update (workspace : Workspace) (target : String) (change : Block → Block)
    (id : String) :
    (workspace.update target change).find? id =
      (workspace.find? id).map fun block =>
        if id = target then { change block with id := block.id } else block := by
  refine find?_map_eq ?_
  intro block found
  obtain rfl := id_of_find? found
  split <;> rfl

theorem find?_put (workspace : Workspace) (block : Block) (id : String) :
    (workspace.put block).find? id = if id = block.id then some block else workspace.find? id := by
  simp only [put]
  split
  next known =>
    obtain ⟨old, found⟩ := contains_iff.1 known
    rw [find?_update]
    split
    next here =>
      subst here
      simp [found, id_of_find? found]
    next => simp
  next unknown =>
    simp only [find?, List.find?_append]
    split
    next here =>
      subst here
      have absent : workspace.find? block.id = none := by
        simpa [contains, Option.isSome_iff_ne_none] using unknown
      simp only [find?] at absent
      simp [absent]
    next different =>
      simp [Ne.symm different]

theorem find?_attach (workspace : Workspace) (parent : String) (slot : Slot) (child id : String) :
    (workspace.attach parent slot child).find? id =
      (workspace.find? id).map fun block =>
        { block with
          children := if id = parent then block.children.insert slot child else block.children
          parent := if id = child then some parent else block.parent
          top := if id = child then false else block.top } := by
  simp only [attach, find?_update, Option.map_map]
  congr 1
  funext block
  simp only [Function.comp_apply]
  split <;> split <;> rfl

theorem find?_detach (workspace : Workspace) (child parent : String) (slot : Slot) (id : String) :
    (workspace.detach child parent slot).find? id =
      (workspace.find? id).map fun block =>
        { block with
          children :=
            if id = parent ∧ block.children.get? slot = some child then block.children.erase slot
            else block.children
          parent := if id = child then none else block.parent
          top := if id = child then true else block.top } := by
  simp only [detach, find?_update, Option.map_map]
  congr 1
  funext block
  simp only [Function.comp_apply]
  by_cases atParent : id = parent
  · subst atParent
    by_cases held : block.children.get? slot = some child <;>
      by_cases atChild : id = child <;> simp [held, atChild]
  · simp only [atParent, ↓reduceIte, false_and]
    split <;> rfl

theorem find?_setField (workspace : Workspace) (target name : String) (value : Option String)
    (id : String) :
    (workspace.setField target name value).find? id =
      (workspace.find? id).map fun block =>
        { block with
          fields :=
            if id = target then
              match value with
              | some value => block.fields.insert name value
              | none => block.fields.erase name
            else block.fields } := by
  simp only [setField, find?_update]
  congr 1
  funext block
  split <;> rfl

theorem find?_delete (workspace : Workspace) (target id : String) :
    (workspace.delete target).find? id =
      (workspace.find? id).map fun block =>
        { block with deleted := block.deleted || decide (id ∈ workspace.cascade target) } := by
  refine find?_map_eq ?_
  intro block found
  obtain rfl := id_of_find? found
  split
  next marked => simp [marked]
  next unmarked => simp [unmarked]

@[simp] theorem contains_delete {target : String} :
    (workspace.delete target).contains id = workspace.contains id := by
  simp [contains, find?_delete]

theorem live?_eq_map {after : Workspace} {change : Block → Block}
    (same : after.find? id = (workspace.find? id).map change)
    (keeps : ∀ block, (change block).deleted = block.deleted) :
    after.live? id = (workspace.live? id).map change := by
  simp only [live?, same, Option.filter_map, Function.comp_def, keeps]

theorem live?_delete (workspace : Workspace) (target id : String) :
    (workspace.delete target).live? id =
      if id ∈ workspace.cascade target then none else workspace.live? id := by
  simp only [live?, find?_delete]
  cases found : workspace.find? id with
  | none => simp
  | some block => by_cases marked : id ∈ workspace.cascade target <;> simp [marked]

theorem weightOutside_le_of_subset (weight : Block → Nat) {seen more : List String}
    (subset : seen ⊆ more) (blocks : List Block) :
    weightOutside weight more blocks ≤ weightOutside weight seen blocks := by
  induction blocks with
  | nil => exact Nat.le_refl 0
  | cons first rest ih =>
      by_cases inSeen : first.id ∈ seen
      · have inMore := subset inSeen
        simpa [weightOutside, inSeen, inMore] using ih
      · simp only [weightOutside, inSeen, ↓reduceIte]
        split <;> omega

theorem unseen_le_of_subset {seen more : List String} (subset : seen ⊆ more) :
    workspace.unseen more ≤ workspace.unseen seen :=
  weightOutside_le_of_subset _ subset workspace.blocks

theorem unseen_le_length (seen : List String) :
    workspace.unseen seen ≤ workspace.blocks.length := by
  simp only [unseen]
  induction workspace.blocks with
  | nil => exact Nat.le_refl 0
  | cons first rest ih =>
      simp only [weightOutside, List.length_cons]
      split <;> omega

end RobotPuzzle.Workspace
