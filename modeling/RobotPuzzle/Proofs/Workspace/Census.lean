import Mathlib.Data.List.Perm.Basic
import RobotPuzzle.Proofs.Workspace.Depiction
import RobotPuzzle.Proofs.Workspace.Reach

/-!
The shape of a block shows the blocks that the walk below it visits, each once, however its links
are tangled: both are searches from that block, and any two searches find the same blocks.
-/

namespace RobotPuzzle

namespace Shape

mutual

def blocks : Shape → List Shape
  | ⟨type, name, children⟩ => ⟨type, name, children⟩ :: blocksBelow children

def blocksBelow : List (Slot × Shape) → List Shape
  | [] => []
  | (_, child) :: rest => child.blocks ++ blocksBelow rest

end

def size (shape : Shape) : Nat := shape.blocks.length

def labels (shape : Shape) : List (String × String) :=
  shape.blocks.map fun block => (block.type, block.name)

@[simp] theorem length_labels (shape : Shape) : shape.labels.length = shape.size := by
  simp [labels, size]

theorem blocksBelow_eq_flatMap (children : List (Slot × Shape)) :
    blocksBelow children = (children.map (·.2)).flatMap blocks := by
  induction children with
  | nil => rfl
  | cons first rest ih => simp [blocksBelow, ih]

theorem labels_mk (type name : String) (children : List (Slot × Shape)) :
    labels ⟨type, name, children⟩ = (type, name) :: (children.map (·.2)).flatMap labels := by
  simp only [labels, blocks, blocksBelow_eq_flatMap, List.map_cons, List.map_flatMap]
  rfl

theorem withNext_some_perm (children : List (Slot × Shape)) (next : Shape) :
    (withNext children (some next)).Perm ((.next, next) :: children) := by
  simp only [withNext]
  refine List.perm_middle.trans (List.Perm.of_eq ?_)
  rw [List.takeWhile_append_dropWhile]

theorem withNext_perm (children : List (Slot × Shape)) (next : Option Shape) :
    ((withNext children next).map (·.2)).Perm (children.map (·.2) ++ next.toList) := by
  cases next with
  | none => simp [withNext]
  | some shape =>
      refine ((withNext_some_perm children shape).map (·.2)).trans ?_
      exact (List.perm_append_singleton shape (children.map (·.2))).symm

theorem labels_withNext (type name : String) (children : List (Slot × Shape))
    (next : Option Shape) : (labels ⟨type, name, withNext children next⟩).Perm
      ((type, name) :: (children.map (·.2) ++ next.toList).flatMap labels) := by
  rw [labels_mk]
  exact ((withNext_perm children next).flatMap_right labels).cons _

end Shape

namespace Workspace

def label? (workspace : Workspace) (id : String) : Option (String × String) :=
  (workspace.live? id).map fun block => (block.shortType, block.shapeName)

/-- The shapes show what a search from `roots` adds to the ids seen before, each block once. -/
def Surveys (workspace : Workspace) (roots seen : List String) (shapes : List Shape)
    (after : List String) : Prop :=
  ∃ found, workspace.Explores (fun block => !block.deleted) seen roots found ∧
    after = found.reverse ++ seen ∧
    ((shapes.flatMap Shape.labels).map some).Perm (found.map workspace.label?)

variable {workspace : Workspace} {roots others seen middle after : List String}
  {shapes more : List Shape} {id : String} {block : Block}

theorem Surveys.skip (passed : ∀ block, workspace.live? id = some block → id ∈ seen) :
    workspace.Surveys [id] seen [] seen := by
  refine ⟨[], .skip ?_, rfl, .nil⟩
  intro kept
  obtain ⟨block, found⟩ := kept_alive_iff.1 kept
  exact passed block found

theorem Surveys.append (first : workspace.Surveys roots seen shapes middle)
    (second : workspace.Surveys others middle more after) :
    workspace.Surveys (roots ++ others) seen (shapes ++ more) after := by
  obtain ⟨found, explores, rfl, labels⟩ := first
  obtain ⟨rest, exploresRest, rfl, labelsRest⟩ := second
  refine ⟨found ++ rest, explores.append exploresRest, by simp, ?_⟩
  simpa using labels.append labelsRest

theorem Surveys.enter {inner : List (Slot × Shape)} {next : Option Shape}
    (found : workspace.live? id = some block) (fresh : id ∉ seen)
    (slots : roots.Perm block.held)
    (below : workspace.Surveys roots (id :: seen) (inner.map (·.2) ++ next.toList) after) :
    workspace.Surveys [id] seen
      [⟨block.shortType, block.shapeName, Shape.withNext inner next⟩] after := by
  obtain ⟨rest, explores, rfl, labels⟩ := below
  obtain ⟨known, alive⟩ := live?_eq_some_iff.1 found
  refine ⟨id :: rest, .enter known (by simp [alive]) fresh (explores.of_perm slots), by simp, ?_⟩
  have label : workspace.label? id = some (block.shortType, block.shapeName) := by
    simp [label?, found]
  rw [List.flatMap_singleton, List.map_cons, label]
  exact ((Shape.labels_withNext _ _ inner next).map some).trans (labels.cons _)

theorem shapesOf_surveys {build : List String → String → Option Shape × List String}
    (entries : List (Slot × String)) (seen : List String)
    (surveys : ∀ id more, seen ⊆ more →
      workspace.Surveys [id] more (build more id).1.toList (build more id).2) :
    workspace.Surveys (entries.map (·.2)) seen ((shapesOf build seen entries).1.map (·.2))
      (shapesOf build seen entries).2 := by
  induction entries generalizing seen with
  | nil => exact ⟨[], ⟨.nil, by simp, by simp, by simp, by simp⟩, rfl, .nil⟩
  | cons first rest ih =>
      obtain ⟨slot, id⟩ := first
      have head := surveys id seen (List.Subset.refl seen)
      have grows : seen ⊆ (build seen id).2 := by
        obtain ⟨found, -, same, -⟩ := head
        simp [same]
      have tail := ih (build seen id).2 fun id more subset =>
        surveys id more (List.Subset.trans grows subset)
      have both := head.append tail
      simp only [shapesOf]
      generalize shapesOf build (build seen id).2 rest = result at both ⊢
      cases drawn : (build seen id).1 <;> simpa [drawn] using both

/-- With room for all unseen blocks the builder shows everything that it can reach. -/
theorem shapeFrom_surveys (depth : Nat) (seen : List String) (id : String)
    (room : workspace.unseen seen ≤ depth) :
    workspace.Surveys [id] seen (workspace.shapeFrom depth seen id).1.toList
      (workspace.shapeFrom depth seen id).2 := by
  induction depth generalizing seen id with
  | zero =>
      refine .skip fun block found => ?_
      by_contra fresh
      -- A live block that has not been seen needs at least one level.
      have less := unseen_cons_lt (live?_eq_some_iff.1 found).1 fresh
      omega
  | succ depth ih =>
      simp only [shapeFrom]
      cases found : workspace.live? id with
      | none => exact .skip (by simp [found])
      | some block =>
          by_cases known : id ∈ seen
          · simpa [known] using .skip fun _ _ => known
          have less := unseen_cons_lt (live?_eq_some_iff.1 found).1 known
          have deeper : ∀ child more, id :: seen ⊆ more →
              workspace.Surveys [child] more (workspace.shapeFrom depth more child).1.toList
                (workspace.shapeFrom depth more child).2 := by
            intro child more grows
            have shrinks : workspace.unseen more ≤ workspace.unseen (id :: seen) :=
              unseen_le_of_subset grows
            exact ih more child (by omega)
          have others := shapesOf_surveys (block.children.erase .next).entries (id :: seen) deeper
          have slots : ((block.children.erase .next).entries.map (·.2) ++
              (block.children.get? .next).toList).Perm block.held :=
            block.children.values_erase_perm .next
          simp only [known, ↓reduceIte, ← entries_erase_next]
          generalize shapesOf (workspace.shapeFrom depth) (id :: seen)
            (block.children.erase .next).entries = result at others ⊢
          cases held : block.children.get? .next with
          | none =>
              rw [held, Option.toList_none, List.append_nil] at slots
              exact .enter found known slots (by simpa using others)
          | some next =>
              have grows : id :: seen ⊆ result.2 := by
                obtain ⟨_, -, same, -⟩ := others
                simp [same]
              rw [held, Option.toList_some] at slots
              exact .enter found known slots (others.append (deeper next result.2 grows))

theorem shape?_isSome (workspace : Workspace) (id : String) :
    (workspace.shape? id).isSome = (workspace.live? id).isSome := by
  cases found : workspace.live? id with
  | none => cases blocks : workspace.blocks.length <;> simp [shape?, shapeFrom, found, blocks]
  | some block =>
      have inhabited : workspace.blocks.length ≠ 0 := by
        have less : workspace.unseen [id] < workspace.unseen [] :=
          unseen_cons_lt (live?_eq_some_iff.1 found).1 List.not_mem_nil
        have most : workspace.unseen [] ≤ workspace.blocks.length := unseen_le_length []
        omega
      obtain ⟨depth, length⟩ := Nat.exists_eq_succ_of_ne_zero inhabited
      simp [shape?, shapeFrom, found, length]

theorem exists_shape (found : workspace.live? id = some block) :
    ∃ shape, workspace.shape? id = some shape := by
  rw [← Option.isSome_iff_exists, shape?_isSome, found]
  rfl

theorem labels_shape?_perm {shape : Shape} (shown : workspace.shape? id = some shape) :
    (shape.labels.map some).Perm ((workspace.descendants id).map workspace.label?) := by
  obtain ⟨found, explores, -, labels⟩ :=
    shapeFrom_surveys workspace.blocks.length [] id (unseen_le_length [])
  have same := explores.perm (walk_explores workspace (fun block => !block.deleted) [] [id])
  simp only [shape?] at shown
  rw [shown, Option.toList_some, List.flatMap_singleton] at labels
  exact labels.trans (same.map workspace.label?)

theorem size_shape? {shape : Shape} (shown : workspace.shape? id = some shape) :
    shape.size = (workspace.descendants id).length := by
  simpa using (labels_shape?_perm shown).length_eq

/-- A block has a shape when it is live, and the shape shows the blocks of the walk below it: as
many, with the same types and names. So the main shape of a workspace with one live entry block is
as large as the number of used blocks. -/
theorem shape_shows_descendants (workspace : Workspace) :
    (∀ id, workspace.shape? id = none ↔ workspace.live? id = none) ∧
      (∀ id shape, workspace.shape? id = some shape →
        (shape.labels.map some).Perm ((workspace.descendants id).map workspace.label?) ∧
          shape.size = (workspace.descendants id).length) ∧
      ∀ entry, workspace.entries = [entry] → ∃ shape,
        workspace.programShape.main = some shape ∧ workspace.usedCount = shape.size := by
  refine ⟨?_, fun id shape shown => ⟨labels_shape?_perm shown, size_shape? shown⟩, ?_⟩
  · intro id
    have same := workspace.shape?_isSome id
    rw [← Option.not_isSome_iff_eq_none, ← Option.not_isSome_iff_eq_none, same]
  · intro entry only
    have member : entry ∈ workspace.entries := by simp [only]
    have alive : workspace.live? entry.id = some entry := by
      rw [entries, List.mem_filter, Bool.and_eq_true, Bool.not_eq_true'] at member
      exact live?_eq_some_iff.2 ⟨find?_eq_some_iff.2 ⟨member.1, rfl⟩, member.2.1⟩
    obtain ⟨shape, shown⟩ := exists_shape alive
    refine ⟨shape, by simp [programShape, only, shown], ?_⟩
    simp [usedCount, only, size_shape? shown]

/-- The body of a loop is its next block too and leads back to the loop; a deleted block and an
unknown one are still held. -/
def tangled : Workspace where
  blocks :=
    [⟨"s", "start", .ofList [(.next, "r")], ∅, none, true, false⟩,
      ⟨"r", "repeat", .ofList [(.doBody, "f"), (.elseBody, "x"), (.next, "f")], ∅, some "s", false,
        false⟩,
      ⟨"f", "forward", .ofList [(.next, "r"), (.inline, "ghost")], ∅, some "r", false, false⟩,
      ⟨"x", "note", ∅, ∅, some "r", false, true⟩]
  distinct := by decide

theorem shape_shows_descendants_tangled : ∃ entry shape, tangled.entries = [entry] ∧
    tangled.programShape.main = some shape ∧ shape.labels = [("b", "b"), ("r", "r(0)"), ("f", "f")] ∧
      tangled.usedCount = 3 ∧
      (shape.labels.map some).Perm ((tangled.descendants "s").map tangled.label?) := by
  obtain ⟨-, same, main⟩ := shape_shows_descendants tangled
  let entry : Block := ⟨"s", "start", .ofList [(.next, "r")], ∅, none, true, false⟩
  have only : tangled.entries = [entry] := by decide
  obtain ⟨shape, shown, used⟩ := main entry only
  have drawn : tangled.shape? "s" = some shape := by simpa [programShape, only] using shown
  have labels : shape.labels = [("b", "b"), ("r", "r(0)"), ("f", "f")] := by
    have computed : tangled.shape? "s" = some ⟨"b", "b", [(.next, ⟨"r", "r(0)",
      [(.doBody, ⟨"f", "f", []⟩)]⟩)]⟩ := by rfl
    obtain rfl := Option.some.inj (drawn.symm.trans computed)
    rfl
  have size : shape.size = 3 := by
    simpa using congrArg List.length labels
  exact ⟨entry, shape, only, shown, labels, used.trans size, (same "s" shape drawn).1⟩

end Workspace

end RobotPuzzle
