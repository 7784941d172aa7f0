import RobotPuzzle.Proofs.Workspace.Orderly

/-!
Blocks pushed out of their slots. The tree below such a block is under no top block until the block
is moved again. Apart from these trees, inserts and moves lose nothing.
-/

namespace RobotPuzzle.Workspace

/-- The block is in the live tree below a live top block. -/
def Reported (workspace : Workspace) (id : String) : Prop :=
  ∃ root block, workspace.live? root = some block ∧ block.top = true ∧
    id ∈ workspace.descendants root

variable {workspace : Workspace} {id : String} {displaced : List String}

theorem Orderly.not_adrift_of_reported (orderly : workspace.Orderly)
    (reported : workspace.Reported id) : ∀ high, workspace.Below high id →
      ¬workspace.Adrift high := by
  obtain ⟨root, block, foundRoot, isTop, member⟩ := reported
  have rootFound := (live?_eq_some_iff.1 foundRoot).1
  have alone : block.parent = none := by
    simpa [isTop] using (orderly.top rootFound).symm
  refine descendants_induction ?_ ?_ member
  · intro high below
    obtain rfl := below.eq_of_no_parent rootFound alone
    rintro ⟨parent, link, -⟩
    simpa [alone] using link.parent_eq rootFound
  · -- The step down went through a slot, so the parent of the lower block does hold it.
    intro middle slot low held holds _ moored high below
    have link := orderly.link_of_holds holds
    rcases below.cases_head with rfl | ⟨next, step, rest⟩
    · exact link.not_adrift holds
    · rw [step.unique link] at rest
      exact moored high rest

theorem Orderly.reported_of_not_adrift (orderly : workspace.Orderly)
    (known : workspace.contains id = true)
    (moored : ∀ high, workspace.Below high id → ¬workspace.Adrift high) :
    workspace.Reported id := by
  have grounded := orderly.acyclic.grounded orderly.parent_known known
  induction grounded with
  | @top id block found alone =>
      have alive : workspace.live? id = some block := (orderly.live?_eq id).trans found
      have isTop : block.top = true := by simp [orderly.top found, alone]
      exact ⟨id, block, alive, isTop, mem_descendants_self alive⟩
  | @under id parent link _ ih =>
      obtain ⟨root, rootBlock, foundRoot, isTop, member⟩ :=
        ih (orderly.parent_known link) fun high below => moored high (.head link below)
      have held : ∃ slot, workspace.Holds parent slot id := by
        by_contra none
        exact moored id .refl ⟨parent, link, not_exists.1 none⟩
      obtain ⟨slot, holder, foundHolder, held⟩ := held
      obtain ⟨block, found, -⟩ := link
      exact ⟨root, rootBlock, foundRoot, isTop,
        mem_descendants_child member ((orderly.live?_eq parent).trans foundHolder) held
          ((orderly.live?_eq id).trans found)⟩

theorem Orderly.reported_iff (orderly : workspace.Orderly)
    (known : workspace.contains id = true) : workspace.Reported id ↔
      ∀ high, workspace.Below high id → ¬workspace.Adrift high :=
  ⟨orderly.not_adrift_of_reported, orderly.reported_of_not_adrift known⟩

/-- What inserts of new trees and moves of blocks from where they stand make of the empty
workspace, with the blocks that they pushed out of their slots and have not moved since. -/
inductive Assembled : Workspace → List String → Prop
  | empty : Assembled .empty []
  | insert {workspace displaced spec place} (before : Assembled workspace displaced)
      (distinct : spec.Distinct) (fresh : ∀ id ∈ spec.ids, workspace.contains id = false)
      (known : ∀ above ∈ place.map (·.1), workspace.contains above = true) :
      Assembled (workspace.insert spec place) ((workspace.occupant? place).toList ++ displaced)
  | move {workspace displaced id source target} (before : Assembled workspace displaced)
      (stands : workspace.StandsAt id source)
      (known : ∀ above ∈ target.map (·.1), workspace.contains above = true) :
      Assembled (workspace.reparent id source target)
        ((workspace.pushedOut id target ++ displaced).filter (· ≠ id))

theorem Assembled.adrift (assembled : Assembled workspace displaced) :
    workspace.Orderly ∧ ∀ id, workspace.Adrift id ↔ id ∈ displaced := by
  induction assembled with
  | empty => exact ⟨.empty, by simp [Adrift, ParentLink]⟩
  | insert _ distinct fresh known ih =>
      obtain ⟨orderly, same⟩ := ih
      refine ⟨orderly.insert distinct fresh known, fun id => ?_⟩
      rw [orderly.adrift_insert distinct fresh known, same]
      simp
  | move _ stands known ih =>
      obtain ⟨orderly, same⟩ := ih
      obtain ⟨after, adrift⟩ := orderly.reparent stands known
      refine ⟨after, fun id => ?_⟩
      simp only [adrift, same, List.mem_filter, List.mem_append, decide_eq_true_eq, and_comm]

/-- Of the live blocks those are lost that have a displaced block on the way up. -/
theorem reported_iff_not_displaced (assembled : Assembled workspace displaced) :
    (∀ id block, workspace.live? id = some block →
      (workspace.Reported id ↔ ∀ high, workspace.Below high id → high ∉ displaced)) ∧
    ((∀ id block, workspace.live? id = some block → workspace.Reported id) ↔ displaced = []) := by
  obtain ⟨orderly, adrift⟩ := assembled.adrift
  have each : ∀ id block, workspace.live? id = some block →
      (workspace.Reported id ↔ ∀ high, workspace.Below high id → high ∉ displaced) := by
    intro id block alive
    have known := contains_iff.2 ⟨block, (live?_eq_some_iff.1 alive).1⟩
    simp only [orderly.reported_iff known, adrift]
  refine ⟨each, ?_, ?_⟩
  · intro all
    refine List.eq_nil_iff_forall_not_mem.2 fun id member => ?_
    obtain ⟨parent, ⟨block, found, -⟩, -⟩ := (adrift id).2 member
    have alive := (orderly.live?_eq id).trans found
    exact (each id block alive).1 (all id block alive) id .refl member
  · rintro rfl id block alive
    exact (each id block alive).2 (by simp)

def crowded : Workspace :=
  ((empty.insert (.leaf "s" "start") none).insert (.leaf "a" "forward") (some ("s", .next))).insert
    (.leaf "b" "turn_left") (some ("s", .next))

theorem assembled_crowded : Assembled crowded ["a"] := by
  have start : Assembled (empty.insert (.leaf "s" "start") none) [] :=
    .insert .empty (by decide) (by decide) (by decide)
  have first : Assembled ((empty.insert (.leaf "s" "start") none).insert (.leaf "a" "forward")
      (some ("s", .next))) [] :=
    .insert start (by decide) (by decide) (by decide)
  exact .insert first (by decide) (by decide) (by decide)

/-- The block that was hung first is live and under no top block. -/
theorem crowded_not_reported : ¬∀ workspace displaced, Assembled workspace displaced →
    ∀ id block, workspace.live? id = some block → workspace.Reported id := by
  intro never
  obtain ⟨block, alive⟩ : ∃ block, crowded.live? "a" = some block := ⟨_, rfl⟩
  obtain ⟨orderly, adrift⟩ := assembled_crowded.adrift
  exact orderly.not_adrift_of_reported (never crowded _ assembled_crowded "a" block alive) "a" .refl
    ((adrift "a").2 (by simp))

def mended : Workspace := crowded.reparent "a" (some ("s", .next)) (some ("b", .next))

theorem reported_iff_not_displaced_mended : Assembled mended [] ∧
    ∀ id block, mended.live? id = some block → mended.Reported id := by
  have stands : crowded.StandsAt "a" (some ("s", .next)) := by
    refine ⟨⟨_, rfl, rfl⟩, fun {parent slot} holds => ?_⟩
    obtain ⟨block, member, rfl, entry⟩ := holds_iff.1 holds
    have unheld : ∀ block ∈ crowded.blocks, ∀ entry ∈ block.children.entries, entry.2 ≠ "a" := by
      decide
    exact absurd rfl (unheld block member _ entry)
  have vacant : crowded.occupant? (some ("b", .next)) = none := by decide
  have nothing : (crowded.pushedOut "a" (some ("b", .next)) ++ ["a"]).filter (· ≠ "a") = [] := by
    simp [pushedOut, vacant]
  have assembled : Assembled mended [] :=
    nothing ▸ .move assembled_crowded stands (by decide)
  exact ⟨assembled, (reported_iff_not_displaced assembled).2.2 rfl⟩

end RobotPuzzle.Workspace
