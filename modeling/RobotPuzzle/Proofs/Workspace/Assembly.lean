import RobotPuzzle.Proofs.Workspace.Agreement
import RobotPuzzle.Workspace.Fingerprint

/-!
Building a tree block by block, every block under its parent and after it, leads to the same blocks
as inserting the whole tree, whatever the order. Both ways are described alike: the blocks stand as
the tree names them, and a slot holds a block if and only if the block stands there.
-/

namespace RobotPuzzle

namespace BlockSpec

def bare (spec : BlockSpec) : BlockSpec := { spec with children := [] }

/-- The blocks of the tree with their places, each once and behind its parent. -/
structure BuildOrder (spec : BlockSpec) (order : List (BlockSpec × Place)) : Prop where
  perm : order.Perm (spec.placed none)
  led : Led [] order

variable {spec : BlockSpec}

theorem placed_bare (spec : BlockSpec) (place : Place) :
    spec.bare.placed place = [(spec.bare, place)] := by
  rw [placed_eq]
  rfl

theorem ids_bare (spec : BlockSpec) : spec.bare.ids = [spec.id] := by
  rw [← map_id_placed spec.bare none, placed_bare]
  rfl

theorem distinct_bare (spec : BlockSpec) : spec.bare.Distinct where
  ids := by simp [ids_bare]
  slots := by
    rw [← map_placed spec.bare none, placed_bare]
    simp [bare]

end BlockSpec

namespace Workspace

/-- Inserts blocks one by one, without those that hang below them. -/
def build (order : List (BlockSpec × Place)) : Workspace :=
  order.foldl (fun workspace entry => workspace.insert entry.1.bare entry.2) empty

structure Keeps (workspace : Workspace) (entries : List (BlockSpec × Place)) : Prop where
  known : ∀ id, workspace.contains id = true ↔ id ∈ entries.map (·.1.id)
  block : ∀ entry ∈ entries, ∃ children,
    workspace.find? entry.1.id = some { placedBlock entry with children }
  holds : ∀ parent slot child, workspace.Holds parent slot child ↔
    ∃ entry ∈ entries, entry.1.id = child ∧ entry.2 = some (parent, slot)

variable {workspace first second : Workspace} {spec : BlockSpec}
  {entries rest : List (BlockSpec × Place)}

theorem Keeps.of_perm {others : List (BlockSpec × Place)} (keeps : workspace.Keeps entries)
    (perm : entries.Perm others) : workspace.Keeps others where
  known id := (keeps.known id).trans (perm.map _).mem_iff
  block entry member := keeps.block entry (perm.mem_iff.2 member)
  holds parent slot child := by simp only [keeps.holds, perm.mem_iff]

theorem Keeps.agrees (keeps : first.Keeps entries) (keepsToo : second.Keeps entries) :
    first.Agrees second := by
  intro id
  by_cases listed : id ∈ entries.map (·.1.id)
  · obtain ⟨entry, member, rfl⟩ := List.mem_map.1 listed
    obtain ⟨children, found⟩ := keeps.block entry member
    obtain ⟨otherChildren, foundToo⟩ := keepsToo.block entry member
    have slots : ∀ slot, children.get? slot = otherChildren.get? slot := by
      intro slot
      apply Option.ext
      intro child
      have held : first.Holds entry.1.id slot child ↔ children.get? slot = some child := by
        simp [Holds, found]
      have heldToo : second.Holds entry.1.id slot child ↔
          otherChildren.get? slot = some child := by simp [Holds, foundToo]
      rw [← held, ← heldToo, keeps.holds, keepsToo.holds]
    rw [found, foundToo, SortedMap.ext_get? slots]
  · have unknown := mt (keeps.known id).1 listed
    have unknownToo := mt (keepsToo.known id).1 listed
    simp only [contains, Option.isSome_iff_ne_none, ne_eq, not_not] at unknown unknownToo
    rw [unknown, unknownToo]

theorem keeps_empty : empty.Keeps [] := by
  refine ⟨fun id => ?_, by simp, fun parent slot child => ?_⟩
  · simp [contains]
  · simp [Holds]

theorem keeps_whole (distinct : spec.Distinct) :
    (empty.insert spec none).Keeps (spec.placed none) := by
  have fits : ∀ above ∈ (none : Place).map (·.1),
      above ∉ spec.ids ∧ empty.contains above = true := by simp
  refine ⟨fun id => ?_, fun entry member => ?_, fun parent slot child => ?_⟩
  · rw [contains_insert distinct fits, BlockSpec.map_id_placed]
    simp [contains]
  · exact ⟨_, find?_insert_of_mem distinct fits member⟩
  · rw [holds_insert distinct fits]
    simp [Holds]

theorem Keeps.insert {entry : BlockSpec × Place} (keeps : workspace.Keeps entries)
    (fresh : entry.1.id ∉ entries.map (·.1.id))
    (led : ∀ parent ∈ entry.2.map (·.1), parent ∈ entries.map (·.1.id))
    (free : ∀ other ∈ entries, other.2 = entry.2 → entry.2 = none) :
    (workspace.insert entry.1.bare entry.2).Keeps (entries ++ [entry]) := by
  obtain ⟨spec, place⟩ := entry
  have distinct := spec.distinct_bare
  have own : ∀ id, id ∈ spec.bare.ids ↔ id = spec.id := by simp [BlockSpec.ids_bare]
  have fits : ∀ above ∈ place.map (·.1),
      above ∉ spec.bare.ids ∧ workspace.contains above = true := by
    intro above stands
    have listed := led above stands
    refine ⟨?_, (keeps.known above).2 listed⟩
    rw [own]
    rintro rfl
    exact fresh listed
  refine ⟨fun id => ?_, ?_, fun parent slot child => ?_⟩
  · rw [contains_insert distinct fits, own, keeps.known]
    simp [or_comm, eq_comm]
  · intro entry member
    rcases List.mem_append.1 member with old | new
    · obtain ⟨children, found⟩ := keeps.block entry old
      have outside : entry.1.id ∉ spec.bare.ids := by
        rw [own]
        intro same
        exact fresh (List.mem_map.2 ⟨entry, old, same⟩)
      exact ⟨_, by rw [find?_insert_of_not_mem fits outside, found]; rfl⟩
    · obtain rfl := List.mem_singleton.1 new
      have inTree : (spec.bare, place) ∈ spec.bare.placed place := by
        simp [BlockSpec.placed_bare]
      have found := find?_insert_of_mem distinct fits inTree
      exact ⟨(placedBlock (spec.bare, place)).children, found⟩
  · rw [holds_insert distinct fits, keeps.holds, BlockSpec.placed_bare]
    simp only [List.mem_singleton, exists_eq_left, List.mem_append, own, or_and_right,
      exists_or]
    constructor
    · rintro (new | ⟨-, -, old⟩)
      · exact .inr new
      · exact .inl old
    · rintro (⟨other, old, same, stands⟩ | new)
      · obtain ⟨block, found, -⟩ := (keeps.holds parent slot child).2 ⟨other, old, same, stands⟩
        refine .inr ⟨?_, ?_, other, old, same, stands⟩
        · rintro rfl
          exact fresh ((keeps.known spec.id).1 (contains_iff.2 ⟨block, found⟩))
        · rintro rfl
          exact absurd (free other old stands) (by simp)
      · exact .inl new

theorem Keeps.insertAll {done : List (BlockSpec × Place)} (distinct : spec.Distinct)
    (keeps : workspace.Keeps done) (perm : (done ++ rest).Perm (spec.placed none))
    (led : BlockSpec.Led (done.map (·.1.id)) rest) :
    (rest.foldl (fun workspace entry => workspace.insert entry.1.bare entry.2)
      workspace).Keeps (done ++ rest) := by
  induction rest generalizing workspace done with
  | nil => simpa using keeps
  | cons entry rest ih =>
      have split : done ++ entry :: rest = (done ++ [entry]) ++ rest := by simp
      have nodup : ((done ++ entry :: rest).map (·.1.id)).Nodup := by
        rw [(perm.map _).nodup_iff, BlockSpec.map_id_placed]
        exact distinct.ids
      have fresh : entry.1.id ∉ done.map (·.1.id) := by
        rw [List.map_append, List.nodup_append'] at nodup
        intro earlier
        exact nodup.2.2 earlier (by simp)
      have free : ∀ other ∈ done, other.2 = entry.2 → entry.2 = none := by
        intro other member same
        by_contra stands
        have inTree : entry ∈ spec.placed none := perm.mem_iff.1 (by simp)
        have inTreeToo : other ∈ spec.placed none := perm.mem_iff.1 (by simp [member])
        obtain rfl := distinct.eq_of_place (by simp) inTree inTreeToo stands same.symm
        exact fresh (List.mem_map_of_mem member)
      obtain ⟨stands, later⟩ := led
      have ledRest : BlockSpec.Led ((done ++ [entry]).map (·.1.id)) rest := by
        apply later.mono
        simp
      rw [List.foldl_cons, split]
      exact ih (keeps.insert fresh stands free) (split ▸ perm) ledRest

theorem keeps_build {order : List (BlockSpec × Place)} (distinct : spec.Distinct)
    (builds : spec.BuildOrder order) : (build order).Keeps (spec.placed none) :=
  (keeps_empty.insertAll distinct builds.perm builds.led).of_perm builds.perm

theorem entries_eq_head {workspace : Workspace} (distinct : spec.Distinct)
    (agrees : workspace.Agrees (empty.insert spec none)) (start : spec.type = "start")
    (only : ∀ block ∈ spec.blocks, block.type = "start" → block.id = spec.id) :
    workspace.entries = [placedBlock (spec, none)] := by
  have fits : ∀ above ∈ (none : Place).map (·.1),
      above ∉ spec.ids ∧ empty.contains above = true := by simp
  have found : ∀ entry ∈ spec.placed none,
      workspace.find? entry.1.id = some (placedBlock entry) := fun entry member =>
    (agrees _).trans (find?_insert_of_mem distinct fits member)
  have alive : workspace.live? spec.id = some (placedBlock (spec, none)) :=
    live?_eq_some_iff.2 ⟨found _ (spec.head_mem_placed none), rfl⟩
  apply entries_eq_singleton alive start
  intro id block live isStart
  have foundBlock := (live?_eq_some_iff.1 live).1
  obtain ⟨entry, member, rfl, rfl⟩ | ⟨old, foundOld, -⟩ :=
    find?_insert_cases distinct fits ((agrees id).symm.trans foundBlock)
  · have isHead := only entry.1 (BlockSpec.mem_blocks_of_mem_placed member) isStart
    rw [distinct.eq_of_id member (spec.head_mem_placed none) isHead]
  · simp at foundOld

/-- Inserting the blocks of a tree one by one, each without what hangs below it and behind its
parent, gives every id the block that inserting the whole tree gives it. So the trees, slots, shapes
and fingerprints are the same, and with the head as the only entry block the program is. -/
theorem build_eq_insert {order : List (BlockSpec × Place)} (distinct : spec.Distinct)
    (builds : spec.BuildOrder order) :
    (∀ id, (build order).find? id = (empty.insert spec none).find? id) ∧
      (∀ entry ∈ spec.placed none,
        (empty.insert spec none).find? entry.1.id = some (placedBlock entry)) ∧
      (∀ id, (build order).descendants id = (empty.insert spec none).descendants id) ∧
      (∀ parent child, (build order).slotOf? parent child =
        (empty.insert spec none).slotOf? parent child) ∧
      (∀ id, (build order).shape? id = (empty.insert spec none).shape? id ∧
        ((build order).shape? id).map Shape.fingerprint =
          ((empty.insert spec none).shape? id).map Shape.fingerprint) ∧
      (spec.type = "start" →
        (∀ block ∈ spec.blocks, block.type = "start" → block.id = spec.id) →
        ∃ script, (build order).compile = .ok script ∧
          (empty.insert spec none).compile = .ok script) := by
  have agrees : (build order).Agrees (empty.insert spec none) :=
    (keeps_build distinct builds).agrees (keeps_whole distinct)
  refine ⟨agrees, fun entry member => find?_insert_of_mem distinct (by simp) member,
    agrees.descendants, agrees.slotOf?, fun id => ?_, fun start only => ?_⟩
  · rw [agrees.shape?]
    exact ⟨rfl, rfl⟩
  · have entries := entries_eq_head distinct agrees start only
    have entriesToo := entries_eq_head distinct (fun _ => rfl) start only
    rw [agrees.compile (entries.trans entriesToo.symm)]
    simp only [compile, entriesToo]
    exact ⟨_, rfl, rfl⟩

def patrolStep : BlockSpec := .leaf "f" "forward"

def patrolTurn : BlockSpec := .leaf "t" "turn_left"

def patrolLoop : BlockSpec :=
  ⟨"r", "repeat", .ofList [("TIMES", "3")], [(.doBody, patrolStep), (.next, patrolTurn)]⟩

def patrol : BlockSpec := ⟨"s", "start", ∅, [(.next, patrolLoop)]⟩

/-- The turn is hung on the loop before the step is. -/
theorem build_eq_insert_patrol : patrol.Distinct ∧
    patrol.BuildOrder [(patrol, none), (patrolLoop, some ("s", .next)),
      (patrolTurn, some ("r", .next)), (patrolStep, some ("r", .doBody))] ∧
    ∃ script, (build [(patrol, none), (patrolLoop, some ("s", .next)),
        (patrolTurn, some ("r", .next)), (patrolStep, some ("r", .doBody))]).compile = .ok script ∧
      (empty.insert patrol none).compile = .ok script := by
  have distinct : patrol.Distinct := by decide
  have builds : patrol.BuildOrder [(patrol, none), (patrolLoop, some ("s", .next)),
      (patrolTurn, some ("r", .next)), (patrolStep, some ("r", .doBody))] :=
    ⟨.cons _ (.cons _ (.swap _ _ _)), by simp [BlockSpec.Led, patrol, patrolLoop]⟩
  obtain ⟨-, -, -, -, -, programs⟩ := build_eq_insert distinct builds
  exact ⟨distinct, builds, programs rfl (by decide)⟩

end Workspace

end RobotPuzzle
