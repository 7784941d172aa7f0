import RobotPuzzle.Proofs.Workspace.Loops
import RobotPuzzle.Proofs.Workspace.Undo

/-!
What a move and a deletion write, and what they leave alone, whatever they are asked for and however
the slots of the workspace are filled. A move writes the parent of one block and at most two slots;
a deletion writes the marks of the blocks that slots lead to, and no other mark.
-/

namespace RobotPuzzle.Workspace

open Relation

variable {workspace : Workspace} {id other parent : String} {slot : Slot} {source target : Place}
  {block before middle after : Block}

/-! A move. -/

structure Moved (id : String) (source target : Place) (before after : Block) : Prop where
  own : after.id = before.id
  type : after.type = before.type
  fields : after.fields = before.fields
  deleted : after.deleted = before.deleted
  links : before.id ≠ id → after.parent = before.parent ∧ after.top = before.top
  slots : ∀ slot, after.children.get? slot = before.children.get? slot ∨
    (source = some (before.id, slot) ∧ before.children.get? slot = some id ∧
      after.children.get? slot = none) ∨
    (target = some (before.id, slot) ∧ after.children.get? slot = some id)

namespace Moved

theorem refl : Moved id source target block block :=
  ⟨rfl, rfl, rfl, rfl, fun _ => ⟨rfl, rfl⟩, fun _ => .inl rfl⟩

theorem trans (first : Moved id source none before middle)
    (second : Moved id none target middle after) : Moved id source target before after := by
  refine ⟨second.own.trans first.own, second.type.trans first.type,
    second.fields.trans first.fields, second.deleted.trans first.deleted, ?_, ?_⟩
  · intro different
    obtain ⟨parent, top⟩ := first.links different
    obtain ⟨parentToo, topToo⟩ := second.links (first.own ▸ different)
    exact ⟨parentToo.trans parent, topToo.trans top⟩
  · intro slot
    rcases second.slots slot with same | ⟨nowhere, -⟩ | ⟨filled, held⟩
    · rw [same]
      exact (first.slots slot).imp_right fun moved => .inl (moved.resolve_right (by simp))
    · cases nowhere
    · exact .inr (.inr ⟨first.own ▸ filled, held⟩)

theorem takeOff (found : workspace.find? other = some block) : ∃ after,
    (workspace.takeOff id source).find? other = some after ∧ Moved id source none block after := by
  obtain rfl := id_of_find? found
  obtain _ | ⟨parent, slot⟩ := source
  · exact ⟨block, found, refl⟩
  rw [Workspace.takeOff, find?_detach, found]
  refine ⟨_, rfl, rfl, rfl, rfl, rfl, fun different => by simp [different], fun place => ?_⟩
  by_cases emptied : block.id = parent ∧ block.children.get? slot = some id
  · obtain ⟨rfl, held⟩ := emptied
    simp only [held, and_self, ↓reduceIte, SortedMap.get?_erase]
    by_cases here : place = slot
    · subst here
      exact .inr (.inl ⟨rfl, held, if_pos rfl⟩)
    · exact .inl (if_neg here)
  · simp [emptied]

theorem attach (found : workspace.find? other = some block) : ∃ after,
    (workspace.attach parent slot id).find? other = some after ∧
      Moved id none (some (parent, slot)) block after := by
  obtain rfl := id_of_find? found
  rw [find?_attach, found]
  refine ⟨_, rfl, rfl, rfl, rfl, rfl, fun different => by simp [different], fun place => ?_⟩
  by_cases atParent : block.id = parent
  · simp only [atParent, ↓reduceIte, SortedMap.get?_insert]
    by_cases here : place = slot
    · subst here
      exact .inr (.inr ⟨rfl, if_pos rfl⟩)
    · exact .inl (if_neg here)
  · simp [atParent]

end Moved

theorem Moved.reparent (found : workspace.find? other = some block) : ∃ after,
    (workspace.reparent id source target).find? other = some after ∧
      Moved id source target block after := by
  obtain ⟨freed, foundFreed, off⟩ : ∃ freed,
      (workspace.takeOff id source).find? other = some freed ∧ Moved id source none block freed :=
    Moved.takeOff found
  rcases workspace.reparent_cases id source target with
    ⟨-, same⟩ | ⟨-, same | ⟨parent, slot, rfl, -, -, same⟩⟩ <;> rw [same]
  · exact ⟨block, found, .refl⟩
  · exact ⟨freed, foundFreed, off.trans .refl⟩
  · obtain ⟨hung, foundHung, on⟩ := Moved.attach foundFreed
    exact ⟨hung, foundHung, off.trans on⟩

/-- The test for the block's own tree looks at the workspace after the first half of the move. There
the links are acyclic too, so it finds every ancestor. -/
theorem Acyclic.reparent (acyclic : workspace.Acyclic) (id : String) (source target : Place) :
    (workspace.reparent id source target).Acyclic := by
  have freed : (workspace.takeOff id source).Acyclic := acyclic.takeOff
  rcases workspace.reparent_cases id source target with
    ⟨-, same⟩ | ⟨-, same | ⟨parent, slot, rfl, -, accepted, same⟩⟩ <;> rw [same]
  · exact acyclic
  · exact freed
  · have outside : ¬(workspace.takeOff id source).Below id parent := by
      intro below
      rw [freed.isAncestorOrSelf_iff.2 below] at accepted
      cases accepted
    exact freed.attach outside

/-- A move with whatever arguments makes no cycle of parent links. The blocks stay the same ones in
the same order, each with its type, fields and mark; no parent changes but that of the block moved,
and no slot but the one it is taken off and the one it is hung on. A move of an unknown block
changes nothing. -/
theorem reparent_writes_little (acyclic : workspace.Acyclic) (id : String)
    (source target : Place) :
    (workspace.reparent id source target).Acyclic ∧
      (workspace.reparent id source target).ids = workspace.ids ∧
      (∀ other block, workspace.find? other = some block → ∃ after,
        (workspace.reparent id source target).find? other = some after ∧
          Moved id source target block after) ∧
      (workspace.contains id = false → workspace.reparent id source target = workspace) := by
  refine ⟨acyclic.reparent id source target, ids_reparent .., fun _ _ => Moved.reparent, ?_⟩
  intro unknown
  simp [reparent, unknown]

/-- The loop is taken off its own place, a wrong one or none, and goes to the top, below the other
step, below itself, below one of its own blocks and below an unknown block. -/
theorem reparent_writes_little_loopAndStep : loopAndStep.Acyclic ∧
    ∀ source ∈ [none, some ("s", .next), some ("x", .next), some ("ghost", .doBody)],
      ∀ target ∈ [none, some ("x", .next), some ("r", .next), some ("m", .next),
          some ("ghost", .next)],
        (loopAndStep.reparent "r" source target).Acyclic ∧
          (loopAndStep.reparent "r" source target).ids = ["s", "r", "f", "n", "m", "x"] ∧
            (loopAndStep.reparent "r" source target).ParentLink "m" "n" := by
  have acyclic := consistent_loopAndStep.acyclic
  refine ⟨acyclic, fun source _ target _ => ?_⟩
  obtain ⟨stays, ids, moved, -⟩ := reparent_writes_little acyclic "r" source target
  obtain ⟨after, found, unmoved⟩ := moved "m" _ rfl
  exact ⟨stays, ids.trans (by decide), after, found, (unmoved.links (by decide)).1⟩

/-! A deletion. -/

theorem marking_marking (workspace : Workspace) (ids more : List String) :
    (workspace.marking ids).marking more = workspace.marking (more ++ ids) := by
  simp only [marking, map, Workspace.mk.injEq, List.map_map]
  refine List.map_congr_left ?_
  intro block _
  by_cases early : block.id ∈ ids <;> by_cases late : block.id ∈ more <;> simp [early, late]

theorem cascade_delete (workspace : Workspace) (target id : String) :
    (workspace.delete target).cascade id = workspace.cascade id := by
  apply walk_congr
  intro low
  rw [find?_delete]
  cases workspace.find? low <;> rfl

theorem delete_delete (workspace : Workspace) (id other : String) :
    (workspace.delete id).delete other =
      workspace.marking (workspace.cascade other ++ workspace.cascade id) := by
  have second : (workspace.delete id).delete other =
      (workspace.delete id).marking (workspace.cascade other) := by
    rw [← workspace.cascade_delete id other]
    rfl
  rw [second]
  exact workspace.marking_marking _ _

theorem delete_comm (workspace : Workspace) (id other : String) :
    (workspace.delete id).delete other = (workspace.delete other).delete id := by
  rw [delete_delete, delete_delete]
  refine marking_congr fun block _ => ?_
  rw [List.mem_append, List.mem_append, or_comm]

theorem delete_self (workspace : Workspace) (id : String) :
    (workspace.delete id).delete id = workspace.delete id := by
  rw [delete_delete]
  refine marking_congr fun block _ => ?_
  rw [List.mem_append, or_self]

theorem Consistent.delete (consistent : workspace.Consistent) (id : String) :
    (workspace.delete id).Consistent where
  acyclic := consistent.acyclic.of_fewer_links fun _ _ => parentLink_delete.1
  parent_of_holds := by
    intro parent slot child block holds found
    obtain ⟨old, foundOld⟩ : ∃ old, workspace.find? child = some old :=
      contains_iff.1 (contains_delete.symm.trans (contains_iff.2 ⟨block, found⟩))
    have link := consistent.parentLink (holds_delete.1 holds) foundOld
    exact (parentLink_delete.2 link).parent_eq found
  holds_unique := fun holds other =>
    consistent.holds_unique (holds_delete.1 holds) (holds_delete.1 other)
  holds_of_parent := by
    intro child block parent alive named
    rw [live?_delete] at alive
    split at alive
    · cases alive
    · obtain ⟨slot, holds⟩ := consistent.holds_of_parent alive named
      exact ⟨slot, holds_delete.2 holds⟩

theorem StartsAlone.delete (alone : workspace.StartsAlone) (id : String) :
    (workspace.delete id).StartsAlone := by
  intro other block alive start
  rw [live?_delete] at alive
  split at alive
  · cases alive
  · exact alone other block alive start

theorem mem_liveIds_delete {low : String} : low ∈ (workspace.delete id).liveIds ↔
    low ∈ workspace.liveIds ∧ low ∉ workspace.cascade id := by
  rw [mem_liveIds_iff, mem_liveIds_iff, live?_delete]
  by_cases marked : low ∈ workspace.cascade id <;> simp [marked]

theorem deletionCount_add_live (workspace : Workspace) (id : String) :
    workspace.deletionCount id + (workspace.delete id).liveIds.length =
      workspace.liveIds.length := by
  have gone : workspace.deletionCount id =
      (workspace.liveIds.filter fun low => low ∈ workspace.cascade id).length := by
    refine deletionCount_eq_length (workspace.nodup_liveIds.filter _) fun low => ?_
    rw [List.mem_filter, mem_liveIds_iff, decide_eq_true_eq, and_comm]
  have left : (workspace.delete id).liveIds.Perm
      (workspace.liveIds.filter fun low => !decide (low ∈ workspace.cascade id)) := by
    refine (List.perm_ext_iff_of_nodup (workspace.delete id).nodup_liveIds
      (workspace.nodup_liveIds.filter _)).2 fun low => ?_
    simp [mem_liveIds_delete]
  rw [gone, left.length_eq]
  exact (List.length_eq_length_filter_add _).symm

def mark? (workspace : Workspace) (id : String) : Option Bool :=
  (workspace.find? id).map (·.deleted)

theorem deletionCount_eq_changed (workspace : Workspace) (id : String) :
    workspace.deletionCount id =
      workspace.ids.countP fun low => (workspace.delete id).mark? low != workspace.mark? low := by
  have distinct : workspace.ids.Nodup := workspace.distinct
  rw [List.countP_eq_length_filter]
  refine deletionCount_eq_length (distinct.filter _) fun low => ?_
  rw [List.mem_filter, mem_ids_iff, contains_iff, bne_iff_ne]
  simp only [mark?, find?_delete, live?_eq_some_iff]
  constructor
  · rintro ⟨⟨block, found⟩, changed⟩
    by_cases marked : low ∈ workspace.cascade id
    · refine ⟨marked, block, found, ?_⟩
      simpa [found, marked] using changed
    · simp [found, marked] at changed
  · rintro ⟨marked, block, found, alive⟩
    exact ⟨⟨block, found⟩, by simp [found, marked, alive]⟩

theorem deletionCount_delete_self (workspace : Workspace) (id : String) :
    (workspace.delete id).deletionCount id = 0 := by
  have counted := (workspace.delete id).deletionCount_add_live id
  rw [delete_self] at counted
  omega

/-- However slots share blocks or run in circles: the loop that marks blocks while it walks over
them comes to an end with the result of a deletion. This marks exactly the blocks that slots lead to
from its own, deleted ones on the way included, and changes nothing else; it counts the blocks whose
mark has changed. The same deletion again does nothing and counts none, and of two deletions it does
not matter which comes first. -/
theorem delete_marks_exactly (workspace : Workspace) (id : String) :
    (∃ pops handled, Ends (Sweep.round strike) pops ⟨[], [id], (workspace, 0)⟩
      (handled, (workspace.delete id, workspace.deletionCount id))) ∧
    (workspace.delete id).ids = workspace.ids ∧
    (∀ low block, workspace.find? low = some block → ∃ deleted,
      (workspace.delete id).find? low = some { block with deleted } ∧
        (deleted = true ↔ block.deleted = true ∨
          ReflTransGen (fun parent child => ∃ slot, workspace.Holds parent slot child) id low)) ∧
    workspace.deletionCount id =
      workspace.ids.countP (fun low => (workspace.delete id).mark? low != workspace.mark? low) ∧
    (workspace.delete id).delete id = workspace.delete id ∧
    (workspace.delete id).deletionCount id = 0 ∧
    ∀ other, (workspace.delete id).delete other = (workspace.delete other).delete id ∧
      workspace.deletionCount id + (workspace.delete id).deletionCount other =
        workspace.deletionCount other + (workspace.delete other).deletionCount id := by
  obtain ⟨pops, -, handled, -, ends⟩ := workspace.strike_ends id
  refine ⟨⟨pops, handled, ends⟩, ids_delete .., fun low block found => ?_,
    workspace.deletionCount_eq_changed id, workspace.delete_self id,
    workspace.deletionCount_delete_self id, fun other => ?_⟩
  · refine ⟨block.deleted || decide (low ∈ workspace.cascade id), by rw [find?_delete, found]; rfl,
      ?_⟩
    rw [Bool.or_eq_true, decide_eq_true_eq, mem_cascade_iff]
    exact or_congr_right (and_iff_right ⟨block, found⟩)
  · have same := workspace.delete_comm id other
    have first := workspace.deletionCount_add_live id
    have second := workspace.deletionCount_add_live other
    have firstRest := (workspace.delete id).deletionCount_add_live other
    have secondRest := (workspace.delete other).deletionCount_add_live id
    rw [same] at firstRest
    exact ⟨same, by omega⟩

end RobotPuzzle.Workspace
