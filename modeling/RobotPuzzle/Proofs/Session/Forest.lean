import RobotPuzzle.Proofs.Session.Editor

/-! Every step keeps the editor's blocks a forest. -/

namespace RobotPuzzle.Editor

inductive Grounded (editor : Editor) : String → Prop
  | top {piece} (member : piece ∈ editor.pieces) (alone : piece.place = none) :
      Grounded editor piece.id
  | under {piece parent slot} (member : piece ∈ editor.pieces)
      (stands : piece.place = some (parent, slot)) (above : Grounded editor parent) :
      Grounded editor piece.id

structure Forest (editor : Editor) : Prop where
  distinct : (editor.pieces.map (·.id)).Nodup
  used : ∀ piece ∈ editor.pieces, piece.id ∈ editor.used
  single : ∀ first ∈ editor.pieces, ∀ second ∈ editor.pieces, first.place ≠ none →
    first.place = second.place → first.id = second.id
  grounded : ∀ piece ∈ editor.pieces, editor.Grounded piece.id

variable {editor before after : Editor} {piece other : Piece} {id parent : String} {slot : Slot}
  {place : Place} {block : BlockSpec}

theorem Grounded.has (grounded : editor.Grounded id) : editor.Has id := by
  cases grounded with
  | top member => exact ⟨_, member, rfl⟩
  | under member => exact ⟨_, member, rfl⟩

theorem Forest.eq_of_id (forest : editor.Forest) (member : piece ∈ editor.pieces)
    (otherMember : other ∈ editor.pieces) (same : piece.id = other.id) : piece = other :=
  List.inj_on_of_nodup_map forest.distinct member otherMember same

theorem Forest.put_place (forest : editor.Forest) (member : piece ∈ editor.pieces) :
    editor.put piece.id piece.place = editor := by
  have same : ∀ other ∈ editor.pieces,
      (if other.id = piece.id then { other with place := piece.place } else other) = other := by
    intro other otherMember
    split
    next sameId => rw [← forest.eq_of_id otherMember member sameId]
    next => rfl
  simp only [Editor.put, change]
  rw [List.map_congr_left same, List.map_id']

theorem Forest.has_parent (forest : editor.Forest) (member : piece ∈ editor.pieces)
    (stands : piece.place = some (parent, slot)) : editor.Has parent := by
  generalize same : piece.id = id
  have grounded := forest.grounded piece member
  rw [same] at grounded
  cases grounded with
  | top topMember alone =>
      have := forest.eq_of_id member topMember same
      simp_all
  | under underMember above grounded =>
      obtain rfl := forest.eq_of_id member underMember same
      obtain ⟨rfl, rfl⟩ : _ = parent ∧ _ = slot := by simpa [stands] using above.symm
      exact grounded.has

theorem Grounded.transfer (still : String → Prop)
    (kept : ∀ piece ∈ before.pieces, still piece.id →
      ∃ image ∈ after.pieces, image.id = piece.id ∧ image.place = piece.place)
    (upward : ∀ piece ∈ before.pieces, still piece.id →
      ∀ parent slot, piece.place = some (parent, slot) → still parent)
    (grounded : before.Grounded id) : still id → after.Grounded id := by
  induction grounded with
  | top member alone =>
      intro holds
      obtain ⟨image, imageMember, same, samePlace⟩ := kept _ member holds
      rw [← same]
      exact .top imageMember (samePlace.trans alone)
  | under member stands above ih =>
      intro holds
      obtain ⟨image, imageMember, same, samePlace⟩ := kept _ member holds
      rw [← same]
      exact .under imageMember (samePlace.trans stands) (ih (upward _ member holds _ _ stands))

theorem Forest.empty : empty.Forest := ⟨.nil, by simp [Editor.empty], by simp [Editor.empty],
  by simp [Editor.empty]⟩

theorem Forest.setField {name : String} {value : Option String} (forest : editor.Forest) :
    (editor.setField id name value).Forest := by
  have old : ∀ piece ∈ (editor.setField id name value).pieces,
      ∃ old ∈ editor.pieces, old.id = piece.id ∧ old.place = piece.place := by
    intro piece member
    obtain ⟨old, oldMember, rfl⟩ := mem_change_iff.1 member
    refine ⟨old, oldMember, ?_⟩
    split <;> exact ⟨rfl, rfl⟩
  refine ⟨?_, ?_, ?_, ?_⟩
  · rw [Editor.setField, map_id_change (by simp)]
    exact forest.distinct
  · intro piece member
    obtain ⟨old, oldMember, same, -⟩ := old piece member
    rw [← same]
    exact forest.used old oldMember
  · intro first firstMember second secondMember stands same
    obtain ⟨oldFirst, oldFirstMember, firstId, firstPlace⟩ := old first firstMember
    obtain ⟨oldSecond, oldSecondMember, secondId, secondPlace⟩ := old second secondMember
    rw [← firstId, ← secondId]
    exact forest.single oldFirst oldFirstMember oldSecond oldSecondMember (by rwa [firstPlace])
      (by rwa [firstPlace, secondPlace])
  · intro piece member
    obtain ⟨old, oldMember, same, -⟩ := old piece member
    rw [← same]
    refine (forest.grounded old oldMember).transfer (fun _ => True) ?_ ?_ trivial
    · intro kept keptMember _
      refine ⟨_, mem_change_iff.2 ⟨kept, keptMember, rfl⟩, ?_⟩
      split <;> exact ⟨rfl, rfl⟩
    · simp

theorem Grounded.put {target : String} (outside : ∀ parent ∈ place.map (·.1),
    editor.Grounded parent ∧ ¬editor.Within id parent) (grounded : editor.Grounded target) :
    (editor.put id place).Grounded target := by
  have away : ∀ other, editor.Grounded other → ¬editor.Within id other →
      (editor.put id place).Grounded other := by
    intro other above
    refine above.transfer (fun other => ¬editor.Within id other) ?_ ?_
    · intro piece member apart
      have different : piece.id ≠ id := by
        rintro rfl
        exact apart .self
      exact ⟨piece, mem_put_of_ne place member different, rfl, rfl⟩
    · intro piece member apart parent slot stands within
      exact apart (.under member stands within)
  have moved : ∀ piece ∈ editor.pieces, piece.id = id → (editor.put id place).Grounded id := by
    rintro piece member rfl
    have image := mem_put place member
    obtain _ | ⟨parent, slot⟩ := place
    · exact @Grounded.top _ { piece with place := none } image rfl
    · obtain ⟨above, apart⟩ := outside parent rfl
      exact @Grounded.under _ { piece with place := some (parent, slot) } parent slot image rfl
        (away parent above apart)
  induction grounded with
  | @top piece member alone =>
      by_cases same : piece.id = id
      · rw [same]
        exact moved piece member same
      · exact .top (mem_put_of_ne place member same) alone
  | @under piece parent slot member stands above ih =>
      by_cases same : piece.id = id
      · rw [same]
        exact moved piece member same
      · exact .under (mem_put_of_ne place member same) stands ih

theorem Forest.grounded_of_has (forest : editor.Forest) (known : editor.Has id) :
    editor.Grounded id := by
  obtain ⟨piece, member, rfl⟩ := known
  exact forest.grounded piece member

theorem Forest.put (forest : editor.Forest) (free : editor.Free id place)
    (outside : ∀ parent ∈ place.map (·.1), ¬editor.Within id parent) :
    (editor.put id place).Forest := by
  refine ⟨?_, ?_, ?_, ?_⟩
  · rw [Editor.put, map_id_change (by simp)]
    exact forest.distinct
  · intro piece member
    rcases eq_or_mem_of_mem_put member with ⟨same, -, old, oldMember, known⟩ | ⟨-, oldMember⟩
    · rw [same, ← known]
      exact forest.used old oldMember
    · exact forest.used piece oldMember
  · intro first firstMember second secondMember stands same
    rcases eq_or_mem_of_mem_put firstMember with ⟨firstId, firstPlace, -⟩ | ⟨-, firstOld⟩ <;>
      rcases eq_or_mem_of_mem_put secondMember with ⟨secondId, secondPlace, -⟩ | ⟨-, secondOld⟩
    · rw [firstId, secondId]
    · have filled := firstPlace ▸ stands
      rw [firstId, free.eq_of_place secondOld (same.symm.trans firstPlace) filled]
    · have filled := secondPlace ▸ same ▸ stands
      rw [secondId, free.eq_of_place firstOld (same.trans secondPlace) filled]
    · exact forest.single first firstOld second secondOld stands same
  · have above : ∀ parent ∈ place.map (·.1), editor.Grounded parent ∧ ¬editor.Within id parent :=
      fun parent stands =>
        ⟨forest.grounded_of_has (free.has parent stands), outside parent stands⟩
    intro piece member
    rcases eq_or_mem_of_mem_put member with ⟨same, -, known⟩ | ⟨-, oldMember⟩
    · rw [same]
      exact (forest.grounded_of_has known).put above
    · exact (forest.grounded piece oldMember).put above

theorem Forest.outside (forest : editor.Forest) (fresh : ∀ id ∈ block.ids, id ∉ editor.used)
    (free : editor.Free id place) : ∀ parent ∈ place.map (·.1), parent ∉ block.ids := by
  intro parent stands inTree
  obtain ⟨piece, member, rfl⟩ := free.has parent stands
  exact fresh piece.id inTree (forest.used piece member)

theorem Forest.not_stands_at_add (forest : editor.Forest)
    (fresh : ∀ id ∈ block.ids, id ∉ editor.used) (free : editor.Free block.id place)
    {entry : BlockSpec × Place} (member : piece ∈ editor.pieces)
    (entryMember : entry ∈ block.placed place) (stands : piece.place ≠ none) :
    piece.place ≠ entry.2 := by
  have old := forest.used piece member
  intro same
  rcases BlockSpec.eq_head_or_child entryMember with rfl | ⟨above, aboveMember, slot, -, under⟩
  · have head := free.eq_of_place member same fun alone => stands (same.trans alone)
    exact fresh block.id block.id_mem_ids (head ▸ old)
  · obtain ⟨parent, parentMember, known⟩ := forest.has_parent member (same.trans under)
    exact fresh _ (BlockSpec.mem_ids_of_mem_placed aboveMember)
      (known ▸ forest.used parent parentMember)

theorem Grounded.add (grounded : editor.Grounded id) : (editor.add block place).Grounded id := by
  refine grounded.transfer (fun _ => True) ?_ (by simp) trivial
  intro piece member _
  exact ⟨piece, mem_add_iff.2 (.inl member), rfl, rfl⟩

theorem Forest.grounded_of_mem_placed (forest : editor.Forest)
    (free : editor.Free block.id place) :
    ∀ entry ∈ block.placed place, (editor.add block place).Grounded entry.1.id := by
  have image : ∀ entry ∈ block.placed place, .ofPlaced entry ∈ (editor.add block place).pieces :=
    fun entry member => mem_add_iff.2 (.inr ⟨entry, member, rfl⟩)
  have head : (editor.add block place).Grounded block.id := by
    have headImage := image _ (block.head_mem_placed place)
    obtain _ | ⟨parent, slot⟩ := place
    · exact .top headImage rfl
    · exact .under headImage rfl (forest.grounded_of_has (free.has parent rfl)).add
  have both := BlockSpec.placed_induction
    (fun entry => entry ∈ block.placed place ∧ (editor.add block place).Grounded entry.1.id)
    (by
      intro above ⟨member, grounded⟩ child inSlot
      have childMember := BlockSpec.mem_placed_of_child block place above member child inSlot
      exact ⟨childMember, .under (image _ childMember) rfl grounded⟩)
    block place ⟨block.head_mem_placed place, head⟩
  exact fun entry member => (both entry member).2

theorem Forest.add (forest : editor.Forest) (distinct : block.Distinct)
    (fresh : ∀ id ∈ block.ids, id ∉ editor.used) (free : editor.Free block.id place) :
    (editor.add block place).Forest := by
  refine ⟨?_, ?_, ?_, ?_⟩
  · have ids : (editor.add block place).pieces.map (·.id) =
        editor.pieces.map (·.id) ++ block.ids := by
      simp [Editor.add, BlockSpec.ids, ← BlockSpec.map_placed block place, Function.comp_def,
        Piece.ofPlaced]
    rw [ids, List.nodup_append]
    refine ⟨forest.distinct, distinct.ids, ?_⟩
    rintro old oldMember new newMember rfl
    obtain ⟨piece, member, rfl⟩ := List.mem_map.1 oldMember
    exact fresh piece.id newMember (forest.used piece member)
  · intro piece member
    rcases mem_add_iff.1 member with old | ⟨entry, entryMember, rfl⟩
    · exact List.mem_append_left _ (forest.used piece old)
    · exact List.mem_append_right _ (BlockSpec.mem_ids_of_mem_placed entryMember)
  · intro first firstMember second secondMember stands same
    rcases mem_add_iff.1 firstMember with firstOld | ⟨entry, entryMember, rfl⟩ <;>
      rcases mem_add_iff.1 secondMember with secondOld | ⟨other, otherMember, rfl⟩
    · exact forest.single first firstOld second secondOld stands same
    · exact absurd same (forest.not_stands_at_add fresh free firstOld otherMember stands)
    · exact absurd same.symm
        (forest.not_stands_at_add fresh free secondOld entryMember (same ▸ stands))
    · rw [distinct.eq_of_place (forest.outside fresh free) entryMember otherMember stands same]
  · intro piece member
    rcases mem_add_iff.1 member with old | ⟨entry, entryMember, rfl⟩
    · exact (forest.grounded piece old).add
    · exact forest.grounded_of_mem_placed free entry entryMember

theorem Within.of_put {target : String} (within : (editor.put id place).Within id target) :
    editor.Within id target := by
  induction within with
  | self => exact .self
  | @under piece parent slot member stands above ih =>
      rcases eq_or_mem_of_mem_put member with ⟨same, -⟩ | ⟨-, oldMember⟩
      · rw [same]
        exact .self
      · exact .under oldMember stands ih

theorem Forest.remove {gone : List String} (forest : editor.Forest)
    (tree : ∀ other, other ∈ gone ↔ editor.Within id other) : (editor.remove gone).Forest := by
  refine ⟨forest.distinct.sublist (List.filter_sublist.map _), ?_, ?_, ?_⟩
  · intro piece member
    exact forest.used piece (mem_remove_iff.1 member).1
  · intro first firstMember second secondMember
    exact forest.single first (mem_remove_iff.1 firstMember).1 second
      (mem_remove_iff.1 secondMember).1
  · intro piece member
    obtain ⟨oldMember, stays⟩ := mem_remove_iff.1 member
    refine (forest.grounded piece oldMember).transfer (· ∉ gone) ?_ ?_ stays
    · intro kept keptMember still
      exact ⟨kept, mem_remove_iff.2 ⟨keptMember, still⟩, rfl, rfl⟩
    · intro kept keptMember still parent slot stands below
      exact still ((tree kept.id).2 (.under keptMember stands ((tree parent).1 below)))

theorem Forest.step {event : Event} (forest : before.Forest) (step : Step before event after) :
    after.Forest := by
  cases step with
  | idle => exact forest
  | create named distinct fresh free => exact forest.add distinct fresh free
  | setField known => exact forest.setField
  | move known source target free outside => exact forest.put free outside
  | delete known tree => exact forest.remove tree

end RobotPuzzle.Editor
