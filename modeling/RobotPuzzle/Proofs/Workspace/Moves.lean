import RobotPuzzle.Proofs.Workspace.Reach
import RobotPuzzle.Proofs.Workspace.Tree

/-! The two halves of a move, and what they make of the parent links and of the way up. -/

namespace RobotPuzzle.Workspace

open Relation

inductive Grounded (workspace : Workspace) : String → Prop
  | top {id block} (found : workspace.find? id = some block) (alone : block.parent = none) :
      Grounded workspace id
  | under {id parent} (link : workspace.ParentLink id parent) (above : Grounded workspace parent) :
      Grounded workspace id

variable {workspace after : Workspace} {id parent child above : String} {slot : Slot}
  {place : Place}

def takeOff (workspace : Workspace) (id : String) : Place → Workspace
  | none => workspace
  | some (parent, slot) => workspace.detach id parent slot

theorem reparent_none (known : workspace.contains id = true) :
    workspace.reparent id place none = workspace.takeOff id place := by
  obtain _ | ⟨above, aboveSlot⟩ := place <;> simp [Workspace.reparent, known, takeOff]

theorem reparent_some (known : workspace.contains id = true)
    (target : (workspace.takeOff id place).contains parent = true)
    (outside : (workspace.takeOff id place).isAncestorOrSelf id [] parent = false) :
    workspace.reparent id place (some (parent, slot)) =
      (workspace.takeOff id place).attach parent slot id := by
  obtain _ | ⟨above, aboveSlot⟩ := place <;>
    simp_all [Workspace.reparent, takeOff]

theorem reparent_refused (known : workspace.contains id = true)
    (refused : (workspace.takeOff id place).contains parent = true →
      (workspace.takeOff id place).isAncestorOrSelf id [] parent = true) :
    workspace.reparent id place (some (parent, slot)) = workspace.takeOff id place := by
  by_cases target : (workspace.takeOff id place).contains parent = true <;>
    obtain _ | ⟨above, aboveSlot⟩ := place <;>
    simp_all [Workspace.reparent, takeOff]

theorem reparent_cases (workspace : Workspace) (id : String) (source target : Place) :
    (workspace.contains id = false ∧ workspace.reparent id source target = workspace) ∨
      workspace.contains id = true ∧
        (workspace.reparent id source target = workspace.takeOff id source ∨
          ∃ parent slot, target = some (parent, slot) ∧
            (workspace.takeOff id source).contains parent = true ∧
            (workspace.takeOff id source).isAncestorOrSelf id [] parent = false ∧
            workspace.reparent id source target =
              (workspace.takeOff id source).attach parent slot id) := by
  cases known : workspace.contains id with
  | false => exact .inl ⟨rfl, by simp [reparent, known]⟩
  | true =>
      refine .inr ⟨rfl, ?_⟩
      obtain _ | ⟨parent, slot⟩ := target
      · exact .inl (reparent_none known)
      by_cases refused : (workspace.takeOff id source).contains parent = true →
          (workspace.takeOff id source).isAncestorOrSelf id [] parent = true
      · exact .inl (reparent_refused known refused)
      · obtain ⟨inside, outside⟩ := Classical.not_imp.1 refused
        rw [Bool.not_eq_true] at outside
        exact .inr ⟨parent, slot, rfl, inside, outside, reparent_some known inside outside⟩

theorem parentLink_attach :
    (workspace.attach parent slot child).ParentLink id above ↔
      if id = child then workspace.contains child = true ∧ above = parent
      else workspace.ParentLink id above := by
  simp only [ParentLink, find?_attach, contains_iff]
  cases found : workspace.find? id with
  | none => by_cases same : id = child <;> simp_all
  | some block => by_cases same : id = child <;> simp_all [eq_comm]

theorem parentLink_detach :
    (workspace.detach child parent slot).ParentLink id above ↔
      id ≠ child ∧ workspace.ParentLink id above := by
  simp only [ParentLink, find?_detach]
  cases found : workspace.find? id with
  | none => simp
  | some block => by_cases same : id = child <;> simp [same]

theorem Acyclic.of_fewer_links (acyclic : workspace.Acyclic)
    (fewer : ∀ child parent, after.ParentLink child parent → workspace.ParentLink child parent) :
    after.Acyclic :=
  fun id cycle => acyclic id (TransGen.mono fewer id id cycle)

theorem Acyclic.takeOff (acyclic : workspace.Acyclic) : (workspace.takeOff id place).Acyclic := by
  obtain _ | ⟨parent, slot⟩ := place
  · exact acyclic
  · exact acyclic.of_fewer_links fun _ _ link => (parentLink_detach.1 link).2

theorem Below.of_links {low : String} (below : workspace.Below id low)
    (kept : ∀ {child parent}, child ≠ id → workspace.ParentLink child parent →
      after.ParentLink child parent) : after.Below id low := by
  induction below using ReflTransGen.head_induction_on with
  | refl => exact .refl
  | @head low high link _ ih =>
      by_cases same : low = id
      · rw [same]
        exact .refl
      · exact .head (kept same link) ih

theorem Acyclic.attach (acyclic : workspace.Acyclic) (outside : ¬workspace.Below child parent) :
    (workspace.attach parent slot child).Acyclic := by
  have old : ∀ {low high}, low ≠ child → (workspace.attach parent slot child).ParentLink low high →
      workspace.ParentLink low high := by
    intro low high different link
    simpa [parentLink_attach, different] using link
  have split : ∀ {low high}, TransGen (workspace.attach parent slot child).ParentLink low high →
      TransGen workspace.ParentLink low high ∨
        ReflTransGen (workspace.attach parent slot child).ParentLink low child ∧
          ReflTransGen (workspace.attach parent slot child).ParentLink parent high := by
    intro low high path
    induction path with
    | @single high link =>
        by_cases same : low = child
        · rw [parentLink_attach, if_pos same] at link
          exact .inr ⟨same ▸ .refl, link.2 ▸ .refl⟩
        · exact .inl (.single (old same link))
    | @tail middle high path link ih =>
        by_cases same : middle = child
        · rw [parentLink_attach, if_pos same] at link
          exact .inr ⟨same ▸ path.to_reflTransGen, link.2 ▸ .refl⟩
        · rcases ih with before | ⟨down, up⟩
          · exact .inl (before.tail (old same link))
          · exact .inr ⟨down, up.tail link⟩
  intro id cycle
  rcases split cycle with before | ⟨down, up⟩
  · exact acyclic id before
  · have below : (workspace.attach parent slot child).Below child parent := up.trans down
    exact outside (below.of_links old)

/-- The test for a block's own tree misses nothing where parent links make no cycle. -/
theorem Acyclic.isAncestorOrSelf_of_below {target : String} (acyclic : workspace.Acyclic)
    (below : workspace.Below target id) : ∀ seen : List String,
      (∀ low ∈ seen, TransGen workspace.ParentLink low id) →
        workspace.isAncestorOrSelf target seen id = true := by
  induction below using ReflTransGen.head_induction_on with
  | refl =>
      intro seen _
      rw [Workspace.isAncestorOrSelf, if_pos rfl]
  | @head id parent link _ ih =>
      intro seen below
      have fresh : id ∉ seen := fun member => acyclic id (below id member)
      have climbed : workspace.isAncestorOrSelf target (id :: seen) parent = true := by
        refine ih (id :: seen) ?_
        intro low member
        rcases List.mem_cons.1 member with rfl | earlier
        · exact .single link
        · exact (below low earlier).tail link
      obtain ⟨block, found, named⟩ := link
      rw [Workspace.isAncestorOrSelf]
      split
      · rfl
      · split
        · simp_all
        · rename_i same foundSame
          obtain rfl := Option.some.inj (found.symm.trans foundSame)
          simpa [named] using climbed

theorem Acyclic.isAncestorOrSelf_iff {target : String} (acyclic : workspace.Acyclic) :
    workspace.isAncestorOrSelf target [] id = true ↔ workspace.Below target id :=
  ⟨below_of_isAncestorOrSelf [] id,
    fun below => acyclic.isAncestorOrSelf_of_below below [] (by simp)⟩

theorem Grounded.not_cycle (grounded : workspace.Grounded id) :
    ¬TransGen workspace.ParentLink id id := by
  induction grounded with
  | top found alone =>
      intro cycle
      obtain ⟨next, ⟨block, foundSame, named⟩, -⟩ := TransGen.head'_iff.1 cycle
      simp_all
  | under link above ih =>
      intro cycle
      obtain ⟨next, step, path⟩ := TransGen.head'_iff.1 cycle
      rw [step.unique link] at path
      exact ih (TransGen.tail' path link)

theorem Acyclic.of_grounded
    (grounded : ∀ id, workspace.contains id = true → workspace.Grounded id) :
    workspace.Acyclic := by
  intro id cycle
  obtain ⟨next, ⟨block, found, -⟩, -⟩ := TransGen.head'_iff.1 cycle
  exact (grounded id (contains_iff.2 ⟨block, found⟩)).not_cycle cycle

/-- A way up without a cycle comes to its end, since there are only so many blocks. -/
theorem Acyclic.grounded (acyclic : workspace.Acyclic)
    (closed : ∀ {child parent}, workspace.ParentLink child parent →
      workspace.contains parent = true) (known : workspace.contains id = true) :
    workspace.Grounded id := by
  have climb : ∀ (room : Nat) (seen : List String) (id : String), workspace.unseen seen ≤ room →
      workspace.contains id = true → (∀ low ∈ seen, TransGen workspace.ParentLink low id) →
        workspace.Grounded id := by
    intro room
    induction room with
    | zero =>
        intro seen id small known below
        obtain ⟨block, found⟩ := contains_iff.1 known
        have less := unseen_cons_lt found fun member => acyclic id (below id member)
        omega
    | succ room ih =>
        intro seen id small known below
        obtain ⟨block, found⟩ := contains_iff.1 known
        have less := unseen_cons_lt found fun member => acyclic id (below id member)
        cases named : block.parent with
        | none => exact .top found named
        | some parent =>
            have link : workspace.ParentLink id parent := ⟨block, found, named⟩
            refine .under link (ih (id :: seen) parent (by omega) (closed link) ?_)
            intro low member
            rcases List.mem_cons.1 member with rfl | earlier
            · exact .single link
            · exact (below low earlier).tail link
  exact climb _ [] id (Nat.le_refl _) known (by simp)

end RobotPuzzle.Workspace
