import RobotPuzzle.Proofs.Workspace.Links

/-! What a walk through the slots visits, and which ancestors the way up finds. -/

namespace RobotPuzzle.Workspace

open Relation

variable {workspace : Workspace} {keep : Block → Bool}

def Kept (workspace : Workspace) (keep : Block → Bool) (id : String) : Prop :=
  ∃ block, workspace.find? id = some block ∧ keep block = true

def Leads (workspace : Workspace) (keep : Block → Bool) (parent child : String) : Prop :=
  ∃ block, workspace.find? parent = some block ∧ keep block = true ∧ child ∈ block.held

theorem leads_iff {parent child : String} : workspace.Leads (fun _ => true) parent child ↔
    ∃ slot, workspace.Holds parent slot child := by
  simp only [Leads, Holds, Block.held, SortedMap.mem_values_iff, true_and]
  constructor
  · rintro ⟨block, found, slot, held⟩
    exact ⟨slot, block, found, held⟩
  · rintro ⟨slot, block, found, held⟩
    exact ⟨block, found, slot, held⟩

/-- A kept block that kept blocks lead to from some id on a stack. -/
def Reached (workspace : Workspace) (keep : Block → Bool) (stack : List String)
    (id : String) : Prop :=
  workspace.Kept keep id ∧ ∃ root ∈ stack, ReflTransGen (workspace.Leads keep) root id

theorem Reached.mono {stack more : List String} {id : String} (subset : stack ⊆ more)
    (reached : workspace.Reached keep stack id) : workspace.Reached keep more id := by
  obtain ⟨kept, root, inStack, path⟩ := reached
  exact ⟨kept, root, subset inStack, path⟩

theorem not_kept_of_unknown {id : String} (unknown : workspace.find? id = none) :
    ¬workspace.Kept keep id := by
  rintro ⟨block, found, -⟩
  simp [unknown] at found

theorem not_kept_of_dropped {id : String} {block : Block} (found : workspace.find? id = some block)
    (dropped : ¬keep block = true) : ¬workspace.Kept keep id := by
  rintro ⟨same, foundSame, kept⟩
  obtain rfl := Option.some.inj (found.symm.trans foundSame)
  exact dropped kept

theorem kept_alive_iff {id : String} : workspace.Kept (fun block => !block.deleted) id ↔
    ∃ block, workspace.live? id = some block := by
  simp [Kept, live?_eq_some_iff]

theorem walk_skip {seen stack : List String} {id : String} (known : id ∈ seen) :
    workspace.walk keep seen (id :: stack) = workspace.walk keep seen stack := by
  rw [walk, dif_pos known]

theorem walk_enter {seen stack : List String} {id : String} {block : Block} (fresh : id ∉ seen)
    (found : workspace.find? id = some block) (kept : keep block = true) :
    workspace.walk keep seen (id :: stack) =
      id :: workspace.walk keep (id :: seen) (block.held ++ stack) := by
  rw [walk, dif_neg fresh]
  split
  next unknown => simp [found] at unknown
  next same foundSame =>
    obtain rfl := Option.some.inj (found.symm.trans foundSame)
    rw [if_pos kept]

theorem walk_pass {seen stack : List String} {id : String} (passed : ¬workspace.Kept keep id) :
    workspace.walk keep seen (id :: stack) = workspace.walk keep seen stack := by
  by_cases known : id ∈ seen
  · exact walk_skip known
  · rw [walk, dif_neg known]
    split
    · rfl
    next block found => rw [if_neg fun kept => passed ⟨block, found, kept⟩]

theorem walk_congr {after : Workspace}
    (same : ∀ id, ((after.find? id).filter keep).map Block.held =
      ((workspace.find? id).filter keep).map Block.held) (seen stack : List String) :
    after.walk keep seen stack = workspace.walk keep seen stack := by
  have kept_iff : ∀ id, after.Kept keep id ↔ workspace.Kept keep id := by
    intro id
    have known := congrArg Option.isSome (same id)
    rw [Option.isSome_map, Option.isSome_map, Bool.eq_iff_iff] at known
    simpa only [Kept, Option.isSome_iff_exists, Option.filter_eq_some_iff] using known
  fun_induction Workspace.walk workspace keep seen stack with
  | case1 => rw [walk]
  | case2 seen first stack known ih => rw [walk_skip known, ih]
  | case3 seen first stack fresh unknown ih =>
      exact (walk_pass (mt (kept_iff first).1 (not_kept_of_unknown unknown))).trans ih
  | case4 seen first stack fresh block found kept ih =>
      obtain ⟨other, foundOther, keptOther⟩ := (kept_iff first).2 ⟨block, found, kept⟩
      have held : other.held = block.held := by
        simpa [found, foundOther, Option.filter_some, kept, keptOther] using same first
      rw [walk_enter fresh foundOther keptOther, held, ih]
  | case5 seen first stack fresh block found dropped ih =>
      exact (walk_pass (mt (kept_iff first).1 (not_kept_of_dropped found dropped))).trans ih

/-- Whether ids that are not kept count as seen makes no difference to a walk. -/
theorem walk_mark {seen more : List String}
    (agree : ∀ id, workspace.Kept keep id → (id ∈ more ↔ id ∈ seen)) (stack : List String) :
    workspace.walk keep more stack = workspace.walk keep seen stack := by
  fun_induction Workspace.walk workspace keep seen stack generalizing more with
  | case1 => rw [walk]
  | case2 seen first stack known ih =>
      by_cases kept : workspace.Kept keep first
      · rw [walk_skip ((agree first kept).2 known), ih agree]
      · rw [walk_pass kept, ih agree]
  | case3 seen first stack fresh unknown ih =>
      exact (walk_pass (not_kept_of_unknown unknown)).trans (ih agree)
  | case4 seen first stack fresh block found kept ih =>
      have unseen : first ∉ more := by
        rwa [agree first ⟨block, found, kept⟩]
      rw [walk_enter unseen found kept, ih fun id keptId => by simp [agree id keptId]]
  | case5 seen first stack fresh block found dropped ih =>
      exact (walk_pass (not_kept_of_dropped found dropped)).trans (ih agree)

theorem walk_mark_passed {seen stack : List String} {id : String}
    (passed : ¬workspace.Kept keep id) :
    workspace.walk keep (id :: seen) stack = workspace.walk keep seen stack := by
  refine walk_mark ?_ stack
  intro other kept
  have different : other ≠ id := by
    rintro rfl
    exact passed kept
  simp [different]

theorem walk_sound (seen stack : List String) :
    ∀ id ∈ workspace.walk keep seen stack, workspace.Reached keep stack id := by
  fun_induction Workspace.walk workspace keep seen stack with
  | case1 => simp
  | case2 seen first stack known ih =>
      exact fun id member => (ih id member).mono (List.subset_cons_self first stack)
  | case3 seen first stack fresh unknown ih =>
      exact fun id member => (ih id member).mono (List.subset_cons_self first stack)
  | case4 seen first stack fresh block found kept ih =>
      intro id member
      rcases List.mem_cons.1 member with rfl | later
      · exact ⟨⟨block, found, kept⟩, id, List.mem_cons_self, .refl⟩
      · obtain ⟨idKept, root, inStack, path⟩ := ih id later
        refine ⟨idKept, ?_⟩
        rcases List.mem_append.1 inStack with held | waiting
        · exact ⟨first, List.mem_cons_self, .head ⟨block, found, kept, held⟩ path⟩
        · exact ⟨root, List.mem_cons_of_mem _ waiting, path⟩
  | case5 seen first stack fresh block found passed ih =>
      exact fun id member => (ih id member).mono (List.subset_cons_self first stack)

/-- The walk misses nothing on its stack, and nothing that a visited block leads to. -/
theorem walk_closed (workspace : Workspace) (keep : Block → Bool) (seen stack : List String) :
    (∀ id ∈ stack, workspace.Kept keep id → id ∈ seen ∨ id ∈ workspace.walk keep seen stack) ∧
      ∀ parent ∈ workspace.walk keep seen stack, ∀ id, workspace.Leads keep parent id →
        workspace.Kept keep id → id ∈ seen ∨ id ∈ workspace.walk keep seen stack := by
  fun_induction Workspace.walk workspace keep seen stack with
  | case1 => simp
  | case2 seen first stack known ih =>
      refine ⟨?_, ih.2⟩
      intro id member kept
      rcases List.mem_cons.1 member with rfl | waiting
      · exact .inl known
      · exact ih.1 id waiting kept
  | case3 seen first stack fresh unknown ih =>
      refine ⟨?_, ih.2⟩
      intro id member kept
      rcases List.mem_cons.1 member with rfl | waiting
      · obtain ⟨block, found, -⟩ := kept
        simp [found] at unknown
      · exact ih.1 id waiting kept
  | case4 seen first stack fresh block found kept ih =>
      have shift : ∀ {id}, id ∈ first :: seen ∨ id ∈ workspace.walk keep (first :: seen)
          (block.held ++ stack) →
          id ∈ seen ∨ id ∈ first :: workspace.walk keep (first :: seen) (block.held ++ stack) := by
        intro id member
        rcases member with member | later
        · rcases List.mem_cons.1 member with rfl | earlier
          · exact .inr List.mem_cons_self
          · exact .inl earlier
        · exact .inr (List.mem_cons_of_mem _ later)
      constructor
      · intro id member idKept
        rcases List.mem_cons.1 member with rfl | waiting
        · exact .inr List.mem_cons_self
        · exact shift (ih.1 id (List.mem_append_right _ waiting) idKept)
      · intro parent member id leads idKept
        rcases List.mem_cons.1 member with rfl | later
        · obtain ⟨same, foundSame, -, held⟩ := leads
          obtain rfl : same = block := by simpa [found] using foundSame.symm
          exact shift (ih.1 id (List.mem_append_left _ held) idKept)
        · exact shift (ih.2 parent later id leads idKept)
  | case5 seen first stack fresh block found passed ih =>
      refine ⟨?_, ih.2⟩
      intro id member kept
      rcases List.mem_cons.1 member with rfl | waiting
      · obtain ⟨same, foundSame, keptSame⟩ := kept
        obtain rfl : same = block := by simpa [found] using foundSame.symm
        contradiction
      · exact ih.1 id waiting kept

theorem walk_fresh (workspace : Workspace) (keep : Block → Bool) (seen stack : List String) :
    (workspace.walk keep seen stack).Nodup ∧ ∀ id ∈ workspace.walk keep seen stack, id ∉ seen := by
  fun_induction Workspace.walk workspace keep seen stack with
  | case1 => simp
  | case2 _ _ _ _ ih => exact ih
  | case3 _ _ _ _ _ ih => exact ih
  | case4 seen first stack fresh block found kept ih =>
      obtain ⟨distinct, unseen⟩ := ih
      refine ⟨List.nodup_cons.2 ⟨fun again => unseen first again List.mem_cons_self, distinct⟩, ?_⟩
      intro id member inSeen
      rcases List.mem_cons.1 member with rfl | later
      · exact fresh inSeen
      · exact unseen id later (List.mem_cons_of_mem _ inSeen)
  | case5 _ _ _ _ _ _ _ ih => exact ih

/-- What a search from `roots` adds to the ids seen before it: every block once, and with a block
all that it leads to. -/
structure Explores (workspace : Workspace) (keep : Block → Bool) (seen roots found : List String) :
    Prop where
  distinct : found.Nodup
  fresh : ∀ id ∈ found, id ∉ seen
  sound : ∀ id ∈ found, workspace.Reached keep roots id
  started : ∀ id ∈ roots, workspace.Kept keep id → id ∈ seen ∨ id ∈ found
  closed : ∀ parent ∈ found, ∀ id, workspace.Leads keep parent id → workspace.Kept keep id →
    id ∈ seen ∨ id ∈ found

theorem walk_explores (workspace : Workspace) (keep : Block → Bool) (seen stack : List String) :
    workspace.Explores keep seen stack (workspace.walk keep seen stack) :=
  ⟨(walk_fresh workspace keep seen stack).1, (walk_fresh workspace keep seen stack).2,
    walk_sound seen stack, (walk_closed workspace keep seen stack).1,
    (walk_closed workspace keep seen stack).2⟩

namespace Explores

variable {seen roots others found more : List String} {id : String} {block : Block}

theorem mem_iff (explores : workspace.Explores keep [] roots found) :
    id ∈ found ↔ workspace.Reached keep roots id := by
  constructor
  · exact explores.sound id
  · rintro ⟨kept, root, isRoot, path⟩
    induction path with
    | refl => exact (explores.started root isRoot kept).resolve_left (by simp)
    | tail _ leads ih =>
        obtain ⟨block, found, keptBlock, held⟩ := leads
        exact (explores.closed _ (ih ⟨block, found, keptBlock⟩) _ ⟨block, found, keptBlock, held⟩
          kept).resolve_left (by simp)

theorem perm (explores : workspace.Explores keep [] roots found)
    (second : workspace.Explores keep [] roots more) : found.Perm more :=
  (List.perm_ext_iff_of_nodup explores.distinct second.distinct).2
    fun _ => explores.mem_iff.trans second.mem_iff.symm

theorem skip (passed : workspace.Kept keep id → id ∈ seen) :
    workspace.Explores keep seen [id] [] := by
  refine ⟨.nil, by simp, by simp, ?_, by simp⟩
  intro root isRoot kept
  obtain rfl := List.mem_singleton.1 isRoot
  exact .inl (passed kept)

theorem enter (known : workspace.find? id = some block) (kept : keep block = true)
    (unseen : id ∉ seen) (below : workspace.Explores keep (id :: seen) block.held found) :
    workspace.Explores keep seen [id] (id :: found) := by
  have shift : ∀ {other}, other ∈ id :: seen ∨ other ∈ found →
      other ∈ seen ∨ other ∈ id :: found := by
    intro other member
    simp only [List.mem_cons] at member ⊢
    tauto
  refine ⟨List.nodup_cons.2 ⟨?_, below.distinct⟩, ?_, ?_, ?_, ?_⟩
  · exact fun again => below.fresh id again List.mem_cons_self
  · intro other member inSeen
    rcases List.mem_cons.1 member with rfl | later
    · exact unseen inSeen
    · exact below.fresh other later (List.mem_cons_of_mem _ inSeen)
  · intro other member
    rcases List.mem_cons.1 member with rfl | later
    · exact ⟨⟨block, known, kept⟩, other, List.mem_cons_self, .refl⟩
    · obtain ⟨otherKept, child, held, path⟩ := below.sound other later
      exact ⟨otherKept, id, List.mem_cons_self, .head ⟨block, known, kept, held⟩ path⟩
  · intro root isRoot _
    exact .inr (by simp_all)
  · intro parent member child leads childKept
    rcases List.mem_cons.1 member with rfl | later
    · obtain ⟨same, foundSame, -, held⟩ := leads
      obtain rfl := Option.some.inj (known.symm.trans foundSame)
      exact shift (below.started child held childKept)
    · exact shift (below.closed parent later child leads childKept)

theorem append (first : workspace.Explores keep seen roots found)
    (second : workspace.Explores keep (found.reverse ++ seen) others more) :
    workspace.Explores keep seen (roots ++ others) (found ++ more) := by
  refine ⟨List.nodup_append'.2 ⟨first.distinct, second.distinct, ?_⟩, ?_, ?_, ?_, ?_⟩
  · intro id early late
    exact second.fresh id late (by simp [early])
  · intro id member inSeen
    rcases List.mem_append.1 member with early | late
    · exact first.fresh id early inSeen
    · exact second.fresh id late (by simp [inSeen])
  · intro id member
    rcases List.mem_append.1 member with early | late
    · exact (first.sound id early).mono (List.subset_append_left roots others)
    · exact (second.sound id late).mono (List.subset_append_right roots others)
  · intro id isRoot kept
    rcases List.mem_append.1 isRoot with early | late
    · have := first.started id early kept
      simp only [List.mem_append]
      tauto
    · have := second.started id late kept
      simp only [List.mem_append, List.mem_reverse] at this ⊢
      tauto
  · intro parent member id leads kept
    rcases List.mem_append.1 member with early | late
    · have := first.closed parent early id leads kept
      simp only [List.mem_append]
      tauto
    · have := second.closed parent late id leads kept
      simp only [List.mem_append, List.mem_reverse] at this ⊢
      tauto

theorem of_perm (explores : workspace.Explores keep seen roots found) (same : roots.Perm others) :
    workspace.Explores keep seen others found where
  distinct := explores.distinct
  fresh := explores.fresh
  sound id member := (explores.sound id member).mono same.subset
  started id isRoot := explores.started id (same.mem_iff.2 isRoot)
  closed := explores.closed

end Explores

theorem mem_walk_iff {root id : String} : id ∈ workspace.walk keep [] [root] ↔
    workspace.Kept keep id ∧ ReflTransGen (workspace.Leads keep) root id := by
  rw [(walk_explores workspace keep [] [root]).mem_iff]
  simp [Reached]

theorem mem_descendants_iff {root id : String} : id ∈ workspace.descendants root ↔
    (∃ block, workspace.live? id = some block) ∧
      ReflTransGen (fun parent child => ∃ block slot, workspace.live? parent = some block ∧
        block.children.get? slot = some child) root id := by
  have same : workspace.Leads (fun block => !block.deleted) =
      fun parent child => ∃ block slot, workspace.live? parent = some block ∧
        block.children.get? slot = some child := by
    funext parent child
    simp [Leads, live?_eq_some_iff, Block.held, SortedMap.mem_values_iff, and_assoc]
  simp [descendants, mem_walk_iff, Kept, same, live?_eq_some_iff]

theorem mem_descendants_child {root id child : String} {slot : Slot} {block held : Block}
    (member : id ∈ workspace.descendants root) (found : workspace.live? id = some block)
    (holds : block.children.get? slot = some child) (alive : workspace.live? child = some held) :
    child ∈ workspace.descendants root := by
  obtain ⟨-, path⟩ := mem_descendants_iff.1 member
  exact mem_descendants_iff.2 ⟨⟨held, alive⟩, path.tail ⟨block, slot, found, holds⟩⟩

theorem mem_descendants_of_holds {root parent child : String} {slot : Slot} {held : Block}
    (member : parent ∈ workspace.descendants root) (holds : workspace.Holds parent slot child)
    (alive : workspace.live? child = some held) : child ∈ workspace.descendants root := by
  obtain ⟨⟨block, found⟩, -⟩ := mem_descendants_iff.1 member
  obtain ⟨holder, foundHolder, inSlot⟩ := holds
  obtain rfl := Option.some.inj (foundHolder.symm.trans (live?_eq_some_iff.1 found).1)
  exact mem_descendants_child member found inSlot alive

theorem mem_descendants_self {root : String} {block : Block}
    (found : workspace.live? root = some block) : root ∈ workspace.descendants root :=
  mem_descendants_iff.2 ⟨⟨block, found⟩, .refl⟩

/-- What holds of a block and passes from blocks to the live blocks in their slots holds of the
whole live tree below the block. -/
@[elab_as_elim]
theorem descendants_induction {property : String → Prop} {root id : String} (start : property root)
    (step : ∀ {parent slot child block}, workspace.Holds parent slot child →
      workspace.live? child = some block → property parent → property child)
    (member : id ∈ workspace.descendants root) : property id := by
  obtain ⟨alive, path⟩ := mem_descendants_iff.1 member
  clear member
  induction path with
  | refl => exact start
  | @tail parent child _ leads ih =>
      obtain ⟨holder, slot, found, held⟩ := leads
      obtain ⟨block, foundChild⟩ := alive
      have holds : workspace.Holds parent slot child :=
        ⟨holder, (live?_eq_some_iff.1 found).1, held⟩
      exact step holds foundChild (ih ⟨holder, found⟩)

theorem mem_cascade_iff {root id : String} : id ∈ workspace.cascade root ↔
    (∃ block, workspace.find? id = some block) ∧
      ReflTransGen (fun parent child => ∃ slot, workspace.Holds parent slot child) root id := by
  have same : workspace.Leads (fun _ => true) =
      fun parent child => ∃ slot, workspace.Holds parent slot child := by
    funext parent child
    exact propext leads_iff
  simp [cascade, mem_walk_iff, Kept, same]

theorem below_of_isAncestorOrSelf {target : String} (seen : List String) (id : String)
    (ancestor : workspace.isAncestorOrSelf target seen id = true) : workspace.Below target id := by
  fun_induction Workspace.isAncestorOrSelf workspace target seen id with
  | case1 seen => exact .refl
  | case5 seen id different fresh block found parent named ih =>
      exact .head ⟨block, found, named⟩ (ih ancestor)
  | case2 | case3 | case4 => contradiction

end RobotPuzzle.Workspace
