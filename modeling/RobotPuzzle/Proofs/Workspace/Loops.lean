import RobotPuzzle.Proofs.Workspace.Reach

/-!
The walks over a workspace as loops, one round after the other: a stack of ids that grows while it
is worked off, and the way up from parent to parent. Whatever the links of the workspace, each loop
ends with what its recursive form gives, after a number of rounds bounded by the size of the
workspace.
-/

namespace RobotPuzzle

/-- A loop with the body `round` goes on `count` times and then stops with `result`. -/
inductive Ends {σ ρ : Type} (round : σ → ρ ⊕ σ) : Nat → σ → ρ → Prop
  | stop {state : σ} {result : ρ} (stops : round state = .inl result) : Ends round 0 state result
  | next {state later : σ} {result : ρ} {count : Nat} (goesOn : round state = .inr later)
      (rest : Ends round count later result) : Ends round (count + 1) state result

/-- A loop ends when every round takes something off a measure, and what its rounds keep holds at
its end. -/
theorem exists_ends {σ ρ : Type} {round : σ → ρ ⊕ σ} {kept : σ → Prop} {measure : σ → Nat}
    (step : ∀ state later, kept state → round state = .inr later →
      kept later ∧ measure later < measure state) (state : σ) (start : kept state) :
    ∃ count ≤ measure state, ∃ last result, kept last ∧ round last = .inl result ∧
      Ends round count state result := by
  induction bound : measure state using Nat.strong_induction_on generalizing state with
  | _ size ih =>
    subst bound
    cases outcome : round state with
    | inl result => exact ⟨0, Nat.zero_le _, state, result, start, outcome, .stop outcome⟩
    | inr later =>
        obtain ⟨keptLater, less⟩ := step state later start outcome
        obtain ⟨count, within, last, result, keptLast, stops, ends⟩ := ih _ less later keptLater rfl
        exact ⟨count + 1, by omega, last, result, keptLast, stops, .next outcome ends⟩

namespace Workspace

open Relation

variable {workspace : Workspace}

def slotEntries (workspace : Workspace) : Nat :=
  (workspace.blocks.map fun block => block.children.size).sum

theorem slotsOutside_nil (workspace : Workspace) :
    workspace.slotsOutside [] = workspace.slotEntries := by
  simp only [slotsOutside, slotEntries]
  induction workspace.blocks with
  | nil => rfl
  | cons first rest ih =>
      rw [weightOutside, ih]
      simp [Block.held, SortedMap.values, SortedMap.size]

structure Sweep (σ : Type) where
  seen : List String
  stack : List String
  done : σ

/-- One round takes an id off the stack and passes over it when it was met before. `visit` says what
is done at an id met for the first time and which ids go on the stack. -/
def Sweep.round {σ : Type} (visit : σ → String → σ × List String) (sweep : Sweep σ) :
    (List String × σ) ⊕ Sweep σ :=
  match sweep.stack with
  | [] => .inl (sweep.seen, sweep.done)
  | id :: stack =>
    if id ∈ sweep.seen then .inr { sweep with stack }
    else
      let (done, below) := visit sweep.done id
      .inr ⟨id :: sweep.seen, below ++ stack, done⟩

structure Sweep.Keeps {σ : Type} (workspace : Workspace) (visit : σ → String → σ × List String)
    (kept : List String → List String → σ → Prop) : Prop where
  again : ∀ {seen stack done id}, kept seen (id :: stack) done → id ∈ seen → kept seen stack done
  first : ∀ {seen stack done id}, kept seen (id :: stack) done → id ∉ seen →
    kept (id :: seen) ((visit done id).2 ++ stack) (visit done id).1
  slots : ∀ {seen stack done id}, kept seen (id :: stack) done → id ∉ seen →
    (visit done id).2 = [] ∨ ∃ block, workspace.find? id = some block ∧
      (visit done id).2.length = block.held.length

def Sweep.left {σ : Type} (workspace : Workspace) (sweep : Sweep σ) : Nat :=
  sweep.stack.length + workspace.slotsOutside sweep.seen

section Sweep

variable {σ : Type} {visit : σ → String → σ × List String}
  {kept : List String → List String → σ → Prop}

theorem Sweep.Keeps.step (keeps : Sweep.Keeps workspace visit kept) (sweep later : Sweep σ)
    (start : kept sweep.seen sweep.stack sweep.done ∧ sweep.seen.Nodup)
    (goesOn : Sweep.round visit sweep = .inr later) :
    (kept later.seen later.stack later.done ∧ later.seen.Nodup) ∧
      later.left workspace < sweep.left workspace := by
  obtain ⟨seen, stack, done⟩ := sweep
  obtain ⟨holds, distinct⟩ := start
  dsimp only at holds distinct
  cases stack with
  | nil => simp [round] at goesOn
  | cons id stack =>
      by_cases known : id ∈ seen
      · obtain rfl : (⟨seen, stack, done⟩ : Sweep σ) = later := by
          simpa [round, known] using goesOn
        exact ⟨⟨keeps.again holds known, distinct⟩, by simp [left]⟩
      · obtain rfl : (⟨id :: seen, (visit done id).2 ++ stack, (visit done id).1⟩ : Sweep σ) =
            later := by simpa [round, known] using goesOn
        refine ⟨⟨keeps.first holds known, List.nodup_cons.2 ⟨known, distinct⟩⟩, ?_⟩
        simp only [left, List.length_append, List.length_cons]
        -- What goes on the stack comes off the slots of the blocks that are not met.
        rcases keeps.slots holds known with nothing | ⟨block, found, length⟩
        · have less := weightOutside_cons_le (fun block => block.held.length) id seen
            workspace.blocks
          simp only [nothing, List.length_nil, slotsOutside]
          omega
        · have less := slotsOutside_cons_add_le found known
          omega

/-- A search pops no more ids than its stack and the slots of all blocks hold, and it visits no id
twice. -/
theorem Sweep.Keeps.ends (keeps : Sweep.Keeps workspace visit kept) {stack : List String}
    {done : σ} (start : kept [] stack done) :
    ∃ pops ≤ stack.length + workspace.slotEntries, ∃ seen result,
      Ends (Sweep.round visit) pops ⟨[], stack, done⟩ (seen, result) ∧ seen.Nodup ∧
        kept seen [] result := by
  obtain ⟨pops, within, ⟨seen, rest, last⟩, result, ⟨holds, distinct⟩, stops, ends⟩ :=
    exists_ends keeps.step ⟨[], stack, done⟩ ⟨start, .nil⟩
  cases rest with
  | nil =>
      obtain rfl : (seen, last) = result := by simpa [round] using stops
      rw [left, slotsOutside_nil] at within
      exact ⟨pops, within, seen, last, ends, distinct, holds⟩
  | cons id rest =>
      simp only [round] at stops
      split at stops <;> contradiction

end Sweep

def gather (workspace : Workspace) (found : List String) (id : String) :
    List String × List String :=
  match workspace.live? id with
  | none => (found, [])
  | some block => (found ++ [block.id], block.held)

/-- Marking a block as deleted, with the number of blocks newly marked. The last slot is looked at
first. -/
def strike (done : Workspace × Nat) (id : String) : (Workspace × Nat) × List String :=
  match done.1.find? id with
  | none => (done, [])
  | some block =>
    ((done.1.update id fun block => { block with deleted := true },
      if block.deleted then done.2 else done.2 + 1), block.held.reverse)

theorem gather_ends (workspace : Workspace) (id : String) :
    ∃ pops ≤ 1 + workspace.slotEntries, ∃ seen, seen.Nodup ∧
      Ends (Sweep.round workspace.gather) pops ⟨[], [id], []⟩ (seen, workspace.descendants id) := by
  have keeps : Sweep.Keeps workspace workspace.gather fun seen stack found =>
      found ++ workspace.walk (fun block => !block.deleted) seen stack =
        workspace.descendants id := by
    refine ⟨?_, ?_, ?_⟩
    · intro seen stack found next holds known
      rwa [walk_skip known] at holds
    · intro seen stack found next holds fresh
      cases alive : workspace.live? next with
      | none =>
          have passed : ¬workspace.Kept (fun block => !block.deleted) next := by
            simp [kept_alive_iff, alive]
          rw [walk_pass passed] at holds
          simpa [gather, alive, walk_mark_passed passed] using holds
      | some block =>
          obtain ⟨known, undeleted⟩ := live?_eq_some_iff.1 alive
          rw [walk_enter fresh known (by simp [undeleted])] at holds
          simpa [gather, alive, id_of_live? alive] using holds
    · intro seen stack found next _ _
      cases alive : workspace.live? next with
      | none => exact .inl (by simp [gather, alive])
      | some block => exact .inr ⟨block, (live?_eq_some_iff.1 alive).1, by simp [gather, alive]⟩
  obtain ⟨pops, within, seen, found, ends, distinct, holds⟩ :=
    @Sweep.Keeps.ends _ _ _ _ keeps [id] [] rfl
  obtain rfl : found = workspace.descendants id := by simpa [walk] using holds
  exact ⟨pops, within, seen, distinct, ends⟩

def marking (workspace : Workspace) (ids : List String) : Workspace :=
  workspace.map fun block => if block.id ∈ ids then { block with deleted := true } else block

theorem find?_marking {ids : List String} {id : String} (unmarked : id ∉ ids) :
    (workspace.marking ids).find? id = workspace.find? id := by
  rw [marking, find?_map]
  cases found : workspace.find? id with
  | none => rfl
  | some block =>
      obtain rfl := id_of_find? found
      simp [unmarked]

theorem marking_congr {ids others : List String}
    (same : ∀ block ∈ workspace.blocks, block.id ∈ ids ↔ block.id ∈ others) :
    workspace.marking ids = workspace.marking others := by
  simp only [marking, map, Workspace.mk.injEq]
  refine List.map_congr_left ?_
  intro block member
  simp [same block member]

theorem update_marking (ids : List String) (id : String) :
    ((workspace.marking ids).update id fun block => { block with deleted := true }) =
      workspace.marking (id :: ids) := by
  simp only [marking, update, map, Workspace.mk.injEq, List.map_map]
  refine List.map_congr_left ?_
  intro block _
  rcases eq_or_ne block.id id with rfl | different
  · by_cases isMarked : block.id ∈ ids <;> simp [isMarked]
  · by_cases isMarked : block.id ∈ ids <;> simp [isMarked, different]

theorem strike_fresh {seen : List String} {id : String} (fresh : id ∉ seen) (count : Nat) :
    strike (workspace.marking seen, count) id =
      ((workspace.marking (id :: seen),
        if (workspace.live? id).isSome then count + 1 else count),
        ((workspace.find? id).elim [] Block.held).reverse) := by
  simp only [strike, find?_marking fresh, live?]
  split
  next found =>
    have same : workspace.marking (id :: seen) = workspace.marking seen := by
      refine marking_congr ?_
      intro block member
      have different : block.id ≠ id := by
        intro isId
        simp [find?_eq_some_iff.2 ⟨member, isId⟩] at found
      simp [different]
    simp [found, same]
  next block found =>
    cases deleted : block.deleted <;> simp [found, update_marking, deleted]

/-- A deletion in progress: what was met is marked and counted, lies below the root, and has all its
slots met or on the stack. -/
structure Strikes (workspace : Workspace) (root : String) (seen stack : List String)
    (done : Workspace × Nat) : Prop where
  marked : done = (workspace.marking seen, seen.countP fun id => (workspace.live? id).isSome)
  started : root ∈ seen ∨ root ∈ stack
  sound : ∀ id, id ∈ seen ∨ id ∈ stack →
    ReflTransGen (fun parent child => ∃ slot, workspace.Holds parent slot child) root id
  closed : ∀ parent ∈ seen, ∀ slot child, workspace.Holds parent slot child →
    child ∈ seen ∨ child ∈ stack

theorem mem_held_iff {id child : String} :
    child ∈ (workspace.find? id).elim [] Block.held ↔ ∃ slot, workspace.Holds id slot child := by
  cases found : workspace.find? id with
  | none => simp [Holds, found]
  | some block => simp [Holds, found, Block.held, SortedMap.mem_values_iff]

theorem strikes_keeps (workspace : Workspace) (root : String) :
    Sweep.Keeps workspace strike (Strikes workspace root) := by
  refine ⟨?_, ?_, ?_⟩
  · rintro seen stack done id ⟨marked, started, sound, closed⟩ known
    have shift : ∀ other, other ∈ seen ∨ other ∈ id :: stack → other ∈ seen ∨ other ∈ stack := by
      intro other member
      rcases member with met | waiting
      · exact .inl met
      · rcases List.mem_cons.1 waiting with rfl | later
        · exact .inl known
        · exact .inr later
    refine ⟨marked, shift root started, ?_, ?_⟩
    · exact fun other member => sound other (member.imp_right (List.mem_cons_of_mem id))
    · exact fun parent met slot child holds => shift child (closed parent met slot child holds)
  · rintro seen stack done id ⟨rfl, started, sound, closed⟩ fresh
    rw [strike_fresh fresh]
    have shift : ∀ {below : List String} {other}, other ∈ seen ∨ other ∈ id :: stack →
        other ∈ id :: seen ∨ other ∈ below ++ stack := by
      intro below other member
      simp only [List.mem_cons, List.mem_append] at member ⊢
      tauto
    refine ⟨?_, shift started, ?_, ?_⟩
    · simp only [List.countP_cons]
      split <;> rfl
    · intro other member
      simp only [List.mem_cons, List.mem_append, List.mem_reverse, mem_held_iff] at member
      rcases member with (rfl | met) | (below | waiting)
      · exact sound other (.inr List.mem_cons_self)
      · exact sound other (.inl met)
      · exact (sound id (.inr List.mem_cons_self)).tail below
      · exact sound other (.inr (List.mem_cons_of_mem id waiting))
    · intro parent met slot child holds
      rcases List.mem_cons.1 met with rfl | earlier
      · exact .inr (List.mem_append_left _ (List.mem_reverse.2 (mem_held_iff.2 ⟨slot, holds⟩)))
      · exact shift (closed parent earlier slot child holds)
  · rintro seen stack done id ⟨rfl, started, sound, closed⟩ fresh
    rw [strike_fresh fresh]
    cases known : workspace.find? id with
    | none => exact .inl rfl
    | some block => exact .inr ⟨block, rfl, List.length_reverse⟩

theorem Strikes.mem_iff {root : String} {seen : List String} {done : Workspace × Nat}
    (strikes : Strikes workspace root seen [] done) {id : String} {block : Block}
    (known : workspace.find? id = some block) : id ∈ seen ↔ id ∈ workspace.cascade root := by
  obtain ⟨-, started, sound, closed⟩ := strikes
  simp only [List.not_mem_nil, or_false] at started sound closed
  rw [mem_cascade_iff]
  constructor
  · exact fun met => ⟨⟨block, known⟩, sound id met⟩
  · rintro ⟨-, path⟩
    clear known
    induction path with
    | refl => exact started
    | tail _ held ih =>
        obtain ⟨slot, holds⟩ := held
        exact closed _ ih slot _ holds

theorem deletionCount_eq_length {id : String} {ids : List String} (distinct : ids.Nodup)
    (same : ∀ low, low ∈ ids ↔
      low ∈ workspace.cascade id ∧ ∃ block, workspace.live? low = some block) :
    workspace.deletionCount id = ids.length := by
  have once : (workspace.cascade id).Nodup := (workspace.walk_fresh _ [] [id]).1
  refine List.Perm.length_eq ((List.perm_ext_iff_of_nodup (once.filter _) distinct).2 ?_)
  intro low
  rw [List.mem_filter, same, Option.isSome_iff_exists]

theorem strike_ends (workspace : Workspace) (id : String) :
    ∃ pops ≤ 1 + workspace.slotEntries, ∃ seen, seen.Nodup ∧
      Ends (Sweep.round strike) pops ⟨[], [id], (workspace, 0)⟩
        (seen, (workspace.delete id, workspace.deletionCount id)) := by
  have start : Strikes workspace id [] [id] (workspace, 0) := by
    refine ⟨?_, .inr List.mem_cons_self, ?_, by simp⟩
    · have unmarked : workspace.marking [] = workspace := by simp [marking, map]
      simp [unmarked]
    · intro other member
      obtain rfl : other = id := by simpa using member
      exact .refl
  obtain ⟨pops, within, seen, done, ends, distinct, strikes⟩ :=
    (workspace.strikes_keeps id).ends start
  -- The stack is empty, so the blocks met are closed under the slots: they are the cascade.
  have marked : workspace.marking seen = workspace.delete id := by
    refine marking_congr ?_
    intro block member
    exact strikes.mem_iff (find?_eq_some_iff.2 ⟨member, rfl⟩)
  have counted : (seen.countP fun met => (workspace.live? met).isSome) =
      workspace.deletionCount id := by
    rw [List.countP_eq_length_filter, deletionCount_eq_length (distinct.filter _)]
    intro other
    rw [List.mem_filter, Option.isSome_iff_exists, and_congr_left_iff]
    rintro ⟨block, alive⟩
    exact strikes.mem_iff (live?_eq_some_iff.1 alive).1
  obtain rfl : done = (workspace.delete id, workspace.deletionCount id) := by
    rw [← marked, ← counted]
    exact strikes.marked
  exact ⟨pops, within, seen, distinct, ends⟩

structure Ascent (α : Type) where
  seen : List String
  place : Option α

/-- One round ends the way at the top, at a goal, or where it was before; else it goes one up. -/
def Ascent.round {α : Type} (name : α → String) (goal : α → Bool) (up : α → Option α)
    (ascent : Ascent α) : Bool ⊕ Ascent α :=
  match ascent.place with
  | none => .inl false
  | some place =>
    if goal place then .inl true
    else if name place ∈ ascent.seen then .inl false
    else .inr ⟨name place :: ascent.seen, up place⟩

/-- A recursive form of the way up at the places `kept`. Only known blocks lead further up. -/
structure Ascent.Answers {α : Type} (workspace : Workspace) (name : α → String) (goal : α → Bool)
    (up : α → Option α) (kept : α → Prop) (answer : List String → Option α → Bool) : Prop where
  top : ∀ seen, answer seen none = false
  turn : ∀ {place}, kept place → ∀ seen, answer seen (some place) =
    if goal place then true
    else if name place ∈ seen then false
    else answer (name place :: seen) (up place)
  above : ∀ {place next}, kept place → up place = some next →
    kept next ∧ ∃ block, workspace.find? (name place) = some block

def Ascent.left {α : Type} (workspace : Workspace) (ascent : Ascent α) : Nat :=
  match ascent.place with
  | none => 0
  | some _ => workspace.unseen ascent.seen + 1

section Ascent

variable {α : Type} {name : α → String} {goal : α → Bool} {up : α → Option α} {kept : α → Prop}
  {answer : List String → Option α → Bool}

theorem Ascent.Answers.step (answers : Ascent.Answers workspace name goal up kept answer)
    {result : Bool} (ascent later : Ascent α)
    (start : (∀ next, ascent.place = some next → kept next) ∧
      answer ascent.seen ascent.place = result)
    (goesOn : Ascent.round name goal up ascent = .inr later) :
    ((∀ next, later.place = some next → kept next) ∧ answer later.seen later.place = result) ∧
      later.left workspace < ascent.left workspace := by
  obtain ⟨seen, current⟩ := ascent
  obtain ⟨holds, same⟩ := start
  cases current with
  | none => simp [round] at goesOn
  | some current =>
      have keptCurrent := holds current rfl
      simp only [answers.turn keptCurrent] at same
      simp only [round] at goesOn
      split at goesOn
      · contradiction
      split at goesOn
      · contradiction
      next noGoal fresh =>
        rw [if_neg noGoal, if_neg fresh] at same
        obtain rfl := Sum.inr.inj goesOn
        refine ⟨⟨fun next above => (answers.above keptCurrent above).1, same⟩, ?_⟩
        -- An unknown id may be met without any block less to meet, but it is the last.
        cases above : up current with
        | none => simp [left]
        | some next =>
            obtain ⟨-, block, found⟩ := answers.above keptCurrent above
            simpa [left] using unseen_cons_lt found fresh

theorem Ascent.Answers.last (answers : Ascent.Answers workspace name goal up kept answer)
    {result : Bool} {ascent : Ascent α} (holds : ∀ next, ascent.place = some next → kept next)
    (stops : Ascent.round name goal up ascent = .inl result) :
    answer ascent.seen ascent.place = result := by
  obtain ⟨seen, place⟩ := ascent
  cases place with
  | none => exact (answers.top seen).trans (Sum.inl.inj stops)
  | some place =>
      simp only [answers.turn (holds place rfl)]
      simp only [round] at stops
      split at stops
      next isGoal => rw [if_pos isGoal, Sum.inl.inj stops]
      next noGoal =>
        split at stops
        next met => rw [if_neg noGoal, if_pos met, Sum.inl.inj stops]
        next fresh => contradiction

/-- The way up takes at most two rounds more than there are blocks, the last one included. -/
theorem Ascent.Answers.ends (answers : Ascent.Answers workspace name goal up kept answer)
    {place : Option α} (start : ∀ first, place = some first → kept first) :
    ∃ rounds, rounds + 1 ≤ workspace.blocks.length + 2 ∧
      Ends (Ascent.round name goal up) rounds ⟨[], place⟩ (answer [] place) := by
  obtain ⟨rounds, within, last, result, ⟨holds, same⟩, stops, ends⟩ :=
    exists_ends answers.step ⟨[], place⟩ ⟨start, rfl⟩
  have few : (⟨[], place⟩ : Ascent α).left workspace ≤ workspace.blocks.length + 1 := by
    have all := workspace.unseen_le_length []
    cases place with
    | none => exact Nat.zero_le _
    | some first => simpa [left] using all
  obtain rfl := answers.last holds stops
  exact ⟨rounds, by omega, same ▸ ends⟩

end Ascent

def ancestorRound (workspace : Workspace) (target : String) :
    Ascent String → Bool ⊕ Ascent String :=
  Ascent.round (fun id => id) (· == target) fun id => (workspace.find? id).bind (·.parent)

def entryRound (workspace : Workspace) : Ascent Block → Bool ⊕ Ascent Block :=
  Ascent.round Block.id (·.kind == .start) fun block => block.parent.bind workspace.live?

theorem ancestor_ends (workspace : Workspace) (target id : String) :
    ∃ rounds, rounds + 1 ≤ workspace.blocks.length + 2 ∧
      Ends (workspace.ancestorRound target) rounds ⟨[], some id⟩
        (workspace.isAncestorOrSelf target [] id) := by
  have answers : Ascent.Answers workspace (fun id => id) (· == target)
      (fun id => (workspace.find? id).bind (·.parent)) (fun _ => True)
      (fun seen place => place.elim false (workspace.isAncestorOrSelf target seen)) := by
    refine ⟨fun _ => rfl, ?_, ?_⟩
    · intro id _ seen
      rw [Option.elim_some, isAncestorOrSelf]
      simp only [beq_iff_eq]
      split
      · rfl
      split
      · rfl
      split
      next unknown => simp [unknown]
      next block found =>
        cases named : block.parent with
        | none => simp [found, named]
        | some parent => simp [found, named]
    · intro id next _ above
      obtain ⟨block, found, -⟩ := Option.bind_eq_some_iff.1 above
      exact ⟨trivial, block, found⟩
  exact answers.ends (by simp)

theorem climbs_dead {id : String} (dead : workspace.live? id = none) (seen : List String) :
    workspace.climbs seen id = false := by
  rw [climbs]
  split
  · rfl
  next block found =>
    have deleted : block.deleted = true := by simpa [live?, found] using dead
    simp [deleted]

theorem entry_ends (workspace : Workspace) (id : String) :
    ∃ rounds, rounds + 1 ≤ workspace.blocks.length + 2 ∧
      Ends workspace.entryRound rounds ⟨[], workspace.live? id⟩ (workspace.isConnected id) := by
  have answers : Ascent.Answers workspace Block.id (·.kind == .start)
      (fun block => block.parent.bind workspace.live?)
      (fun block => workspace.live? block.id = some block)
      (fun seen place => place.elim false fun block => workspace.climbs seen block.id) := by
    refine ⟨fun _ => rfl, ?_, ?_⟩
    · intro block alive seen
      obtain ⟨found, undeleted⟩ := live?_eq_some_iff.1 alive
      rw [Option.elim_some, climbs]
      simp only [beq_iff_eq]
      split
      next unknown => simp [found] at unknown
      next same foundSame =>
        obtain rfl := Option.some.inj (found.symm.trans foundSame)
        simp only [undeleted, Bool.false_eq_true, ↓reduceIte]
        split
        · rfl
        split
        · rfl
        cases named : block.parent with
        | none => rfl
        | some parent =>
            cases aliveParent : workspace.live? parent with
            | none => simp [aliveParent, climbs_dead aliveParent]
            | some above => simp [aliveParent, id_of_live? aliveParent]
    · intro block next alive above
      obtain ⟨parent, -, aliveParent⟩ := Option.bind_eq_some_iff.1 above
      obtain rfl := id_of_live? aliveParent
      exact ⟨aliveParent, block, (live?_eq_some_iff.1 alive).1⟩
  have start : ∀ first, workspace.live? id = some first →
      workspace.live? first.id = some first := by
    intro first alive
    rwa [id_of_live? alive]
  obtain ⟨rounds, within, ends⟩ := answers.ends start
  refine ⟨rounds, within, ?_⟩
  cases alive : workspace.live? id with
  | none => simpa [isConnected, entryRound, alive, climbs_dead alive] using ends
  | some block => simpa [isConnected, entryRound, alive, id_of_live? alive] using ends

end Workspace

end RobotPuzzle
