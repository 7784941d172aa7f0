import RobotPuzzle.Proofs.Workspace.Census
import RobotPuzzle.Proofs.Workspace.Recursions

/-!
Shapes by plain recursion. Where the links of a workspace form trees, a block shows with what the
recursion gives for the blocks in its slots, and nothing is cut off by what was seen before. However
the links are tangled, the children of every block of a shape stand in the order of their slots.
-/

namespace RobotPuzzle

namespace Slot

def precedence : List Slot := [.doBody, .elseBody, .inline, .next, .stack]

/-- The order of the slots of a block: those of `precedence`, then all others by name. -/
inductive Precedes : Slot → Slot → Prop
  | listed {earlier later} (order : [earlier, later].Sublist precedence) : Precedes earlier later
  | behind {slot name} (listed : slot ∈ precedence) : Precedes slot (.named name)
  | named {name other} (less : name < other) : Precedes (.named name) (.named other)

theorem rank_of_compare {first second : Slot} (isLt : compare first second = .lt) :
    first.rank < second.rank ∨ first.rank = second.rank ∧ first.name < second.name := by
  have lex : (compare first.rank second.rank).then (compare first.name second.name) = .lt := isLt
  rw [Ordering.then_eq_lt, Nat.compare_eq_lt, Nat.compare_eq_eq] at lex
  exact lex.imp_right fun same => ⟨same.1, compareOfLessAndEq_eq_lt.1 same.2⟩

theorem precedes_of_compare {first second : Slot} (isLt : compare first second = .lt) :
    first.Precedes second := by
  have order := rank_of_compare isLt
  cases second with
  | named name =>
      cases first with
      | named other => exact .named (by simpa [rank, Slot.name] using order)
      | doBody | elseBody | inline | next | stack => exact .behind (by decide)
  | doBody | elseBody | inline | next | stack =>
      cases first <;> first
        | exact .listed (by decide)
        | simp [rank, Slot.name] at order

end Slot

namespace Shape

def abbreviations : List (String × String) :=
  [("start", "b"), ("forward", "f"), ("backward", "b"), ("jump_forward", "j"),
    ("turn_left", "t(l)"), ("turn_right", "t(r)"), ("repeat", "r"), ("pick_collectible", "c"),
    ("put_down_collectible", "h")]

def typeOf (type : String) : String := (abbreviations.lookup type).getD type

def nameOf (type : String) (fields : SortedMap String String) : String :=
  if type = "repeat" then typeOf type ++ "(" ++ (fields.get? "TIMES").getD "0" ++ ")"
  else typeOf type

def drawWith (draw : String → Option Shape) (block : Block) : Shape :=
  ⟨typeOf block.type, nameOf block.type block.fields, (block.children.filterMap draw).entries⟩

theorem shortType_eq_typeOf (block : Block) : block.shortType = typeOf block.type := by
  simp only [Block.shortType, Block.kind, Kind.ofType]
  split
  case h_10 =>
    have unlisted : abbreviations.lookup block.type = none := by
      simp_all [abbreviations, List.lookup_eq_none_iff]
    simp [typeOf, unlisted, Kind.shortName?]
  all_goals simp_all [typeOf, abbreviations, List.lookup_cons, Kind.shortName?]

theorem shapeName_eq_nameOf (block : Block) :
    block.shapeName = nameOf block.type block.fields := by
  have loop : block.kind = .loop ↔ block.type = "repeat" := by
    simp only [Block.kind, Kind.ofType]
    split <;> simp_all
  simp only [Block.shapeName, nameOf, loop, shortType_eq_typeOf, timesField]

def Ordered (shape : Shape) : Prop :=
  ∀ block ∈ shape.blocks,
    block.children.Pairwise fun earlier later => compare earlier.1 later.1 = .lt

theorem ordered_mk {type name : String} {children : List (Slot × Shape)}
    (order : children.Pairwise fun earlier later => compare earlier.1 later.1 = .lt)
    (below : ∀ entry ∈ children, entry.2.Ordered) : Ordered ⟨type, name, children⟩ := by
  intro block member
  rw [blocks, blocksBelow_eq_flatMap, List.mem_cons, List.mem_flatMap] at member
  rcases member with rfl | ⟨child, isChild, inChild⟩
  · exact order
  · obtain ⟨entry, inSlot, rfl⟩ := List.mem_map.1 isChild
    exact below entry inSlot block inChild

theorem ordered_withNext {type name : String} {inner : List (Slot × Shape)} {next : Option Shape}
    (order : inner.Pairwise fun earlier later => compare earlier.1 later.1 = .lt)
    (absent : ∀ entry ∈ inner, entry.1 ≠ .next) (below : ∀ entry ∈ inner, entry.2.Ordered)
    (behind : ∀ shape ∈ next, shape.Ordered) : Ordered ⟨type, name, withNext inner next⟩ := by
  cases next with
  | none => exact ordered_mk order below
  | some shape =>
      refine ordered_mk ?_ ?_
      · rw [withNext_eq_insertEntry absent]
        exact SortedMap.insertEntry_ordered order
      · intro entry member
        rw [(withNext_some_perm inner shape).mem_iff, List.mem_cons] at member
        rcases member with rfl | inside
        · exact behind shape rfl
        · exact below entry inside

end Shape

namespace Workspace

variable {workspace : Workspace} {draw : String → Option Shape} {seen entered : List String}

theorem Builds.ordered {entries : List (Slot × String)} {shapes : List (Slot × Shape)}
    (builds : workspace.Builds seen entries shapes entered) :
    (shapes.map (·.1)).Sublist (entries.map (·.1)) ∧ ∀ entry ∈ shapes, entry.2.Ordered := by
  induction builds with
  | done => simp
  | pass _ _ ih => exact ⟨ih.1.cons _, ih.2⟩
  | @enter seen slot id block rest inner next shapes below behind later found fresh slots chain
      others innerIh nextIh othersIh =>
      rw [← entries_erase_next] at innerIh
      have order : (inner.map (·.1)).Pairwise fun earlier later => compare earlier later = .lt :=
        (List.pairwise_map.2 (block.children.erase .next).ordered).sublist innerIh.1
      have absent : ∀ entry ∈ inner, entry.1 ≠ .next := by
        intro entry member
        have listed := innerIh.1.subset (List.mem_map_of_mem member)
        obtain ⟨other, inSlots, same⟩ := List.mem_map.1 listed
        exact same ▸ (mem_entries_erase_next.1 inSlots).1
      have shape : Shape.Ordered ⟨block.shortType, block.shapeName,
          Shape.withNext inner (next.head?.map (·.2))⟩ := by
        refine Shape.ordered_withNext (List.pairwise_map.1 order) absent innerIh.2 ?_
        intro shape isNext
        obtain ⟨entry, isHead, rfl⟩ := Option.map_eq_some_iff.1 isNext
        exact nextIh.2 entry (List.mem_of_head? isHead)
      refine ⟨othersIh.1.cons_cons _, ?_⟩
      rw [List.forall_mem_cons]
      exact ⟨shape, othersIh.2⟩

theorem ordered_shape? {id : String} {shape : Shape} (shown : workspace.shape? id = some shape) :
    shape.Ordered := by
  obtain ⟨entered, -, draws⟩ := workspace.drawsTo_iff id
  have builds := (draws _ _).2 ⟨rfl, rfl⟩
  rw [shown] at builds
  exact builds.ordered.2 _ (List.mem_singleton.2 rfl)

theorem Depicts.unique {root : Option String} {shape other : Option Shape}
    (depicts : workspace.Depicts root shape) (second : workspace.Depicts root other) :
    shape = other := by
  induction depicts generalizing other with
  | missing => exact second.eq_none.symm
  | gone dead =>
      cases second with
      | gone => rfl
      | shown found => simp [dead] at found
  | shown found below ih =>
      cases second with
      | gone dead => simp [found] at dead
      | shown foundSame belowToo =>
          obtain rfl := Option.some.inj (found.symm.trans foundSame)
          rw [SortedMap.ext_get? fun slot => ih slot (belowToo slot)]

theorem Treelike.bind_shape? {root : Option String} {shape : Option Shape}
    (treelike : workspace.Treelike) (depicts : workspace.Depicts root shape) :
    root.bind workspace.shape? = shape := by
  cases root with
  | none => exact depicts.eq_none.symm
  | some id => exact (workspace.shape?_depicts treelike id).unique depicts

theorem drawWith_eq {block : Block} {children : SortedMap Slot Shape}
    (slots : ∀ slot, (block.children.get? slot).bind draw = children.get? slot) :
    Shape.drawWith draw block = ⟨block.shortType, block.shapeName, children.entries⟩ := by
  have same : block.children.filterMap draw = children := by
    apply SortedMap.ext_get?
    intro slot
    rw [SortedMap.get?_filterMap, slots]
  rw [Shape.drawWith, same, Shape.shortType_eq_typeOf, Shape.shapeName_eq_nameOf]

theorem Treelike.shape?_solves (treelike : workspace.Treelike) (id : String) :
    workspace.shape? id = (workspace.live? id).map (Shape.drawWith workspace.shape?) := by
  have depicts := workspace.shape?_depicts treelike id
  generalize workspace.shape? id = shape at depicts
  cases depicts with
  | gone dead => simp [dead]
  | shown found below =>
      rw [found, Option.map_some, drawWith_eq fun slot => treelike.bind_shape? (below slot)]

theorem Depicts.eq_of_solves {root : Option String} {shape : Option Shape}
    (depicts : workspace.Depicts root shape)
    (solves : ∀ id, draw id = (workspace.live? id).map (Shape.drawWith draw)) :
    root.bind draw = shape := by
  induction depicts with
  | missing => rfl
  | gone dead => simp [solves, dead]
  | shown found _ ih => rw [Option.bind_some, solves, found, Option.map_some, drawWith_eq ih]

/-- Where links form trees, the shapes are the one solution of the plain recursion: a live block
shows with its abbreviated type, its name and, slot by slot, the shapes of the live blocks that its
slots hold. On every workspace the slots of a block of a shape strictly increase. -/
theorem shape?_is_recursive (workspace : Workspace) :
    (workspace.Treelike → ∀ draw : String → Option Shape, draw = workspace.shape? ↔
        ∀ id, draw id = (workspace.live? id).map (Shape.drawWith draw)) ∧
      ∀ id shape, workspace.shape? id = some shape → ∀ block ∈ shape.blocks,
        (block.children.map (·.1)).Pairwise Slot.Precedes := by
  constructor
  · intro treelike draw
    constructor
    · rintro rfl
      exact treelike.shape?_solves
    · intro solves
      funext id
      exact (workspace.shape?_depicts treelike id).eq_of_solves solves
  · intro id shape shown block member
    have order := ordered_shape? shown block member
    exact List.pairwise_map.2 (order.imp Slot.precedes_of_compare)

def branching : Workspace where
  blocks :=
    [⟨"r", "repeat", .ofList [(.named "COLOR", "c"), (.stack, "s"), (.next, "n"), (.inline, "x"),
        (.elseBody, "e"), (.doBody, "d")], .ofList [("TIMES", "2")], none, true, false⟩,
      ⟨"c", "colour", ∅, ∅, some "r", false, false⟩,
      ⟨"s", "pick_collectible", ∅, ∅, some "r", false, false⟩,
      ⟨"n", "turn_right", .ofList [(.next, "m")], ∅, some "r", false, false⟩,
      ⟨"x", "logic", ∅, ∅, some "r", false, true⟩,
      ⟨"e", "backward", ∅, ∅, some "r", false, false⟩,
      ⟨"d", "repeat", ∅, ∅, some "r", false, false⟩,
      ⟨"m", "forward", ∅, ∅, some "n", false, false⟩]
  distinct := by decide

def branchingShape : Shape :=
  ⟨"r", "r(2)", [(.doBody, ⟨"r", "r(0)", []⟩), (.elseBody, ⟨"b", "b", []⟩),
    (.next, ⟨"t(r)", "t(r)", [(.next, ⟨"f", "f", []⟩)]⟩), (.stack, ⟨"c", "c", []⟩),
    (.named "COLOR", ⟨"colour", "colour", []⟩)]⟩

theorem shape?_is_recursive_branching : branching.Treelike ∧
    branching.shape? "r" = some branchingShape ∧
      (branchingShape.children.map (·.1)).Pairwise Slot.Precedes ∧
        ∀ draw : String → Option Shape,
          (∀ id, draw id = (branching.live? id).map (Shape.drawWith draw)) →
            draw "r" = some branchingShape := by
  have treelike : branching.Treelike :=
    (Consistent.of_blocks ["r", "n", "m", "c", "s", "x", "e", "d"] (by decide) (by decide)
      (by decide) (by decide)).treelike
  have drawn : branching.shape? "r" = some branchingShape := by rfl
  obtain ⟨only, ordered⟩ := shape?_is_recursive branching
  have inBlocks : branchingShape ∈ branchingShape.blocks := by
    simp [branchingShape, Shape.blocks]
  refine ⟨treelike, drawn, ordered "r" _ drawn _ inBlocks, ?_⟩
  intro draw solves
  rw [(only treelike draw).2 solves, drawn]

end Workspace

end RobotPuzzle
