import RobotPuzzle.Format.Workspace
import RobotPuzzle.Proofs.Json.Lossless
import RobotPuzzle.Proofs.Workspace.Tree

/-!
The JSON forms of slots, blocks, trees of blocks and shapes lose nothing. A reader goes down a tree
with a bound for its depth, and the nesting of the value is bound enough.
-/

namespace RobotPuzzle.Json

theorem nesting_lt_of_mem_items {item : Json} {items : List Json} (member : item ∈ items) :
    item.nesting < (Json.arr items).nesting := by
  rw [nesting]
  induction items with
  | nil => exact absurd member List.not_mem_nil
  | cons first rest ih =>
      rw [nestingOfItems]
      rcases List.mem_cons.1 member with rfl | later
      · exact Nat.lt_succ_of_le (Nat.le_max_left _ _)
      · have deeper := ih later
        omega

theorem nesting_lt_of_mem_members {name : String} {value : Json} {members : List (String × Json)}
    (member : (name, value) ∈ members) : value.nesting < (Json.obj members).nesting := by
  rw [nesting]
  induction members with
  | nil => exact absurd member List.not_mem_nil
  | cons first rest ih =>
      rw [nestingOfMembers]
      rcases List.mem_cons.1 member with rfl | later
      · exact Nat.lt_succ_of_le (Nat.le_max_left _ _)
      · have deeper := ih later
        omega

end RobotPuzzle.Json

namespace RobotPuzzle

open Json

def Slot.Writable (slot : Slot) : Prop := ∃ text, Slot.ofName text = slot

theorem Slot.ofName_name {slot : Slot} (writable : slot.Writable) :
    Slot.ofName slot.name = slot := by
  obtain ⟨text, rfl⟩ := writable
  fun_cases Slot.ofName text
  case case6 => rw [Slot.name, Slot.ofName] <;> assumption
  all_goals rfl

theorem Slot.writable_iff {slot : Slot} : slot.Writable ↔
    ∀ text, slot = .named text → text ∉ ["DO", "ELSE", "INLINE", "NEXT", "STACK"] := by
  constructor
  · rintro writable text rfl usual
    have back : Slot.ofName text = .named text := ofName_name writable
    simp only [List.mem_cons, List.not_mem_nil, or_false] at usual
    rcases usual with rfl | rfl | rfl | rfl | rfl <;> exact absurd back (by decide)
  · intro ownName
    cases slot with
    | doBody => exact ⟨"DO", rfl⟩
    | elseBody => exact ⟨"ELSE", rfl⟩
    | inline => exact ⟨"INLINE", rfl⟩
    | next => exact ⟨"NEXT", rfl⟩
    | stack => exact ⟨"STACK", rfl⟩
    | named text =>
        have unusual := ownName text rfl
        simp only [List.mem_cons, List.not_mem_nil, or_false, not_or] at unusual
        obtain ⟨notDo, notElse, notInline, notNext, notStack⟩ := unusual
        refine ⟨text, ?_⟩
        rw [Slot.ofName] <;> assumption

theorem Slot.lossless : Lossless Slot.Writable Slot.toJson Slot.ofJson? where
  read_write slot writable := congrArg some (Slot.ofName_name writable)
  sound json slot _ found := by
    obtain ⟨text, -, named⟩ := Option.map_eq_some_iff.1 found
    exact ⟨text, named⟩

@[simp] theorem textsOfJson?_textsToJson (texts : SortedMap String String) :
    textsOfJson? (textsToJson texts) = some texts := by
  have entries : Lossless _ textsToJson textsOfJson? :=
    lossless_str.sortedMap (fun _ (_ : True) => rfl) (fun _ _ _ => trivial)
  exact entries.read_write texts fun _ _ => ⟨trivial, trivial⟩

namespace Block

def Writable (block : Block) : Prop := ∀ entry ∈ block.children.entries, entry.1.Writable

theorem lossless_children : Lossless
    (fun children : SortedMap Slot String => ∀ entry ∈ children.entries, entry.1.Writable ∧ True)
    (ofSortedMap Slot.name .str) (sortedMap? (some ∘ Slot.ofName) str?) := by
  refine lossless_str.sortedMap ?_ ?_
  · intro slot writable
    rw [Function.comp_apply, Slot.ofName_name writable]
  · intro text slot named
    exact ⟨text, Option.some.inj named⟩

theorem lossless : Lossless Writable toJson ofJson? where
  read_write block writable := by
    have children := lossless_children.read_write block.children fun entry member =>
      ⟨writable entry member, trivial⟩
    rw [ofJson?, toJson, record?_obj _ (by simp)]
    simp only [some_bind, required_cons, optional_cons, reduceIte, String.reduceEq, str?_str,
      bool?_bool, nullable?_str, textsOfJson?_textsToJson, children]
    rfl
  sound json block finite found := by
    simp only [ofJson?, bind_eq_some_iff, pure_eq_some_iff] at found
    obtain ⟨members, record, _, -, _, -, children, childrenRead, _, -, _, -, _, -, _, -, rfl⟩ :=
      found
    have entries := lossless_children.sound.required (finite_of_record? finite record) childrenRead
    exact fun entry member => (entries entry member).1

end Block

/-! Trees: a block with the slot that it stands in, and then all the blocks below a block. -/

section

variable {α : Type} {write : α → Json} {read : Json → Option α} {slotName : String}

def childJson (slotName : String) (write : α → Json) (child : Slot × α) : Json :=
  .obj [(slotName, child.1.toJson), ("block", write child.2)]

def childOf? (slotName : String) (read : Json → Option α) (json : Json) : Option (Slot × α) := do
  let members ← json.record? [slotName, "block"] 2
  return (← members.required slotName Slot.ofJson?, ← members.required "block" read)

theorem childOf?_childJson {child : Slot × α} (different : slotName ≠ "block")
    (slot : child.1.Writable) (inner : read (write child.2) = some child.2) :
    childOf? slotName read (childJson slotName write child) = some child := by
  have distinct : ([(slotName, child.1.toJson), ("block", write child.2)].map (·.1)).Nodup := by
    simpa using different
  simp [childOf?, childJson, record?_obj _ distinct, different.symm, inner,
    Slot.lossless.read_write _ slot]

theorem sound_childOf? {fit : α → Prop} (sound : Sound fit read) :
    Sound (fun child : Slot × α => child.1.Writable ∧ fit child.2) (childOf? slotName read) := by
  intro json child finite found
  simp only [childOf?, bind_eq_some_iff, pure_eq_some_iff] at found
  obtain ⟨members, record, slot, slotRead, block, blockRead, rfl⟩ := found
  have parts := finite_of_record? finite record
  exact ⟨Slot.lossless.sound.required parts slotRead, sound.required parts blockRead⟩

theorem children_nesting (slotName : String) (write : α → Json) {children : List (Slot × α)}
    {child : Slot × α} (member : child ∈ children) : (write child.2).nesting + 2 ≤
      (Json.arr (children.map (childJson slotName write))).nesting := by
  have inMembers :
      ("block", write child.2) ∈ [(slotName, child.1.toJson), ("block", write child.2)] := by simp
  have inItems : childJson slotName write child ∈ children.map (childJson slotName write) :=
    List.mem_map_of_mem member
  have outer := nesting_lt_of_mem_items inItems
  have inner := nesting_lt_of_mem_members inMembers
  rw [childJson] at outer
  omega

theorem children_read {children : List (Slot × α)} (different : slotName ≠ "block")
    (slots : ∀ child ∈ children, child.1.Writable)
    (below : ∀ child ∈ children, read (write child.2) = some child.2) :
    list? (childOf? slotName read) (.arr (children.map (childJson slotName write))) =
      some children :=
  mapM_map_eq_some fun child member =>
    childOf?_childJson different (slots child member) (below child member)

end

namespace BlockSpec

inductive Writable : BlockSpec → Prop
  | intro (spec : BlockSpec) (slots : ∀ child ∈ spec.children, child.1.Writable)
      (below : ∀ child ∈ spec.children, Writable child.2) : Writable spec

theorem childrenToJson_eq_map (children : List (Slot × BlockSpec)) :
    childrenToJson children = children.map (childJson "slot" toJson) := by
  induction children with
  | nil => rfl
  | cons first rest ih => rw [childrenToJson, List.map_cons, ih, childJson]

theorem ofJsonWithin?_toJson {spec : BlockSpec} (writable : spec.Writable) {depth : Nat}
    (deep : spec.toJson.nesting ≤ depth) : ofJsonWithin? depth spec.toJson = some spec := by
  induction writable generalizing depth with
  | intro spec slots below ih =>
      obtain ⟨id, type, fields, children⟩ := spec
      rw [toJson, childrenToJson_eq_map] at deep ⊢
      have last : ("children", Json.arr (children.map (childJson "slot" toJson))) ∈
          [("id", .str id), ("type", .str type), ("fields", textsToJson fields),
            ("children", .arr (children.map (childJson "slot" toJson)))] := by simp
      have inside := nesting_lt_of_mem_members last
      -- A child is nested less than the whole, so the bound that is left is enough for it.
      obtain ⟨depth, rfl⟩ : ∃ before, depth = before + 1 := ⟨depth - 1, by omega⟩
      have read : list? (childOfJson? (ofJsonWithin? depth))
          (.arr (children.map (childJson "slot" toJson))) = some children := by
        refine children_read (by decide) slots fun child member => ih child member ?_
        have nested := children_nesting "slot" toJson member
        omega
      rw [ofJsonWithin?, record?_obj _ (by simp)]
      simp [read]

theorem sound_ofJsonWithin? (depth : Nat) : Sound Writable (ofJsonWithin? depth) := by
  induction depth with
  | zero => exact fun _ _ _ found => nomatch found
  | succ depth ih =>
      intro json spec finite found
      simp only [ofJsonWithin?, bind_eq_some_iff, pure_eq_some_iff] at found
      obtain ⟨members, record, id, -, type, -, fields, -, children, childrenRead, rfl⟩ := found
      have each := (sound_childOf? ih).list.withDefault (by simp) (finite_of_record? finite record)
        childrenRead
      exact .intro _ (fun child member => (each child member).1) fun child member =>
        (each child member).2

theorem lossless : Lossless Writable toJson ofJson? where
  read_write _ writable := ofJsonWithin?_toJson writable (Nat.le_refl _)
  sound json _ finite found := sound_ofJsonWithin? json.nesting _ _ finite found

end BlockSpec

namespace Shape

inductive Writable : Shape → Prop
  | intro (shape : Shape) (slots : ∀ child ∈ shape.children, child.1.Writable)
      (below : ∀ child ∈ shape.children, Writable child.2) : Writable shape

theorem childrenToJson_eq_map (children : List (Slot × Shape)) :
    childrenToJson children = children.map (childJson "nested" toJson) := by
  induction children with
  | nil => rfl
  | cons first rest ih => rw [childrenToJson, List.map_cons, ih, childJson]

theorem ofJsonWithin?_toJson {shape : Shape} (writable : shape.Writable) {depth : Nat}
    (deep : shape.toJson.nesting ≤ depth) : ofJsonWithin? depth shape.toJson = some shape := by
  induction writable generalizing depth with
  | intro shape slots below ih =>
      obtain ⟨type, name, children⟩ := shape
      rw [toJson, childrenToJson_eq_map] at deep ⊢
      have last : ("children", Json.arr (children.map (childJson "nested" toJson))) ∈
          [("type", .str type), ("name", .str name),
            ("children", .arr (children.map (childJson "nested" toJson)))] := by simp
      have inside := nesting_lt_of_mem_members last
      -- A child is nested less than the whole, so the bound that is left is enough for it.
      obtain ⟨depth, rfl⟩ : ∃ before, depth = before + 1 := ⟨depth - 1, by omega⟩
      have read : list? (childOfJson? (ofJsonWithin? depth))
          (.arr (children.map (childJson "nested" toJson))) = some children := by
        refine children_read (by decide) slots fun child member => ih child member ?_
        have nested := children_nesting "nested" toJson member
        omega
      rw [ofJsonWithin?, record?_obj _ (by simp)]
      simp [read]

theorem sound_ofJsonWithin? (depth : Nat) : Sound Writable (ofJsonWithin? depth) := by
  induction depth with
  | zero => exact fun _ _ _ found => nomatch found
  | succ depth ih =>
      intro json shape finite found
      simp only [ofJsonWithin?, bind_eq_some_iff, pure_eq_some_iff] at found
      obtain ⟨members, record, type, -, name, -, children, childrenRead, rfl⟩ := found
      have each :=
        (sound_childOf? ih).list.required (finite_of_record? finite record) childrenRead
      exact .intro _ (fun child member => (each child member).1) fun child member =>
        (each child member).2

theorem lossless : Lossless Writable toJson ofJson? where
  read_write _ writable := ofJsonWithin?_toJson writable (Nat.le_refl _)
  sound json _ finite found := sound_ofJsonWithin? json.nesting _ _ finite found

theorem toJson_ne_null (shape : Shape) : shape.toJson ≠ .null := by
  obtain ⟨type, name, children⟩ := shape
  rw [toJson]
  nofun

end Shape

namespace ProgramShape

structure Writable (program : ProgramShape) : Prop where
  main : ∀ shape ∈ program.main, shape.Writable
  others : ∀ shape ∈ program.others, shape.Writable

theorem lossless : Lossless Writable toJson ofJson? where
  read_write program writable := by
    have main := (Shape.lossless.nullable Shape.toJson_ne_null).read_write _ writable.main
    have others := Shape.lossless.list.read_write _ writable.others
    rw [ofJson?, toJson, record?_obj _ (by simp)]
    simp [main, others]
  sound json program finite found := by
    simp only [ofJson?, bind_eq_some_iff, pure_eq_some_iff] at found
    obtain ⟨members, record, main, mainRead, others, othersRead, rfl⟩ := found
    have parts := finite_of_record? finite record
    exact ⟨Shape.lossless.sound.optional parts mainRead,
      Shape.lossless.sound.list.required parts othersRead⟩

end ProgramShape

end RobotPuzzle
