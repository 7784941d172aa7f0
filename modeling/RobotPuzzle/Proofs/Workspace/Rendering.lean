import RobotPuzzle.Workspace.Fingerprint

/-!
A fingerprint is the plain recursive rendering of a shape: the loop along a chain, which puts stack
bodies off to the end of the chain, writes the same text.
-/

namespace RobotPuzzle.Shape

def bracketed (opening closing : String) : Option String → String
  | none => ""
  | some text => opening ++ text ++ closing

def render (shape : Shape) : String :=
  shape.name ++
    bracketed "\x7b" "\x7d" ((shape.child? .doBody).attach.map fun body => body.1.render) ++
    bracketed "else\x7b" "\x7d" ((shape.child? .elseBody).attach.map fun body => body.1.render) ++
    bracketed "(" ")" ((shape.child? .inline).attach.map fun body => body.1.render) ++
    bracketed "" "" ((shape.child? .next).attach.map fun next => next.1.render) ++
    bracketed "\x7b" "\x7d" ((shape.child? .stack).attach.map fun body => body.1.render)
termination_by sizeOf shape
decreasing_by
  · exact sizeOf_child?_lt body.2
  · exact sizeOf_child?_lt body.2
  · exact sizeOf_child?_lt body.2
  · exact sizeOf_child?_lt next.2
  · exact sizeOf_child?_lt body.2

def part (text : Shape → String) (shape : Shape) (slot : Slot) (opening closing : String) :
    String :=
  bracketed opening closing ((shape.child? slot).map text)

theorem part_congr {text other : Shape → String} {shape : Shape} {slot : Slot}
    (same : ∀ child, shape.child? slot = some child → text child = other child)
    (opening closing : String) :
    shape.part text slot opening closing = shape.part other slot opening closing := by
  rw [part, part, Option.map_congr same]

theorem render_eq (shape : Shape) : shape.render =
    shape.name ++ part render shape .doBody "\x7b" "\x7d" ++
      part render shape .elseBody "else\x7b" "\x7d" ++ part render shape .inline "(" ")" ++
      part render shape .next "" "" ++ part render shape .stack "\x7b" "\x7d" := by
  rw [render]
  simp only [part, Option.attach_map_val]

theorem foldl_append (texts : List String) (before : String) :
    texts.foldl (· ++ ·) before = before ++ texts.foldl (· ++ ·) "" := by
  induction texts generalizing before with
  | nil => simp
  | cons text rest ih =>
      rw [List.foldl_cons, List.foldl_cons, ih (before ++ text), ih ("" ++ text)]
      simp [String.append_assoc]

theorem write_step (shape : Shape) (before : String) (closing : List String) :
    shape.write before closing =
      let text := fun child : Shape => child.write "" []
      let here := before ++ shape.name ++ part text shape .doBody "\x7b" "\x7d" ++
        part text shape .elseBody "else\x7b" "\x7d" ++ part text shape .inline "(" ")"
      let pending := ((shape.child? .stack).map fun body => "\x7b" ++ text body ++ "\x7d").toList
      match shape.child? .next with
      | none => (pending ++ closing).foldl (· ++ ·) here
      | some next => next.write here (pending ++ closing) := by
  -- Each slot is empty or not, and nothing else is looked at.
  rw [write]
  split <;> split <;> split <;> split <;> split <;>
    simp only [*, part, bracketed, Option.map_some, Option.map_none, String.append_assoc,
      String.append_empty, Option.toList_some, Option.toList_none, List.cons_append,
      List.nil_append]

theorem write_eq (shape : Shape) (before : String) (closing : List String) :
    shape.write before closing = before ++ shape.render ++ closing.foldl (· ++ ·) "" := by
  have below : ∀ {slot child}, shape.child? slot = some child → ∀ before closing,
      child.write before closing = before ++ child.render ++ closing.foldl (· ++ ·) "" :=
    fun found before closing => write_eq _ before closing
  have same : ∀ {slot} child, shape.child? slot = some child →
      child.write "" [] = child.render := fun child found => by simp [below found]
  have pending : (((shape.child? .stack).map fun body =>
      "\x7b" ++ body.write "" [] ++ "\x7d").toList ++ closing).foldl (· ++ ·) "" =
      part render shape .stack "\x7b" "\x7d" ++ closing.foldl (· ++ ·) "" := by
    cases found : shape.child? .stack with
    | none => simp [part, bracketed, found]
    | some body =>
        simp only [part, bracketed, found, same body found, Option.map_some, Option.toList_some,
          List.cons_append, List.nil_append, List.foldl_cons, String.empty_append]
        rw [foldl_append]
  rw [write_step, render_eq]
  simp only [part_congr same]
  cases found : shape.child? .next with
  | none =>
      simp only [foldl_append _ (_ ++ part render shape .inline "(" ")"), pending]
      simp [part, bracketed, found, String.append_assoc]
  | some next =>
      simp only [below found, pending]
      simp [part, bracketed, found, String.append_assoc]
termination_by sizeOf shape
decreasing_by exact sizeOf_child?_lt found

theorem fingerprint_eq_render (shape : Shape) : shape.fingerprint = shape.render := by
  simp [fingerprint, write_eq]

/-! The plain recursion by its equation alone. -/

def renderWith (text : Shape → String) (shape : Shape) : String :=
  shape.name ++ part text shape .doBody "\x7b" "\x7d" ++
    part text shape .elseBody "else\x7b" "\x7d" ++ part text shape .inline "(" ")" ++
    part text shape .next "" "" ++ part text shape .stack "\x7b" "\x7d"

theorem eq_render_of_solves {text : Shape → String}
    (solves : ∀ shape, text shape = renderWith text shape) (shape : Shape) :
    text shape = shape.render := by
  have below : ∀ {slot} child, shape.child? slot = some child → text child = child.render :=
    fun child found => eq_render_of_solves solves child
  rw [solves, render_eq, renderWith]
  simp only [part_congr below]
termination_by sizeOf shape
decreasing_by exact sizeOf_child?_lt found

theorem lookup_filter_slot {slots : List Slot} {slot : Slot} (kept : slot ∈ slots)
    (children : List (Slot × Shape)) :
    (children.filter fun entry => entry.1 ∈ slots).lookup slot = children.lookup slot := by
  induction children with
  | nil => rfl
  | cons first rest ih =>
      obtain ⟨place, child⟩ := first
      by_cases here : slot = place
      · subst here
        simp [kept]
      · have passed : (slot == place) = false := beq_false_of_ne here
        by_cases inside : place ∈ slots
        · simp [inside, List.lookup_cons, passed, ih]
        · simp [inside, List.lookup_cons, passed, ih]

def renderedSlots : List Slot := [.doBody, .elseBody, .inline, .next, .stack]

theorem render_congr {shape other : Shape} (names : shape.name = other.name)
    (same : ∀ slot ∈ renderedSlots, shape.child? slot = other.child? slot) :
    shape.render = other.render := by
  simp only [renderedSlots, List.forall_mem_cons] at same
  obtain ⟨bodies, elses, inlines, nexts, others, -⟩ := same
  rw [render_eq, render_eq other]
  simp only [part, names, bodies, elses, inlines, nexts, others]

theorem fingerprint_filter (shape : Shape) :
    Shape.fingerprint { shape with
      children := shape.children.filter fun entry => entry.1 ∈ renderedSlots } =
      shape.fingerprint := by
  rw [fingerprint_eq_render, fingerprint_eq_render]
  refine render_congr rfl ?_
  intro slot rendered
  exact lookup_filter_slot rendered shape.children

/-- The loop along a chain writes what the plain recursion writes: the name of a block, the body of
its loop, the other branch, the inline expression, the next block, the stack body. No other function
satisfies the equation of that recursion. Blocks in other slots do not show. -/
theorem fingerprint_is_recursive :
    (∀ shape : Shape, shape.fingerprint = shape.render) ∧
      (∀ text : Shape → String, text = render ↔ ∀ shape, text shape = renderWith text shape) ∧
      ∀ shape : Shape, Shape.fingerprint { shape with
        children := shape.children.filter fun entry => entry.1 ∈ renderedSlots } =
        shape.fingerprint := by
  refine ⟨fingerprint_eq_render, ?_, fingerprint_filter⟩
  intro text
  constructor
  · rintro rfl
    exact render_eq
  · intro solves
    funext shape
    exact eq_render_of_solves solves shape

end RobotPuzzle.Shape
