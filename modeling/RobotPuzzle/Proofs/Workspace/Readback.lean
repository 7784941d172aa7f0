import RobotPuzzle.Proofs.SortedMap
import RobotPuzzle.Proofs.Workspace.Rendering

/-!
A shape can be read back from its fingerprint when its blocks have the usual names and hang in the
slots that show: at every place the next character says which part comes next.
-/

namespace RobotPuzzle.Shape

def shownSlots : List Slot := [.doBody, .elseBody, .inline, .next]

def shortNames : List String := ["b", "f", "j", "t(l)", "t(r)", "c", "h"]

/-- The types and names of blocks of known types. A loop's field must not close the parenthesis
around it. -/
inductive Usual : String → String → Prop
  | short {type} (known : type ∈ shortNames) : Usual type type
  | loop {times : String} (free : ')' ∉ times.toList) : Usual "r" ("r(" ++ times ++ ")")

inductive Canonical : Shape → Prop
  | intro {type name} {children : SortedMap Slot Shape} (usual : Usual type name)
      (shown : ∀ slot child, children.get? slot = some child → slot ∈ shownSlots)
      (below : ∀ slot child, children.get? slot = some child → Canonical child) :
      Canonical ⟨type, name, children.entries⟩

theorem eq_of_first_stop {stop : Char} {first second rest otherRest : List Char}
    (free : stop ∉ first) (freeToo : stop ∉ second)
    (same : first ++ stop :: rest = second ++ stop :: otherRest) :
    first = second ∧ rest = otherRest := by
  rcases List.append_eq_append_iff.1 same with ⟨more, longer, cut⟩ | ⟨more, longer, cut⟩
  · cases more with
    | nil => simp_all
    | cons head tail => simp_all
  · cases more with
    | nil => simp_all
    | cons head tail => simp_all

def shortHeads : List Char := ['b', 'f', 'j', 't', 'c', 'h']

theorem head_of_short {name : String} (known : name ∈ shortNames) :
    ∃ first rest, name.toList = first :: rest ∧ first ∈ shortHeads := by
  simp only [shortNames, List.mem_cons, List.not_mem_nil, or_false] at known
  rcases known with rfl | rfl | rfl | rfl | rfl | rfl | rfl <;> simp [shortHeads]

theorem loop_name_toList (times : String) :
    ("r(" ++ times ++ ")").toList = 'r' :: '(' :: (times.toList ++ [')']) := by
  simp

theorem short_ne_loop {name : String} (known : name ∈ shortNames) (times : String)
    (rest otherRest : List Char) :
    name.toList ++ rest ≠ ("r(" ++ times ++ ")").toList ++ otherRest := by
  have noLoop : 'r' ∉ shortHeads := by decide
  obtain ⟨first, more, split, member⟩ := head_of_short known
  intro same
  rw [split, loop_name_toList] at same
  exact noLoop ((List.cons.inj same).1 ▸ member)

theorem Usual.readable {type name other otherName : String} {rest otherRest : List Char}
    (usual : Usual type name) (usualToo : Usual other otherName)
    (same : name.toList ++ rest = otherName.toList ++ otherRest) :
    type = other ∧ name = otherName ∧ rest = otherRest := by
  -- No short name is the beginning of another.
  have apart : ∀ name ∈ shortNames, ∀ other ∈ shortNames, name.toList <+: other.toList →
      name = other := by decide
  cases usual with
  | short known =>
      cases usualToo with
      | short knownToo =>
          have equal : type = other := by
            rcases List.prefix_or_prefix_of_prefix ⟨rest, same⟩ (List.prefix_append _ _) with
              shorter | longer
            · exact apart type known other knownToo shorter
            · exact (apart other knownToo type known longer).symm
          subst equal
          exact ⟨rfl, rfl, List.append_cancel_left same⟩
      | loop free => exact absurd same (short_ne_loop known _ _ _)
  | loop free =>
      cases usualToo with
      | short knownToo => exact absurd same.symm (short_ne_loop knownToo _ _ _)
      | loop freeToo =>
          simp only [loop_name_toList, List.cons_append, List.append_assoc, List.nil_append,
            List.cons.injEq, true_and] at same
          obtain ⟨times, rests⟩ := eq_of_first_stop free freeToo same
          exact ⟨rfl, by rw [String.toList_inj.1 times], rests⟩

def nameHeads : List Char := 'r' :: shortHeads

theorem Usual.head {type name : String} (usual : Usual type name) :
    ∃ first rest, name.toList = first :: rest ∧ first ∈ nameHeads := by
  cases usual with
  | short known =>
      obtain ⟨first, rest, split, member⟩ := head_of_short known
      exact ⟨first, rest, split, List.mem_cons_of_mem _ member⟩
  | @loop times free => exact ⟨'r', _, loop_name_toList times, by simp [nameHeads]⟩

def StartsIn (heads text : List Char) : Prop := ∀ first ∈ text.head?, first ∈ heads

theorem StartsIn.mono {heads more text : List Char} (starts : StartsIn heads text)
    (subset : heads ⊆ more) : StartsIn more text :=
  fun first member => subset (starts first member)

theorem StartsIn.part {heads tail : List Char} {shape : Shape} {slot : Slot}
    {opening closing : String} (starts : StartsIn heads tail)
    (opens : ∀ child, shape.child? slot = some child →
      ∃ first rest, opening.toList ++ child.render.toList = first :: rest ∧ first ∈ heads) :
    StartsIn heads ((part render shape slot opening closing).toList ++ tail) := by
  intro first member
  cases found : shape.child? slot with
  | none => exact starts first (by simpa [Shape.part, bracketed, found] using member)
  | some child =>
      obtain ⟨head, rest, split, inHeads⟩ := opens child found
      have same : first = head := by
        simp only [Shape.part, bracketed, found, Option.map_some, String.toList_append, split,
          List.cons_append] at member
        simpa using member.symm
      exact same ▸ inHeads

/-- What stands for a slot and what stands behind it can be told apart when the one begins in
another way than the other. -/
theorem part_readable {heads tail otherTail : List Char} {shape other : Shape} {slot : Slot}
    {opening closing : String}
    (opens : ∀ child, shape.child? slot = some child ∨ other.child? slot = some child →
      ∃ first rest, opening.toList ++ child.render.toList = first :: rest ∧ first ∉ heads)
    (starts : StartsIn heads tail) (startsToo : StartsIn heads otherTail)
    (readable : ∀ child otherChild, shape.child? slot = some child →
      other.child? slot = some otherChild →
      child.render.toList ++ (closing.toList ++ tail) =
        otherChild.render.toList ++ (closing.toList ++ otherTail) →
      child = otherChild ∧ closing.toList ++ tail = closing.toList ++ otherTail)
    (same : (part render shape slot opening closing).toList ++ tail =
      (part render other slot opening closing).toList ++ otherTail) :
    shape.child? slot = other.child? slot ∧ tail = otherTail := by
  -- One side alone cannot have the part: what stands behind would begin like the part itself.
  cases found : shape.child? slot with
  | none =>
      cases foundToo : other.child? slot with
      | none => exact ⟨rfl, by simpa [part, bracketed, found, foundToo] using same⟩
      | some otherChild =>
          obtain ⟨first, rest, split, outside⟩ := opens otherChild (.inr foundToo)
          have begins : tail = first :: (rest ++ (closing.toList ++ otherTail)) := by
            simpa [part, bracketed, found, foundToo, ← List.append_assoc, split] using same
          exact absurd (starts first (by simp [begins])) outside
  | some child =>
      cases foundToo : other.child? slot with
      | none =>
          obtain ⟨first, rest, split, outside⟩ := opens child (.inl found)
          have begins : otherTail = first :: (rest ++ (closing.toList ++ tail)) := by
            simpa [part, bracketed, found, foundToo, ← List.append_assoc, split] using same.symm
          exact absurd (startsToo first (by simp [begins])) outside
      | some otherChild =>
          obtain ⟨rfl, rests⟩ := readable child otherChild found foundToo
            (by simpa [part, bracketed, found, foundToo] using same)
          exact ⟨rfl, List.append_cancel_left rests⟩

def closers : List Char := ['\x7d', ')']

def fromNext (shape : Shape) (rest : List Char) : List Char :=
  (part render shape .next "" "").toList ++ rest

def fromInline (shape : Shape) (rest : List Char) : List Char :=
  (part render shape .inline "(" ")").toList ++ shape.fromNext rest

def fromElse (shape : Shape) (rest : List Char) : List Char :=
  (part render shape .elseBody "else\x7b" "\x7d").toList ++ shape.fromInline rest

theorem Canonical.child {shape child : Shape} {slot : Slot} (canonical : shape.Canonical)
    (found : shape.child? slot = some child) : slot ∈ shownSlots ∧ child.Canonical := by
  cases canonical with
  | @intro type name children usual shown below =>
      rw [child?, children.lookup_entries] at found
      exact ⟨shown slot child found, below slot child found⟩

theorem Canonical.usual {shape : Shape} (canonical : shape.Canonical) :
    Usual shape.type shape.name := by
  cases canonical with
  | intro usual shown below => exact usual

theorem Canonical.render_head {shape : Shape} (canonical : shape.Canonical) :
    ∃ first rest, shape.render.toList = first :: rest ∧ first ∈ nameHeads := by
  obtain ⟨first, rest, split, member⟩ := canonical.usual.head
  rw [render_eq]
  simp only [String.toList_append, split]
  exact ⟨first, _, rfl, member⟩

theorem Canonical.render_append {shape : Shape} (canonical : shape.Canonical) (rest : List Char) :
    shape.render.toList ++ rest = shape.name.toList ++
      ((part render shape .doBody "\x7b" "\x7d").toList ++ shape.fromElse rest) := by
  have noStack : shape.child? .stack = none := by
    rw [Option.eq_none_iff_forall_ne_some]
    intro child found
    exact absurd (canonical.child found).1 (by decide)
  rw [render_eq]
  simp [fromElse, fromInline, fromNext, part, bracketed, noStack]

theorem Canonical.fromNext_starts {shape : Shape} {rest : List Char} (canonical : shape.Canonical)
    (starts : StartsIn closers rest) : StartsIn (nameHeads ++ closers) (shape.fromNext rest) := by
  refine (starts.mono (by simp)).part ?_
  intro child found
  obtain ⟨first, more, split, member⟩ := (canonical.child found).2.render_head
  exact ⟨first, more, by simpa using split, by simp [member]⟩

theorem Canonical.fromInline_starts {shape : Shape} {rest : List Char}
    (canonical : shape.Canonical) (starts : StartsIn closers rest) :
    StartsIn ('(' :: (nameHeads ++ closers)) (shape.fromInline rest) :=
  ((canonical.fromNext_starts starts).mono (by simp)).part fun child _ =>
    ⟨'(', child.render.toList, rfl, by simp⟩

theorem Canonical.fromElse_starts {shape : Shape} {rest : List Char}
    (canonical : shape.Canonical) (starts : StartsIn closers rest) :
    StartsIn ('e' :: '(' :: (nameHeads ++ closers)) (shape.fromElse rest) :=
  ((canonical.fromInline_starts starts).mono (by simp)).part fun child _ =>
    ⟨'e', _, rfl, by simp⟩

theorem Canonical.children_eq {shape other : Shape} (canonical : shape.Canonical)
    (canonicalToo : other.Canonical)
    (same : ∀ slot ∈ shownSlots, shape.child? slot = other.child? slot) :
    shape.children = other.children := by
  have hidden : ∀ {shape : Shape}, shape.Canonical → ∀ slot ∉ shownSlots,
      shape.child? slot = none := fun canonical slot notShown =>
    Option.eq_none_iff_forall_ne_some.2 fun child found => notShown (canonical.child found).1
  have everywhere : ∀ slot, shape.child? slot = other.child? slot := by
    intro slot
    by_cases shows : slot ∈ shownSlots
    · exact same slot shows
    · rw [hidden canonical slot shows, hidden canonicalToo slot shows]
  cases canonical with
  | @intro type name children usual shown below =>
      cases canonicalToo with
      | @intro otherType otherName otherChildren usualToo shownToo belowToo =>
          have lookups : ∀ slot, children.get? slot = otherChildren.get? slot := by
            intro slot
            rw [← SortedMap.lookup_entries, ← SortedMap.lookup_entries]
            exact everywhere slot
          rw [SortedMap.ext_get? lookups]

/-- The parts behind the name are told apart one after the other, if the text of each child is told
apart from what stands behind it. -/
theorem Canonical.parts_readable {shape other : Shape} (canonical : shape.Canonical)
    (canonicalToo : other.Canonical) {rest otherRest : List Char} (starts : StartsIn closers rest)
    (startsToo : StartsIn closers otherRest)
    (readable : ∀ {slot tail otherTail} child otherChild, shape.child? slot = some child →
      other.child? slot = some otherChild → StartsIn closers tail → StartsIn closers otherTail →
      child.render.toList ++ tail = otherChild.render.toList ++ otherTail →
      child = otherChild ∧ tail = otherTail)
    (same : (part render shape .doBody "\x7b" "\x7d").toList ++ shape.fromElse rest =
      (part render other .doBody "\x7b" "\x7d").toList ++ other.fromElse otherRest) :
    (∀ slot ∈ shownSlots, shape.child? slot = other.child? slot) ∧ rest = otherRest := by
  have brace : ∀ tail, StartsIn closers ("\x7d".toList ++ tail) := by simp [StartsIn, closers]
  have parenthesis : ∀ tail, StartsIn closers (")".toList ++ tail) := by simp [StartsIn, closers]
  obtain ⟨bodies, same⟩ := part_readable (fun child _ => ⟨'\x7b', _, rfl, by decide⟩)
    (canonical.fromElse_starts starts) (canonicalToo.fromElse_starts startsToo)
    (fun child otherChild found foundToo =>
      readable child otherChild found foundToo (brace _) (brace _)) same
  obtain ⟨elses, same⟩ := part_readable (fun child _ => ⟨'e', _, rfl, by decide⟩)
    (canonical.fromInline_starts starts) (canonicalToo.fromInline_starts startsToo)
    (fun child otherChild found foundToo =>
      readable child otherChild found foundToo (brace _) (brace _)) same
  obtain ⟨inlines, same⟩ := part_readable (fun child _ => ⟨'(', _, rfl, by decide⟩)
    (canonical.fromNext_starts starts) (canonicalToo.fromNext_starts startsToo)
    (fun child otherChild found foundToo =>
      readable child otherChild found foundToo (parenthesis _) (parenthesis _)) same
  -- The next block has no bracket before it; its name keeps it apart from a closing one.
  have noCloser : ∀ first ∈ nameHeads, first ∉ closers := by
    simp [nameHeads, shortHeads, closers]
  have nextOpens : ∀ child, shape.child? .next = some child ∨ other.child? .next = some child →
      ∃ first more, "".toList ++ child.render.toList = first :: more ∧ first ∉ closers := by
    intro child found
    have canonicalChild : child.Canonical := by
      rcases found with found | found
      · exact (canonical.child found).2
      · exact (canonicalToo.child found).2
    obtain ⟨first, more, split, member⟩ := canonicalChild.render_head
    exact ⟨first, more, split, noCloser first member⟩
  have bare : ∀ {tail}, StartsIn closers tail → StartsIn closers ("".toList ++ tail) :=
    fun starts => starts
  obtain ⟨nexts, rests⟩ := part_readable nextOpens starts startsToo
    (fun child otherChild found foundToo =>
      readable child otherChild found foundToo (bare starts) (bare startsToo)) same
  refine ⟨?_, rests⟩
  simp [shownSlots, bodies, elses, inlines, nexts]

/-- A canonical shape is determined by its text, also when more text stands behind it, as long as
that begins with a closing bracket. -/
theorem Canonical.readable {shape other : Shape} (canonical : shape.Canonical)
    (canonicalToo : other.Canonical) {rest otherRest : List Char} (starts : StartsIn closers rest)
    (startsToo : StartsIn closers otherRest)
    (same : shape.render.toList ++ rest = other.render.toList ++ otherRest) :
    shape = other ∧ rest = otherRest := by
  induction canonical generalizing other rest otherRest with
  | @intro type name children usual shown below ih =>
      have canonical : Canonical ⟨type, name, children.entries⟩ := .intro usual shown below
      rw [canonical.render_append, canonicalToo.render_append] at same
      obtain ⟨types, names, same⟩ := usual.readable canonicalToo.usual same
      obtain ⟨lookups, rests⟩ := canonical.parts_readable canonicalToo starts startsToo
        (by
          intro slot tail otherTail child otherChild found foundToo
          rw [child?, children.lookup_entries] at found
          exact ih slot child found (canonicalToo.child foundToo).2) same
      have sameChildren := canonical.children_eq canonicalToo lookups
      obtain ⟨otherType, otherName, otherChildren⟩ := other
      simp only at types names sameChildren
      exact ⟨by rw [types, names, sameChildren], rests⟩

theorem canonical_iff {shape : Shape} : shape.Canonical ↔ Usual shape.type shape.name ∧
    (shape.children.Pairwise fun earlier later => compare earlier.1 later.1 = .lt) ∧
    ∀ entry ∈ shape.children, entry.1 ∈ shownSlots ∧ entry.2.Canonical := by
  constructor
  · rintro ⟨usual, shown, below⟩
    refine ⟨usual, SortedMap.ordered _, ?_⟩
    rintro ⟨slot, child⟩ member
    have held := SortedMap.get?_eq_some_iff.2 member
    exact ⟨shown slot child held, below slot child held⟩
  · obtain ⟨type, name, children⟩ := shape
    rintro ⟨usual, ordered, shown⟩
    let map : SortedMap Slot Shape := ⟨children, ordered⟩
    have inSlots : ∀ slot child, map.get? slot = some child →
        slot ∈ shownSlots ∧ child.Canonical := fun slot child held =>
      shown (slot, child) (SortedMap.get?_eq_some_iff.1 held)
    exact @Canonical.intro type name map usual (fun slot child held => (inSlots slot child held).1)
      fun slot child held => (inSlots slot child held).2

/-- Shapes with the usual names, whose slots are in order and all show, have the same fingerprint
only if they are the same shape. -/
theorem fingerprint_eq_iff {shape other : Shape} (canonical : shape.Canonical)
    (canonicalToo : other.Canonical) : shape.fingerprint = other.fingerprint ↔ shape = other := by
  constructor
  · intro same
    rw [fingerprint_eq_render, fingerprint_eq_render] at same
    have texts : shape.render.toList ++ [] = other.render.toList ++ [] := by rw [same]
    have nothing : StartsIn closers [] := by simp [StartsIn]
    exact (canonical.readable canonicalToo nothing nothing texts).1
  · rintro rfl
    rfl

def plainShape (name : String) : Shape := ⟨name, name, []⟩

def turnBehindLoop : Shape :=
  ⟨"r", "r(2)", [(.doBody, plainShape "f"), (.next, plainShape "t(l)")]⟩

def turnInLoop : Shape :=
  ⟨"r", "r(2)", [(.doBody, ⟨"f", "f", [(.next, plainShape "t(l)")]⟩)]⟩

theorem fingerprint_eq_iff_turn : turnBehindLoop.Canonical ∧ turnInLoop.Canonical ∧
    turnBehindLoop.fingerprint ≠ turnInLoop.fingerprint := by
  have plain : ∀ {name}, name ∈ shortNames → (plainShape name).Canonical := fun known =>
    canonical_iff.2 ⟨.short known, .nil, by simp [plainShape]⟩
  have step : (plainShape "f").Canonical := plain (by decide)
  have turn : (plainShape "t(l)").Canonical := plain (by decide)
  have loop : Usual "r" "r(2)" := @Usual.loop "2" (by decide)
  have behind : turnBehindLoop.Canonical :=
    canonical_iff.2 ⟨loop, by decide, by simp [turnBehindLoop, shownSlots, step, turn]⟩
  have stepAndTurn : Canonical ⟨"f", "f", [(.next, plainShape "t(l)")]⟩ :=
    canonical_iff.2 ⟨.short (by decide), by simp, by simp [shownSlots, turn]⟩
  have inside : turnInLoop.Canonical :=
    canonical_iff.2 ⟨loop, by simp [turnInLoop], by simp [turnInLoop, shownSlots, stepAndTurn]⟩
  have different : turnBehindLoop ≠ turnInLoop := by simp [turnBehindLoop, turnInLoop]
  exact ⟨behind, inside, mt (fingerprint_eq_iff behind inside).1 different⟩

end RobotPuzzle.Shape
