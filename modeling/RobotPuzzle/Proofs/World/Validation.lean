import RobotPuzzle.Proofs.World.Codes
import RobotPuzzle.Proofs.World.Grid

/-!
What becomes of a map of codes: the first of its faults, or the world that it shows. An unknown code
counts before a fault of form, and a fault of form before a missing start.
-/

namespace RobotPuzzle

structure FirstFailing {α : Type} (fails : α → Prop) (items : List α) (index : Nat) (item : α) :
    Prop where
  found : items[index]? = some item
  failed : fails item
  passed : ∀ earlier other, earlier < index → items[earlier]? = some other → ¬fails other

section

variable {α : Type} {fails : α → Prop} {items rest : List α} {first item : α} {index : Nat}

theorem not_firstFailing_nil : ¬FirstFailing fails [] index item := by
  intro failing
  have found := failing.found
  rw [List.getElem?_nil] at found
  contradiction

theorem FirstFailing.cons (passes : ¬fails first) (failing : FirstFailing fails rest index item) :
    FirstFailing fails (first :: rest) (index + 1) item := by
  obtain ⟨found, failed, passed⟩ := failing
  refine ⟨found, failed, fun earlier other below held => ?_⟩
  cases earlier with
  | zero => exact Option.some.inj held ▸ passes
  | succ earlier => exact passed earlier other (by omega) held

theorem firstFailing_cons_of_fails {report : Nat → α → Prop} (failed : fails first) :
    (∃ index item, FirstFailing fails (first :: rest) index item ∧ report index item) ↔
      report 0 first := by
  constructor
  · rintro ⟨index, item, failing, reported⟩
    cases index with
    | zero => exact Option.some.inj failing.found ▸ reported
    | succ index => exact absurd failed (failing.passed 0 first (by omega) rfl)
  · intro reported
    exact ⟨0, first, ⟨rfl, failed, fun _ _ before => absurd before (by omega)⟩, reported⟩

theorem firstFailing_cons_of_passes {report : Nat → α → Prop} (passes : ¬fails first) :
    (∃ index item, FirstFailing fails (first :: rest) index item ∧ report index item) ↔
      ∃ index item, FirstFailing fails rest index item ∧ report (index + 1) item := by
  constructor
  · rintro ⟨index, item, failing, reported⟩
    cases index with
    | zero => exact absurd (Option.some.inj failing.found ▸ failing.failed) passes
    | succ index =>
        refine ⟨index, item, ⟨failing.found, failing.failed, fun earlier other below => ?_⟩,
          reported⟩
        exact failing.passed (earlier + 1) other (by omega)
  · rintro ⟨index, item, failing, reported⟩
    exact ⟨index + 1, item, failing.cons passes, reported⟩

theorem exists_firstFailing_iff :
    (∃ index item, FirstFailing fails items index item) ↔ ∃ item ∈ items, fails item := by
  constructor
  · rintro ⟨index, item, failing⟩
    exact ⟨item, List.mem_of_getElem? failing.found, failing.failed⟩
  · rintro ⟨item, member, failed⟩
    induction items with
    | nil => exact absurd member List.not_mem_nil
    | cons first rest ih =>
        by_cases here : fails first
        · exact ⟨0, first, rfl, here, fun _ _ before => absurd before (by omega)⟩
        · rcases List.mem_cons.1 member with rfl | inRest
          · exact absurd failed here
          · obtain ⟨index, item, failing⟩ := ih inRest
            exact ⟨index + 1, item, failing.cons here⟩

end

def Tile.Unknown (code : String) : Prop := Tile.ofCode? code = none

def Misfits (width : Nat) (line : List Tile) : Prop := line = [] ∨ line.length ≠ width

def firstWidth (tiles : List (List Tile)) : Nat := (tiles.headD []).length

def formFault (line : List Tile) (row : Nat) : MapError :=
  if line.isEmpty then .emptyRow row else .raggedRow row

structure FirstUnknown (codes : List (List String)) (code : String) (row col : Nat) : Prop where
  found : (⟨row, col⟩, code) ∈ cells codes
  unknown : Tile.Unknown code
  known : ∀ cell ∈ cells codes, cell.1.Precedes ⟨row, col⟩ → ¬Tile.Unknown cell.2

structure LastStart (tiles : List (List Tile)) (pose : Pose) : Prop where
  found : (pose.position, .start pose.heading) ∈ cells tiles
  last : ∀ position heading, (position, .start heading) ∈ cells tiles →
    position = pose.position ∨ position.Precedes pose.position

/-- A world as its map shows it. The ledger has the piles and containers of the map under their
positions and nothing else, the totals are their sums in 32 bits, and nothing has been moved. -/
structure World.Opened (world : World) : Prop where
  robot : LastStart world.tiles world.robot
  items : ∀ position count, world.ledger.items.get? position = some count ↔
    (position, .collectible count) ∈ cells world.tiles
  room : ∀ position capacity, world.ledger.room.get? position = some capacity ↔
    (position, .container capacity) ∈ cells world.tiles
  opening : world.ledger.Opening

inductive World.Validated (codes : List (List String)) : Except MapError World → Prop
  | unknownTile {code row col} (first : FirstUnknown codes code row col) :
      Validated codes (.error (.unknownTile code row col))
  | noRows (none : codes = []) : Validated codes (.error .noRows)
  | emptyRow {tiles row} (reads : Reads codes tiles)
      (first : FirstFailing (Misfits (firstWidth tiles)) tiles row []) :
      Validated codes (.error (.emptyRow row))
  | raggedRow {tiles row line} (reads : Reads codes tiles)
      (first : FirstFailing (Misfits (firstWidth tiles)) tiles row line) (nonempty : line ≠ []) :
      Validated codes (.error (.raggedRow row))
  | noStart {tiles} (reads : Reads codes tiles) (rows : tiles ≠ [])
      (fits : ∀ line ∈ tiles, ¬Misfits (firstWidth tiles) line)
      (none : ∀ position heading, (position, .start heading) ∉ cells tiles) :
      Validated codes (.error .noStart)
  | accepted {world : World} (reads : Reads codes world.tiles) (rows : world.tiles ≠ [])
      (fits : ∀ line ∈ world.tiles, ¬Misfits (firstWidth world.tiles) line)
      (opened : world.Opened) : Validated codes (.ok world)

namespace World

variable {codes : List (List String)} {tiles : List (List Tile)} {fault : MapError}

theorem readRow_eq_error_iff {line : List String} (row col : Nat) :
    readRow row col line = .error fault ↔ ∃ index code,
      FirstFailing Tile.Unknown line index code ∧ fault = .unknownTile code row (col + index) := by
  induction line generalizing col with
  | nil => simp [readRow, not_firstFailing_nil]
  | cons code rest ih =>
      rw [readRow]
      split
      next unknown =>
        have failed : Tile.Unknown code := unknown
        rw [firstFailing_cons_of_fails failed, Except.error.injEq, eq_comm, Nat.add_zero]
      next tile known =>
        have passes : ¬Tile.Unknown code := by simp [Tile.Unknown, known]
        rw [firstFailing_cons_of_passes passes]
        simp only [← Nat.add_assoc, Nat.add_right_comm col _ 1, ← ih (col + 1)]
        cases readRow row (col + 1) rest <;> simp

def HasUnknown (line : List String) : Prop := ∃ code ∈ line, Tile.Unknown code

theorem hasUnknown_iff {line : List String} (row : Nat) :
    HasUnknown line ↔ ∃ fault, readRow row 0 line = .error fault := by
  rw [HasUnknown, ← exists_firstFailing_iff]
  simp only [readRow_eq_error_iff]
  constructor
  · rintro ⟨index, code, failing⟩
    exact ⟨_, index, code, failing, rfl⟩
  · rintro ⟨_, index, code, failing, -⟩
    exact ⟨index, code, failing⟩

theorem readRows_eq_error_iff (row : Nat) :
    readRows row codes = .error fault ↔ ∃ index line, FirstFailing HasUnknown codes index line ∧
      readRow (row + index) 0 line = .error fault := by
  induction codes generalizing row with
  | nil => simp [readRows, not_firstFailing_nil]
  | cons line rest ih =>
      rw [readRows]
      split
      next found failed =>
        have rowFails : HasUnknown line := (hasUnknown_iff row).2 ⟨found, failed⟩
        simp only [firstFailing_cons_of_fails rowFails, Nat.add_zero, failed, Except.error.injEq]
      next tiles read =>
        have rowPasses : ¬HasUnknown line := by simp [hasUnknown_iff row, read]
        rw [firstFailing_cons_of_passes rowPasses]
        simp only [← Nat.add_assoc, Nat.add_right_comm row _ 1, ← ih (row + 1)]
        cases readRows (row + 1) rest <;> simp

theorem firstUnknown_iff {code : String} {row col : Nat} :
    FirstUnknown codes code row col ↔ ∃ line,
      FirstFailing HasUnknown codes row line ∧ FirstFailing Tile.Unknown line col code := by
  constructor
  · rintro ⟨found, unknown, known⟩
    obtain ⟨line, foundLine, foundCode⟩ := mem_cells_cast_iff.1 found
    refine ⟨line, ⟨foundLine, ⟨code, List.mem_of_getElem? foundCode, unknown⟩, ?_⟩,
      foundCode, unknown, ?_⟩
    · rintro earlier other above foundOther ⟨otherCode, member, failed⟩
      obtain ⟨place, foundHere⟩ := List.getElem?_of_mem member
      have cell : (⟨earlier, place⟩, otherCode) ∈ cells codes :=
        mem_cells_cast_iff.2 ⟨other, foundOther, foundHere⟩
      exact known _ cell (.inl (Int.ofNat_lt.2 above)) failed
    · intro earlier other before foundOther
      have cell : (⟨row, earlier⟩, other) ∈ cells codes :=
        mem_cells_cast_iff.2 ⟨line, foundLine, foundOther⟩
      exact known _ cell (.inr ⟨rfl, Int.ofNat_lt.2 before⟩)
  · rintro ⟨line, rowFails, codeFails⟩
    refine ⟨mem_cells_cast_iff.2 ⟨line, rowFails.found, codeFails.found⟩, codeFails.failed, ?_⟩
    rintro ⟨position, other⟩ member precedes failed
    obtain ⟨otherRow, otherCol, rfl, otherLine, foundLine, foundOther⟩ := mem_cells_iff.1 member
    simp only [Position.Precedes, Int.ofNat_lt, Int.natCast_inj] at precedes
    rcases precedes with above | ⟨rfl, before⟩
    · exact rowFails.passed otherRow otherLine above foundLine
        ⟨other, List.mem_of_getElem? foundOther, failed⟩
    · obtain rfl := Option.some.inj (foundLine.symm.trans rowFails.found)
      exact codeFails.passed otherCol other before foundOther failed

theorem readRows_eq_error_iff_firstUnknown : readRows 0 codes = .error fault ↔
    ∃ code row col, FirstUnknown codes code row col ∧ fault = .unknownTile code row col := by
  simp only [readRows_eq_error_iff, readRow_eq_error_iff, firstUnknown_iff, Nat.zero_add]
  constructor
  · rintro ⟨row, line, rowFails, col, code, codeFails, rfl⟩
    exact ⟨code, row, col, ⟨line, rowFails, codeFails⟩, rfl⟩
  · rintro ⟨code, row, col, ⟨line, rowFails, codeFails⟩, rfl⟩
    exact ⟨row, line, rowFails, col, code, codeFails, rfl⟩

theorem rowFault?_eq_some_iff {width : Nat} (row : Nat) :
    rowFault? width row tiles = some fault ↔ ∃ index line,
      FirstFailing (Misfits width) tiles index line ∧ fault = formFault line (row + index) := by
  induction tiles generalizing row with
  | nil => simp [rowFault?, not_firstFailing_nil]
  | cons line rest ih =>
      rw [rowFault?]
      by_cases fits : Misfits width line
      · rw [firstFailing_cons_of_fails fits, Nat.add_zero, formFault, eq_comm (a := fault)]
        split
        next => simp
        next nonempty =>
          have uneven : line.length ≠ width := fits.resolve_left (by simpa using nonempty)
          simp [uneven]
      · obtain ⟨nonempty, even⟩ := not_or.1 fits
        rw [firstFailing_cons_of_passes fits]
        simp only [← Nat.add_assoc, Nat.add_right_comm row _ 1, ← ih (row + 1)]
        simp [nonempty, not_not.1 even]

theorem rowFault?_eq_none_iff {width : Nat} :
    rowFault? width 0 tiles = none ↔ ∀ line ∈ tiles, ¬Misfits width line := by
  have some : (∃ fault, rowFault? width 0 tiles = some fault) ↔
      ∃ line ∈ tiles, Misfits width line := by
    rw [← exists_firstFailing_iff]
    simp only [rowFault?_eq_some_iff]
    constructor
    · rintro ⟨_, row, line, failing, -⟩
      exact ⟨row, line, failing⟩
    · rintro ⟨row, line, failing⟩
      exact ⟨_, row, line, failing, rfl⟩
  rw [← Option.not_isSome_iff_eq_none, Option.isSome_iff_exists, some]
  simp only [not_exists, not_and]

end World

theorem startPose?_concat (cells : List (Position × Tile)) (cell : Position × Tile) :
    startPose? (cells ++ [cell]) = match cell.2 with
      | .start heading => some ⟨cell.1, heading⟩
      | _ => startPose? cells := by
  obtain ⟨place, tile⟩ := cell
  cases tile <;> simp [startPose?]

theorem startPose?_eq_none_iff {cells : List (Position × Tile)} :
    startPose? cells = none ↔ ∀ position heading, (position, .start heading) ∉ cells := by
  induction cells using List.reverseRecOn with
  | nil => simp [startPose?]
  | append_singleton cells cell ih =>
      obtain ⟨place, tile⟩ := cell
      rw [startPose?_concat]
      cases tile with
      | start heading =>
          refine iff_of_false (by simp) fun none => none place heading ?_
          exact List.mem_append_right _ (List.mem_singleton.2 rfl)
      | _ => simp [ih]

theorem start_before {cells : List (Position × Tile)} {pose : Pose}
    (ordered : cells.Pairwise fun earlier later => earlier.1.Precedes later.1)
    (started : startPose? cells = some pose) (position : Position) (heading : Heading)
    (member : (position, .start heading) ∈ cells) :
    position = pose.position ∨ position.Precedes pose.position := by
  induction cells using List.reverseRecOn with
  | nil => exact absurd member List.not_mem_nil
  | append_singleton cells cell ih =>
      obtain ⟨front, -, behind⟩ := List.pairwise_append.1 ordered
      rw [startPose?_concat] at started
      split at started
      next last isStart =>
        obtain rfl := Option.some.inj started
        rcases List.mem_append.1 member with inFront | isLast
        · exact .inr (behind _ inFront cell (List.mem_singleton.2 rfl))
        · rw [List.mem_singleton] at isLast
          exact .inl (congrArg Prod.fst isLast)
      next isOther =>
        refine ih front started ?_
        rcases List.mem_append.1 member with inFront | isLast
        · exact inFront
        · rw [List.mem_singleton] at isLast
          exact absurd (congrArg Prod.snd isLast).symm (isOther heading)

theorem LastStart.unique {tiles : List (List Tile)} {pose other : Pose}
    (last : LastStart tiles pose) (otherLast : LastStart tiles other) : pose = other := by
  have samePlace : pose.position = other.position := by
    rcases otherLast.last _ _ last.found with same | before
    · exact same
    · rcases last.last _ _ otherLast.found with same | after
      · exact same.symm
      · exact absurd after before.asymm
  have found := otherLast.found
  rw [← samePlace] at found
  have sameHeading : pose.heading = other.heading := by
    simpa using cell_unique last.found found
  obtain ⟨position, heading⟩ := pose
  exact congrArg₂ Pose.mk samePlace sameHeading

theorem startPose?_eq_some_iff {tiles : List (List Tile)} {pose : Pose} :
    startPose? (cells tiles) = some pose ↔ LastStart tiles pose := by
  have shows : ∀ pose, startPose? (cells tiles) = some pose → LastStart tiles pose :=
    fun pose started => ⟨mem_of_startPose? started, start_before (cells_inOrder tiles) started⟩
  constructor
  · exact shows pose
  · intro last
    cases started : startPose? (cells tiles) with
    | none => exact absurd last.found (startPose?_eq_none_iff.1 started _ _)
    | some other => rw [(shows other started).unique last]

def Tile.pile? : Tile → Option UInt32
  | .collectible count => some count
  | _ => none

def Tile.room? : Tile → Option UInt32
  | .container capacity => some capacity
  | _ => none

namespace Ledger

variable {position : Position} {count : UInt32}

def counts (count? : Tile → Option UInt32) (cells : List (Position × Tile)) :
    List (Position × UInt32) :=
  cells.filterMap fun cell => (count? cell.2).map fun count => (cell.1, count)

theorem ofCells_maps (cells : List (Position × Tile)) :
    (ofCells cells).items = .ofList (counts Tile.pile? cells) ∧
      (ofCells cells).room = .ofList (counts Tile.room? cells) := by
  induction cells using List.reverseRecOn with
  | nil => exact ⟨rfl, rfl⟩
  | append_singleton cells cell ih =>
      obtain ⟨items, room⟩ := ih
      obtain ⟨place, tile⟩ := cell
      have added : ofCells (cells ++ [(place, tile)]) = (ofCells cells).addCell (place, tile) := by
        simp [ofCells]
      rw [added]
      cases tile <;>
        simp [addCell, counts, Tile.pile?, Tile.room?, SortedMap.ofList, items, room]

theorem get?_counts {count? : Tile → Option UInt32} {tiles : List (List Tile)} :
    (SortedMap.ofList (counts count? (cells tiles))).get? position = some count ↔
      ∃ tile, (position, tile) ∈ cells tiles ∧ count? tile = some count := by
  have distinct : ((counts count? (cells tiles)).map (·.1)).Nodup := by
    have positions := List.pairwise_map.1 (nodup_cell_positions tiles)
    refine List.pairwise_map.2 (positions.filterMap _ ?_)
    intro cell other different entry kept otherEntry otherKept
    obtain ⟨_, -, rfl⟩ := Option.map_eq_some_iff.1 kept
    obtain ⟨_, -, rfl⟩ := Option.map_eq_some_iff.1 otherKept
    exact different
  rw [SortedMap.get?_ofList distinct]
  simp only [counts, List.mem_filterMap, Option.map_eq_some_iff, Prod.mk.injEq, Prod.exists]
  constructor
  · rintro ⟨place, tile, member, _, counted, rfl, rfl⟩
    exact ⟨tile, member, counted⟩
  · rintro ⟨tile, member, counted⟩
    exact ⟨position, tile, member, count, counted, rfl, rfl⟩

theorem pile?_eq_some_iff {tile : Tile} : tile.pile? = some count ↔ tile = .collectible count := by
  cases tile <;> simp [Tile.pile?]

theorem room?_eq_some_iff {tile : Tile} : tile.room? = some count ↔ tile = .container count := by
  cases tile <;> simp [Tile.room?]

theorem ofCells_items_iff {tiles : List (List Tile)} :
    (ofCells (cells tiles)).items.get? position = some count ↔
      (position, .collectible count) ∈ cells tiles := by
  rw [(ofCells_maps _).1, get?_counts]
  simp only [pile?_eq_some_iff, exists_eq_right]

theorem ofCells_room_iff {tiles : List (List Tile)} :
    (ofCells (cells tiles)).room.get? position = some count ↔
      (position, .container count) ∈ cells tiles := by
  rw [(ofCells_maps _).2, get?_counts]
  simp only [room?_eq_some_iff, exists_eq_right]

theorem tally_insert_le (map : SortedMap Position UInt32) (cell : Position) (count : UInt32) :
    tally (map.insert cell count) ≤ tally map + count.toNat := by
  have stored := map.sum_values_insert UInt32.toNat cell count
  simp only [tally]
  omega

theorem tally_ofCells_le {most : Nat} {cells : List (Position × Tile)}
    (small : ∀ cell ∈ cells, ∀ count,
      cell.2 = .collectible count ∨ cell.2 = .container count → count.toNat ≤ most) :
    tally (ofCells cells).items ≤ most * cells.length ∧
      tally (ofCells cells).room ≤ most * cells.length := by
  induction cells using List.reverseRecOn with
  | nil => exact ⟨Nat.zero_le _, Nat.zero_le _⟩
  | append_singleton cells cell ih =>
      obtain ⟨items, room⟩ := ih fun other member => small other (List.mem_append_left _ member)
      have last := small cell (List.mem_append_right _ (List.mem_singleton_self cell))
      obtain ⟨place, tile⟩ := cell
      have added : ofCells (cells ++ [(place, tile)]) = (ofCells cells).addCell (place, tile) := by
        simp [ofCells]
      rw [added, List.length_append, List.length_singleton, Nat.mul_succ]
      cases tile with
      | collectible count =>
          have bound := last count (.inl rfl)
          have grown := tally_insert_le (ofCells cells).items place count
          exact ⟨by simp only [addCell]; omega, by simp only [addCell]; omega⟩
      | container capacity =>
          have bound := last capacity (.inr rfl)
          have grown := tally_insert_le (ofCells cells).room place capacity
          exact ⟨by simp only [addCell]; omega, by simp only [addCell]; omega⟩
      | _ => exact ⟨by simp only [addCell]; omega, by simp only [addCell]; omega⟩

theorem Opening.unique {ledger other : Ledger} (opening : ledger.Opening)
    (otherOpening : other.Opening)
    (items : ∀ position, ledger.items.get? position = other.items.get? position)
    (room : ∀ position, ledger.room.get? position = other.room.get? position) :
    ledger = other := by
  have sameItems := SortedMap.ext_get? items
  have sameRoom := SortedMap.ext_get? room
  have totalItems := opening.items.trans (sameItems ▸ otherOpening.items.symm)
  have totalCapacity := opening.room.trans (sameRoom ▸ otherOpening.room.symm)
  have carried := opening.carried.trans otherOpening.carried.symm
  have putDown := opening.putDown.trans otherOpening.putDown.symm
  cases ledger
  cases other
  simp_all

end Ledger

namespace World

theorem opened_iff {world : World} : world.Opened ↔
    startPose? (cells world.tiles) = some world.robot ∧
      world.ledger = Ledger.ofCells (cells world.tiles) := by
  constructor
  · rintro ⟨robot, items, room, opening⟩
    refine ⟨startPose?_eq_some_iff.2 robot, opening.unique (Ledger.ofCells_opening _) ?_ ?_⟩
    · intro position
      exact Option.ext fun count => (items position count).trans Ledger.ofCells_items_iff.symm
    · intro position
      exact Option.ext fun count => (room position count).trans Ledger.ofCells_room_iff.symm
  · rintro ⟨started, booked⟩
    refine ⟨startPose?_eq_some_iff.1 started, ?_, ?_, ?_⟩
    · rw [booked]
      exact fun _ _ => Ledger.ofCells_items_iff
    · rw [booked]
      exact fun _ _ => Ledger.ofCells_room_iff
    · rw [booked]
      exact Ledger.ofCells_opening _

variable {codes : List (List String)} {tiles : List (List Tile)} {fault : MapError}

/-- The totals of a map of codes are the sums themselves unless it has 715827883 cells or more. -/
theorem toNat_totals_of_ofCodes {world : World} (accepted : ofCodes codes = .ok world)
    (few : 6 * (cells world.tiles).length < UInt32.size) :
    world.ledger.totalItems.toNat = Ledger.tally world.ledger.items ∧
      world.ledger.totalCapacity.toNat = Ledger.tally world.ledger.room := by
  obtain ⟨built, reads⟩ := ofCodes_eq_ok_iff.1 accepted
  have opening := ofTiles_opening built
  have small : Ledger.tally world.ledger.items ≤ 6 * (cells world.tiles).length ∧
      Ledger.tally world.ledger.room ≤ 6 * (cells world.tiles).length := by
    rw [(ofTiles_eq_ok built).2.2]
    refine Ledger.tally_ofCells_le fun cell member count => ?_
    obtain ⟨row, col, -, line, foundLine, foundTile⟩ := mem_cells_iff.1 member
    exact reads.count_le (List.mem_of_getElem? foundLine) (List.mem_of_getElem? foundTile)
  exact ⟨opening.toNat_totalItems (by omega), opening.toNat_totalCapacity (by omega)⟩

theorem ofTiles_of_rows (rows : tiles ≠ []) : ofTiles tiles =
    match rowFault? (firstWidth tiles) 0 tiles with
    | some fault => .error fault
    | none =>
      match startPose? (cells tiles) with
      | none => .error .noStart
      | some robot => .ok ⟨tiles, robot, Ledger.ofCells (cells tiles)⟩ := by
  cases tiles with
  | nil => contradiction
  | cons first rest => rfl

theorem validated_ofCodes (codes : List (List String)) : Validated codes (ofCodes codes) := by
  rw [ofCodes]
  split
  next fault failed =>
    obtain ⟨code, row, col, first, rfl⟩ := readRows_eq_error_iff_firstUnknown.1 failed
    exact .unknownTile first
  next tiles read =>
    have reads := (readRows_eq_ok_iff 0).1 read
    by_cases rows : tiles = []
    · subst rows
      have none : codes = [] := List.forall₂_nil_right_iff.1 reads
      exact .noRows none
    rw [ofTiles_of_rows rows]
    split
    next fault found =>
      obtain ⟨row, line, first, rfl⟩ := (rowFault?_eq_some_iff 0).1 found
      rw [Nat.zero_add, formFault]
      split
      next empty =>
        obtain rfl := List.isEmpty_iff.1 empty
        exact .emptyRow reads first
      next nonempty => exact .raggedRow reads first (by simpa using nonempty)
    next fits =>
      rw [rowFault?_eq_none_iff] at fits
      split
      next none => exact .noStart reads rows fits (startPose?_eq_none_iff.1 none)
      next robot started =>
        have opened : Opened ⟨tiles, robot, Ledger.ofCells (cells tiles)⟩ :=
          opened_iff.2 ⟨started, rfl⟩
        exact .accepted reads rows fits opened

theorem ofCodes_of_reads (reads : Reads codes tiles) : ofCodes codes = ofTiles tiles := by
  rw [ofCodes, (readRows_eq_ok_iff 0).2 reads]

theorem ofTiles_of_misfit {row : Nat} {line : List Tile}
    (first : FirstFailing (Misfits (firstWidth tiles)) tiles row line) :
    ofTiles tiles = .error (formFault line row) := by
  have rows : tiles ≠ [] := by
    rintro rfl
    exact not_firstFailing_nil first
  have found := (rowFault?_eq_some_iff 0).2 ⟨row, line, first, rfl⟩
  rw [ofTiles_of_rows rows, found, Nat.zero_add]

/-- Every map, of whatever shape, comes to exactly what it shows: the first of its faults, or else
its world. -/
theorem ofCodes_eq_iff_validated (codes : List (List String)) (outcome : Except MapError World) :
    ofCodes codes = outcome ↔ Validated codes outcome := by
  constructor
  · rintro rfl
    exact validated_ofCodes codes
  · intro validated
    cases validated with
    | unknownTile first =>
        have failed := readRows_eq_error_iff_firstUnknown.2 ⟨_, _, _, first, rfl⟩
        rw [ofCodes, failed]
    | noRows none =>
        subst none
        rfl
    | emptyRow reads first =>
        rw [ofCodes_of_reads reads, ofTiles_of_misfit first, formFault]
        rfl
    | raggedRow reads first nonempty =>
        have shape := List.isEmpty_eq_false_iff.2 nonempty
        rw [ofCodes_of_reads reads, ofTiles_of_misfit first, formFault, shape]
        rfl
    | noStart reads rows fits none =>
        rw [ofCodes_of_reads reads, ofTiles_of_rows rows, rowFault?_eq_none_iff.2 fits,
          startPose?_eq_none_iff.2 none]
    | accepted reads rows fits opened =>
        obtain ⟨started, booked⟩ := opened_iff.1 opened
        rw [ofCodes_of_reads reads, ofTiles_of_rows rows, rowFault?_eq_none_iff.2 fits, started,
          ← booked]

/-- The unknown code counts, though the rows differ in length. -/
example : ofCodes [["1", "2"], ["x"]] = .error (.unknownTile "x" 1 0) := by rfl

end World

end RobotPuzzle
