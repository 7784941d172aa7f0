import Mathlib.Data.List.Induction
import Mathlib.Data.List.Sigma
import RobotPuzzle.Proofs.SortedMap
import RobotPuzzle.Proofs.World.Grid
import RobotPuzzle.World.Rules

/-!
Items and container room are conserved by every sequence of calls, failed ones included, and the
log agrees with the ledger.
-/

namespace RobotPuzzle

def deedCount (deed : Deed) (log : Log) : Nat := log.countP fun entry => entry.deed == deed

@[simp] theorem deedCount_empty (deed : Deed) : deedCount deed #[] = 0 := rfl

@[simp] theorem deedCount_push (deed : Deed) (log : Log) (entry : LogEntry) :
    deedCount deed (log.push entry) = deedCount deed log + if entry.deed = deed then 1 else 0 := by
  simp [deedCount, Array.countP_push]

namespace World

def perform (state : World × Log) (call : Action × String) : World × Log :=
  let effect := act call.1 call.2 state.1 state.2
  (effect.world, effect.log)

def performAll (world : World) (calls : List (Action × String)) : World × Log :=
  calls.foldl perform (world, #[])

end World

namespace Ledger

end Ledger

namespace World

@[simp] theorem setTile_ledger (world : World) (position : Position) (tile : Tile) :
    (world.setTile position tile).ledger = world.ledger := by
  simp only [setTile]
  split <;> rfl

theorem applyMove_books_nothing (move : Move) (block : String) (world : World) (log : Log) :
    (world.applyMove move block log).world.ledger = world.ledger ∧
      deedCount .pick (world.applyMove move block log).log = deedCount .pick log ∧
      deedCount .putDown (world.applyMove move block log).log = deedCount .putDown log := by
  simp only [applyMove]
  split
  · simp
  · split <;> simp

end World

namespace Ledger

/-- The sum of the counts of all cells, however large. -/
def tally (counts : SortedMap Position UInt32) : Nat := (counts.values.map UInt32.toNat).sum

/-- No item and no room is lost: every pick takes one item off its pile and every deposit one piece
of room. What the ledger counts are the last 32 bits of how often that was done. -/
structure Tallied (start ledger : Ledger) (log : Log) : Prop where
  itemsLogged : tally ledger.items + deedCount .pick log = tally start.items
  roomLogged : tally ledger.room + deedCount .putDown log = tally start.room
  pickedFirst : deedCount .putDown log ≤ deedCount .pick log
  handsLogged : ledger.carried = .ofNat (deedCount .pick log - deedCount .putDown log)
  deposits : ledger.putDown = .ofNat (deedCount .putDown log)
  totalItems : ledger.totalItems = start.totalItems
  totalCapacity : ledger.totalCapacity = start.totalCapacity
  itemCells : ledger.items.keys = start.items.keys
  roomCells : ledger.room.keys = start.room.keys
  itemsBelow : ∀ cell left, ledger.items.get? cell = some left →
    ∃ most, start.items.get? cell = some most ∧ left ≤ most
  roomBelow : ∀ cell left, ledger.room.get? cell = some left →
    ∃ most, start.room.get? cell = some most ∧ left ≤ most

section

variable {map : SortedMap Position UInt32} {place : Position} {left : UInt32}

theorem toNat_sub_one (nonzero : left ≠ 0) : (left - 1).toNat + 1 = left.toNat := by
  have positive : left.toNat ≠ 0 := fun zero => nonzero (UInt32.toNat_inj.1 zero)
  have isOne : (1 : UInt32).toNat = 1 := rfl
  have least : (1 : UInt32) ≤ left := UInt32.le_iff_toNat_le.2 (by omega)
  rw [UInt32.toNat_sub_of_le left 1 least]
  omega

theorem lowered_get? (found : map.get? place = some left) (nonzero : left ≠ 0) (cell : Position) :
    (map.insert place (left - 1)).get? cell = map.get? cell ∨
      ∃ rest, map.get? cell = some rest ∧ rest ≠ 0 ∧
        (map.insert place (left - 1)).get? cell = some (rest - 1) := by
  by_cases here : cell = place
  · subst here
    exact .inr ⟨left, found, nonzero, by simp⟩
  · exact .inl (SortedMap.get?_insert_of_ne here)

theorem tally_lowered (found : map.get? place = some left) (nonzero : left ≠ 0) :
    tally (map.insert place (left - 1)) + 1 = tally map := by
  have stored := map.sum_values_insert UInt32.toNat place (left - 1)
  rw [found, Option.map_some, Option.getD_some] at stored
  have lowered := toNat_sub_one nonzero
  simp only [tally]
  omega

theorem lowered_below {start : SortedMap Position UInt32}
    (below : ∀ cell count, map.get? cell = some count →
      ∃ most, start.get? cell = some most ∧ count ≤ most)
    (found : map.get? place = some left) (nonzero : left ≠ 0) (cell : Position) (count : UInt32)
    (stored : (map.insert place (left - 1)).get? cell = some count) :
    ∃ most, start.get? cell = some most ∧ count ≤ most := by
  rcases lowered_get? found nonzero cell with same | ⟨rest, before, positive, after⟩
  · exact below cell count (same ▸ stored)
  · obtain ⟨most, started, bound⟩ := below cell rest before
    obtain rfl : rest - 1 = count := by simpa [after] using stored
    have lowered := toNat_sub_one positive
    rw [UInt32.le_iff_toNat_le] at bound
    exact ⟨most, started, UInt32.le_iff_toNat_le.2 (by omega)⟩

end

section

variable {start ledger : Ledger} {log next : Log} {place : Position} {left : UInt32}

theorem Tallied.pick (tallied : Tallied start ledger log)
    (found : ledger.items.get? place = some left) (nonzero : left ≠ 0)
    (picked : deedCount .pick next = deedCount .pick log + 1)
    (deposited : deedCount .putDown next = deedCount .putDown log) :
    Tallied start
      { ledger with
        items := ledger.items.insert place (left - 1), carried := ledger.carried + 1 } next := by
  have items := tallied.itemsLogged
  have room := tallied.roomLogged
  have ordered := tallied.pickedFirst
  have lowered := tally_lowered found nonzero
  exact
    { tallied with
      itemsLogged := by simp only; omega
      roomLogged := by simp only; omega
      pickedFirst := by omega
      handsLogged := by
        simp only
        rw [picked, deposited, Nat.sub_add_comm ordered, UInt32.ofNat_add, ← tallied.handsLogged]
        rfl
      deposits := by
        simp only
        rw [deposited, tallied.deposits]
      itemCells := (SortedMap.keys_insert_of_get?_eq_some _ found).trans tallied.itemCells
      itemsBelow := lowered_below tallied.itemsBelow found nonzero }

theorem Tallied.putDown (tallied : Tallied start ledger log)
    (found : ledger.room.get? place = some left) (nonzero : left ≠ 0)
    (carries : ledger.carried ≠ 0)
    (picked : deedCount .pick next = deedCount .pick log)
    (deposited : deedCount .putDown next = deedCount .putDown log + 1) :
    Tallied start
      { ledger with
        room := ledger.room.insert place (left - 1)
        carried := ledger.carried - 1
        putDown := ledger.putDown + 1 } next := by
  have items := tallied.itemsLogged
  have room := tallied.roomLogged
  have lowered := tally_lowered found nonzero
  -- More was picked than put down, for the counter in the robot's hands is not zero.
  have more : 1 ≤ deedCount .pick log - deedCount .putDown log := by
    refine Nat.one_le_iff_ne_zero.2 fun none => carries ?_
    rw [tallied.handsLogged, none]
    rfl
  exact
    { tallied with
      itemsLogged := by simp only; omega
      roomLogged := by simp only; omega
      pickedFirst := by omega
      handsLogged := by
        simp only
        rw [picked, deposited, ← Nat.sub_sub, UInt32.ofNat_sub more, ← tallied.handsLogged]
        rfl
      deposits := by
        simp only
        rw [deposited, UInt32.ofNat_add, ← tallied.deposits]
        rfl
      roomCells := (SortedMap.keys_insert_of_get?_eq_some _ found).trans tallied.roomCells
      roomBelow := lowered_below tallied.roomBelow found nonzero }

end

end Ledger

/-! The ledger of a map, built by one look at every cell. -/

namespace Ledger

/-- Nothing has been carried off yet, and the totals are the sums over the cells in 32 bits. -/
structure Opening (ledger : Ledger) : Prop where
  items : ledger.totalItems = .ofNat (tally ledger.items)
  room : ledger.totalCapacity = .ofNat (tally ledger.room)
  carried : ledger.carried = 0
  putDown : ledger.putDown = 0

theorem tally_insert_fresh {map : SortedMap Position UInt32} {cell : Position}
    (fresh : map.get? cell = none) (count : UInt32) :
    .ofNat (tally (map.insert cell count)) = .ofNat (tally map) + count := by
  have stored := map.sum_values_insert UInt32.toNat cell count
  rw [fresh, Option.map_none, Option.getD_none, Nat.add_zero] at stored
  rw [tally, stored, UInt32.ofNat_add, UInt32.ofNat_toNat, tally]

theorem addCell_get?_of_ne (ledger : Ledger) {cell : Position × Tile} {position : Position}
    (different : position ≠ cell.1) :
    (ledger.addCell cell).items.get? position = ledger.items.get? position ∧
      (ledger.addCell cell).room.get? position = ledger.room.get? position := by
  simp only [addCell]
  split <;> simp [SortedMap.get?_insert_of_ne different]

theorem Opening.addCell {ledger : Ledger} (opening : ledger.Opening) {cell : Position × Tile}
    (noItems : ledger.items.get? cell.1 = none) (noRoom : ledger.room.get? cell.1 = none) :
    (ledger.addCell cell).Opening := by
  simp only [Ledger.addCell]
  split
  next count _ =>
    have items : ledger.totalItems + count = .ofNat (tally (ledger.items.insert cell.1 count)) := by
      rw [tally_insert_fresh noItems, opening.items]
    exact { opening with items }
  next capacity _ =>
    have room : ledger.totalCapacity + capacity =
        .ofNat (tally (ledger.room.insert cell.1 capacity)) := by
      rw [tally_insert_fresh noRoom, opening.room]
    exact { opening with room }
  next => exact opening

theorem Opening.foldl_addCell {ledger : Ledger} (opening : ledger.Opening)
    {tiles : List (Position × Tile)} (distinct : (tiles.map (·.1)).Nodup)
    (fresh : ∀ cell ∈ tiles,
      ledger.items.get? cell.1 = none ∧ ledger.room.get? cell.1 = none) :
    (tiles.foldl Ledger.addCell ledger).Opening := by
  induction tiles generalizing ledger with
  | nil => exact opening
  | cons first rest ih =>
      rw [List.map_cons, List.nodup_cons] at distinct
      obtain ⟨noItems, noRoom⟩ := fresh first (by simp)
      refine ih (opening.addCell noItems noRoom) distinct.2 ?_
      intro cell member
      have different : cell.1 ≠ first.1 := fun same =>
        distinct.1 (List.mem_map.2 ⟨cell, member, same⟩)
      obtain ⟨sameItems, sameRoom⟩ := ledger.addCell_get?_of_ne different
      rw [sameItems, sameRoom]
      exact fresh cell (by simp [member])

theorem ofCells_opening (rows : List (List Tile)) : (Ledger.ofCells (cells rows)).Opening := by
  have empty : (⟨0, 0, 0, 0, ∅, ∅⟩ : Ledger).Opening := ⟨rfl, rfl, rfl, rfl⟩
  exact empty.foldl_addCell (nodup_cell_positions rows) fun _ _ => ⟨rfl, rfl⟩

example : (Ledger.ofCells
    (cells [[.start .right, .collectible 4294967295, .collectible 1]])).totalItems = 0 := by decide

theorem Opening.tallied {ledger : Ledger} (opening : ledger.Opening) :
    Tallied ledger ledger #[] where
  itemsLogged := rfl
  roomLogged := rfl
  pickedFirst := Nat.le_refl _
  handsLogged := opening.carried
  deposits := opening.putDown
  totalItems := rfl
  totalCapacity := rfl
  itemCells := rfl
  roomCells := rfl
  itemsBelow := fun _ left found => ⟨left, found, UInt32.le_refl left⟩
  roomBelow := fun _ left found => ⟨left, found, UInt32.le_refl left⟩

section

variable {start ledger : Ledger} {log : Log}

theorem Opening.toNat_totalItems (opening : start.Opening)
    (fits : tally start.items < UInt32.size) : start.totalItems.toNat = tally start.items := by
  rw [opening.items, UInt32.toNat_ofNat_of_lt' fits]

theorem Opening.toNat_totalCapacity (opening : start.Opening)
    (fits : tally start.room < UInt32.size) : start.totalCapacity.toNat = tally start.room := by
  rw [opening.room, UInt32.toNat_ofNat_of_lt' fits]

end

end Ledger

namespace World

theorem ofTiles_eq_ok {tiles : List (List Tile)} {world : World}
    (accepted : ofTiles tiles = .ok world) :
    world.tiles = tiles ∧ startPose? (cells tiles) = some world.robot ∧
      world.ledger = Ledger.ofCells (cells tiles) := by
  cases tiles with
  | nil => simp [ofTiles] at accepted
  | cons first rest =>
      simp only [ofTiles] at accepted
      split at accepted
      next => cases accepted
      next =>
        split at accepted
        next => cases accepted
        next robot started =>
          cases accepted
          exact ⟨rfl, started, rfl⟩

theorem ofTiles_opening {tiles : List (List Tile)} {world : World}
    (accepted : ofTiles tiles = .ok world) : world.ledger.Opening := by
  rw [(ofTiles_eq_ok accepted).2.2]
  exact Ledger.ofCells_opening tiles

end World

end RobotPuzzle
