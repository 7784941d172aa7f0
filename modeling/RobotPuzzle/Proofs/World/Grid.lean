import Mathlib.Data.List.Induction
import RobotPuzzle.World.Basic

/-! The cells of a map and the tiles found at them, before and after one tile is replaced. -/

namespace RobotPuzzle

theorem mem_cells_iff {α : Type} {rows : List (List α)} {position : Position} {cell : α} :
    (position, cell) ∈ cells rows ↔ ∃ row col : Nat, position = ⟨row, col⟩ ∧
      ∃ tiles, rows[row]? = some tiles ∧ tiles[col]? = some cell := by
  simp only [cells, List.mem_flatMap, List.mem_map, Prod.exists, List.mem_zipIdx_iff_getElem?,
    Prod.mk.injEq]
  constructor
  · rintro ⟨tiles, row, found, other, col, foundCell, rfl, rfl⟩
    exact ⟨row, col, rfl, tiles, found, foundCell⟩
  · rintro ⟨row, col, rfl, tiles, found, foundCell⟩
    exact ⟨tiles, row, found, cell, col, foundCell, rfl, rfl⟩

theorem mem_cells_cast_iff {α : Type} {rows : List (List α)} {row col : Nat} {cell : α} :
    (⟨row, col⟩, cell) ∈ cells rows ↔
      ∃ tiles, rows[row]? = some tiles ∧ tiles[col]? = some cell := by
  rw [mem_cells_iff]
  constructor
  · rintro ⟨otherRow, otherCol, same, tiles, foundTiles, foundCell⟩
    simp only [Position.mk.injEq, Int.natCast_inj] at same
    obtain ⟨rfl, rfl⟩ := same
    exact ⟨tiles, foundTiles, foundCell⟩
  · rintro ⟨tiles, foundTiles, foundCell⟩
    exact ⟨row, col, rfl, tiles, foundTiles, foundCell⟩

theorem cell_unique {α : Type} {rows : List (List α)} {position : Position} {cell other : α}
    (member : (position, cell) ∈ cells rows) (otherMember : (position, other) ∈ cells rows) :
    cell = other := by
  obtain ⟨row, col, rfl, line, foundLine, foundCell⟩ := mem_cells_iff.1 member
  obtain ⟨otherLine, foundOtherLine, foundOther⟩ := mem_cells_cast_iff.1 otherMember
  obtain rfl := Option.some.inj (foundLine.symm.trans foundOtherLine)
  exact Option.some.inj (foundCell.symm.trans foundOther)

def Position.Precedes (first second : Position) : Prop :=
  first.row < second.row ∨ first.row = second.row ∧ first.col < second.col

theorem Position.Precedes.asymm {first second : Position} (before : first.Precedes second) :
    ¬second.Precedes first := by
  simp only [Precedes] at before ⊢
  omega

theorem cells_inOrder {α : Type} (rows : List (List α)) :
    (cells rows).Pairwise fun earlier later => earlier.1.Precedes later.1 := by
  have counted : ∀ {β : Type} (items : List β),
      items.zipIdx.Pairwise fun earlier later => earlier.2 < later.2 := by
    intro β items
    have indices := List.zipIdx_map_snd 0 items
    rw [← List.pairwise_map, indices]
    exact List.pairwise_lt_range'
  rw [cells, List.pairwise_flatMap]
  constructor
  · rintro ⟨line, row⟩ -
    refine List.pairwise_map.2 ((counted line).imp ?_)
    intro earlier later before
    exact .inr ⟨rfl, Int.ofNat_lt.2 before⟩
  · refine (counted rows).imp ?_
    intro earlier later before cell inEarlier other inLater
    obtain ⟨_, -, rfl⟩ := List.mem_map.1 inEarlier
    obtain ⟨_, -, rfl⟩ := List.mem_map.1 inLater
    exact .inl (Int.ofNat_lt.2 before)

theorem nodup_cell_positions {α : Type} (rows : List (List α)) :
    ((cells rows).map (·.1)).Nodup := by
  refine List.pairwise_map.2 ((cells_inOrder rows).imp ?_)
  intro earlier later before same
  rw [same] at before
  exact before.asymm before

theorem mem_of_startPose? {tiles : List (Position × Tile)} {pose : Pose}
    (started : startPose? tiles = some pose) : (pose.position, .start pose.heading) ∈ tiles := by
  induction tiles using List.reverseRecOn with
  | nil => simp [startPose?] at started
  | append_singleton tiles cell ih =>
      rw [List.mem_append, List.mem_singleton]
      simp only [startPose?, List.foldl_append, List.foldl_cons, List.foldl_nil] at started ih
      split at started
      next heading isStart =>
        cases started
        exact .inr (Prod.ext rfl isStart.symm)
      next => exact .inl (ih started)

theorem Position.cast_or_outside (position : Position) :
    (∃ row col : Nat, position = ⟨row, col⟩) ∨ position.row < 0 ∨ position.col < 0 := by
  by_cases outside : position.row < 0 ∨ position.col < 0
  · exact .inr outside
  · left
    rw [not_or, Int.not_lt, Int.not_lt] at outside
    refine ⟨position.row.toNat, position.col.toNat, ?_⟩
    rw [Int.toNat_of_nonneg outside.1, Int.toNat_of_nonneg outside.2]

namespace World

variable {world : World} {position : Position} {tile : Tile}

theorem tileAt?_cast (world : World) (row col : Nat) :
    world.tileAt? ⟨row, col⟩ = world.tiles[row]?.bind fun tiles => tiles[col]? := by
  have inside : ¬((row : Int) < 0 ∨ (col : Int) < 0) := by omega
  simp only [tileAt?, inside, ↓reduceIte, Int.toNat_natCast]
  cases world.tiles[row]? <;> rfl

theorem tileAt?_of_outside (outside : position.row < 0 ∨ position.col < 0) :
    world.tileAt? position = none := by
  simp [tileAt?, outside]

theorem tileAt?_eq_some_iff :
    world.tileAt? position = some tile ↔ (position, tile) ∈ cells world.tiles := by
  rw [mem_cells_iff]
  constructor
  · intro found
    rcases position.cast_or_outside with ⟨row, col, rfl⟩ | outside
    · rw [tileAt?_cast, Option.bind_eq_some_iff] at found
      obtain ⟨tiles, foundTiles, foundTile⟩ := found
      exact ⟨row, col, rfl, tiles, foundTiles, foundTile⟩
    · rw [tileAt?_of_outside outside] at found
      contradiction
  · rintro ⟨row, col, rfl, tiles, foundTiles, foundTile⟩
    rw [tileAt?_cast, foundTiles, Option.bind_some, foundTile]

theorem waypointsCleared_iff : world.waypointsCleared = true ↔
    ∀ position, world.tileAt? position ≠ some .waypoint := by
  simp only [waypointsCleared, List.all_eq_true, bne_iff_ne]
  constructor
  · intro cleared position found
    rw [tileAt?_eq_some_iff, mem_cells_iff] at found
    obtain ⟨row, col, rfl, tiles, foundTiles, foundTile⟩ := found
    exact cleared tiles (List.mem_of_getElem? foundTiles) _ (List.mem_of_getElem? foundTile) rfl
  · rintro cleared tiles inMap tile inLine rfl
    obtain ⟨row, foundTiles⟩ := List.getElem?_of_mem inMap
    obtain ⟨col, foundTile⟩ := List.getElem?_of_mem inLine
    refine cleared ⟨row, col⟩ ?_
    rw [tileAt?_cast, foundTiles, Option.bind_some, foundTile]

theorem tileAt?_setTile (world : World) (place : Position) (new : Tile) (position : Position) :
    (world.setTile place new).tileAt? position =
      (world.tileAt? position).map fun tile => if position = place then new else tile := by
  rcases position.cast_or_outside with ⟨row, col, rfl⟩ | outside
  · rcases place.cast_or_outside with ⟨placeRow, placeCol, rfl⟩ | outsidePlace
    · have inside : ¬((placeRow : Int) < 0 ∨ (placeCol : Int) < 0) := by omega
      have same : (⟨row, col⟩ : Position) = ⟨placeRow, placeCol⟩ ↔
          placeRow = row ∧ placeCol = col := by
        simp only [Position.mk.injEq]
        omega
      simp only [tileAt?_cast, setTile, inside, ↓reduceIte, Int.toNat_natCast, same,
        List.getElem?_modify]
      cases world.tiles[row]? with
      | none => rfl
      | some tiles =>
          by_cases sameRow : placeRow = row
          · by_cases sameCol : placeCol = col
            · by_cases bound : col < tiles.length <;> simp [sameRow, sameCol, bound]
            · simp [sameRow, sameCol]
          · simp [sameRow]
    · have different : (⟨row, col⟩ : Position) ≠ place := by
        rintro rfl
        simp only at outsidePlace
        omega
      simp [setTile, outsidePlace, different]
  · simp [tileAt?_of_outside outside]

theorem setTile_robot (world : World) (place : Position) (new : Tile) :
    (world.setTile place new).robot = world.robot := by
  simp only [setTile]
  split <;> rfl

theorem widths_setTile (world : World) (place : Position) (new : Tile) :
    (world.setTile place new).tiles.map List.length = world.tiles.map List.length := by
  simp only [setTile]
  split
  · rfl
  · refine List.ext_getElem? fun row => ?_
    simp only [List.getElem?_map, List.getElem?_modify]
    cases world.tiles[row]? with
    | none => rfl
    | some tiles => by_cases here : place.row.toNat = row <;> simp [here]

end World

end RobotPuzzle
