import Mathlib.Data.List.Forall2
import Mathlib.Tactic.IntervalCases
import RobotPuzzle.Proofs.Text.Numeral
import RobotPuzzle.Proofs.World.Conservation

/-!
Which texts are read as tiles, and how the tiles are written. Every tile is written with its
documented code, but texts with a plus sign or zeros before the count are read as well.
-/

namespace RobotPuzzle

namespace Tile

def documented : List String :=
  ["0", "1", "2", "3", "4", "5", "6", "7", "30", "11", "12", "13", "14", "15", "16",
    "21", "22", "23", "24", "25", "26"]

def plain : List Tile :=
  [.wall, .path, .goal, .start .down, .start .right, .start .up, .start .left, .waypoint, .pit]

def counted : List Tile :=
  [1, 2, 3, 4, 5, 6].map .collectible ++ [1, 2, 3, 4, 5, 6].map .container

/-- The text is the code, or has a plus sign or zeros before the count of a code with a count. -/
def Spells (text code : String) : Prop :=
  text = code ∨ ∃ kind ∈ ['1', '2'], ∃ count, code.toList = [kind, count] ∧
    ∃ sign ∈ Text.signs, ∃ zeros,
      text.toList = kind :: (sign ++ (List.replicate zeros '0' ++ [count]))

variable {text : String} {tile : Tile} {digits : List Char} {count : UInt32}

theorem within_iff :
    1 ≤ count ∧ count ≤ maxCount ↔ 1 ≤ count.toNat ∧ count.toNat ≤ 6 := by
  simp [UInt32.le_iff_toNat_le, maxCount]

theorem numeral?_toUInt32_eq_some_iff :
    (Text.numeral? UInt32.size digits).map Nat.toUInt32 = some count ↔
      Text.numeral? UInt32.size digits = some count.toNat := by
  rw [Option.map_eq_some_iff]
  constructor
  · rintro ⟨number, read, rfl⟩
    obtain ⟨_, _, _, _, denotes⟩ := Text.numeral?_eq_some_iff.1 read
    rw [read, Nat.toUInt32, UInt32.toNat_ofNat_of_lt' denotes.below]
  · intro read
    exact ⟨count.toNat, read, UInt32.ofNat_toNat⟩

theorem count?_eq_some_iff : count? digits = some count ↔ (1 ≤ count ∧ count ≤ maxCount) ∧
    ∃ sign ∈ Text.signs, ∃ zeros last, digits = sign ++ (List.replicate zeros '0' ++ [last]) ∧
      Text.IsDigit last ∧ Text.digitValue last = count.toNat := by
  rw [count?, Option.filter_eq_some_iff, numeral?_toUInt32_eq_some_iff, Text.numeral?_eq_some_iff,
    decide_eq_true_eq, and_comm]
  refine and_congr_right fun within => ?_
  have small : count.toNat < 10 := Nat.lt_of_le_of_lt (within_iff.1 within).2 (by decide)
  have fits : count.toNat < UInt32.size := count.toNat_lt_size
  constructor
  · rintro ⟨sign, isSign, number, rfl, denotes⟩
    obtain ⟨-, zeros, last, rfl, inside, value⟩ := (Text.denotes_iff_of_lt_ten small).1 denotes
    exact ⟨sign, isSign, zeros, last, rfl, inside, value⟩
  · rintro ⟨sign, isSign, zeros, last, rfl, inside, value⟩
    exact ⟨sign, isSign, _, rfl,
      (Text.denotes_iff_of_lt_ten small).2 ⟨fits, zeros, last, rfl, inside, value⟩⟩

/-- A text is read by its kind and count only if no code without a count is the same text. -/
theorem ofCode?_eq_some_iff : ofCode? text = some tile ↔
    (tile ∈ plain ∧ text = tile.code) ∨
      ∃ digits count, count? digits = some count ∧
        (text.toList = '1' :: digits ∧ tile = .collectible count ∨
          text.toList = '2' :: digits ∧ tile = .container count) := by
  constructor
  · intro read
    simp only [ofCode?] at read
    split at read
    case h_10 =>
      right
      split at read
      next digits reads =>
        obtain ⟨count, counts, rfl⟩ := Option.map_eq_some_iff.1 read
        exact ⟨digits, count, counts, .inl ⟨reads, rfl⟩⟩
      next digits reads =>
        obtain ⟨count, counts, rfl⟩ := Option.map_eq_some_iff.1 read
        exact ⟨digits, count, counts, .inr ⟨reads, rfl⟩⟩
      next => contradiction
    all_goals
      cases read
      exact .inl (by decide)
  · rintro (⟨isPlain, rfl⟩ | ⟨digits, count, counts, reads⟩)
    · have all : ∀ tile ∈ plain, ofCode? tile.code = some tile := by decide
      exact all tile isPlain
    · have nonempty : digits ≠ [] := by
        rintro rfl
        contradiction
      simp only [ofCode?]
      split
      case h_10 =>
        rcases reads with ⟨reads, rfl⟩ | ⟨reads, rfl⟩
        · simp only [reads, counts, Option.map_some]
        · simp only [reads, counts, Option.map_some]
      all_goals simp [nonempty.symm] at reads

theorem exists_digit (within : 1 ≤ count ∧ count ≤ maxCount) :
    ∃ digit, (toString count.toNat).toList = [digit] ∧ Text.IsDigit digit ∧
      Text.digitValue digit = count.toNat := by
  obtain ⟨lower, upper⟩ := within_iff.1 within
  refine ⟨Char.ofNat ('0'.toNat + count.toNat), ?_⟩
  interval_cases count.toNat <;> decide

theorem spells_iff_of_toList {code : String} {kind digit : Char} (isKind : kind ∈ ['1', '2'])
    (written : code.toList = [kind, digit]) : Spells text code ↔
      ∃ sign ∈ Text.signs, ∃ zeros,
        text.toList = kind :: (sign ++ (List.replicate zeros '0' ++ [digit])) := by
  constructor
  · rintro (rfl | ⟨other, -, last, writtenSo, padded⟩)
    · exact ⟨[], by simp [Text.signs], 0, written⟩
    · rw [written, List.cons.injEq, List.cons.injEq] at writtenSo
      obtain ⟨rfl, rfl, -⟩ := writtenSo
      exact padded
  · exact fun padded => .inr ⟨kind, isKind, digit, written, padded⟩

theorem spells_iff_count? {code : String} {kind : Char} (isKind : kind ∈ ['1', '2'])
    (within : 1 ≤ count ∧ count ≤ maxCount)
    (written : code.toList = kind :: (toString count.toNat).toList) :
    Spells text code ↔ ∃ digits, text.toList = kind :: digits ∧ count? digits = some count := by
  obtain ⟨digit, single, isDigit, value⟩ := exists_digit within
  rw [single] at written
  rw [spells_iff_of_toList isKind written]
  constructor
  · rintro ⟨sign, isSign, zeros, reads⟩
    exact ⟨_, reads, count?_eq_some_iff.2 ⟨within, sign, isSign, zeros, digit, rfl, isDigit, value⟩⟩
  · rintro ⟨digits, reads, counts⟩
    obtain ⟨-, sign, isSign, zeros, last, rfl, inside, same⟩ := count?_eq_some_iff.1 counts
    obtain rfl := inside.eq_of_value isDigit (same.trans value.symm)
    exact ⟨sign, isSign, zeros, reads⟩

theorem spells_collectible_iff (within : 1 ≤ count ∧ count ≤ maxCount) :
    Spells text (collectible count).code ↔
      ∃ digits, text.toList = '1' :: digits ∧ count? digits = some count :=
  spells_iff_count? (by simp) within (by simp [code])

theorem spells_container_iff (within : 1 ≤ count ∧ count ≤ maxCount) :
    Spells text (container count).code ↔
      ∃ digits, text.toList = '2' :: digits ∧ count? digits = some count :=
  spells_iff_count? (by simp) within (by simp [code])

theorem mem_counted_iff : tile ∈ counted ↔ ∃ count, (1 ≤ count ∧ count ≤ maxCount) ∧
    (tile = .collectible count ∨ tile = .container count) := by
  constructor
  · have all : ∀ tile ∈ counted, ∃ count, (1 ≤ count ∧ count ≤ maxCount) ∧
        (tile = .collectible count ∨ tile = .container count) := by
      simp [counted, maxCount]
    exact all tile
  · rintro ⟨count, within, isTile⟩
    obtain ⟨lower, upper⟩ := within_iff.1 within
    have same : count = .ofNat count.toNat := UInt32.ofNat_toNat.symm
    rw [same] at isTile
    rcases isTile with rfl | rfl <;> interval_cases count.toNat <;> decide

theorem spells_iff_of_mem_plain (isPlain : tile ∈ plain) :
    Spells text tile.code ↔ text = tile.code := by
  constructor
  · rintro (rfl | ⟨kind, isKind, count, written, -⟩)
    · rfl
    · have uncounted : ∀ tile ∈ plain, tile.code.toList.length = 1 ∨ tile.code = "30" := by decide
      rcases uncounted tile isPlain with single | isPit
      · simp [written] at single
      · rw [isPit] at written
        simp only [String.reduceToList, List.cons.injEq] at written
        obtain ⟨rfl, -⟩ := written
        simp at isKind
  · exact .inl

theorem ofCode?_eq_some_iff_spells :
    ofCode? text = some tile ↔ tile ∈ plain ++ counted ∧ Spells text tile.code := by
  rw [ofCode?_eq_some_iff, List.mem_append, or_and_right]
  refine or_congr (and_congr_right fun isPlain => (spells_iff_of_mem_plain isPlain).symm) ?_
  rw [mem_counted_iff]
  constructor
  · rintro ⟨digits, count, counts, isTile⟩
    have within := (count?_eq_some_iff.1 counts).1
    rcases isTile with ⟨reads, rfl⟩ | ⟨reads, rfl⟩
    · exact ⟨⟨count, within, .inl rfl⟩, (spells_collectible_iff within).2 ⟨digits, reads, counts⟩⟩
    · exact ⟨⟨count, within, .inr rfl⟩, (spells_container_iff within).2 ⟨digits, reads, counts⟩⟩
  · rintro ⟨⟨count, within, rfl | rfl⟩, spells⟩
    · obtain ⟨digits, reads, counts⟩ := (spells_collectible_iff within).1 spells
      exact ⟨digits, count, counts, .inl ⟨reads, rfl⟩⟩
    · obtain ⟨digits, reads, counts⟩ := (spells_container_iff within).1 spells
      exact ⟨digits, count, counts, .inr ⟨reads, rfl⟩⟩

theorem mem_documented_iff : text ∈ documented ↔ ∃ tile ∈ plain ++ counted, tile.code = text := by
  have all : (plain ++ counted).map code = documented := by decide
  rw [← all, List.mem_map]

theorem ofCode?_code_of_read (read : ofCode? text = some tile) : ofCode? tile.code = some tile := by
  rw [ofCode?_eq_some_iff_spells] at read ⊢
  exact ⟨read.1, .inl rfl⟩

theorem code_eq_iff_documented (read : ofCode? text = some tile) :
    tile.code = text ↔ text ∈ documented := by
  rw [mem_documented_iff]
  constructor
  · rintro rfl
    exact ⟨tile, (ofCode?_eq_some_iff_spells.1 read).1, rfl⟩
  · rintro ⟨other, known, rfl⟩
    have own : ofCode? other.code = some other :=
      ofCode?_eq_some_iff_spells.2 ⟨known, .inl rfl⟩
    rw [own] at read
    cases read
    rfl

end Tile

namespace World

def printed (world : World) : List (List String) :=
  world.tiles.map fun tiles => tiles.map Tile.code

def Reads : List (List String) → List (List Tile) → Prop :=
  List.Forall₂ (List.Forall₂ fun text tile => Tile.ofCode? text = some tile)

variable {world : World}

theorem readRow_eq_ok_iff {codes : List String} {tiles : List Tile} (row col : Nat) :
    readRow row col codes = .ok tiles ↔
      List.Forall₂ (fun text tile => Tile.ofCode? text = some tile) codes tiles := by
  induction codes generalizing col tiles with
  | nil => simp [readRow, eq_comm]
  | cons text rest ih =>
      rw [List.forall₂_cons_left_iff]
      simp only [readRow]
      split
      next unknown => simp [unknown]
      next tile known =>
        simp only [known, Option.some.injEq, ← ih (col + 1)]
        split
        next fault failed => simp [failed]
        next read done =>
          simp only [done, Except.ok.injEq]
          constructor
          · rintro rfl
            exact ⟨tile, read, rfl, rfl, rfl⟩
          · rintro ⟨_, _, rfl, rfl, rfl⟩
            rfl

theorem readRows_eq_ok_iff {codes : List (List String)} {tiles : List (List Tile)} (row : Nat) :
    readRows row codes = .ok tiles ↔ Reads codes tiles := by
  induction codes generalizing row tiles with
  | nil => simp [readRows, Reads, eq_comm]
  | cons first rest ih =>
      rw [Reads, List.forall₂_cons_left_iff]
      simp only [readRows]
      split
      next fault failed => simp [← readRow_eq_ok_iff row 0, failed]
      next line known =>
        simp only [← readRow_eq_ok_iff row 0, known, Except.ok.injEq]
        have after : ∀ {tiles}, readRows (row + 1) rest = .ok tiles ↔ Reads rest tiles :=
          ih (row + 1)
        split
        next fault failed =>
          simp only [failed, reduceCtorEq, false_iff] at after
          simp only [reduceCtorEq, false_iff]
          rintro ⟨_, others, -, reads, -⟩
          exact after reads
        next others done =>
          simp only [done, Except.ok.injEq] at after
          simp only [Except.ok.injEq]
          constructor
          · rintro rfl
            exact ⟨line, others, rfl, after.1 rfl, rfl⟩
          · rintro ⟨_, read, rfl, reads, rfl⟩
            rw [after.2 reads]

theorem ofCodes_eq_ok_iff {codes : List (List String)} :
    ofCodes codes = .ok world ↔ ofTiles world.tiles = .ok world ∧ Reads codes world.tiles := by
  simp only [ofCodes, ← readRows_eq_ok_iff 0]
  split
  next fault failed => simp [failed]
  next tiles done =>
    simp only [done, Except.ok.injEq]
    constructor
    · intro accepted
      obtain rfl := (ofTiles_eq_ok accepted).1
      exact ⟨accepted, rfl⟩
    · rintro ⟨accepted, rfl⟩
      exact accepted

theorem forall₂_map_left {α β : Type} {relation : α → β → Prop} {write : β → α}
    {texts : List α} {items : List β}
    (again : ∀ text item, relation text item → relation (write item) item)
    (related : List.Forall₂ relation texts items) :
    List.Forall₂ relation (items.map write) items := by
  induction related with
  | nil => exact .nil
  | cons first _ ih => exact .cons (again _ _ first) ih

theorem map_eq_iff_of_forall₂ {α β : Type} {relation : α → β → Prop} {write : β → α}
    {good : α → Prop} {texts : List α} {items : List β}
    (same : ∀ text item, relation text item → (write item = text ↔ good text))
    (related : List.Forall₂ relation texts items) :
    items.map write = texts ↔ ∀ text ∈ texts, good text := by
  induction related with
  | nil => simp
  | cons first _ ih =>
      rw [List.map_cons, List.cons.injEq, List.forall_mem_cons, ih]
      exact and_congr_left fun _ => same _ _ first

theorem exists_of_forall₂_mem {α β : Type} {relation : α → β → Prop} {texts : List α}
    {items : List β} (related : List.Forall₂ relation texts items) {item : β}
    (member : item ∈ items) : ∃ text, relation text item := by
  induction related with
  | nil => exact absurd member List.not_mem_nil
  | cons first _ ih =>
      rcases List.mem_cons.1 member with rfl | later
      · exact ⟨_, first⟩
      · exact ih later

theorem Reads.count_le {codes : List (List String)} {tiles : List (List Tile)} {count : UInt32}
    (reads : Reads codes tiles) {line : List Tile} (isLine : line ∈ tiles) {tile : Tile}
    (isTile : tile ∈ line) (counts : tile = .collectible count ∨ tile = .container count) :
    count.toNat ≤ 6 := by
  obtain ⟨texts, lineRead⟩ := exists_of_forall₂_mem reads isLine
  obtain ⟨text, read⟩ := exists_of_forall₂_mem lineRead isTile
  rcases List.mem_append.1 (Tile.ofCode?_eq_some_iff_spells.1 read).1 with plain | counted
  · rcases counts with rfl | rfl <;> simp [Tile.plain] at plain
  · obtain ⟨other, within, isOther⟩ := Tile.mem_counted_iff.1 counted
    have same : other = count := by rcases counts with rfl | rfl <;> simpa [eq_comm] using isOther
    exact same ▸ (Tile.within_iff.1 within).2

theorem Reads.printed {codes : List (List String)} (reads : Reads codes world.tiles) :
    Reads world.printed world.tiles :=
  forall₂_map_left (fun _ _ => forall₂_map_left fun _ _ => Tile.ofCode?_code_of_read) reads

theorem Reads.printed_eq_iff {codes : List (List String)} (reads : Reads codes world.tiles) :
    world.printed = codes ↔ ∀ row ∈ codes, ∀ text ∈ row, text ∈ Tile.documented :=
  map_eq_iff_of_forall₂
    (fun _ _ => map_eq_iff_of_forall₂ fun _ _ => Tile.code_eq_iff_documented) reads

end World

/-- A text is read if and only if it spells a documented code, and as the tile of that code: what is
read beyond the documented codes only spells one. The maps of documented codes, and no others, are
printed as they were. The printed map is read as the same world in any case. -/
theorem Tile.codes_exact_unless_padded (text : String) (codes : List (List String)) :
    ((∃ tile, Tile.ofCode? text = some tile) ↔ ∃ code ∈ Tile.documented, Tile.Spells text code) ∧
    (((∃ tile, Tile.ofCode? text = some tile) ↔ text ∈ Tile.documented) ↔
      ∀ code ∈ Tile.documented, Tile.Spells text code → text ∈ Tile.documented) ∧
    (∀ tile, Tile.ofCode? text = some tile →
      tile.code ∈ Tile.documented ∧ Tile.Spells text tile.code ∧
        (tile.code = text ↔ text ∈ Tile.documented)) ∧
    ∀ world, World.ofCodes codes = .ok world →
      World.ofCodes world.printed = .ok world ∧
        (world.printed = codes ↔ ∀ row ∈ codes, ∀ text ∈ row, text ∈ Tile.documented) := by
  have isRead : (∃ tile, ofCode? text = some tile) ↔ ∃ code ∈ documented, Spells text code := by
    constructor
    · rintro ⟨tile, read⟩
      obtain ⟨known, spells⟩ := ofCode?_eq_some_iff_spells.1 read
      exact ⟨tile.code, mem_documented_iff.2 ⟨tile, known, rfl⟩, spells⟩
    · rintro ⟨code, isCode, spells⟩
      obtain ⟨tile, known, rfl⟩ := mem_documented_iff.1 isCode
      exact ⟨tile, ofCode?_eq_some_iff_spells.2 ⟨known, spells⟩⟩
  refine ⟨isRead, ?_, fun tile read => ?_, fun world accepted => ?_⟩
  · rw [isRead]
    constructor
    · intro exactly code isCode spells
      exact exactly.1 ⟨code, isCode, spells⟩
    · intro unpadded
      constructor
      · rintro ⟨code, isCode, spells⟩
        exact unpadded code isCode spells
      · exact fun isCode => ⟨text, isCode, .inl rfl⟩
  · obtain ⟨known, spells⟩ := ofCode?_eq_some_iff_spells.1 read
    exact ⟨mem_documented_iff.2 ⟨tile, known, rfl⟩, spells, code_eq_iff_documented read⟩
  · obtain ⟨built, reads⟩ := World.ofCodes_eq_ok_iff.1 accepted
    exact ⟨World.ofCodes_eq_ok_iff.2 ⟨built, reads.printed⟩, reads.printed_eq_iff⟩

theorem Tile.codes_exact_unless_padded_plus :
    (Tile.ofCode? "1+5" = some (.collectible 5) ∧ Tile.Spells "1+5" "15") ∧
    ∃ world, World.ofCodes [["3", "1+5", "103"]] = .ok world ∧
      World.ofCodes world.printed = .ok world ∧ world.printed ≠ [["3", "1+5", "103"]] := by
  obtain ⟨-, -, texts, maps⟩ := Tile.codes_exact_unless_padded "1+5" [["3", "1+5", "103"]]
  have read : Tile.ofCode? "1+5" = some (.collectible 5) := by decide
  have accepted : World.ofCodes [["3", "1+5", "103"]] = .ok
      ⟨[[.start .down, .collectible 5, .collectible 3]], ⟨⟨0, 0⟩, .down⟩,
        Ledger.ofCells (cells [[.start .down, .collectible 5, .collectible 3]])⟩ := by rfl
  have spelt := (texts _ read).2.1
  have again := maps _ accepted
  exact ⟨⟨read, spelt⟩, _, accepted, again.1, by decide⟩

/-- A text that is no documented code, and is not what its tile is written as. -/
theorem Tile.plus_is_read :
    Tile.ofCode? "1+5" = some (.collectible 5) ∧ "1+5" ∉ Tile.documented ∧
      (Tile.collectible 5).code ≠ "1+5" := by
  decide

end RobotPuzzle
