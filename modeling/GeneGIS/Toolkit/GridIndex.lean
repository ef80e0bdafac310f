/-
An item is registered in every cell its box overlaps.  A query looks through the cells of the
padded box, the search for the nearest item through rings of cells.
-/
import GeneGIS.Toolkit.Arithmetic
import Mathlib.Data.List.Destutter

namespace GeneGIS.Toolkit

structure BoundingBox (F : Type) where
  minX : F
  minY : F
  maxX : F
  maxY : F

structure GridIndex (F : Type) where
  origin : F × F
  cell : F
  columns : Nat
  rows : Nat
  cells : List (List Nat)
  boxes : List (BoundingBox F)

/-- The cells of a box: the first and the last column, and the first and the last row. -/
structure CellRange where
  c0 : Nat
  r0 : Nat
  c1 : Nat
  r1 : Nat

/-- The columns and rows of a range, one row after the other. -/
def CellRange.cells (range : CellRange) : List (Nat × Nat) :=
  (List.range' range.r0 (range.r1 + 1 - range.r0)).flatMap fun r =>
    (List.range' range.c0 (range.c1 + 1 - range.c0)).map fun c => (c, r)

def CellRange.onRing (range : CellRange) (cell : Nat × Nat) : Bool :=
  cell.2 == range.r0 || cell.2 == range.r1 || cell.1 == range.c0 || cell.1 == range.c1

namespace GridIndex

variable {F : Type} [Arithmetic F]

open Arithmetic

/-- `a..clamp(lo, hi)`. -/
def clampNat (n lo hi : Nat) : Nat := if n < lo then lo else if hi < n then hi else n

def extend (extent b : BoundingBox F) : BoundingBox F where
  minX := min extent.minX b.minX
  minY := min extent.minY b.minY
  maxX := max extent.maxX b.maxX
  maxY := max extent.maxY b.maxY

def extentOf (boxes : List (BoundingBox F)) : BoundingBox F :=
  if boxes.isEmpty then ⟨ofNat 0, ofNat 0, ofNat 1, ofNat 1⟩
  else boxes.foldl extend ⟨infinity false, infinity false, infinity true, infinity true⟩

/-! ## Cells -/

/-- The cell of a coordinate, before it is limited to the grid. -/
def slot (origin cell x : F) : Nat := toUsize (max (floor (div (sub x origin) cell)) (ofNat 0))

variable (index : GridIndex F)

def clampCol (x : F) : Nat := Min.min (slot index.origin.1 index.cell x) (index.columns - 1)

def clampRow (y : F) : Nat := Min.min (slot index.origin.2 index.cell y) (index.rows - 1)

def cellRange (b : BoundingBox F) : CellRange where
  c0 := index.clampCol b.minX
  r0 := index.clampRow b.minY
  c1 := index.clampCol b.maxX
  r1 := index.clampRow b.maxY

/-- The place of a cell in the list of cells. -/
def place (cell : Nat × Nat) : Nat := cell.2 * index.columns + cell.1

def itemsAt (cell : Nat × Nat) : List Nat := index.cells.getD (index.place cell) []

/-- An item is appended to every cell its box overlaps. -/
def register (item : Nat × BoundingBox F) : GridIndex F :=
  { index with
    cells := (index.cellRange item.2).cells.foldl
      (fun cells cell => cells.modify (index.place cell) (· ++ [item.1])) index.cells }

variable [SquareRoot F]

/-- The grid before the items are registered. -/
def empty (boxes : List (BoundingBox F)) (targetPerCell : Nat) : GridIndex F :=
  let extent := extentOf boxes
  let width := max (sub extent.maxX extent.minX) epsilon
  let height := max (sub extent.maxY extent.minY) epsilon
  let targetCells := ofNat (clampNat (boxes.length / Max.max targetPerCell 1) 1 (2 ^ 20))
  let cell := max (SquareRoot.sqrt (div (mul width height) targetCells))
    (div (max width height) (ofNat 4096))
  let columns := clampNat (toUsize (ceil (div width cell))) 1 4096
  let rows := clampNat (toUsize (ceil (div height cell))) 1 4096
  { origin := (extent.minX, extent.minY), cell := cell, columns := columns, rows := rows
    cells := List.replicate (columns * rows) [], boxes := boxes }

def build (boxes : List (BoundingBox F)) (targetPerCell : Nat) : GridIndex F :=
  ((List.range boxes.length).zip boxes).foldl register (empty boxes targetPerCell)

omit [SquareRoot F]

def intersects (b q : BoundingBox F) : Bool :=
  le b.minX q.maxX && le q.minX b.maxX && le b.minY q.maxY && le q.minY b.maxY

def padded (q : BoundingBox F) (pad : F) : BoundingBox F where
  minX := sub q.minX pad
  minY := sub q.minY pad
  maxX := add q.maxX pad
  maxY := add q.maxY pad

/-- The items whose box intersects the query expanded by `pad`, ascending and each once. -/
def query (q : BoundingBox F) (pad : F) : List Nat :=
  let out := (index.cellRange (padded q pad)).cells.flatMap fun cell =>
    (index.itemsAt cell).filter fun i => (index.boxes[i]?).any (intersects · (padded q pad))
  (out.mergeSort (· ≤ ·)).destutter (· ≠ ·)

structure Search (F : Type) where
  best : Option (Nat × F)
  seen : List Bool

/-- An item is measured the first time it is met. -/
def meet (distance : Nat → F) (s : Search F) (i : Nat) : Search F :=
  if s.seen.getD i false then s
  else
    { best := if s.best.all fun b => lt (distance i) b.2 then some (i, distance i) else s.best
      seen := s.seen.set i true }

/-- The cells at most `ring` away from a cell, within the grid. -/
def square (pc pr ring : Nat) : CellRange where
  c0 := pc - ring
  r0 := pr - ring
  c1 := Min.min (pc + ring) (index.columns - 1)
  r1 := Min.min (pr + ring) (index.rows - 1)

def searchRing (distance : Nat → F) (pc pr ring : Nat) (s : Search F) : Search F :=
  let range := index.square pc pr ring
  ((range.cells.filter range.onRing).flatMap index.itemsAt).foldl (meet distance) s

/-- Whether nothing outside the rings up to this one can be closer. -/
def settled (ring : Nat) (s : Search F) : Bool :=
  s.best.any fun b => le b.2 (mul (ofNat ring) index.cell)

def searchRings (index : GridIndex F) (distance : Nat → F) (pc pr : Nat) :
    List Nat → Search F → Search F
  | [], s => s
  | ring :: rest, s =>
    let s' := index.searchRing distance pc pr ring s
    if index.settled ring s' then s' else searchRings index distance pc pr rest s'

def nearest (point : F × F) (distance : Nat → F) : Option (Nat × F) :=
  if index.boxes.isEmpty then none
  else
    (index.searchRings distance (index.clampCol point.1) (index.clampRow point.2)
      (List.range (Max.max index.columns index.rows + 1))
      { best := none, seen := List.replicate index.boxes.length false }).best

end GridIndex
end GeneGIS.Toolkit

/-! ## The cells of a grid

Every cell that a box names is in the grid, and has a place of its own, over any arithmetic. -/

namespace GeneGIS.Toolkit

open List hiding getElem?_eq_some_iff map_eq_map

theorem CellRange.mem_cells {range : CellRange} {cell : Nat × Nat} :
    cell ∈ range.cells ↔ (range.c0 ≤ cell.1 ∧ cell.1 ≤ range.c1) ∧
      range.r0 ≤ cell.2 ∧ cell.2 ≤ range.r1 := by
  obtain ⟨c, r⟩ := cell
  rw [CellRange.cells, mem_flatMap]
  constructor
  · intro h
    obtain ⟨r', hr, hmem⟩ := h
    obtain ⟨c', hc, heq⟩ := mem_map.mp hmem
    rw [mem_range'_1] at hr hc
    cases heq
    omega
  · intro h
    refine ⟨r, mem_range'_1.mpr (by omega), mem_map.mpr ⟨c, ?_, rfl⟩⟩
    exact mem_range'_1.mpr (by omega)

namespace GridIndex

variable {F : Type} [Arithmetic F]

def Holds (index : GridIndex F) (cell : Nat × Nat) : Prop :=
  cell.1 < index.columns ∧ cell.2 < index.rows

/-- Some grid: at least one cell, and a list for every cell. -/
structure Formed (index : GridIndex F) : Prop where
  columns_pos : 0 < index.columns
  rows_pos : 0 < index.rows
  length_cells : index.cells.length = index.columns * index.rows

variable {cell : Nat × Nat} {index : GridIndex F}

omit [Arithmetic F] in
theorem place_lt (h : index.Holds cell) : index.place cell < index.columns * index.rows := by
  obtain ⟨hcolumn, hrow⟩ := h
  calc index.place cell < cell.2 * index.columns + index.columns := Nat.add_lt_add_left hcolumn _
    _ = (cell.2 + 1) * index.columns := by rw [Nat.add_mul, Nat.one_mul]
    _ ≤ index.rows * index.columns := Nat.mul_le_mul_right _ hrow
    _ = index.columns * index.rows := Nat.mul_comm _ _

omit [Arithmetic F] in
theorem place_inj {cell cell' : Nat × Nat} (h : index.Holds cell)
    (h' : index.Holds cell') (heq : index.place cell = index.place cell') : cell = cell' := by
  obtain ⟨c, r⟩ := cell
  obtain ⟨c', r'⟩ := cell'
  have hpos : 0 < index.columns := Nat.lt_of_le_of_lt (Nat.zero_le c) h.1
  have hplace (r c : Nat) : r * index.columns + c = c + index.columns * r := by
    rw [Nat.mul_comm, Nat.add_comm]
  rw [place, place, hplace, hplace] at heq
  have hcolumn : c = c' := by
    have hmod := congrArg (· % index.columns) heq
    simp only [Nat.add_mul_mod_self_left] at hmod
    rwa [Nat.mod_eq_of_lt h.1, Nat.mod_eq_of_lt h'.1] at hmod
  have hrow : r = r' := by
    rw [hcolumn] at heq
    exact Nat.eq_of_mul_eq_mul_left hpos (Nat.add_left_cancel heq)
  rw [hcolumn, hrow]

theorem holds_of_mem (h : index.Formed) {b : BoundingBox F}
    (hcell : cell ∈ (index.cellRange b).cells) : index.Holds cell := by
  have hrange := CellRange.mem_cells.mp hcell
  have hcolumns := h.columns_pos
  have hrows := h.rows_pos
  have hc : (index.cellRange b).c1 ≤ index.columns - 1 := Nat.min_le_right _ _
  have hr : (index.cellRange b).r1 ≤ index.rows - 1 := Nat.min_le_right _ _
  exact ⟨by omega, by omega⟩

theorem length_pushed (places : List Nat) (i : Nat) (cells : List (List Nat)) :
    (places.foldl (fun cells p => cells.modify p (· ++ [i])) cells).length = cells.length := by
  induction places generalizing cells with
  | nil => rfl
  | cons p places ih => rw [List.foldl_cons, ih, length_modify]

theorem mem_pushed (places : List Nat) (i : Nat) (cells : List (List Nat)) {k j : Nat}
    (hk : k < cells.length) :
    j ∈ (places.foldl (fun cells p => cells.modify p (· ++ [i])) cells).getD k [] ↔
      j ∈ cells.getD k [] ∨ k ∈ places ∧ j = i := by
  induction places generalizing cells with
  | nil => simp
  | cons p places ih =>
    have hlength : k < (cells.modify p (· ++ [i])).length := by
      rw [length_modify]
      exact hk
    have hmodify : j ∈ (cells.modify p (· ++ [i])).getD k [] ↔
        j ∈ cells.getD k [] ∨ k = p ∧ j = i := by
      rw [getD_eq_getElem?_getD, getElem?_modify, getD_eq_getElem?_getD,
        List.getElem?_eq_getElem hk, Option.map_eq_map, Option.map_some, Option.getD_some,
        Option.getD_some]
      by_cases hp : p = k
      · rw [if_pos hp, mem_append, mem_singleton]
        simp only [hp.symm, true_and]
      · rw [if_neg hp]
        have hkp : k ≠ p := fun h => hp h.symm
        simp only [hkp, false_and, or_false]
    rw [List.foldl_cons, ih _ hlength, hmodify, List.mem_cons, or_assoc, or_and_right]

theorem register_formed (h : index.Formed) (item : Nat × BoundingBox F) :
    (index.register item).Formed := by
  refine ⟨h.columns_pos, h.rows_pos, ?_⟩
  have hlength := length_pushed ((index.cellRange item.2).cells.map index.place) item.1 index.cells
  rw [foldl_map] at hlength
  exact hlength.trans h.length_cells

theorem mem_itemsAt_register (h : index.Formed) (item : Nat × BoundingBox F)
    (hcell : index.Holds cell) {j : Nat} :
    j ∈ (index.register item).itemsAt cell ↔
      j ∈ index.itemsAt cell ∨ cell ∈ (index.cellRange item.2).cells ∧ j = item.1 := by
  have hplace : index.place cell < index.cells.length := by
    rw [h.length_cells]
    exact place_lt hcell
  have hpushed := mem_pushed ((index.cellRange item.2).cells.map index.place) item.1 index.cells
    hplace (j := j)
  rw [foldl_map] at hpushed
  have hmem : index.place cell ∈ (index.cellRange item.2).cells.map index.place ↔
      cell ∈ (index.cellRange item.2).cells := by
    constructor
    · intro hmem
      obtain ⟨cell', hcell', heq⟩ := mem_map.mp hmem
      rw [place_inj hcell (holds_of_mem h hcell') heq.symm]
      exact hcell'
    · exact mem_map_of_mem
  rw [hmem] at hpushed
  exact hpushed

/-! ## The finished grid -/

/-- Registering changes the lists and nothing else. -/
structure SameGrid (index index' : GridIndex F) : Prop where
  origin : index'.origin = index.origin
  cell : index'.cell = index.cell
  columns : index'.columns = index.columns
  rows : index'.rows = index.rows
  boxes : index'.boxes = index.boxes

theorem SameGrid.cellRange {index index' : GridIndex F} (h : SameGrid index index')
    (b : BoundingBox F) : index'.cellRange b = index.cellRange b := by
  simp only [GridIndex.cellRange, clampCol, clampRow, h.origin, h.cell, h.columns, h.rows]

omit [Arithmetic F] in
theorem SameGrid.holds {index index' : GridIndex F} (h : SameGrid index index')
    : index'.Holds cell ↔ index.Holds cell := by
  rw [Holds, Holds, h.columns, h.rows]

theorem registerAll (h : index.Formed) (items : List (Nat × BoundingBox F)) :
    (items.foldl register index).Formed ∧ SameGrid index (items.foldl register index) ∧
      ∀ cell j, index.Holds cell → (j ∈ (items.foldl register index).itemsAt cell ↔
        j ∈ index.itemsAt cell ∨
          ∃ item ∈ items, cell ∈ (index.cellRange item.2).cells ∧ j = item.1) := by
  induction items generalizing index with
  | nil =>
    refine ⟨h, ⟨rfl, rfl, rfl, rfl, rfl⟩, fun cell j _ => ?_⟩
    simp
  | cons item items ih =>
    obtain ⟨hformed, hsame, hmem⟩ := ih (register_formed h item)
    have hfirst : SameGrid index (index.register item) := ⟨rfl, rfl, rfl, rfl, rfl⟩
    refine ⟨hformed, ⟨hsame.origin, hsame.cell, hsame.columns, hsame.rows, hsame.boxes⟩, ?_⟩
    intro cell j hcell
    rw [List.foldl_cons, hmem cell j (hfirst.holds.mpr hcell), mem_itemsAt_register h item hcell,
      List.exists_mem_cons_iff, or_assoc]
    simp only [hfirst.cellRange]

variable [SquareRoot F]

omit [Arithmetic F] [SquareRoot F] in
theorem clampNat_bounds {n lo hi : Nat} (h : lo ≤ hi) :
    lo ≤ clampNat n lo hi ∧ clampNat n lo hi ≤ hi := by
  rw [clampNat]
  split
  · omega
  · split <;> omega

variable (boxes : List (BoundingBox F)) (target : Nat)

theorem empty_formed : (empty boxes target).Formed :=
  ⟨(clampNat_bounds (by omega)).1, (clampNat_bounds (by omega)).1, length_replicate⟩

omit [Arithmetic F] [SquareRoot F] in
theorem getD_replicate_nil (n k : Nat) : (List.replicate n ([] : List Nat)).getD k [] = [] := by
  rw [getD_eq_getElem?_getD, getElem?_replicate]
  split <;> rfl

theorem itemsAt_empty (cell : Nat × Nat) : (empty boxes target).itemsAt cell = [] := by
  exact getD_replicate_nil _ _

theorem build_formed : (build boxes target).Formed := (registerAll (empty_formed boxes target) _).1

theorem build_same : SameGrid (empty boxes target) (build boxes target) :=
  (registerAll (empty_formed boxes target) _).2.1

@[simp] theorem build_boxes : (build boxes target).boxes = boxes := (build_same boxes target).boxes

theorem mem_range_zip {α : Type} {l : List α} {i : Nat} {a : α} :
    (i, a) ∈ (List.range l.length).zip l ↔ l[i]? = some a := by
  rw [mem_iff_getElem?]
  constructor
  · intro h
    obtain ⟨k, hk⟩ := h
    rw [getElem?_zip_eq_some] at hk
    obtain ⟨hrange, hl⟩ := hk
    have hlt : k < l.length := (List.getElem?_eq_some_iff.mp hl).1
    have hindex : k = i := by rwa [getElem?_range hlt, Option.some.injEq] at hrange
    rw [← hindex]
    exact hl
  · intro h
    have hlt : i < l.length := (List.getElem?_eq_some_iff.mp h).1
    exact ⟨i, getElem?_zip_eq_some.mpr ⟨getElem?_range hlt, h⟩⟩

theorem mem_itemsAt_build (hcell : (build boxes target).Holds cell) {i : Nat} :
    i ∈ (build boxes target).itemsAt cell ↔
      ∃ b, boxes[i]? = some b ∧ cell ∈ ((build boxes target).cellRange b).cells := by
  have hsame := build_same boxes target
  have hmem := (registerAll (empty_formed boxes target) ((List.range boxes.length).zip boxes)).2.2
    cell i (hsame.holds.mp hcell)
  rw [build, hmem, itemsAt_empty]
  constructor
  · intro h
    rcases h with h | ⟨item, hitem, hrange, rfl⟩
    · cases h
    · refine ⟨item.2, mem_range_zip.mp hitem, ?_⟩
      have heq := hsame.cellRange item.2
      rw [build] at heq
      rw [heq]
      exact hrange
  · intro h
    obtain ⟨b, hb, hrange⟩ := h
    have heq := hsame.cellRange b
    rw [build] at heq
    rw [heq] at hrange
    exact .inr ⟨(i, b), mem_range_zip.mpr hb, hrange, rfl⟩

end GridIndex
end GeneGIS.Toolkit
