/-
With the comma as the delimiter the rows are the texts that were written.  It is guessed when the
header has more commas than tabs and than semicolons, or none of the three.
-/
import GeneGIS.Data.Keyed
import GeneGIS.Toolkit.Csv

namespace GeneGIS.Toolkit.Csv

open List hiding getElem?_eq_some_iff map_map
open Option hiding map_map
open Bool hiding and_true false_or true_or

/-! ## Cells -/

section

variable {rows : List (List String)} {row : List String} {field rest : List Char}

theorem scan_quoted (text : List Char) (h : rest.head? ≠ some '"') :
    scan ',' (text.flatMap doubleQuote ++ '"' :: rest) true rows row field =
      scan ',' rest false rows row (field ++ text) := by
  induction text generalizing field with
  | nil => rw [flatMap_nil, nil_append, scan_closing h, append_nil]
  | cons c others ih =>
    have hfield : field ++ c :: others = field ++ [c] ++ others := by
      rw [append_assoc, singleton_append]
    rw [hfield, ← ih, flatMap_cons, append_assoc]
    by_cases hc : c = '"'
    · rw [hc, doubleQuote, if_pos rfl]
      exact scan_doubled
    · rw [doubleQuote, if_neg hc]
      exact scan_inside hc

theorem scan_plain {text : List Char} (h : text.any needsQuotes = false) :
    scan ',' (text ++ rest) false rows row field = scan ',' rest false rows row (field ++ text) := by
  induction text generalizing field with
  | nil => rw [nil_append, append_nil]
  | cons c others ih =>
    rw [any_cons, or_eq_false_iff, needsQuotes] at h
    obtain ⟨hc, hothers⟩ := h
    simp only [or_eq_false_iff, decide_eq_false_iff_not] at hc
    obtain ⟨⟨⟨hcomma, hquote⟩, hline⟩, hreturn⟩ := hc
    rw [cons_append, scan, if_neg (fun h => hquote h.1), if_neg hcomma, if_neg hreturn,
      if_neg hline, ih hothers, append_assoc, singleton_append]

theorem scan_cell (text : List Char) (h : rest.head? ≠ some '"') :
    scan ',' (csvCell text ++ rest) false rows row [] = scan ',' rest false rows row text := by
  by_cases hquotes : text.any needsQuotes = true
  · rw [csvCell, if_pos hquotes, cons_append, append_assoc, scan,
      if_pos ⟨rfl, rfl⟩, singleton_append, scan_quoted text h, nil_append]
  · rw [csvCell, if_neg hquotes, scan_plain (not_eq_true _ ▸ hquotes), nil_append]

theorem scan_cells {texts : List (List Char)} (h : texts ≠ []) :
    scan ',' (rowText (texts.map csvCell) ++ rest) false rows row [] =
      scan ',' rest false (rows ++ [row ++ texts.map String.ofList]) [] [] := by
  induction texts generalizing row with
  | nil => exact absurd rfl h
  | cons text others ih =>
    by_cases hothers : others = []
    · rw [hothers, rowText, map_singleton, intercalate_singleton, append_assoc,
        scan_cell text (by simp)]
      show scan ',' ('\r' :: '\n' :: rest) false rows row text = _
      rw [scan, if_neg (by simp), if_neg (by simp), if_pos rfl, scan, if_neg (by simp),
        if_neg (by simp), if_neg (by simp), if_pos rfl]
      rfl
    · have hrow : rowText ((text :: others).map csvCell) ++ rest =
          csvCell text ++ ',' :: (rowText (others.map csvCell) ++ rest) := by
        rw [rowText, map_cons, intercalate_cons_of_ne_nil (by simpa using hothers), rowText]
        simp only [append_assoc, cons_append, nil_append]
      rw [hrow, scan_cell text (by simp), scan, if_neg (by simp), if_pos rfl, ih hothers,
        map_cons, append_assoc, singleton_append]

end

/-- The rows of a table, each text as a cell. -/
def tableText (rows : List (List String)) : List Char :=
  rows.flatMap fun row => rowText ((row.map String.toList).map csvCell)

theorem map_ofList_toList (texts : List String) :
    (texts.map String.toList).map String.ofList = texts := by
  rw [List.map_map]
  exact (List.map_congr_left fun s _ => String.ofList_toList).trans (List.map_id _)

theorem scan_tableText {table : List (List String)} (h : ∀ row ∈ table, row ≠ [])
    (rows : List (List String)) :
    scan ',' (tableText table) false rows [] [] = .ok (rows ++ table) := by
  induction table generalizing rows with
  | nil =>
    rw [tableText, flatMap_nil, scan, append_nil]
    rfl
  | cons row others ih =>
    obtain ⟨hrow, hothers⟩ := forall_mem_cons.mp h
    have hcells : row.map String.toList ≠ [] := fun hnil => hrow (map_eq_nil_iff.mp hnil)
    have hrest := ih hothers (rows ++ [[] ++ (row.map String.toList).map String.ofList])
    rw [tableText] at hrest
    rw [tableText, flatMap_cons, scan_cells hcells, hrest, map_ofList_toList, nil_append,
      append_assoc, singleton_append]

/-- The cells of a table come back as they were, whatever characters they hold. -/
theorem parseRows_tableText {table : List (List String)} (h : ∀ row ∈ table, row ≠ []) :
    parseRows (tableText table) ',' = .ok table := by
  rw [parseRows, scan_tableText h, nil_append]

theorem parseRows_awkward :
    parseRows (tableText [["", "a,b"], ["\"", "\r\n\r"], ["x\"\"y", ""], ["", ""]]) ',' =
      .ok [["", "a,b"], ["\"", "\r\n\r"], ["x\"\"y", ""], ["", ""]] :=
  parseRows_tableText (by decide)

variable (platform : Platform)

/-- The text of an attribute: none of a missing one. -/
def attributeText (value : Option Value) : String :=
  match value with
  | none => ""
  | some v =>
    match v.json with
    | .null => ""
    | .str s => s
    | other => String.ofList (other.compactChars platform.floatText)

theorem attributeCell_eq (value : Option Value) :
    attributeCell platform value = csvCell (attributeText platform value).toList := by
  cases value with
  | none => rfl
  | some v =>
    rw [attributeCell, attributeText]
    cases v.json <;> simp [csvCell]

variable (layer : Layer)

def names : List String := layer.fields.map Field.name

def headerTexts : List String := names layer ++ ["geometry_wkt", "crs"]

def featureTexts (feature : Feature) : List String :=
  (names layer).map (fun name => attributeText platform feature.properties[name]?) ++
    [String.ofList (geometryText platform feature.geometry), layer.crs]

/-- The reference system is written without quotes. -/
def PlainCrs : Prop := layer.crs.toList.any needsQuotes = false

theorem headerCells_eq :
    headerCells layer = ((headerTexts layer).map String.toList).map csvCell := by
  have hfixed : csvCell "geometry_wkt".toList = "geometry_wkt".toList ∧
      csvCell "crs".toList = "crs".toList := by decide
  rw [headerCells, headerTexts, names, List.map_append, List.map_append, List.map_map, List.map_map]
  show _ = _ ++ [csvCell "geometry_wkt".toList, csvCell "crs".toList]
  rw [hfixed.1, hfixed.2]
  rfl

theorem featureCells_eq {layer : Layer} (hcrs : PlainCrs layer) (feature : Feature) :
    featureCells platform layer feature =
      ((featureTexts platform layer feature).map String.toList).map csvCell := by
  have hplain : csvCell layer.crs.toList = layer.crs.toList := by
    rw [csvCell, if_neg (by rw [hcrs]; exact false_ne_true)]
  simp [featureCells, featureTexts, names, hplain, attributeCell_eq]

theorem csvText_eq {layer : Layer} (hcrs : PlainCrs layer) : csvText platform layer =
    tableText (headerTexts layer :: layer.features.map (featureTexts platform layer)) := by
  rw [csvText, tableText, flatMap_cons, flatMap_map, headerCells_eq]
  simp only [featureCells_eq platform hcrs]

theorem parseRows_csvText {layer : Layer} (hcrs : PlainCrs layer) :
    parseRows (csvText platform layer) ',' =
      .ok (headerTexts layer :: layer.features.map (featureTexts platform layer)) := by
  have hrows : ∀ row ∈ headerTexts layer :: layer.features.map (featureTexts platform layer),
      row ≠ [] := by
    simp [headerTexts, featureTexts]
  rw [parseRows, csvText_eq platform hcrs, scan_tableText hrows, nil_append]

/-- The first line of the header, without the carriage return that ends it. -/
def headerLine : List Char := ([','].intercalate (headerCells layer)).takeWhile fun c => c != '\n'

/-- More commas than tabs and than semicolons, or none of the three. -/
def CommasWin (line : List Char) : Prop :=
  line.count '\t' < line.count ',' ∧ line.count ';' < line.count ',' ∨
    ∀ c ∈ candidates, line.count c = 0

instance (line : List Char) : Decidable (CommasWin line) := by
  rw [CommasWin]
  infer_instance

theorem count_dropLast {line : List Char} {c d : Char} (hlast : line.getLast? = some d)
    (hne : c ≠ d) : line.dropLast.count c = line.count c := by
  have hline : line = line.dropLast ++ [d] := by
    obtain ⟨front, hfront⟩ := getLast?_eq_some_iff.mp hlast
    rw [hfront, dropLast_concat]
  conv_rhs => rw [hline]
  rw [count_append, count_singleton, if_neg (by simpa using hne.symm), Nat.add_zero]

theorem count_firstLine {text : List Char} {c : Char} (hc : c ≠ '\r') :
    (firstLine text).count c = (text.takeWhile fun d => d != '\n').count c := by
  rw [firstLine]
  split_ifs with h
  · exact count_dropLast h.2 hc
  · rfl

theorem count_takeWhile_append (front : List Char) {rest : List Char} {c : Char} (hc : c ≠ '\r') :
    ((front ++ '\r' :: '\n' :: rest).takeWhile fun d => d != '\n').count c =
      (front.takeWhile fun d => d != '\n').count c := by
  induction front with
  | nil => simp [hc.symm]
  | cons d others ih =>
    rw [cons_append, takeWhile_cons, takeWhile_cons]
    by_cases hd : (d != '\n') = true
    · rw [if_pos hd, if_pos hd, count_cons, count_cons, ih]
    · rw [if_neg hd, if_neg hd]

theorem count_csvText {c : Char} (hc : c ≠ '\r') :
    (firstLine (csvText platform layer)).count c = (headerLine layer).count c := by
  rw [count_firstLine hc, csvText, rowText, append_assoc, headerLine]
  exact count_takeWhile_append _ hc

theorem detectDelimiter_eq (text : List Char) :
    detectDelimiter text = ',' ↔ CommasWin (firstLine text) := by
  have hpick : ∀ c, ((some c).filter fun c => (firstLine text).contains c).getD ',' = ',' ↔
      c = ',' ∨ (firstLine text).count c = 0 := by
    intro c
    by_cases hc : c ∈ firstLine text
    · have hpos := count_pos_iff.mpr hc
      rw [filter_some, if_pos (by simpa using hc), getD_some]
      exact ⟨.inl, fun h => h.resolve_right (by omega)⟩
    · rw [filter_some, if_neg (by simpa using hc), getD_none]
      exact ⟨fun _ => .inr (count_eq_zero.mpr hc), fun _ => rfl⟩
  have htab : ('\t' = ',') = False := by simp
  have hsemicolon : (';' = ',') = False := by simp
  rw [detectDelimiter, CommasWin]
  simp only [candidates, maxByKey, foldl_cons, foldl_nil, mem_cons, forall_eq_or_imp,
    List.not_mem_nil, false_imp_iff, implies_true, and_true]
  by_cases hfirst : (firstLine text).count ',' ≤ (firstLine text).count '\t'
  · rw [if_pos hfirst]
    dsimp only
    by_cases hsecond : (firstLine text).count '\t' ≤ (firstLine text).count ';'
    · rw [if_pos hsecond, hpick, hsemicolon, false_or]
      omega
    · rw [if_neg hsecond, hpick, htab, false_or]
      omega
  · rw [if_neg hfirst]
    dsimp only
    by_cases hsecond : (firstLine text).count ',' ≤ (firstLine text).count ';'
    · rw [if_pos hsecond, hpick, hsemicolon, false_or]
      omega
    · rw [if_neg hsecond, hpick]
      simp only [true_or, true_iff]
      omega

theorem detectDelimiter_csvText :
    detectDelimiter (csvText platform layer) = ',' ↔ CommasWin (headerLine layer) := by
  have hcount : ∀ c ∈ candidates,
      (firstLine (csvText platform layer)).count c = (headerLine layer).count c := by
    intro c hc
    refine count_csvText platform layer fun hreturn => ?_
    rw [hreturn] at hc
    revert hc
    decide
  rw [detectDelimiter_eq, CommasWin, CommasWin, hcount ',' (by decide), hcount '\t' (by decide),
    hcount ';' (by decide)]
  refine or_congr Iff.rfl (forall₂_congr fun c hc => ?_)
  rw [hcount c hc]

end GeneGIS.Toolkit.Csv

/-! ## The columns of an exported file

An imported feature has the typed cells of the columns that are kept, and of the columns of one
name the last one counts. -/

namespace GeneGIS.Toolkit.Csv

open List hiding getElem?_eq_some_iff map_map

/-- A column by its name in the header and the text it has for a feature. -/
structure Column where
  name : String
  text : Feature → String

/-- The columns of a list that starts at `start` whose place is not skipped. -/
def keptFrom (skip : Nat → Bool) (start : Nat) (columns : List Column) : List Column :=
  ((columns.zipIdx start).filter fun c => !skip c.2).map Prod.fst

section

variable {skip : Nat → Bool} {start : Nat}

theorem keptFrom_append (columns columns' : List Column) :
    keptFrom skip start (columns ++ columns') =
      keptFrom skip start columns ++ keptFrom skip (start + columns.length) columns' := by
  rw [keptFrom, zipIdx_append, filter_append, List.map_append]
  rfl

theorem keptFrom_cons (c : Column) (columns : List Column) : keptFrom skip start (c :: columns) =
    if skip start then keptFrom skip (start + 1) columns
    else c :: keptFrom skip (start + 1) columns := by
  rw [keptFrom, zipIdx_cons, filter_cons]
  cases hskip : skip start
  · rfl
  · rfl

theorem keptFrom_eq_self {columns : List Column}
    (h : ∀ i, start ≤ i → i < start + columns.length → skip i = false) :
    keptFrom skip start columns = columns := by
  induction columns generalizing start with
  | nil => rfl
  | cons c rest ih =>
    rw [length_cons] at h
    rw [keptFrom_cons, h start (Nat.le_refl _) (by omega), ih fun i hi hlt => h i (by omega) (by omega)]
    rfl

end

variable (platform : Platform)

def fieldColumn (name : String) : Column where
  name := Text.trim name
  text feature := attributeText platform feature.properties[name]?

def geometryColumn : Column where
  name := "geometry_wkt"
  text feature := String.ofList (geometryText platform feature.geometry)

variable (layer : Layer)

def crsColumnOf : Column := ⟨"crs", fun _ => layer.crs⟩

def columns : List Column :=
  (names layer).map (fieldColumn platform) ++ [geometryColumn platform, crsColumnOf layer]

theorem featureTexts_eq (feature : Feature) : featureTexts platform layer feature =
      (columns platform layer).map fun c => c.text feature := by
  rw [featureTexts, columns, List.map_append, List.map_map]
  rfl

def trimmedHeader : List String := (columns platform layer).map Column.name

def cells (c : Column) : List String := layer.features.map c.text

theorem column_cells (c : Column) {col : Nat} (h : (columns platform layer)[col]? = some c) :
    column (layer.features.map (featureTexts platform layer)) col = cells layer c := by
  rw [column, filterMap_map, cells, ← filterMap_eq_map]
  refine filterMap_congr fun feature _ => ?_
  rw [Function.comp, featureTexts_eq, getElem?_map, h]
  rfl

/-- The value that a cell of a column is read as. -/
def cellValue (c : Column) (feature : Feature) : Value :=
  typedValue platform (c.text feature) (columnType platform (cells layer c))

def lastNamed (kept : List Column) (name : String) : Option Column :=
  (kept.filter fun c => c.name = name).getLast?

theorem rowProperties_eq (skip : Nat → Bool) (feature : Feature) (name : String) :
    (rowProperties platform (trimmedHeader platform layer)
      ((List.range (trimmedHeader platform layer).length).map fun col =>
        columnType platform (column (layer.features.map (featureTexts platform layer)) col))
      skip (featureTexts platform layer feature))[name]? =
      (lastNamed (keptFrom skip 0 (columns platform layer)) name).map
        fun c => cellValue platform layer c feature := by
  have hcell : ∀ c ∈ (columns platform layer).zipIdx,
      (trimmedHeader platform layer).getD c.2 "" = c.1.name ∧
      ((List.range (trimmedHeader platform layer).length).map fun col =>
        columnType platform (column (layer.features.map (featureTexts platform layer)) col)).getD
          c.2 .text = columnType platform (cells layer c.1) := by
    intro c hc
    have hget := mk_mem_zipIdx_iff_getElem?.mp hc
    have hlt : c.2 < (columns platform layer).length := (List.getElem?_eq_some_iff.mp hget).1
    constructor
    · rw [trimmedHeader, getD_eq_getElem?_getD, getElem?_map, hget]
      rfl
    · rw [getD_eq_getElem?_getD, getElem?_map, trimmedHeader, length_map, getElem?_range hlt]
      show columnType platform (column _ c.2) = _
      rw [column_cells platform layer c.1 hget]
  have hfold : rowProperties platform (trimmedHeader platform layer)
      ((List.range (trimmedHeader platform layer).length).map fun col =>
        columnType platform (column (layer.features.map (featureTexts platform layer)) col))
      skip (featureTexts platform layer feature) =
      ((keptFrom skip 0 (columns platform layer)).map fun c =>
        (c.name, cellValue platform layer c feature)).foldl (fun m e => m.insert e.1 e.2) ∅ := by
    rw [rowProperties, featureTexts_eq, zipIdx_map, foldl_map, keptFrom, List.map_map,
      foldl_map, foldl_filter]
    refine foldl_ext _ _ _ fun properties c hc => ?_
    obtain ⟨hname, htype⟩ := hcell c hc
    simp only [Prod.map_fst, Prod.map_snd, id_eq, Function.comp_apply]
    rw [hname, htype, ← cellValue]
    cases skip c.2
    · rfl
    · rfl
  rw [hfold, Keyed.getElem?_foldl_insert, filter_map, getLast?_map, lastNamed,
    Std.ExtTreeMap.getElem?_empty, Option.or_none, Option.map_map]
  simp only [Function.comp_def]

end GeneGIS.Toolkit.Csv
