/-
Every row gives one feature, or none when its geometry cannot be read.
-/
import GeneGIS.Data.Each
import GeneGIS.Toolkit.CsvRows
import GeneGIS.Toolkit.WktFaithful

namespace GeneGIS.Toolkit.Csv

open Fallible Text
open List hiding any_eq_false map_map
open Option hiding any_eq_false map_map

variable (platform : Platform)

/-- The reference system is one that the toolkit knows, under the name it gives it. -/
def Identified (layer : Layer) : Prop :=
  ∃ info, Proj.lookup layer.crs = .ok info ∧ info.id = layer.crs

namespace Identified

variable {layer : Layer}

theorem chars (h : Identified layer) : ∃ digits : List Char, (∀ c ∈ digits, c.isDigit = true) ∧
    layer.crs.toList = 'E' :: 'P' :: 'S' :: 'G' :: ':' :: digits := by
  obtain ⟨info, hlookup, hid⟩ := h
  refine ⟨info.epsg.repr.toList, fun c hc => Json.isDigit_of_mem_natChars hc, ?_⟩
  rw [← hid, Proj.lookup_id hlookup, Proj.epsgName, String.toList_append]
  rfl

theorem solid (h : Identified layer) {c : Char} (hc : c ∈ layer.crs.toList) :
    isWhitespace c = false ∧ needsQuotes c = false := by
  obtain ⟨digits, hdigits, hchars⟩ := h.chars
  have hdigit : ∀ c : Char, c.isDigit = true →
      isWhitespace c = false ∧ needsQuotes c = false := by
    intro c hc
    rw [Char.isDigit, Bool.and_eq_true, decide_eq_true_eq, decide_eq_true_eq] at hc
    have hlow : 48 ≤ c.toNat := hc.1
    have hhigh : c.toNat ≤ 57 := hc.2
    constructor
    · simp [isWhitespace]
      omega
    · have hne : ∀ d : Char, d.toNat < 48 → c ≠ d := by
        intro d hd hcd
        rw [hcd] at hlow
        omega
      simp [needsQuotes, hne ',' (by decide), hne '"' (by decide), hne '\n' (by decide),
        hne '\r' (by decide)]
  rw [hchars] at hc
  simp only [mem_cons] at hc
  rcases hc with rfl | rfl | rfl | rfl | rfl | hc
  · decide
  · decide
  · decide
  · decide
  · decide
  · exact hdigit c (hdigits c hc)

theorem plain (h : Identified layer) : PlainCrs layer := by
  rw [PlainCrs, List.any_eq_false]
  intro c hc
  rw [(h.solid hc).2]
  exact Bool.false_ne_true

theorem trim_eq (h : Identified layer) : Text.trim layer.crs = layer.crs :=
  trim_eq_self fun _ hc => (h.solid hc).1

theorem not_blank (h : Identified layer) : Text.isBlank layer.crs = false := by
  obtain ⟨digits, -, hchars⟩ := h.chars
  refine isBlank_false_of_mem (c := 'E') ?_ (by decide)
  rw [hchars]
  exact mem_cons_self

theorem valueType_eq (hletter : ∀ rest, platform.decimal.parse ('E' :: rest) = none)
    (h : Identified layer) : valueType platform layer.crs = .text := by
  obtain ⟨digits, -, hchars⟩ := h.chars
  have hzero : hasSignificantLeadingZero layer.crs.toList = false := by
    rw [hchars]
    rfl
  have hint : parseI64 layer.crs.toList = none := by
    rw [hchars]
    rfl
  have hnumber : parseNumber platform layer.crs = none := by
    rw [parseNumber, h.trim_eq, hchars, hletter]
    split_ifs <;> rfl
  have hlower : ∃ rest, (Text.toAsciiLowercase layer.crs).toList = 'e' :: rest := by
    rw [Text.toAsciiLowercase, String.toList_ofList, hchars]
    exact ⟨_, rfl⟩
  obtain ⟨rest, hrest⟩ := hlower
  have hword : ∀ word : String, word.toList.head? ≠ some 'e' →
      Text.toAsciiLowercase layer.crs ≠ word := by
    intro word hword heq
    rw [heq] at hrest
    rw [hrest] at hword
    exact hword rfl
  rw [valueType, hzero, hint, hnumber]
  simp [hword "true" (by decide), hword "false" (by decide)]

end Identified

/-! ## The text of the file -/

theorem decodeText_writeCsv (layer : Layer) :
    decodeText platform.encodings (writeCsv platform layer) none =
      .ok (String.ofList (csvText platform layer), "utf-8") := by
  have hmark : writeCsv platform layer =
      [0xEF, 0xBB, 0xBF] ++ Bytes.ofText (String.ofList (csvText platform layer)) := by
    rw [writeCsv, Bytes.ofText_eq, Bytes.ofText_eq, String.toList_ofList, String.toList_ofList,
      flatMap_cons]
    rfl
  have hstrip : stripBom (writeCsv platform layer) =
      Bytes.ofText (String.ofList (csvText platform layer)) := by
    rw [stripBom, hmark, if_pos (prefix_append _ _)]
    rfl
  rw [decodeText, hstrip, Bytes.toText?_ofText]

/-- No name is blank. -/
def Named (layer : Layer) : Prop := ∀ name ∈ names layer, Text.isBlank name = false

theorem headerTexts_trim (layer : Layer) :
    (headerTexts layer).map Text.trim = trimmedHeader platform layer := by
  have hfixed : Text.trim "geometry_wkt" = "geometry_wkt" ∧ Text.trim "crs" = "crs" := by
    decide +kernel
  rw [headerTexts, trimmedHeader, columns, List.map_append, List.map_append, List.map_map]
  show _ ++ [Text.trim "geometry_wkt", Text.trim "crs"] = _
  rw [hfixed.1, hfixed.2]
  rfl

theorem readTable_csvText {layer : Layer} (hcrs : PlainCrs layer) (delimiter : Char)
    (hcomma : delimiter = ',') :
    (Named layer → readTable (csvText platform layer) delimiter =
      .ok (trimmedHeader platform layer, layer.features.map (featureTexts platform layer))) ∧
    (¬ Named layer → ∃ e, readTable (csvText platform layer) delimiter = .error e) := by
  have hempty : (trimmedHeader platform layer).any String.isEmpty = true ↔ ¬ Named layer := by
    have hfixed : "geometry_wkt".isEmpty = false ∧ "crs".isEmpty = false := by decide
    rw [Named, trimmedHeader, columns, List.map_append, List.map_map, List.any_append]
    show ((_ : Bool) || ("geometry_wkt".isEmpty || ("crs".isEmpty || false))) = true ↔ _
    rw [hfixed.1, hfixed.2, Bool.or_false, Bool.or_false, Bool.or_false, List.any_map,
      List.any_eq_true]
    constructor
    · intro h hnamed
      obtain ⟨name, hname, hblank⟩ := h
      have hblank : Text.isBlank name = true := hblank
      rw [hnamed name hname] at hblank
      cases hblank
    · intro h
      by_contra hall
      refine h fun name hname => Bool.eq_false_iff.mpr fun hblank => ?_
      exact hall ⟨name, hname, hblank⟩
  rw [hcomma]
  constructor
  · intro hnamed
    rw [readTable, parseRows_csvText platform hcrs]
    show (if _ then _ else _) = _
    rw [headerTexts_trim platform, if_neg (fun h => hempty.mp h hnamed)]
    rfl
  · intro hnamed
    refine ⟨.importFailed "csv" "header contains an empty column name", ?_⟩
    rw [readTable, parseRows_csvText platform hcrs]
    show (if _ then _ else _) = _
    rw [headerTexts_trim platform, if_pos (hempty.mpr hnamed)]
    rfl

/-- No name is taken for the name of a geometry column. -/
def NoGeometryName (layer : Layer) : Prop :=
  ∀ name ∈ names layer, platform.lower (Text.trim name) ∉ wktNames

theorem geometrySource_header (hlower : platform.lower "geometry_wkt" = "geometry_wkt")
    (layer : Layer) :
    geometrySource platform {} (trimmedHeader platform layer) = .ok (.wkt (names layer).length) ↔
      NoGeometryName platform layer := by
  have hfound : (trimmedHeader platform layer).findIdx? (fun h => platform.lower h ∈ wktNames) =
      (((names layer).map Text.trim).findIdx? fun h => platform.lower h ∈ wktNames).or
        (some (names layer).length) := by
    have hfixed : decide (platform.lower "geometry_wkt" ∈ wktNames) = true := by
      rw [hlower]
      decide
    rw [trimmedHeader, columns, List.map_append, List.map_map, List.findIdx?_append]
    show _ = (findIdx? _ ((names layer).map (Column.name ∘ fieldColumn platform))).or _
    rw [length_map]
    refine congrArg _ ?_
    show Option.map _ (findIdx? _ ["geometry_wkt", "crs"]) = _
    rw [findIdx?_cons, hfixed, if_pos rfl, map_some, Nat.zero_add]
  have hsource : ∀ w, (trimmedHeader platform layer).findIdx? (fun h =>
      platform.lower h ∈ wktNames) = some w →
      geometrySource platform {} (trimmedHeader platform layer) = .ok (.wkt w) := by
    intro w hw
    rw [geometrySource]
    simp only [findColumn, hw]
    cases (trimmedHeader platform layer).findIdx? fun h => platform.lower h ∈ xNames with
    | none => rfl
    | some x =>
      cases (trimmedHeader platform layer).findIdx? fun h => platform.lower h ∈ yNames with
      | none => rfl
      | some y => rfl
  cases hnames : ((names layer).map Text.trim).findIdx? fun h => platform.lower h ∈ wktNames with
  | none =>
    rw [hnames, none_or] at hfound
    refine iff_of_true (hsource _ hfound) fun name hname hmem => ?_
    rw [findIdx?_eq_none_iff] at hnames
    have hnot := hnames _ (mem_map_of_mem hname)
    simp [hmem] at hnot
  | some i =>
    rw [hnames, some_or] at hfound
    obtain ⟨hlt, hmem, -⟩ := findIdx?_eq_some_iff_getElem.mp hnames
    rw [length_map] at hlt
    rw [hsource _ hfound]
    refine iff_of_false (fun h => ?_) (fun h => ?_)
    · injection h with h
      injection h with h
      omega
    · rw [getElem_map, decide_eq_true_eq] at hmem
      exact h _ (getElem_mem hlt) hmem

/-! ## The features -/

def sheetOf (layer : Layer) : Sheet := sheet platform (trimmedHeader platform layer)
    (layer.features.map (featureTexts platform layer)) (.wkt (names layer).length)

def keptColumns (layer : Layer) : List Column :=
  keptFrom (sheetOf platform layer).skip 0 (columns platform layer)

def readGeometry (feature : Feature) : Except Wkt.WktError Geometry :=
  Wkt.read platform.decimal (String.ofList (geometryText platform feature.geometry))

/-- The attributes that a feature comes back with. -/
def importedProperties (layer : Layer) (feature : Feature) : Std.ExtTreeMap String Value :=
  rowProperties platform (sheetOf platform layer).header (sheetOf platform layer).types
    (sheetOf platform layer).skip (featureTexts platform layer feature)

theorem importedProperties_get (layer : Layer) (feature : Feature) (name : String) :
    (importedProperties platform layer feature)[name]? =
      (lastNamed (keptColumns platform layer) name).map
        fun c => cellValue platform layer c feature :=
  rowProperties_eq platform layer _ feature name

variable {layer : Layer}

theorem addRow_featureTexts (hcrs : Identified layer) (state : List Feature × List SkippedRecord)
    (feature : Feature) (place : Nat) :
    addRow platform (sheetOf platform layer) state (featureTexts platform layer feature, place) =
      match readGeometry platform feature with
      | .error e => (state.1, state.2 ++ [⟨place + 2, .wkt e⟩])
      | .ok geometry => (state.1 ++ [{
          id := UInt64.ofNat state.1.length
          geometry := some geometry
          properties := importedProperties platform layer feature }], state.2) := by
  have hblank : ¬ (featureTexts platform layer feature).all Text.isBlank = true := by
    intro hall
    have hcrs' := all_eq_true.mp hall layer.crs (by simp [featureTexts])
    rw [hcrs.not_blank] at hcrs'
    cases hcrs'
  have hlength : ¬ (featureTexts platform layer feature).length ≠
      (sheetOf platform layer).header.length := by
    show ¬ (featureTexts platform layer feature).length ≠ (trimmedHeader platform layer).length
    rw [featureTexts_eq, trimmedHeader, length_map, length_map]
    exact fun h => h rfl
  have hcell : (featureTexts platform layer feature).getD (names layer).length "" =
      String.ofList (geometryText platform feature.geometry) := by
    rw [featureTexts, getD_eq_getElem?_getD, getElem?_append_right (by simp)]
    simp
  have hgeometry : rowGeometry platform (sheetOf platform layer).source
      (featureTexts platform layer feature) =
        (readGeometry platform feature).mapError SkipReason.wkt := by
    have hsource : (sheetOf platform layer).source = .wkt (names layer).length := rfl
    rw [hsource]
    unfold rowGeometry
    dsimp only
    rw [hcell]
    unfold readGeometry
    generalize Wkt.read platform.decimal _ = result
    cases result <;> rfl
  rw [addRow, if_neg hblank, if_neg hlength, hgeometry]
  generalize readGeometry platform feature = result
  cases result <;> rfl

theorem foldl_addRow (hcrs : Identified layer) (features : List Feature) (start : Nat)
    (state : List Feature × List SkippedRecord) :
    (((features.map (featureTexts platform layer)).zipIdx start).foldl
      (addRow platform (sheetOf platform layer)) state).1.map
        (fun f => (f.geometry, f.properties)) =
      state.1.map (fun f => (f.geometry, f.properties)) ++ features.filterMap fun feature =>
        (readGeometry platform feature).toOption.map fun geometry =>
          (some geometry, importedProperties platform layer feature) := by
  induction features generalizing start state with
  | nil => rw [filterMap_nil, append_nil]; rfl
  | cons feature rest ih =>
    rw [map_cons, zipIdx_cons, foldl_cons, ih, addRow_featureTexts platform hcrs]
    cases hread : readGeometry platform feature with
    | error e =>
      rw [filterMap_cons_none (by rw [hread]; rfl)]
    | ok geometry =>
      rw [filterMap_cons_some (by rw [hread]; rfl)]
      simp

/-- The geometry and the text of every attribute are those of the exported feature. -/
def Returned (layer : Layer) (exported imported : Feature) : Prop :=
  imported.geometry = exported.geometry ∧ ∀ name ∈ names layer,
    attributeText platform imported.properties[name]? =
      attributeText platform exported.properties[name]?

/-- A geometry that is there and that its text determines. -/
def HasText (feature : Feature) : Prop := ∃ g, feature.geometry = some g ∧ Wkt.Readable g

theorem readGeometry_iff (hd : platform.decimal.Exact) (feature : Feature) :
    (∃ g, readGeometry platform feature = .ok g ∧ some g = feature.geometry) ↔ HasText feature := by
  rw [HasText, readGeometry]
  cases hgeometry : feature.geometry with
  | none =>
    refine iff_of_false (fun h => ?_) (fun h => ?_)
    · obtain ⟨g, -, hg⟩ := h
      cases hg
    · obtain ⟨g, hg, -⟩ := h
      cases hg
  | some g =>
    obtain ⟨hgood, hbad⟩ : (Wkt.Readable (g.normalise platform.outlines) → _) ∧ _ :=
      Wkt.read_write hd g
    show (∃ g', Wkt.read platform.decimal (String.ofList (Wkt.write _ _ g)) = .ok g' ∧ _) ↔ _
    constructor
    · intro h
      obtain ⟨g', hread, hsame⟩ := h
      rw [Option.some.injEq] at hsame
      rw [hsame] at hread
      by_cases hreadable : Wkt.Readable (g.normalise platform.outlines)
      · have hnormal := hgood hreadable
        rw [hread, Except.ok.injEq] at hnormal
        rw [← hnormal] at hreadable
        exact ⟨g, rfl, hreadable⟩
      · obtain ⟨e, he⟩ := hbad hreadable
        rw [hread] at he
        cases he
    · intro h
      obtain ⟨g', hsame, hreadable⟩ := h
      rw [Option.some.injEq] at hsame
      rw [← hsame] at hreadable
      have hnormal : g.normalise platform.outlines = g := Wkt.normalise_of_readable g hreadable
      rw [hnormal] at hgood
      exact ⟨g, hgood hreadable, rfl⟩

/-- The text that an attribute comes back with. -/
def returnedText (layer : Layer) (feature : Feature) (name : String) : String :=
  attributeText platform ((lastNamed (keptColumns platform layer) name).map
    fun c => cellValue platform layer c feature)

def importedFeatures (layer : Layer) : List Feature :=
  (((layer.features.map (featureTexts platform layer)).zipIdx).foldl
    (addRow platform (sheetOf platform layer)) ([], [])).1

theorem forall₂_returned (hd : platform.decimal.Exact) (hcrs : Identified layer) :
    Forall₂ (Returned platform layer) layer.features (importedFeatures platform layer) ↔
      ∀ feature ∈ layer.features, HasText feature ∧ ∀ name ∈ names layer,
        returnedText platform layer feature name =
          attributeText platform feature.properties[name]? := by
  have hmapped : Forall₂ (Returned platform layer) layer.features
      (importedFeatures platform layer) ↔
      Forall₂ (fun f r => r.1 = f.geometry ∧ ∀ name ∈ names layer,
        attributeText platform r.2[name]? = attributeText platform f.properties[name]?)
        layer.features
        ((importedFeatures platform layer).map fun f => (f.geometry, f.properties)) := by
    rw [forall₂_map_right_iff]
    rfl
  rw [hmapped, importedFeatures, foldl_addRow platform hcrs, map_nil, nil_append,
    Each.forall₂_filterMap]
  refine forall₂_congr fun feature _ => ?_
  rw [← readGeometry_iff platform hd]
  constructor
  · intro h
    obtain ⟨r, hr, hgeometry, htexts⟩ := h
    cases hread : readGeometry platform feature with
    | error e =>
      rw [hread] at hr
      cases hr
    | ok g =>
      rw [hread] at hr
      cases hr
      refine ⟨⟨g, rfl, hgeometry⟩, fun name hname => ?_⟩
      rw [returnedText, ← importedProperties_get]
      exact htexts name hname
  · intro h
    obtain ⟨⟨g, hread, hgeometry⟩, htexts⟩ := h
    refine ⟨_, by rw [hread]; rfl, hgeometry, fun name hname => ?_⟩
    show attributeText platform (importedProperties platform layer feature)[name]? = _
    rw [importedProperties_get]
    exact htexts name hname

/-! ## The file -/

def Settled (layer : Layer) (declared : Option String) : Prop :=
  match declared with
  | some name => ∃ info, Proj.lookup name = .ok info
  | none => layer.coordinatesLookGeographic = true

theorem settleCrs_some (layer : Layer) (name : String) : settleCrs {} (some name) layer =
    (Proj.lookup name).bind fun info => .ok ({ layer with crs := info.id, crsStatus := .declared },
      ["CRS " ++ info.id ++ " read from the crs column"]) := by
  unfold settleCrs
  dsimp only
  generalize Proj.lookup name = result
  rfl

theorem settleCrs_none (layer : Layer) : settleCrs {} none layer =
    if layer.features.isEmpty then .ok (layer, [])
    else if layer.coordinatesLookGeographic then
      .ok ({ layer with crsStatus := .inferred }, [inferredNote])
    else .error (.crsRequired unknownCrs) := by
  unfold settleCrs
  dsimp only

theorem settleCrs_iff (layer : Layer) (declared : Option String) :
    (Settled layer declared → ∃ settled notes, settleCrs {} declared layer = .ok (settled, notes) ∧
      settled.features = layer.features) ∧
    (¬ Settled layer declared → ∃ e, settleCrs {} declared layer = .error e) := by
  cases declared with
  | some name =>
    cases hlookup : Proj.lookup name with
    | ok info =>
      refine ⟨fun _ => ⟨{ layer with crs := info.id, crsStatus := .declared },
        ["CRS " ++ info.id ++ " read from the crs column"], ?_, rfl⟩,
        fun h => absurd ⟨info, hlookup⟩ h⟩
      rw [settleCrs_some, hlookup, Except.bind]
    | error e =>
      refine ⟨fun h => ?_, fun _ => ⟨e, ?_⟩⟩
      · obtain ⟨info, hinfo⟩ := h
        rw [hlookup] at hinfo
        cases hinfo
      · rw [settleCrs_some, hlookup, Except.bind]
  | none =>
    have hempty : layer.features.isEmpty = true → layer.coordinatesLookGeographic = true := by
      intro h
      rw [Layer.coordinatesLookGeographic, isEmpty_iff.mp h, filterMap_nil, all_nil]
    constructor
    · intro h
      have hgeographic : layer.coordinatesLookGeographic = true := h
      rw [settleCrs_none]
      by_cases hnone : layer.features.isEmpty = true
      · exact ⟨layer, [], by rw [if_pos hnone], rfl⟩
      · exact ⟨{ layer with crsStatus := .inferred }, [inferredNote],
          by rw [if_neg hnone, if_pos hgeographic], rfl⟩
    · intro h
      have hgeographic : ¬ layer.coordinatesLookGeographic = true := h
      refine ⟨.crsRequired unknownCrs, ?_⟩
      rw [settleCrs_none, if_neg fun hnone => h (hempty hnone), if_neg hgeographic]

def declaredOf (layer : Layer) : Option String :=
  declaredCrs (trimmedHeader platform layer) (layer.features.map (featureTexts platform layer))

/-- The layer before its reference system is settled. -/
def baseLayer (layer : Layer) : Layer where
  name := ""
  crs := "EPSG:4326"
  crsStatus := .inferred
  features := importedFeatures platform layer

theorem read_writeCsv (hcrs : Identified layer) (hcommas : CommasWin (headerLine layer))
    (hnamed : Named layer)
    (hsource : geometrySource platform {} (trimmedHeader platform layer) =
      .ok (.wkt (names layer).length)) :
    (Settled (baseLayer platform layer) (declaredOf platform layer) → ∃ imported report,
      read platform (writeCsv platform layer) {} {} = .ok (imported, report) ∧
        imported.features = importedFeatures platform layer) ∧
    (¬ Settled (baseLayer platform layer) (declaredOf platform layer) →
      ∃ e, read platform (writeCsv platform layer) {} {} = .error e) := by
  have hdelimiter := (detectDelimiter_csvText platform layer).mpr hcommas
  have htable := (readTable_csvText platform hcrs.plain _ hdelimiter).1 hnamed
  have hread : read platform (writeCsv platform layer) {} {} =
      (settleCrs {} (declaredOf platform layer) (baseLayer platform layer)).bind fun r =>
        .ok (r.1.refreshSchema,
          { encoding := some "utf-8"
            skipped := (((layer.features.map (featureTexts platform layer)).zipIdx).foldl
              (addRow platform (sheetOf platform layer)) ([], [])).2
            notes := sourceNote (trimmedHeader platform layer) (.wkt (names layer).length) ::
              r.2 }) := by
    rw [read, decodeText_writeCsv]
    show (readTable (String.ofList (csvText platform layer)).toList
      (detectDelimiter (String.ofList (csvText platform layer)).toList)).bind _ = _
    rw [String.toList_ofList, htable]
    show (geometrySource platform {} (trimmedHeader platform layer)).bind _ = _
    rw [hsource]
    rfl
  obtain ⟨hok, herror⟩ := settleCrs_iff (baseLayer platform layer) (declaredOf platform layer)
  constructor
  · intro hsettled
    obtain ⟨settled, notes, hsettle, hfeatures⟩ := hok hsettled
    rw [hread, hsettle]
    exact ⟨_, _, rfl, hfeatures⟩
  · intro hsettled
    obtain ⟨e, he⟩ := herror hsettled
    rw [hread, he]
    exact ⟨e, rfl⟩

end GeneGIS.Toolkit.Csv
