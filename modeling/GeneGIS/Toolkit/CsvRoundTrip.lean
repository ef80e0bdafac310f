/-
The reader goes by names and by what values look like, so a layer comes back exactly when its file
is unambiguous.
-/
import GeneGIS.Toolkit.CsvFeatures

namespace GeneGIS.Toolkit.Csv

open Text

open List hiding all_eq_true filter_map map_map
open Option hiding all_eq_true filter_map map_map
open Bool hiding and_assoc false_or

/-! ## Columns of one name -/

/-- The last name that is the given one without the blanks around it. -/
def lastTrimmed (list : List String) (name : String) : Option String :=
  (list.filter fun a => trim a = name).getLast?

theorem lastTrimmed_some {list : List String} {name a : String}
    (h : lastTrimmed list name = some a) : a ∈ list ∧ trim a = name := by
  have hmem := mem_filter.mp (mem_of_getLast? h)
  exact ⟨hmem.1, by simpa using hmem.2⟩

variable {front rest : List String} {a : String}

theorem lastTrimmed_again (h : a ∈ rest) (name : String) :
    lastTrimmed (front ++ a :: rest) name = lastTrimmed (front ++ rest) name := by
  rw [lastTrimmed, lastTrimmed, filter_append, filter_append, filter_cons]
  by_cases ha : trim a = name
  · have hne : (rest.filter fun a => trim a = name) ≠ [] :=
      ne_nil_of_mem (mem_filter.mpr ⟨h, by simpa using ha⟩)
    obtain ⟨last, hlast⟩ := isSome_iff_exists.mp (getLast?_isSome.mpr hne)
    rw [if_pos (by simpa using ha), getLast?_append, getLast?_append, getLast?_cons, hlast]
    rfl
  · rw [if_neg (by simpa using ha)]

section

variable {list kept : List String} {features : List Feature} {text shown : String → Feature → String}

/-- Every name with a text is the last one that is kept under it. -/
def Own (list kept : List String) (features : List Feature) (text : String → Feature → String) :
    Prop :=
  ∀ name ∈ list, name ≠ "crs" → (∃ feature ∈ features, text name feature ≠ "") →
    lastTrimmed kept name = some name

/-- An untrimmed name finds no column, so it may have no text, and then it does not stand in the way
of the trimmed one. -/
theorem shown_iff (hkept : ∀ name ∈ kept, name ∈ list)
    (hempty : ∀ name feature, text name feature = "" → shown name feature = "") :
    (∀ feature ∈ features, ∀ name ∈ list, name ≠ "crs" →
      (lastTrimmed kept name).elim "" (fun a => shown a feature) = text name feature) ↔
    Own list kept features text ∧ ∀ feature ∈ features, ∀ name ∈ list, name ≠ "crs" →
      shown name feature = text name feature := by
  have htrimmed : ∀ name a, lastTrimmed kept name = some a → trim name = name := by
    intro name a ha
    rw [← (lastTrimmed_some ha).2, trim_trim]
  have hcrs : trim "crs" = "crs" := trim_eq_self (by decide)
  have hother : ∀ name a, lastTrimmed kept name = some a → name ≠ "crs" → a ≠ "crs" := by
    intro name a ha hname heq
    rw [heq] at ha
    exact hname ((lastTrimmed_some ha).2.symm.trans hcrs)
  constructor
  · intro h
    have hown : Own list kept features text := by
      intro name hname hne htext
      obtain ⟨feature, hfeature, htext⟩ := htext
      have hback := h feature hfeature name hname hne
      cases hlast : lastTrimmed kept name with
      | none =>
        rw [hlast] at hback
        exact absurd hback.symm htext
      | some a =>
        obtain ⟨hmem, htrim⟩ := lastTrimmed_some hlast
        by_cases ha : a = name
        · rw [ha]
        · -- The column of `a` stands for `name`, and `a` itself has none.
          have hnone : lastTrimmed kept a = none := by
            cases hlast' : lastTrimmed kept a with
            | none => rfl
            | some b =>
              rw [htrimmed a b hlast'] at htrim
              exact absurd htrim ha
          have hblank := h feature hfeature a (hkept a hmem) (hother name a hlast hne)
          rw [hnone] at hblank
          rw [hlast] at hback
          have hshown := hempty a feature hblank.symm
          rw [elim_some, hshown] at hback
          exact absurd hback.symm htext
    refine ⟨hown, fun feature hfeature name hname hne => ?_⟩
    by_cases htext : ∃ feature ∈ features, text name feature ≠ ""
    · have hback := h feature hfeature name hname hne
      rw [hown name hname hne htext] at hback
      exact hback
    · have hblank : text name feature = "" := by
        by_contra hsome
        exact htext ⟨feature, hfeature, hsome⟩
      rw [hblank, hempty name feature hblank]
  · intro h feature hfeature name hname hne
    obtain ⟨hown, hshown⟩ := h
    by_cases htext : ∃ feature ∈ features, text name feature ≠ ""
    · rw [hown name hname hne htext]
      exact hshown feature hfeature name hname hne
    · have hblank : ∀ feature ∈ features, text name feature = "" := by
        intro feature hfeature
        by_contra hsome
        exact htext ⟨feature, hfeature, hsome⟩
      rw [hblank feature hfeature]
      cases hlast : lastTrimmed kept name with
      | none => rfl
      | some a =>
        obtain ⟨hmem, htrim⟩ := lastTrimmed_some hlast
        refine hempty a feature ?_
        by_cases hsome : ∃ feature ∈ features, text a feature ≠ ""
        · have hself := hown a (hkept a hmem) (hother name a hlast hne) hsome
          rw [htrimmed a a hself] at htrim
          rw [htrim]
          exact hblank feature hfeature
        · by_contra htext
          exact hsome ⟨feature, hfeature, htext⟩

end

section

variable {skip : Nat → Bool} (fields front rest : List Column) (a g e : Column)

theorem kept_geometry (h : ∀ i, skip i = decide (i = fields.length)) :
    keptFrom skip 0 (fields ++ [g, e]) = fields ++ [e] := by
  rw [keptFrom_append, keptFrom_eq_self, keptFrom_cons, keptFrom_eq_self]
  · rw [h, Nat.zero_add, if_pos (by simp)]
  · intro i hi hlt
    rw [h, decide_eq_false_iff_not]
    omega
  · intro i hi hlt
    rw [h, decide_eq_false_iff_not]
    omega

theorem kept_both (h : ∀ i, skip i = decide (i = fields.length ∨ i = fields.length + 1)) :
    keptFrom skip 0 (fields ++ [g, e]) = fields := by
  rw [keptFrom_append, keptFrom_eq_self, keptFrom_cons, keptFrom_cons]
  · rw [h, h, Nat.zero_add, if_pos (by simp), if_pos (by simp)]
    exact append_nil _
  · intro i hi hlt
    rw [h, decide_eq_false_iff_not]
    omega

theorem kept_named (h : ∀ i, skip i = decide (i = (front ++ a :: rest).length ∨ i = front.length)) :
    keptFrom skip 0 (front ++ a :: rest ++ [g, e]) = front ++ rest ++ [e] := by
  have hlength : (front ++ a :: rest).length = front.length + (rest.length + 1) := by
    rw [length_append, length_cons]
  rw [append_assoc, cons_append, keptFrom_append, keptFrom_eq_self, keptFrom_cons,
    keptFrom_append, keptFrom_eq_self, keptFrom_cons, keptFrom_eq_self]
  · rw [h, h, hlength, Nat.zero_add, if_pos (by simp), if_pos, append_assoc]
    rw [decide_eq_true_eq]
    omega
  · intro i hi hlt
    rw [h, decide_eq_false_iff_not, hlength]
    simp only [length_singleton] at hlt
    omega
  · intro i hi hlt
    rw [h, decide_eq_false_iff_not, hlength]
    omega
  · intro i hi hlt
    rw [h, decide_eq_false_iff_not, hlength]
    omega

end

variable (platform : Platform)

/-! ## Values -/

/-- A text that a column of a type gives back: not blank, and a number or a truth value as it is
printed. -/
def keeps (type : ColumnType) (text : String) : Bool := text.isEmpty || !isBlank text &&
    match type with
    | .integer => (parseI64 (trim text).toList).all fun n => n.repr = text
    | .float => (parseNumber platform (trim text)).all fun x => platform.floatText x = text
    | .boolean => text = "true" || text = "false"
    | .text => true

theorem typedValue_blank {text : String} (h : isBlank text = true) (type : ColumnType) :
    typedValue platform text type = .null :=
  if_pos h

theorem typedValue_empty (type : ColumnType) :
    attributeText platform (some (typedValue platform "" type)) = "" := by
  rw [typedValue_blank platform (by decide)]
  rfl

theorem parseNumber_finite {text : String} {x : F64} (h : parseNumber platform text = some x) :
    x.isFinite = true := by
  rw [parseNumber] at h
  split_ifs at h
  exact (filter_eq_some_iff.mp h).2

theorem keeps_iff (text : String) (type : ColumnType) :
    attributeText platform (some (typedValue platform text type)) = text ↔
      keeps platform type text = true := by
  by_cases hempty : text = ""
  · rw [hempty, typedValue_empty]
    exact iff_of_true rfl rfl
  have hne : text.isEmpty = false := by simpa [String.isEmpty_iff] using hempty
  cases hblank : isBlank text with
  | true =>
    rw [typedValue_blank platform hblank, keeps.eq_def, hne, hblank]
    exact iff_of_false (fun h => hempty h.symm) (by simp)
  | false =>
    have hsome : (trim text).isEmpty = false := hblank
    rw [typedValue.eq_def, keeps.eq_def, hne, hblank, Bool.false_or, Bool.not_false, Bool.true_and]
    dsimp only
    rw [if_neg (by rw [hsome]; exact false_ne_true)]
    cases type with
    | integer =>
      cases parseI64 (trim text).toList with
      | none => exact iff_of_true rfl rfl
      | some n =>
        show String.ofList n.repr.toList = text ↔ decide (n.repr = text) = true
        rw [String.ofList_toList, decide_eq_true_eq]
    | float =>
      cases hnumber : parseNumber platform (trim text) with
      | none => exact iff_of_true rfl rfl
      | some x =>
        have hvalue : Value.ofF64 x =
            ⟨.num (.float x (parseNumber_finite platform hnumber)), trivial⟩ :=
          dif_pos (parseNumber_finite platform hnumber)
        show attributeText platform (some (Value.ofF64 x)) = text ↔
          decide (platform.floatText x = text) = true
        rw [hvalue, decide_eq_true_eq]
        show String.ofList (platform.floatText x).toList = text ↔ _
        rw [String.ofList_toList]
    | boolean =>
      have hword : ∀ b : Bool, attributeText platform (some (.bool b)) =
          if b then "true" else "false" := by
        intro b
        cases b <;> rfl
      show attributeText platform (some (.bool (decide _))) = text ↔ _
      rw [hword, or_eq_true]
      simp only [decide_eq_true_eq]
      have hfixed : toAsciiLowercase (trim "true") = "true" ∧
          toAsciiLowercase (trim "false") ≠ "true" := by decide
      constructor
      · intro h
        rw [← h]
        split_ifs
        · exact .inl rfl
        · exact .inr rfl
      · intro h
        rcases h with h | h
        · rw [h, if_pos (by simpa using hfixed.1)]
        · rw [h, if_neg (by simpa using hfixed.2)]
    | text => exact iff_of_true rfl rfl

theorem columnType_text {cells : List String}
    (h : ∀ cell ∈ cells, valueType platform (trim cell) = .text) :
    columnType platform cells = .text := by
  have hfold : ∀ (values : List String) (kind : Option ColumnType), kind.getD .text = .text →
      (∀ v ∈ values, valueType platform v = .text) →
      (values.foldl (fun kind v => some (kind.elim (valueType platform v) fun known =>
        known.widen (valueType platform v))) kind).getD .text = .text := by
    intro values
    induction values with
    | nil => exact fun _ hkind _ => hkind
    | cons v rest ih =>
      intro kind hkind hvalues
      obtain ⟨hv, hrest⟩ := forall_mem_cons.mp hvalues
      refine ih _ ?_ hrest
      cases kind with
      | none => exact hv
      | some known =>
        have hknown : known = .text := hkind
        show known.widen (valueType platform v) = .text
        rw [hknown, hv]
        rfl
  refine hfold _ none rfl fun v hv => ?_
  obtain ⟨cell, hcell, htrim⟩ := mem_map.mp (mem_filter.mp hv).1
  rw [← htrim]
  exact h cell hcell

/-! ## The column of the reference system -/

theorem agreed_of_all {cells : List String} {value : String} (h : ∀ cell ∈ cells, cell = value)
    (htrim : trim value = value) (hblank : isBlank value = false) :
    agreed cells = if cells.isEmpty then none else some value := by
  have hempty : value.isEmpty = false := by
    rw [isBlank, htrim] at hblank
    exact hblank
  have hcells : (cells.map trim).filter (fun v => !v.isEmpty) = cells := by
    have hmap : cells.map trim = cells := by
      refine (map_congr_left fun cell hcell => ?_).trans (map_id _)
      rw [h cell hcell, htrim]
      rfl
    rw [hmap, filter_eq_self]
    intro cell hcell
    rw [h cell hcell, hempty]
    rfl
  rw [agreed, hcells]
  cases cells with
  | nil => rfl
  | cons first others =>
    obtain ⟨hfirst, hothers⟩ := forall_mem_cons.mp h
    have hall : others.all (fun v => v = first) = true := by
      rw [List.all_eq_true]
      intro cell hcell
      rw [hothers cell hcell, hfirst, decide_eq_true rfl]
    show (if _ then _ else _) = _
    rw [if_pos hall, hfirst]
    rfl

theorem exists_of_agreed {cells : List String} {value : String} (h : agreed cells = some value) :
    ∃ cell ∈ cells, cell ≠ "" := by
  rw [agreed] at h
  cases hvalues : (cells.map trim).filter fun v => !v.isEmpty with
  | nil =>
    rw [hvalues] at h
    cases h
  | cons first others =>
    have hmem : first ∈ (cells.map trim).filter fun v => !v.isEmpty := by
      rw [hvalues]
      exact mem_cons_self
    obtain ⟨hmap, hnonempty⟩ := mem_filter.mp hmem
    obtain ⟨cell, hcell, htrim⟩ := mem_map.mp hmap
    refine ⟨cell, hcell, fun hblank => ?_⟩
    rw [← htrim, hblank] at hnonempty
    exact absurd hnonempty (by decide)

/-- The name is read as that of the column of the reference system. -/
def namesCrs (name : String) : Bool := isCrsName (trim name)

theorem namesCrs_crs : namesCrs "crs" = true := by rfl

variable {layer : Layer}

theorem crsColumn_own (h : (names layer).find? namesCrs = none) :
    crsColumn (trimmedHeader platform layer) = some ((names layer).length + 1) := by
  have hnames : ((names layer).map (Column.name ∘ fieldColumn platform)).findIdx? isCrsName =
      none := by
    rw [List.findIdx?_eq_none_iff]
    intro name hname
    obtain ⟨a, ha, rfl⟩ := mem_map.mp hname
    exact not_eq_true _ ▸ find?_eq_none.mp h a ha
  have hfixed : isCrsName "geometry_wkt" = false ∧ isCrsName "crs" = true := by decide
  rw [crsColumn, trimmedHeader, columns, List.map_append, List.map_map, List.findIdx?_append,
    hnames, length_map, none_or]
  show Option.map _ (findIdx? isCrsName ["geometry_wkt", "crs"]) = _
  rw [findIdx?_cons, hfixed.1, findIdx?_cons, hfixed.2]
  simp
  omega

theorem crsColumn_named (hnames : names layer = front ++ a :: rest) (ha : namesCrs a = true)
    (hfront : ∀ b ∈ front, namesCrs b = false) :
    crsColumn (trimmedHeader platform layer) = some front.length := by
  have hnone : (front.map (Column.name ∘ fieldColumn platform)).findIdx? isCrsName = none := by
    rw [List.findIdx?_eq_none_iff]
    intro name hname
    obtain ⟨b, hb, rfl⟩ := mem_map.mp hname
    exact hfront b hb
  have hfound : isCrsName (fieldColumn platform a).name = true := ha
  rw [crsColumn, trimmedHeader, columns, hnames, List.map_append, List.map_map, List.map_append,
    map_cons, append_assoc, List.findIdx?_append, hnone, none_or, cons_append,
    findIdx?_cons, Function.comp, hfound]
  simp

theorem declaredOf_column {col : Nat} {c : Column}
    (hcol : crsColumn (trimmedHeader platform layer) = some col)
    (hc : (columns platform layer)[col]? = some c) :
    declaredOf platform layer = agreed (cells layer c) := by
  rw [declaredOf, declaredCrs, hcol, bind_some, column_cells platform layer c hc]

theorem skip_eq {col : Nat} (hcol : crsColumn (trimmedHeader platform layer) = some col) (i : Nat) :
    (sheetOf platform layer).skip i = decide (i = (names layer).length ∨
      (declaredOf platform layer).isSome = true ∧ i = col) := by
  show (decide (GeometrySource.wkt (names layer).length = .wkt i) ||
    (declaredOf platform layer).isSome &&
      decide (crsColumn (trimmedHeader platform layer) = some i)) = _
  rw [hcol, decide_or, decide_and]
  refine congr (congrArg _ ?_) (congr (congrArg _ ?_) ?_)
  · exact decide_eq_decide.mpr ⟨fun h => (GeometrySource.wkt.inj h).symm, fun h => by rw [h]⟩
  · exact decide_eq_true.symm
  · exact decide_eq_decide.mpr ⟨fun h => (Option.some.inj h).symm, fun h => by rw [h]⟩

def exportedText (name : String) (feature : Feature) : String :=
  attributeText platform feature.properties[name]?

variable (layer : Layer)

/-- The text that the column of a field comes back with. -/
def shownText (name : String) (feature : Feature) : String :=
  attributeText platform (some (cellValue platform layer (fieldColumn platform name) feature))

def textsOf (name : String) : List String := layer.features.map (exportedText platform name)

/-- The column of the reference system is the one of the export, or it does no harm. -/
def CrsNameFits (name : String) : Prop := name = "crs" ∨
    match agreed (textsOf platform layer name) with
    | some declared => (∃ info, Proj.lookup declared = .ok info) ∧ 2 ≤ (names layer).count name
    | none => layer.coordinatesLookGeographic = true

structure Unambiguous (layer : Layer) : Prop where
  commas : CommasWin (headerLine layer)
  named : Named layer
  noGeometryName : NoGeometryName platform layer
  geometries : ∀ feature ∈ layer.features, HasText feature
  own : Own (names layer) (names layer) layer.features (exportedText platform)
  kept : ∀ feature ∈ layer.features, ∀ name ∈ names layer, name ≠ "crs" →
    keeps platform (columnType platform (textsOf platform layer name))
      (exportedText platform name feature) = true
  crsTexts : "crs" ∈ names layer → ∀ feature ∈ layer.features,
    exportedText platform "crs" feature = layer.crs
  crsName : ∀ name, (names layer).find? namesCrs = some name → CrsNameFits platform layer name

theorem shownText_eq_iff (name : String) (feature : Feature) :
    shownText platform layer name feature = exportedText platform name feature ↔
      keeps platform (columnType platform (textsOf platform layer name))
        (exportedText platform name feature) = true :=
  keeps_iff platform _ _

theorem shownText_empty (name : String) (feature : Feature)
    (h : exportedText platform name feature = "") : shownText platform layer name feature = "" := by
  have hcell : cellValue platform layer (fieldColumn platform name) feature =
      typedValue platform (exportedText platform name feature)
        (columnType platform (textsOf platform layer name)) := rfl
  rw [shownText, hcell, h, typedValue_empty]

/-! ## What comes back -/

theorem lastNamed_fields (list : List String) (name : String) :
    lastNamed (list.map (fieldColumn platform)) name =
      (lastTrimmed list name).map (fieldColumn platform) := by
  rw [lastNamed, lastTrimmed, List.filter_map, List.getLast?_map]
  rfl

theorem lastNamed_crs (kept : List Column) (name : String) :
    lastNamed (kept ++ [crsColumnOf layer]) name =
      if name = "crs" then some (crsColumnOf layer) else lastNamed kept name := by
  rw [lastNamed, filter_append, filter_cons, filter_nil]
  by_cases hname : name = "crs"
  · have hself : decide ((crsColumnOf layer).name = name) = true := decide_eq_true hname.symm
    rw [if_pos hname, if_pos hself, getLast?_concat]
  · have hother : ¬ decide ((crsColumnOf layer).name = name) = true := by
      rw [decide_eq_true_eq]
      exact fun h => hname h.symm
    rw [if_neg hname, if_neg hother, append_nil, lastNamed]

theorem attributeText_fields (feature : Feature) (list : List String) (name : String) :
    attributeText platform ((lastNamed (list.map (fieldColumn platform)) name).map fun c =>
      cellValue platform layer c feature) =
      (lastTrimmed list name).elim "" fun a => shownText platform layer a feature := by
  rw [lastNamed_fields, Option.map_map]
  cases lastTrimmed list name with
  | none => rfl
  | some a => rw [map_some, elim_some, shownText, Function.comp]

variable {platform} {layer : Layer}

theorem crsColumn_text (hletter : ∀ rest, platform.decimal.parse ('E' :: rest) = none)
    (hcrs : Identified layer) (feature : Feature) :
    attributeText platform (some (cellValue platform layer (crsColumnOf layer) feature)) =
      layer.crs := by
  have htype : columnType platform (cells layer (crsColumnOf layer)) = .text := by
    refine columnType_text platform fun cell hcell => ?_
    obtain ⟨feature, -, rfl⟩ := mem_map.mp hcell
    show valueType platform (trim layer.crs) = .text
    rw [hcrs.trim_eq, hcrs.valueType_eq platform hletter]
  rw [cellValue, htype]
  refine (keeps_iff platform layer.crs .text).mpr ?_
  rw [keeps.eq_def, hcrs.not_blank]
  simp

theorem returned_with_crs (hletter : ∀ rest, platform.decimal.parse ('E' :: rest) = none)
    (hcrs : Identified layer) {list : List String} (hlist : ∀ name ∈ list, name ∈ names layer)
    (hkept : keptColumns platform layer = list.map (fieldColumn platform) ++ [crsColumnOf layer]) :
    (∀ feature ∈ layer.features, ∀ name ∈ names layer,
      returnedText platform layer feature name = exportedText platform name feature) ↔
    Own (names layer) list layer.features (exportedText platform) ∧
      (∀ feature ∈ layer.features, ∀ name ∈ names layer, name ≠ "crs" →
        keeps platform (columnType platform (textsOf platform layer name))
          (exportedText platform name feature) = true) ∧
      ("crs" ∈ names layer → ∀ feature ∈ layer.features,
        exportedText platform "crs" feature = layer.crs) := by
  have hother : ∀ feature name, name ≠ "crs" → returnedText platform layer feature name =
      (lastTrimmed list name).elim "" fun a => shownText platform layer a feature := by
    intro feature name hname
    rw [returnedText, hkept, lastNamed_crs, if_neg hname, attributeText_fields]
  have hsame : ∀ feature, returnedText platform layer feature "crs" = layer.crs := by
    intro feature
    rw [returnedText, hkept, lastNamed_crs, if_pos rfl, map_some, crsColumn_text hletter hcrs]
  have hshown := @shown_iff _ _ layer.features _ _ hlist (shownText_empty platform layer)
  simp only [shownText_eq_iff] at hshown
  rw [← and_assoc, ← hshown]
  constructor
  · intro h
    constructor
    · intro feature hfeature name hname hne
      rw [← hother feature name hne]
      exact h feature hfeature name hname
    · intro hmem feature hfeature
      rw [← h feature hfeature "crs" hmem, hsame]
  · intro h feature hfeature name hname
    by_cases hne : name = "crs"
    · rw [hne] at hname
      rw [hne, hsame, h.2 hname feature hfeature]
    · rw [hother feature name hne]
      exact h.1 feature hfeature name hname hne

theorem geographic_of_empty (h : layer.features = []) : layer.coordinatesLookGeographic = true := by
  rw [Layer.coordinatesLookGeographic, h, filterMap_nil, all_nil]

theorem own_again (hnames : names layer = front ++ a :: rest)
    (ha : namesCrs a = true) (hfront : ∀ b ∈ front, namesCrs b = false) (hne : a ≠ "crs")
    (htext : ∃ feature ∈ layer.features, exportedText platform a feature ≠ "") :
    Own (names layer) (front ++ rest) layer.features (exportedText platform) ↔
      Own (names layer) (names layer) layer.features (exportedText platform) ∧
        2 ≤ (names layer).count a := by
  have hnot : a ∉ front := by
    intro hmem
    rw [hfront a hmem] at ha
    cases ha
  have hcount : (names layer).count a = rest.count a + 1 := by
    rw [hnames, count_append, count_cons_self, count_eq_zero.mpr hnot, Nat.zero_add]
  have hsame : a ∈ rest → (Own (names layer) (front ++ rest) layer.features
      (exportedText platform) ↔
        Own (names layer) (names layer) layer.features (exportedText platform)) := by
    intro hrest
    refine forall_congr' fun name => ?_
    rw [← lastTrimmed_again hrest name, ← hnames]
  constructor
  · intro hown
    have hlast := hown a (by rw [hnames]; simp) hne htext
    have hrest : a ∈ rest := (mem_append.mp (lastTrimmed_some hlast).1).resolve_left hnot
    have hpos := count_pos_iff.mpr hrest
    exact ⟨(hsame hrest).mp hown, by omega⟩
  · intro h
    have hrest : a ∈ rest := by
      rw [← count_pos_iff]
      omega
    exact (hsame hrest).mpr h.1

theorem own_without_crs (hnames : names layer = front ++ "crs" :: rest) :
    Own (names layer) (front ++ rest) layer.features (exportedText platform) ↔
      Own (names layer) (names layer) layer.features (exportedText platform) := by
  have hcrs : trim "crs" = "crs" := trim_eq_self (by decide)
  refine forall₂_congr fun name _ => forall_congr' fun hne => ?_
  have hother : ¬ decide (trim "crs" = name) = true := by
    rw [hcrs, decide_eq_true_eq]
    exact fun h => hne h.symm
  have hlast : lastTrimmed (names layer) name = lastTrimmed (front ++ rest) name := by
    rw [lastTrimmed, lastTrimmed, hnames, filter_append, filter_append, filter_cons, if_neg hother]
  rw [hlast]

def AllReturned (platform : Platform) (layer : Layer) : Prop :=
  ∀ feature ∈ layer.features, ∀ name ∈ names layer,
    returnedText platform layer feature name = exportedText platform name feature

theorem settled_iff_own (hcrs : Identified layer) (h : (names layer).find? namesCrs = none) :
    Settled layer (declaredOf platform layer) ∧ AllReturned platform layer ↔
      Own (names layer) (names layer) layer.features (exportedText platform) ∧
      ∀ feature ∈ layer.features, ∀ name ∈ names layer, name ≠ "crs" →
        keeps platform (columnType platform (textsOf platform layer name))
          (exportedText platform name feature) = true := by
  have hcol := crsColumn_own platform h
  have hplace : (columns platform layer)[(names layer).length + 1]? = some (crsColumnOf layer) := by
    rw [columns, getElem?_append_right (by simp)]
    simp
  have hagreed : declaredOf platform layer =
      if layer.features.isEmpty then none else some layer.crs := by
    rw [declaredOf_column platform hcol hplace, agreed_of_all _ hcrs.trim_eq hcrs.not_blank,
      cells, isEmpty_map]
    intro cell hcell
    obtain ⟨feature, -, rfl⟩ := mem_map.mp hcell
    rfl
  have hno : ∀ name ∈ names layer, name ≠ "crs" := by
    intro name hname heq
    rw [heq] at hname
    exact find?_eq_none.mp h _ hname namesCrs_crs
  by_cases hempty : layer.features = []
  · have hnone : ∀ {P : Feature → Prop}, ∀ feature ∈ layer.features, P feature := by
      intro P feature hfeature
      rw [hempty] at hfeature
      cases hfeature
    have hsettled : Settled layer (declaredOf platform layer) := by
      rw [hagreed, hempty]
      exact geographic_of_empty hempty
    refine iff_of_true ⟨hsettled, hnone⟩ ⟨fun name _ _ htext => ?_, hnone⟩
    obtain ⟨feature, hfeature, -⟩ := htext
    rw [hempty] at hfeature
    cases hfeature
  · have hdeclared : declaredOf platform layer = some layer.crs := by
      rw [hagreed, if_neg (by simpa using hempty)]
    have hsettled : Settled layer (declaredOf platform layer) := by
      obtain ⟨info, hlookup, -⟩ := hcrs
      rw [hdeclared]
      exact ⟨info, hlookup⟩
    have hkept : keptColumns platform layer = (names layer).map (fieldColumn platform) := by
      refine kept_both _ _ _ fun i => ?_
      rw [skip_eq platform hcol, hdeclared, length_map]
      simp
    have hsub : ∀ name ∈ names layer, name ∈ names layer := fun name hname => hname
    have hshown := @shown_iff _ _ layer.features _ _ hsub (shownText_empty platform layer)
    simp only [shownText_eq_iff] at hshown
    rw [and_iff_right hsettled, ← hshown]
    refine forall₂_congr fun feature _ => forall₂_congr fun name hname => ?_
    rw [returnedText, hkept, attributeText_fields]
    exact ⟨fun h _ => h, fun h => h (hno name hname)⟩

theorem settled_iff_named (hletter : ∀ rest, platform.decimal.parse ('E' :: rest) = none)
    (hcrs : Identified layer) (h : (names layer).find? namesCrs = some a) :
    Settled layer (declaredOf platform layer) ∧ AllReturned platform layer ↔
      (Own (names layer) (names layer) layer.features (exportedText platform) ∧
        (∀ feature ∈ layer.features, ∀ name ∈ names layer, name ≠ "crs" →
          keeps platform (columnType platform (textsOf platform layer name))
            (exportedText platform name feature) = true) ∧
        ("crs" ∈ names layer → ∀ feature ∈ layer.features,
          exportedText platform "crs" feature = layer.crs)) ∧
      CrsNameFits platform layer a := by
  obtain ⟨ha, front, rest, hnames, hfront⟩ := find?_eq_some_iff_append.mp h
  have hfront : ∀ b ∈ front, namesCrs b = false := fun b hb => by simpa using hfront b hb
  have hcol := crsColumn_named platform hnames ha hfront
  have hplace : (columns platform layer)[front.length]? = some (fieldColumn platform a) := by
    rw [columns, hnames, List.map_append, append_assoc,
      getElem?_append_right (by simp), length_map, Nat.sub_self]
    rfl
  have hdeclared : declaredOf platform layer = agreed (textsOf platform layer a) :=
    declaredOf_column platform hcol hplace
  have hmem : a ∈ names layer := by
    rw [hnames]
    simp
  have hsub : ∀ name ∈ front ++ rest, name ∈ names layer := by
    intro name hname
    rw [hnames, mem_append, mem_cons]
    rcases mem_append.mp hname with hname | hname
    · exact .inl hname
    · exact .inr (.inr hname)
  -- What a field of the exact name holds is what the export declares.
  have hexact : a = "crs" → ("crs" ∈ names layer → ∀ feature ∈ layer.features,
      exportedText platform "crs" feature = layer.crs) →
      agreed (textsOf platform layer a) =
        if layer.features.isEmpty then none else some layer.crs := by
    intro heq htexts
    rw [heq] at hmem
    rw [heq, agreed_of_all _ hcrs.trim_eq hcrs.not_blank, textsOf, isEmpty_map]
    intro cell hcell
    obtain ⟨feature, hfeature, rfl⟩ := mem_map.mp hcell
    exact htexts hmem feature hfeature
  rw [CrsNameFits, hdeclared, AllReturned]
  cases hagreed : agreed (textsOf platform layer a) with
  | none =>
    have hkept : keptColumns platform layer =
        (names layer).map (fieldColumn platform) ++ [crsColumnOf layer] := by
      refine kept_geometry _ _ _ fun i => ?_
      rw [skip_eq platform hcol, hdeclared, hagreed, length_map]
      simp
    rw [returned_with_crs hletter hcrs (fun name hname => hname) hkept]
    constructor
    · intro hboth
      exact ⟨hboth.2, .inr hboth.1⟩
    · intro hboth
      obtain ⟨hparts, hfits⟩ := hboth
      refine ⟨?_, hparts⟩
      rcases hfits with heq | hgeographic
      · refine geographic_of_empty ?_
        have hnone := hexact heq hparts.2.2
        rw [hagreed] at hnone
        by_contra hempty
        rw [if_neg (by simpa using hempty)] at hnone
        cases hnone
      · exact hgeographic
  | some declared =>
    have hkept : keptColumns platform layer =
        (front ++ rest).map (fieldColumn platform) ++ [crsColumnOf layer] := by
      rw [keptColumns, columns, hnames, List.map_append, map_cons, List.map_append]
      refine kept_named _ _ _ _ _ fun i => ?_
      rw [skip_eq platform hcol, hdeclared, hagreed, hnames]
      simp
    rw [returned_with_crs hletter hcrs hsub hkept]
    by_cases heq : a = "crs"
    · rw [own_without_crs (heq ▸ hnames)]
      constructor
      · exact fun hboth => ⟨hboth.2, .inl heq⟩
      · intro hboth
        obtain ⟨hparts, -⟩ := hboth
        refine ⟨?_, hparts⟩
        have hsome := hexact heq hparts.2.2
        rw [hagreed] at hsome
        split_ifs at hsome
        rw [Option.some.inj hsome]
        obtain ⟨info, hlookup, -⟩ := hcrs
        exact ⟨info, hlookup⟩
    · have htext : ∃ feature ∈ layer.features, exportedText platform a feature ≠ "" := by
        obtain ⟨cell, hcell, hne⟩ := exists_of_agreed hagreed
        obtain ⟨feature, hfeature, rfl⟩ := mem_map.mp hcell
        exact ⟨feature, hfeature, hne⟩
      rw [own_again hnames ha hfront heq htext]
      constructor
      · intro hboth
        obtain ⟨hlookup, ⟨hown, hcount⟩, hkept, htexts⟩ := hboth
        exact ⟨⟨hown, hkept, htexts⟩, .inr ⟨hlookup, hcount⟩⟩
      · intro hboth
        obtain ⟨⟨hown, hkept, htexts⟩, hfits⟩ := hboth
        obtain ⟨hlookup, hcount⟩ := hfits.resolve_left heq
        exact ⟨hlookup, ⟨hown, hcount⟩, hkept, htexts⟩

/-! ## The round trip -/

/-- The comma is detected, the geometry is that of its column and every feature is there with its
geometry and texts. -/
def ComesBack (platform : Platform) (layer : Layer) : Prop := ∃ text header rows imported report,
    decodeText platform.encodings (writeCsv platform layer) none = .ok (text, "utf-8") ∧
    detectDelimiter text.toList = ',' ∧
    readTable text.toList ',' = .ok (header, rows) ∧
    geometrySource platform {} header = .ok (.wkt layer.fields.length) ∧
    read platform (writeCsv platform layer) {} {} = .ok (imported, report) ∧
    Forall₂ (Returned platform layer) layer.features imported.features

theorem comesBack_steps (hlower : platform.lower "geometry_wkt" = "geometry_wkt")
    (hcrs : Identified layer) :
    ComesBack platform layer ↔ CommasWin (headerLine layer) ∧ Named layer ∧
      NoGeometryName platform layer ∧ Settled (baseLayer platform layer) (declaredOf platform layer) ∧
      Forall₂ (Returned platform layer) layer.features (importedFeatures platform layer) := by
  have hlength : layer.fields.length = (names layer).length := (length_map _).symm
  constructor
  · intro h
    obtain ⟨text, header, rows, imported, report, hdecode, hcomma, htable, hsource, hread, hback⟩ := h
    rw [decodeText_writeCsv, Except.ok.injEq, Prod.mk.injEq] at hdecode
    rw [← hdecode.1, String.toList_ofList] at hcomma htable
    have hcommas := (detectDelimiter_csvText platform layer).mp hcomma
    obtain ⟨hgood, hbad⟩ := readTable_csvText platform hcrs.plain ',' rfl
    have hnamed : Named layer := by
      by_contra hblank
      obtain ⟨e, he⟩ := hbad hblank
      rw [htable] at he
      cases he
    have hheader := hgood hnamed
    rw [htable, Except.ok.injEq, Prod.mk.injEq] at hheader
    rw [hheader.1, hlength] at hsource
    have hnames := (geometrySource_header platform hlower layer).mp hsource
    obtain ⟨hok, herror⟩ := read_writeCsv platform hcrs hcommas hnamed hsource
    have hsettled : Settled (baseLayer platform layer) (declaredOf platform layer) := by
      by_contra hnot
      obtain ⟨e, he⟩ := herror hnot
      rw [hread] at he
      cases he
    obtain ⟨imported', report', hread', hfeatures⟩ := hok hsettled
    rw [hread, Except.ok.injEq, Prod.mk.injEq] at hread'
    rw [hread'.1, hfeatures] at hback
    exact ⟨hcommas, hnamed, hnames, hsettled, hback⟩
  · intro h
    obtain ⟨hcommas, hnamed, hnames, hsettled, hback⟩ := h
    have hsource := (geometrySource_header platform hlower layer).mpr hnames
    obtain ⟨imported, report, hread, hfeatures⟩ :=
      (read_writeCsv platform hcrs hcommas hnamed hsource).1 hsettled
    refine ⟨_, _, layer.features.map (featureTexts platform layer), imported, report,
      decodeText_writeCsv platform layer, ?_, ?_, hlength ▸ hsource, hread, hfeatures ▸ hback⟩
    · rw [String.toList_ofList]
      exact (detectDelimiter_csvText platform layer).mpr hcommas
    · rw [String.toList_ofList]
      exact (readTable_csvText platform hcrs.plain ',' rfl).1 hnamed

theorem settled_base (h : Forall₂ (Returned platform layer) layer.features
    (importedFeatures platform layer)) (declared : Option String) :
    Settled (baseLayer platform layer) declared ↔ Settled layer declared := by
  have hgeometries : (importedFeatures platform layer).map Feature.geometry =
      layer.features.map Feature.geometry := Each.forall₂_map h fun _ _ hback => hback.1
  have hsame : (baseLayer platform layer).coordinatesLookGeographic =
      layer.coordinatesLookGeographic := by
    have hfilter : ∀ features : List Feature, features.filterMap Feature.geometry =
        (features.map Feature.geometry).filterMap id := by
      intro features
      rw [filterMap_map, Function.id_comp]
    rw [Layer.coordinatesLookGeographic, Layer.coordinatesLookGeographic, hfilter, hfilter]
    exact congrArg (fun l => (l.filterMap id).all looksGeographic) hgeometries
  cases declared with
  | some name => exact Iff.rfl
  | none =>
    show (baseLayer platform layer).coordinatesLookGeographic = true ↔ _
    rw [hsame]
    rfl

namespace Sample

def libraries : Platform where
  decimal := Wkt.Sample.decimal
  outlines := Wkb.Sample.corners
  floatText x := x.bits.toNat.repr
  lower := toAsciiLowercase
  encodings := {
    forLabel := fun _ => none
    shiftJis := { name := "Shift_JIS", decode := fun _ => none } }

def ward (name text : String) : Layer where
  name := "wards"
  crs := "EPSG:4326"
  crsStatus := .declared
  fields := [{ name := name, fieldType := .text, unit := none }]
  features := [{
    id := 0
    geometry := some (.point ⟨.zero, Wkt.Sample.one⟩)
    properties := (∅ : Std.ExtTreeMap String Value).insert name (.str text) }]

theorem identified (name text : String) : Identified (ward name text) := by
  have hlookup : Proj.lookup "EPSG:4326" = .ok (Proj.info 4326 .degrees) := by rfl
  have hid : (Proj.info 4326 .degrees).id = "EPSG:4326" := by decide
  exact ⟨_, hlookup, hid⟩

theorem ward_unambiguous : Unambiguous libraries (ward "ward; name" "Naka, \"central\"") where
  commas := by decide
  named := by
    unfold Named
    decide
  noGeometryName := by
    unfold NoGeometryName
    decide
  geometries := by
    intro feature hfeature
    rw [mem_singleton.mp hfeature]
    exact ⟨_, rfl, by decide, by decide⟩
  own := by
    intro name hname _ _
    rw [mem_singleton.mp hname]
    decide
  kept := by
    intro feature hfeature name hname _
    rw [mem_singleton.mp hfeature, mem_singleton.mp hname]
    decide
  crsTexts hmem := absurd hmem (by decide)
  crsName := by
    have hnone : (names (ward "ward; name" "Naka, \"central\"")).find? namesCrs = none := by
      decide
    intro name hname
    rw [hnone] at hname
    cases hname

end Sample

end GeneGIS.Toolkit.Csv
