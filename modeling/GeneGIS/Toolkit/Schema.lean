/-
The type of a column is the join of the kinds of its values.  A layer without a schema gets a field
for every attribute of a feature.
-/
import GeneGIS.Toolkit.Import

namespace GeneGIS.Toolkit

open List

namespace FieldType

/-- Every value of the type `a` has the type `b`. -/
def Within (a b : FieldType) : Prop := a.widen b = b

instance (a b : FieldType) : Decidable (Within a b) := inferInstanceAs (Decidable (_ = _))

theorem Within.refl (a : FieldType) : Within a a := by cases a <;> decide

theorem Within.trans {a b c : FieldType} (hab : Within a b) (hbc : Within b c) : Within a c := by
  revert hab hbc
  cases a <;> cases b <;> cases c <;> decide

theorem within_widen (a b : FieldType) : Within a (a.widen b) ∧ Within b (a.widen b) := by
  cases a <;> cases b <;> decide

theorem widen_json {a b : FieldType} (h : a.widen b = .json) : a = .json ∨ b = .json := by
  revert h
  cases a <;> cases b <;> decide

end FieldType

open FieldType

def widenKind (kind : Option FieldType) (value : Value) : Option FieldType :=
  match fieldTypeOf value.json with
  | none => kind
  | some this => some (kind.elim this fun known => known.widen this)

theorem inferFieldType_eq (values : List Value) :
    inferFieldType values = (values.foldl widenKind none).getD .text := rfl

theorem foldl_widenKind {P : FieldType → Prop} {values : List Value}
    (hvalues : ∀ v ∈ values, ∀ k, fieldTypeOf v.json = some k → P k)
    (hwiden : ∀ a b, P a → P b → P (a.widen b)) {kind : Option FieldType}
    (hkind : ∀ k, kind = some k → P k) : ∀ k, values.foldl widenKind kind = some k → P k := by
  induction values generalizing kind with
  | nil => exact hkind
  | cons v rest ih =>
    rw [forall_mem_cons] at hvalues
    refine ih hvalues.2 ?_
    intro k hk
    rw [widenKind] at hk
    cases hthis : fieldTypeOf v.json with
    | none =>
      rw [hthis] at hk
      exact hkind k hk
    | some this =>
      rw [hthis] at hk
      have hP := hvalues.1 this hthis
      cases kind with
      | none =>
        cases hk
        exact hP
      | some known =>
        cases hk
        exact hwiden known this (hkind known rfl) hP

theorem within_foldl {values : List Value} {k : FieldType} :
    ∃ t, values.foldl widenKind (some k) = some t ∧ Within k t := by
  induction values generalizing k with
  | nil => exact ⟨k, rfl, .refl k⟩
  | cons v rest ih =>
    rw [foldl_cons, widenKind]
    cases fieldTypeOf v.json with
    | none => exact ih
    | some this =>
      obtain ⟨t, ht, hwithin⟩ := @ih (k.widen this)
      exact ⟨t, ht, (within_widen k this).1.trans hwithin⟩

theorem within_inferFieldType {values : List Value} {v : Value} {k : FieldType} (hv : v ∈ values)
    (hk : fieldTypeOf v.json = some k) : Within k (inferFieldType values) := by
  obtain ⟨front, rest, rfl⟩ := append_of_mem hv
  have hstep : ∃ t, widenKind (front.foldl widenKind none) v = some t ∧ Within k t := by
    rw [widenKind, hk]
    cases front.foldl widenKind none with
    | none => exact ⟨k, rfl, .refl k⟩
    | some known => exact ⟨known.widen k, rfl, (within_widen known k).2⟩
  obtain ⟨t, ht, hwithin⟩ := hstep
  obtain ⟨u, hu, hle⟩ := @within_foldl rest t
  rw [inferFieldType_eq, foldl_append, foldl_cons, ht, hu]
  exact hwithin.trans hle

theorem inferFieldType_ne_json {values : List Value}
    (h : ∀ v ∈ values, fieldTypeOf v.json ≠ some .json) : inferFieldType values ≠ .json := by
  have hall : ∀ k, values.foldl widenKind none = some k → k ≠ .json := by
    refine foldl_widenKind (P := (· ≠ .json)) ?_ ?_ nofun
    · intro v hv k hk heq
      rw [heq] at hk
      exact h v hv hk
    · intro a b ha hb heq
      rcases widen_json heq with hjson | hjson
      · exact ha hjson
      · exact hb hjson
  rw [inferFieldType_eq]
  cases hfold : values.foldl widenKind none with
  | none => decide
  | some k => exact hall k hfold

namespace Layer

variable {layer : Layer} {name : String}

def field (layer : Layer) (name : String) : Option Field :=
  layer.fields.find? fun field => field.name = name

def values (layer : Layer) (name : String) : List Value :=
  layer.features.filterMap fun feature => feature.properties[name]?

theorem mem_addKeys {keys order : List String} :
    name ∈ keys.foldl (fun order key => if key ∈ order then order else order ++ [key]) order ↔
      name ∈ order ∨ name ∈ keys := by
  induction keys generalizing order with
  | nil => simp
  | cons key rest ih =>
    rw [foldl_cons, ih, mem_cons]
    by_cases hkey : key ∈ order
    · rw [if_pos hkey]
      constructor
      · intro h
        exact h.imp_right Or.inr
      · intro h
        rcases h with h | h | h
        · exact Or.inl h
        · exact Or.inl (h ▸ hkey)
        · exact Or.inr h
    · rw [if_neg hkey, mem_append, mem_singleton, or_assoc]

theorem mem_schemaOrder : name ∈ layer.schemaOrder ↔
    name ∈ layer.fields.map Field.name ∨ ∃ feature ∈ layer.features, name ∈ feature.properties := by
  rw [schemaOrder]
  generalize layer.fields.map Field.name = order
  generalize layer.features = features
  induction features generalizing order with
  | nil => simp
  | cons feature rest ih =>
    rw [foldl_cons, ih, mem_addKeys, Std.ExtTreeMap.mem_keys, or_assoc]
    simp

theorem inferFieldType_filter (values : List Value) :
    inferFieldType (values.filter fun value => (fieldTypeOf value.json).isSome) =
      inferFieldType values := by
  have hfold : ∀ kind, (values.filter fun value => (fieldTypeOf value.json).isSome).foldl
      widenKind kind = values.foldl widenKind kind := by
    induction values with
    | nil => exact fun _ => rfl
    | cons v rest ih =>
      intro kind
      rw [filter_cons, foldl_cons]
      cases hv : fieldTypeOf v.json with
      | none =>
        have hstep : widenKind kind v = kind := by rw [widenKind, hv]
        rw [if_neg (by simp), ih, hstep]
      | some k => rw [Option.isSome_some, if_pos rfl, foldl_cons, ih]
  rw [inferFieldType_eq, inferFieldType_eq, hfold]

theorem fieldType_refreshSchema (hfields : layer.fields = []) (name : String) :
    (layer.refreshSchema.field name).map Field.fieldType =
      if ∃ feature ∈ layer.features, name ∈ feature.properties
      then some (inferFieldType (layer.values name)) else none := by
  have hmem : name ∈ layer.schemaOrder ↔ ∃ feature ∈ layer.features, name ∈ feature.properties := by
    rw [mem_schemaOrder, hfields]
    simp
  have htype : ∀ f ∈ layer.refreshSchema.fields,
      f.fieldType = inferFieldType (layer.values f.name) := by
    intro f hf
    rw [refreshSchema, hfields] at hf
    obtain ⟨key, -, rfl⟩ := mem_map.mp hf
    rw [values, ← inferFieldType_filter]
    dsimp only
    rw [reverse_nil, find?_nil]
    cases List.filter _ _ <;> rfl
  have hnames : layer.refreshSchema.fields.map Field.name = layer.schemaOrder := by
    rw [refreshSchema, map_map]
    exact map_id _
  rw [field]
  cases hfind : layer.refreshSchema.fields.find? fun f => f.name = name with
  | none =>
    have hnot : name ∉ layer.schemaOrder := by
      rw [← hnames]
      intro hname
      obtain ⟨f, hf, heq⟩ := mem_map.mp hname
      have hnone := find?_eq_none.mp hfind f hf
      rw [decide_eq_true heq] at hnone
      exact hnone rfl
    rw [if_neg (mt hmem.mpr hnot)]
    rfl
  | some f =>
    have hf := mem_of_find?_eq_some hfind
    have heq : f.name = name := by simpa using find?_some hfind
    have hin : name ∈ layer.schemaOrder := by
      rw [← hnames, ← heq]
      exact mem_map_of_mem hf
    rw [if_pos (hmem.mp hin), Option.map_some, htype f hf, heq]

end Layer
end GeneGIS.Toolkit
