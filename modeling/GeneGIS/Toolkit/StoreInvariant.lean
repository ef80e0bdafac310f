/-
The order lists every loaded layer and nothing else, but opening a directory lists an identifier as
often as it is recorded.  A failed operation leaves the memory alone, except a removal whose file
stays.
-/
import GeneGIS.Toolkit.Store

namespace GeneGIS.Toolkit.Store

open Fallible Std

structure Consistent (s : LayerStore) : Prop where
  nodup : s.order.Nodup
  listed : ∀ id, id ∈ s.order ↔ id ∈ s.layers

section

variable {Disk α β : Type}

/-- The memory is left alone, whether it fails or not. -/
def Quiet (m : StoreM Disk α) : Prop := ∀ s, (after m s).1 = s.1

/-- A failure leaves the memory alone. -/
def Guarded (m : StoreM Disk α) : Prop := ∀ s e s', m s = .error e s' → s'.1 = s.1

theorem Quiet.guarded {m : StoreM Disk α} (h : Quiet m) : Guarded m := by
  intro s e s' herror
  rw [← after_error herror, h s]

theorem Quiet.of_ok {m : StoreM Disk α} (h : Quiet m) {s s' : LayerStore × Disk} {a : α}
    (hok : m s = .ok a s') : s'.1 = s.1 := by
  rw [← after_ok hok, h s]

theorem quiet_pure (a : α) : Quiet (pure a : StoreM Disk α) := fun _ => rfl

theorem quiet_throw (e : ToolkitError) : Quiet (throw e : StoreM Disk α) := fun _ => rfl

theorem quiet_lift (r : Except ToolkitError α) : Quiet (Fallible.lift r : StoreM Disk α) := by
  intro s
  cases r <;> rfl

theorem quiet_get : Quiet (get : StoreM Disk (LayerStore × Disk)) := fun _ => rfl

theorem quiet_onDisk (m : Fallible String Disk α) : Quiet (onDisk m) := by
  intro s
  rw [onDisk, after, zoom, mapError]
  cases m s.2 <;> rfl

theorem Quiet.bind_guarded {m : StoreM Disk α} {f : α → StoreM Disk β} (hm : Quiet m)
    (hf : ∀ a, Guarded (f a)) : Guarded (m >>= f) := by
  intro s e s' herror
  rw [bind_apply] at herror
  cases hfirst : m s with
  | ok a middle =>
    rw [hfirst] at herror
    rw [hf a _ _ _ herror, hm.of_ok hfirst]
  | error e' middle =>
    rw [hfirst] at herror
    cases herror
    exact hm.guarded _ _ _ hfirst

theorem Quiet.bind {m : StoreM Disk α} {f : α → StoreM Disk β} (hm : Quiet m)
    (hf : ∀ a, Quiet (f a)) : Quiet (m >>= f) := by
  intro s
  cases hfirst : m s with
  | ok a middle =>
    have hlast := hf a middle
    rw [hm.of_ok hfirst] at hlast
    rw [after, bind_apply, hfirst]
    exact hlast
  | error e middle =>
    rw [after, bind_apply, hfirst]
    exact hm.guarded _ _ _ hfirst

end

variable {Disk : Type} (codecs : Codecs) (fs : FileSystem Disk)

theorem quiet_persist (id : String) (stored : StoredLayer) :
    Quiet (persist codecs fs id stored) := by
  refine quiet_get.bind fun s => ?_
  obtain ⟨store, disk⟩ := s
  dsimp only
  cases store.dir with
  | none => exact quiet_pure ()
  | some dir =>
    exact (quiet_lift _).bind fun bytes => (quiet_onDisk _).bind fun _ => quiet_onDisk _

/-! ## What an operation does to the memory -/

def LayerStore.put (s : LayerStore) (id : String) (stored : StoredLayer) : LayerStore :=
  { s with
    order := if s.layers.contains id then s.order else s.order ++ [id]
    layers := s.layers.insert id stored }

def LayerStore.drop (s : LayerStore) (id : String) : LayerStore :=
  { s with layers := s.layers.erase id, order := s.order.filter fun x => x != id }

/-- The memory before and after an operation. -/
inductive Moves (s : LayerStore) : LayerStore → Prop where
  | same : Moves s s
  | put (id : String) (stored : StoredLayer) : Moves s (LayerStore.put s id stored)
  | drop (id : String) (loaded : id ∈ s.layers) : Moves s (LayerStore.drop s id)

variable {codecs fs}

theorem moves_insert (layer : Layer) (receipt : Value) (s : LayerStore × Disk) :
    Moves s.1 (after (insert codecs fs layer receipt) s).1 := by
  rw [insert, after, bind_apply]
  dsimp only [get, getThe, MonadStateOf.get, EStateM.get]
  rw [bind_apply]
  cases hpersist : persist codecs fs (layer.id codecs.floatText codecs.outlines)
      { layer := layer, receipt := receipt
        style := (s.1.layers[layer.id codecs.floatText codecs.outlines]?.map
          StoredLayer.style).getD .null } s with
  | ok u s' =>
    have hkept := (quiet_persist codecs fs _ _).of_ok hpersist
    show Moves s.1 (LayerStore.put s'.1 _ _)
    rw [hkept]
    exact .put _ _
  | error e s' =>
    show Moves s.1 s'.1
    rw [(quiet_persist codecs fs _ _).guarded _ _ _ hpersist]
    exact .same

theorem moves_update (id : String) (change : StoredLayer → StoredLayer) (s : LayerStore × Disk) :
    Moves s.1 (after (update codecs fs id change) s).1 := by
  rw [update, after, bind_apply]
  dsimp only [get, getThe, MonadStateOf.get, EStateM.get]
  cases hstored : s.1.layers[id]? with
  | none => exact .same
  | some stored =>
    dsimp only
    rw [bind_apply]
    cases hpersist : persist codecs fs id (change stored) s with
    | ok u s' =>
      have hkept := (quiet_persist codecs fs _ _).of_ok hpersist
      have hcontains : s.1.layers.contains id = true := by
        rw [ExtTreeMap.contains_eq_isSome_getElem?, hstored]
        rfl
      show Moves s.1 { s'.1 with layers := s'.1.layers.insert id (change stored) }
      rw [hkept]
      have hput := Moves.put (s := s.1) id (change stored)
      rw [LayerStore.put, if_pos hcontains] at hput
      exact hput
    | error e s' =>
      show Moves s.1 s'.1
      rw [(quiet_persist codecs fs _ _).guarded _ _ _ hpersist]
      exact .same

/-- Whatever becomes of the file, a loaded layer leaves the memory. -/
theorem after_remove (id : String) (s : LayerStore × Disk) :
    (after (remove fs id) s).1 = if id ∈ s.1.layers then LayerStore.drop s.1 id else s.1 := by
  rw [remove, after, bind_apply]
  dsimp only [get, getThe, MonadStateOf.get, EStateM.get]
  rw [bind_apply, Fallible.check]
  by_cases hloaded : id ∈ s.1.layers
  · rw [if_pos hloaded, if_pos (ExtTreeMap.contains_iff_mem.mpr hloaded)]
    cases hdir : s.1.dir with
    | none => rfl
    | some dir =>
      have hquiet : Quiet (do
          let t ← get
          if fs.isThere (file dir id) t.2 then onDisk (fs.removeFile (file dir id))
          : StoreM Disk Unit) := by
        refine quiet_get.bind fun t => ?_
        split_ifs
        · exact quiet_onDisk _
        · exact quiet_pure ()
      exact hquiet (LayerStore.drop s.1 id, s.2)
  · rw [if_neg hloaded, if_neg fun h => hloaded (ExtTreeMap.contains_iff_mem.mp h)]

theorem moves_apply (op : Op) (s : LayerStore × Disk) :
    Moves s.1 (after (apply codecs fs op) s).1 := by
  cases op with
  | insert layer receipt =>
    have hinsert : after (apply codecs fs (.insert layer receipt)) s =
        after (insert codecs fs layer receipt) s := by
      rw [apply, after, after, bind_apply]
      cases insert codecs fs layer receipt s <;> rfl
    rw [hinsert]
    exact moves_insert layer receipt s
  | rename id name => exact moves_update id _ s
  | setStyle id style => exact moves_update id _ s
  | remove id =>
    rw [apply, after_remove]
    by_cases hloaded : id ∈ s.1.layers
    · rw [if_pos hloaded]
      exact .drop id hloaded
    · rw [if_neg hloaded]
      exact .same

theorem Consistent.put {s : LayerStore} (h : Consistent s) (id : String) (stored : StoredLayer) :
    Consistent (LayerStore.put s id stored) := by
  have hlisted : ∀ x, x ∈ s.layers.insert id stored ↔ x = id ∨ x ∈ s.layers := by
    intro x
    rw [ExtTreeMap.mem_insert, LawfulEqCmp.compare_eq_iff_eq]
    exact or_congr_left eq_comm
  by_cases hloaded : id ∈ s.layers
  · rw [LayerStore.put, if_pos (ExtTreeMap.contains_iff_mem.mpr hloaded)]
    refine ⟨h.nodup, fun x => ?_⟩
    show x ∈ s.order ↔ x ∈ s.layers.insert id stored
    rw [hlisted, h.listed]
    exact ⟨.inr, fun hx => hx.elim (fun heq => heq ▸ hloaded) fun hx => hx⟩
  · rw [LayerStore.put, if_neg fun hc => hloaded (ExtTreeMap.contains_iff_mem.mp hc)]
    refine ⟨List.nodup_append.mpr ⟨h.nodup, List.nodup_singleton id, ?_⟩, fun x => ?_⟩
    · intro x hx y hy hxy
      rw [List.mem_singleton] at hy
      rw [hxy, hy, h.listed] at hx
      exact hloaded hx
    · show x ∈ s.order ++ [id] ↔ x ∈ s.layers.insert id stored
      rw [hlisted, List.mem_append, List.mem_singleton, h.listed]
      exact or_comm

theorem Consistent.drop {s : LayerStore} (h : Consistent s) (id : String) :
    Consistent (LayerStore.drop s id) := by
  refine ⟨h.nodup.filter _, fun x => ?_⟩
  show x ∈ s.order.filter (fun x => x != id) ↔ x ∈ s.layers.erase id
  rw [List.mem_filter, ExtTreeMap.mem_erase, h.listed, bne_iff_ne, ne_eq (compare id x),
    LawfulEqCmp.compare_eq_iff_eq]
  exact ⟨fun hx => ⟨fun heq => hx.2 heq.symm, hx.1⟩, fun hx => ⟨hx.2, fun heq => hx.1 heq.symm⟩⟩

theorem Consistent.step {s s' : LayerStore} (h : Consistent s) (hmoves : Moves s s') :
    Consistent s' := by
  cases hmoves with
  | same => exact h
  | put id stored => exact h.put id stored
  | drop id loaded => exact h.drop id

theorem Consistent.run {s : LayerStore × Disk} (h : Consistent s.1) (ops : List Op) :
    Consistent (run codecs fs ops s).1 := by
  induction ops generalizing s with
  | nil => exact h
  | cons op rest ih => exact ih (h.step (moves_apply op s))

/-! ## Opening a directory -/

/-- The identifier recorded in a file that loads. -/
def recordedId (codecs : Codecs) (entry : Entry) : Option String :=
  match load codecs entry with
  | .ok (id, _) => some id
  | .error _ => none

/-- The identifiers recorded in the files that load. -/
def recordedIds (codecs : Codecs) (listing : List Entry) : List String :=
  (listing.filter isLayerFile).filterMap (recordedId codecs)

theorem load_ok {entry : Entry} {bytes : Bytes} {doc : Persisted} {features : List Feature}
    (hbytes : entry.bytes = .ok bytes) (hdoc : codecs.fromSlice bytes = .ok doc)
    (hfeatures : doc.features.mapM (readFeature codecs) = .ok features)
    (hid : Layer.id codecs.floatText codecs.outlines
      { name := doc.name, crs := doc.crs, crsStatus := doc.crsStatus, fields := doc.fields
        features := features, provenance := doc.provenance } = doc.id) :
    load codecs entry = .ok (doc.id,
      { layer := { name := doc.name, crs := doc.crs, crsStatus := doc.crsStatus
                   fields := doc.fields, features := features, provenance := doc.provenance }
        receipt := doc.receipt, style := doc.style }) := by
  rw [load, hbytes]
  simp only [Except.mapError, bind, Except.bind, hdoc, hfeatures, if_pos hid]
  rfl

variable (dir : String)

theorem foldl_loadInto (files : List Entry) (state : LayerStore × List String)
    (h : ∀ id, id ∈ state.1.order ↔ id ∈ state.1.layers) :
    (files.foldl (loadInto codecs dir) state).1.order =
        state.1.order ++ files.filterMap (recordedId codecs) ∧
      ∀ id, id ∈ (files.foldl (loadInto codecs dir) state).1.order ↔
        id ∈ (files.foldl (loadInto codecs dir) state).1.layers := by
  induction files generalizing state with
  | nil => exact ⟨(List.append_nil _).symm, h⟩
  | cons entry rest ih =>
    rw [List.foldl_cons, List.filterMap_cons, recordedId]
    cases hload : load codecs entry with
    | error e =>
      have hsame : (loadInto codecs dir state entry).1 = state.1 := by rw [loadInto, hload]
      have hrest := ih (loadInto codecs dir state entry) (by rw [hsame]; exact h)
      rw [hsame] at hrest
      exact hrest
    | ok loaded =>
      obtain ⟨id, stored⟩ := loaded
      have hnext : (loadInto codecs dir state entry).1 = { state.1 with
          order := state.1.order ++ [id], layers := state.1.layers.insert id stored } := by
        rw [loadInto, hload]
      have hlisted : ∀ x, x ∈ (loadInto codecs dir state entry).1.order ↔
          x ∈ (loadInto codecs dir state entry).1.layers := by
        intro x
        rw [hnext]
        show x ∈ state.1.order ++ [id] ↔ x ∈ state.1.layers.insert id stored
        rw [ExtTreeMap.mem_insert, LawfulEqCmp.compare_eq_iff_eq, List.mem_append,
          List.mem_singleton, h, or_comm, eq_comm]
      have hrest := ih _ hlisted
      refine ⟨?_, hrest.2⟩
      rw [hrest.1, hnext, List.append_assoc]
      rfl

variable (listing : List Entry)

theorem order_openDir : (openDir codecs dir listing).1.order =
      (layerFiles listing).filterMap (recordedId codecs) :=
  (foldl_loadInto dir (layerFiles listing) ({ dir := some dir }, []) (by simp)).1

theorem listed_openDir (id : String) :
    id ∈ (openDir codecs dir listing).1.order ↔ id ∈ (openDir codecs dir listing).1.layers :=
  (foldl_loadInto dir (layerFiles listing) ({ dir := some dir }, []) (by simp)).2 id

theorem nodup_openDir :
    (openDir codecs dir listing).1.order.Nodup ↔ (recordedIds codecs listing).Nodup := by
  rw [order_openDir, recordedIds, layerFiles]
  exact ((List.mergeSort_perm _ _).filterMap _).nodup_iff

/-- Every state of every run is consistent, and a removed layer is gone, exactly when no
identifier is recorded twice. -/
theorem consistent_run_iff (codecs : Codecs) (fs : FileSystem Disk) (dir : String)
    (listing : List Entry) (disk : Disk) :
    (∀ ops, Consistent (run codecs fs ops ((openDir codecs dir listing).1, disk)).1 ∧
      ∀ id, id ∉ (run codecs fs (ops ++ [.remove id])
          ((openDir codecs dir listing).1, disk)).1.order ∧
        id ∉ (run codecs fs (ops ++ [.remove id])
          ((openDir codecs dir listing).1, disk)).1.layers) ↔
      (recordedIds codecs listing).Nodup := by
  constructor
  · intro h
    exact (nodup_openDir dir listing).mp (h []).1.nodup
  · intro hdistinct ops
    have hopen : Consistent (openDir codecs dir listing).1 :=
      ⟨(nodup_openDir dir listing).mpr hdistinct, listed_openDir dir listing⟩
    have hrun : Consistent (run codecs fs ops ((openDir codecs dir listing).1, disk)).1 :=
      Consistent.run (s := ((openDir codecs dir listing).1, disk)) hopen ops
    refine ⟨hrun, fun id => ?_⟩
    rw [run, List.foldl_append, List.foldl_cons, List.foldl_nil, ← run]
    rw [apply, after_remove]
    by_cases hloaded : id ∈ (run codecs fs ops ((openDir codecs dir listing).1, disk)).1.layers
    · rw [if_pos hloaded]
      exact ⟨by simp [LayerStore.drop], by simp [LayerStore.drop]⟩
    · rw [if_neg hloaded]
      exact ⟨fun hid => hloaded ((hrun.listed id).mp hid), hloaded⟩

/-! ## Failures -/

/-- The file of a loaded layer is there and cannot be removed. -/
def RemovalFails (fs : FileSystem Disk) (op : Op) (s : LayerStore × Disk) : Prop :=
  ∃ id dir e disk, op = .remove id ∧ id ∈ s.1.layers ∧ s.1.dir = some dir ∧
    fs.isThere (file dir id) s.2 = true ∧ fs.removeFile (file dir id) s.2 = .error e disk

theorem guarded_insert (layer : Layer) (receipt : Value) :
    Guarded (insert codecs fs layer receipt) :=
  quiet_get.bind_guarded fun _ => (quiet_persist codecs fs _ _).bind_guarded fun _ => by
    intro s e s' h
    cases h

theorem guarded_update (id : String) (change : StoredLayer → StoredLayer) :
    Guarded (update codecs fs id change) := by
  refine quiet_get.bind_guarded fun s => ?_
  obtain ⟨store, disk⟩ := s
  dsimp only
  cases store.layers[id]? with
  | none => exact (quiet_throw _).guarded
  | some stored =>
    refine (quiet_persist codecs fs _ _).bind_guarded fun _ => ?_
    intro s e s' h
    cases h

theorem remove_error {id : String} {s s' : LayerStore × Disk} {e : ToolkitError}
    (h : remove fs id s = .error e s') :
    (id ∉ s.1.layers ∧ s' = s) ∨ ∃ dir reason disk, id ∈ s.1.layers ∧ s.1.dir = some dir ∧
      fs.isThere (file dir id) s.2 = true ∧
      fs.removeFile (file dir id) s.2 = .error reason disk ∧ e = .io reason ∧
      s' = (LayerStore.drop s.1 id, disk) := by
  rw [remove, bind_apply] at h
  dsimp only [get, getThe, MonadStateOf.get, EStateM.get] at h
  rw [bind_apply, Fallible.check] at h
  by_cases hloaded : id ∈ s.1.layers
  · rw [if_pos (ExtTreeMap.contains_iff_mem.mpr hloaded)] at h
    cases hdir : s.1.dir with
    | none =>
      rw [hdir] at h
      cases h
    | some dir =>
      have hfile : (if fs.isThere (file dir id) s.2 = true then onDisk (fs.removeFile (file dir id))
          else pure () : StoreM Disk Unit) (LayerStore.drop s.1 id, s.2) = .error e s' := by
        rw [hdir] at h
        exact h
      by_cases hthere : fs.isThere (file dir id) s.2 = true
      · rw [if_pos hthere, onDisk, zoom, mapError] at hfile
        dsimp only at hfile
        cases hremove : fs.removeFile (file dir id) s.2 with
        | ok u disk =>
          rw [hremove] at hfile
          cases hfile
        | error reason disk =>
          rw [hremove] at hfile
          cases hfile
          exact .inr ⟨dir, reason, disk, hloaded, rfl, hthere, hremove, rfl, rfl⟩
      · rw [if_neg hthere] at hfile
        cases hfile
  · rw [if_neg fun hc => hloaded (ExtTreeMap.contains_iff_mem.mp hc)] at h
    cases h
    exact .inl ⟨hloaded, rfl⟩

theorem remove_fails {id dir reason : String} {s : LayerStore × Disk} {disk : Disk}
    (hloaded : id ∈ s.1.layers) (hdir : s.1.dir = some dir)
    (hthere : fs.isThere (file dir id) s.2 = true)
    (hremove : fs.removeFile (file dir id) s.2 = .error reason disk) :
    remove fs id s = .error (.io reason) (LayerStore.drop s.1 id, disk) := by
  rw [remove, bind_apply]
  dsimp only [get, getThe, MonadStateOf.get, EStateM.get]
  rw [bind_apply, Fallible.check, if_pos (ExtTreeMap.contains_iff_mem.mpr hloaded), hdir]
  show (if fs.isThere (file dir id) s.2 = true then onDisk (fs.removeFile (file dir id))
    else pure () : StoreM Disk Unit) (LayerStore.drop s.1 id, s.2) = _
  rw [if_pos hthere, onDisk, zoom, mapError]
  dsimp only
  rw [hremove]

/-- A failure leaves the memory as it was exactly when it is not that of the removal of a loaded
layer's file. -/
theorem failure_keeps_memory_iff (codecs : Codecs) (fs : FileSystem Disk) (op : Op)
    (s : LayerStore × Disk) :
    (∀ reason s', apply codecs fs op s = .error (.io reason) s' → s'.1 = s.1) ↔
      ¬ RemovalFails fs op s := by
  constructor
  · intro h hfails
    obtain ⟨id, dir, reason, disk, rfl, hloaded, hdir, hthere, hremove⟩ := hfails
    have hkept := h _ _ (remove_fails hloaded hdir hthere hremove)
    have hdropped : id ∉ (LayerStore.drop s.1 id).layers := by simp [LayerStore.drop]
    have hsame : LayerStore.drop s.1 id = s.1 := hkept
    rw [hsame] at hdropped
    exact hdropped hloaded
  · intro hnot reason s' herror
    cases op with
    | insert layer receipt =>
      have hguarded : Guarded (apply codecs fs (.insert layer receipt)) := by
        intro t e t' ht
        rw [apply, bind_apply] at ht
        cases hinsert : insert codecs fs layer receipt t with
        | ok id middle =>
          rw [hinsert] at ht
          cases ht
        | error e' middle =>
          rw [hinsert] at ht
          cases ht
          exact guarded_insert layer receipt _ _ _ hinsert
      exact hguarded _ _ _ herror
    | rename id name => exact guarded_update id _ _ _ _ herror
    | setStyle id style => exact guarded_update id _ _ _ _ herror
    | remove id =>
      rcases remove_error herror with
        ⟨-, hs⟩ | ⟨dir, reason, disk, hloaded, hdir, hthere, hremove, -⟩
      · rw [hs]
      · exact absurd ⟨id, dir, reason, disk, rfl, hloaded, hdir, hthere, hremove⟩ hnot

namespace Sample

def noOutlines : Outlines where
  ofRect := fun _ => .new [] []
  ofTriangle := fun _ => .new [] []

def blank : Layer := { name := "", crs := "EPSG:4326", crsStatus := .declared }

/-- Every file holds the empty layer under the identifier of its content. -/
def copies : Codecs where
  floatText := fun _ => "0.0"
  outlines := noOutlines
  toVec := fun _ => .ok []
  fromSlice := fun _ => .ok {
    format := "genegis-layer-store-v1"
    id := blank.id (fun _ => "0.0") noOutlines
    name := blank.name, crs := blank.crs, crsStatus := blank.crsStatus, fields := blank.fields
    provenance := blank.provenance, receipt := .null, style := .null, features := [] }
  geometryToJson := fun _ => .null
  geometryFromJson := fun _ => .ok (.multiPoint [])

/-- Writing works and nothing can be removed. -/
def locked : FileSystem Unit where
  write := fun _ _ => pure ()
  rename := fun _ _ => pure ()
  isThere := fun _ _ => true
  removeFile := fun _ => throw "Operation not permitted"

def backedUp : List Entry := [⟨"lyr_1.json", 0, .ok []⟩, ⟨"lyr_1 copy.json", 1, .ok []⟩]

theorem backup_listed_twice : ¬ ∀ (listing : List Entry) (ops : List Op),
    Consistent (run copies locked ops ((openDir copies "layers" listing).1, ())).1 := by
  intro h
  have hrecorded : ∀ entry : Entry, entry.bytes = .ok [] →
      recordedId copies entry = some (blank.id (fun _ => "0.0") noOutlines) := by
    intro entry hbytes
    have hdoc : copies.fromSlice [] = .ok _ := rfl
    have hload : load copies entry = _ := load_ok hbytes hdoc rfl rfl
    rw [recordedId, hload]
  have hids : recordedIds copies backedUp =
      [blank.id (fun _ => "0.0") noOutlines, blank.id (fun _ => "0.0") noOutlines] := by
    have hfiles : backedUp.filter isLayerFile = backedUp := by
      refine List.filter_eq_self.mpr fun entry hentry => ?_
      rw [backedUp, List.mem_cons, List.mem_singleton] at hentry
      rcases hentry with rfl | rfl <;> rfl
    rw [recordedIds, hfiles, backedUp, List.filterMap_cons, hrecorded _ rfl, List.filterMap_cons,
      hrecorded _ rfl, List.filterMap_nil]
  have hnodup := (nodup_openDir "layers" backedUp).mp (h backedUp []).nodup
  rw [hids] at hnodup
  simp at hnodup

def stored : StoredLayer := { layer := blank, receipt := .null, style := .null }

def held : LayerStore where
  dir := some "layers"
  layers := .ofList [("lyr_1", stored)]
  order := ["lyr_1"]

/-- A layer whose file stays is gone from the memory. -/
theorem kept_file_forgotten : ¬ ∀ (op : Op) (s s' : LayerStore × Unit) (reason : String),
    apply copies locked op s = .error (.io reason) s' → s'.1 = s.1 := by
  intro h
  have hfailed : remove locked "lyr_1" (held, ()) =
      .error (.io "Operation not permitted") (LayerStore.drop held "lyr_1", ()) :=
    remove_fails (by simp [held]) rfl rfl rfl
  have hkept := h (.remove "lyr_1") _ _ _ hfailed
  exact absurd (congrArg LayerStore.order hkept) (by decide)

end Sample

end GeneGIS.Toolkit.Store
