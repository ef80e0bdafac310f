/-
A change writes the file first and then the memory, except that a removal clears the memory first.
A file is found again by the identifier recorded in it.
-/
import GeneGIS.Toolkit.Layer

namespace GeneGIS.Toolkit

open Fallible

structure StoredLayer where
  layer : Layer
  receipt : Value
  style : Value

structure LayerStore where
  dir : Option String := none
  layers : Std.ExtTreeMap String StoredLayer := ∅
  order : List String := []

structure PersistedFeature where
  id : UInt64
  geometry : Value
  properties : Std.ExtTreeMap String Value

structure Persisted where
  format : String
  id : String
  name : String
  crs : String
  crsStatus : CrsStatus
  fields : List Field
  provenance : LayerProvenance
  receipt : Value
  style : Value
  features : List PersistedFeature

namespace Store

/-- The writers and readers that the store relies on. -/
structure Codecs where
  floatText : F64 → String
  outlines : Outlines
  toVec : Persisted → Except String Bytes
  fromSlice : Bytes → Except String Persisted
  geometryToJson : Geometry → Value
  geometryFromJson : Value → Except ToolkitError Geometry

/-- The operations of the file system, each of which may fail. -/
structure FileSystem (Disk : Type) where
  write : String → Bytes → Fallible String Disk Unit
  rename : String → String → Fallible String Disk Unit
  isThere : String → Disk → Bool
  removeFile : String → Fallible String Disk Unit

/-- A directory entry: its modification time and what reading it gives. -/
structure Entry where
  name : String
  modified : Int
  bytes : Except String Bytes

variable (codecs : Codecs)

def readFeature (f : PersistedFeature) : Except ToolkitError Feature := do
  let geometry ← match f.geometry.json with
    | .null => pure none
    | _ => (codecs.geometryFromJson f.geometry).map some
  return { id := f.id, geometry := geometry, properties := f.properties }

def load (entry : Entry) : Except ToolkitError (String × StoredLayer) := do
  let bytes ← entry.bytes.mapError .io
  let persisted ← (codecs.fromSlice bytes).mapError (.importFailed "store")
  let features ← persisted.features.mapM (readFeature codecs)
  let layer : Layer :=
    { name := persisted.name, crs := persisted.crs, crsStatus := persisted.crsStatus
      fields := persisted.fields, features := features, provenance := persisted.provenance }
  if layer.id codecs.floatText codecs.outlines = persisted.id then
    return (persisted.id,
      { layer := layer, receipt := persisted.receipt, style := persisted.style })
  else
    throw (.verification
      ("stored layer " ++ persisted.id ++ " no longer matches its content digest"))

def isLayerFile (entry : Entry) : Bool :=
  "lyr_".toList.isPrefixOf entry.name.toList && ".json".toList.isSuffixOf entry.name.toList

/-- Older files first, and by name where the times agree. -/
def inOrder (a b : Entry) : Bool :=
  a.modified < b.modified || (a.modified = b.modified && (compare a.name b.name).isLE)

def layerFiles (listing : List Entry) : List Entry := (listing.filter isLayerFile).mergeSort inOrder

def loadInto (dir : String) (state : LayerStore × List String) (entry : Entry) :
    LayerStore × List String :=
  match load codecs entry with
  | .ok (id, stored) => ({ state.1 with
      order := state.1.order ++ [id], layers := state.1.layers.insert id stored }, state.2)
  | .error e => (state.1, state.2 ++ [dir ++ "/" ++ entry.name ++ ": " ++ e.display])

/-- `LayerStore::open` on the entries of a directory. -/
def openDir (dir : String) (listing : List Entry) : LayerStore × List String :=
  (layerFiles listing).foldl (loadInto codecs dir) ({ dir := some dir }, [])

variable {Disk : Type} (fs : FileSystem Disk)

abbrev StoreM (Disk α : Type) := Fallible ToolkitError (LayerStore × Disk) α

def onDisk {α : Type} (m : Fallible String Disk α) : StoreM Disk α :=
  zoom Prod.snd (fun s disk => (s.1, disk)) (mapError .io m)

variable (id : String)

def persisted (stored : StoredLayer) : Persisted where
  format := "genegis-layer-store-v1"
  id := id
  name := stored.layer.name
  crs := stored.layer.crs
  crsStatus := stored.layer.crsStatus
  fields := stored.layer.fields
  provenance := stored.layer.provenance
  receipt := stored.receipt
  style := stored.style
  features := stored.layer.features.map fun f =>
    { id := f.id, geometry := (f.geometry.map codecs.geometryToJson).getD .null
      properties := f.properties }

def file (dir id : String) : String := dir ++ "/" ++ id ++ ".json"

def persist (stored : StoredLayer) : StoreM Disk Unit := do
  let (store, _) ← get
  match store.dir with
  | none => return ()
  | some dir =>
    let bytes ← Fallible.lift ((codecs.toVec (persisted codecs id stored)).mapError .command)
    onDisk (fs.write (file dir id ++ ".tmp") bytes)
    onDisk (fs.rename (file dir id ++ ".tmp") (file dir id))

def insert (layer : Layer) (receipt : Value) : StoreM Disk String := do
  let (store, _) ← get
  let id := layer.id codecs.floatText codecs.outlines
  let style := (store.layers[id]?.map StoredLayer.style).getD .null
  let stored : StoredLayer := { layer := layer, receipt := receipt, style := style }
  persist codecs fs id stored
  modify fun s => ({ s.1 with
    order := if s.1.layers.contains id then s.1.order else s.1.order ++ [id]
    layers := s.1.layers.insert id stored }, s.2)
  return id

def update (change : StoredLayer → StoredLayer) : StoreM Disk Unit := do
  let (store, _) ← get
  match store.layers[id]? with
  | none => throw (.unknownReference id)
  | some stored =>
    persist codecs fs id (change stored)
    modify fun s => ({ s.1 with layers := s.1.layers.insert id (change stored) }, s.2)

def rename (id name : String) : StoreM Disk Unit := update codecs fs id fun stored =>
    { stored with layer := { stored.layer with name := Text.trim name } }

def setStyle (style : Value) : StoreM Disk Unit :=
  update codecs fs id fun stored => { stored with style := style }

def remove : StoreM Disk Unit := do
  let (store, _) ← get
  Fallible.check (store.layers.contains id) (.unknownReference id)
  modify fun s => ({ s.1 with
    layers := s.1.layers.erase id, order := s.1.order.filter fun x => x != id }, s.2)
  match store.dir with
  | none => return ()
  | some dir =>
    let (_, disk) ← get
    if fs.isThere (file dir id) disk then onDisk (fs.removeFile (file dir id))

inductive Op where
  | insert (layer : Layer) (receipt : Value)
  | rename (id name : String)
  | setStyle (id : String) (style : Value)
  | remove (id : String)

def apply : Op → StoreM Disk Unit
  | .insert layer receipt => do
    let _ ← insert codecs fs layer receipt
  | .rename id name => rename codecs fs id name
  | .setStyle id style => setStyle codecs fs id style
  | .remove id => remove fs id

/-- A failed operation leaves what it had done. -/
def run (ops : List Op) (s : LayerStore × Disk) : LayerStore × Disk :=
  ops.foldl (fun s op => after (apply codecs fs op) s) s

end Store
end GeneGIS.Toolkit
