/-
A geometry is a stream of commands, each with a count and the steps of one cursor.  Closing a path
leaves the cursor where it is.
-/
import GeneGIS.Tile.Mvt

namespace GeneGIS.Mvt

open Option Varint
open List hiding isEmpty_iff

abbrev Point := Int × Int

inductive Command where
  | moveTo (steps : List Point)
  | lineTo (steps : List Point)
  | closePath

/-! ## The reader -/

def unzigzag (n : Nat) : Int := if n % 2 = 0 then (n / 2 : Nat) else -((n / 2 : Nat) : Int) - 1

def readSteps : Nat → Bytes → Option (List Point × Bytes)
  | 0, bytes => some ([], bytes)
  | count + 1, bytes => do
    let (dx, bytes) ← decode bytes
    let (dy, bytes) ← decode bytes
    let (steps, bytes) ← readSteps count bytes
    return ((unzigzag dx, unzigzag dy) :: steps, bytes)

/-- A command: the three low bits say which, the others how often.  A path is closed once. -/
def readCommand (bytes : Bytes) : Option (Command × Bytes) := do
  let (integer, bytes) ← decode bytes
  match integer % 8, integer / 8 with
  | 1, count => (readSteps count bytes).map fun read => (.moveTo read.1, read.2)
  | 2, count => (readSteps count bytes).map fun read => (.lineTo read.1, read.2)
  | 7, 1 => some (.closePath, bytes)
  | _, _ => none

/-- Read commands to the end of the bytes, which bound their number. -/
def readCommands : Nat → Bytes → Option (List Command)
  | _, [] => some []
  | 0, _ :: _ => none
  | fuel + 1, bytes => do
    let (command, rest) ← readCommand bytes
    let commands ← readCommands fuel rest
    return command :: commands

/-- The cursor, the path that is open and the rings that are closed. -/
structure Canvas where
  cursor : Point
  path : Option (List Point)
  rings : List (List Point)

variable (canvas : Canvas)

def Canvas.moved (step : Point) : Point := (canvas.cursor.1 + step.1, canvas.cursor.2 + step.2)

/-- A path begins only where none is open. -/
def moveTo : Canvas → List Point → Option Canvas
  | canvas, [] => some canvas
  | canvas, step :: steps =>
    match canvas.path with
    | none =>
      moveTo { canvas with cursor := canvas.moved step, path := some [canvas.moved step] } steps
    | some _ => none

def lineTo : Canvas → List Point → Option Canvas
  | canvas, [] => some canvas
  | canvas, step :: steps =>
    match canvas.path with
    | none => none
    | some path =>
      lineTo { canvas with cursor := canvas.moved step, path := some (path ++ [canvas.moved step]) }
        steps

def closePath : Option Canvas :=
  canvas.path.map fun path => { canvas with path := none, rings := canvas.rings ++ [path] }

def execute : Command → Option Canvas
  | .moveTo steps => moveTo canvas steps
  | .lineTo steps => lineTo canvas steps
  | .closePath => closePath canvas

/-- The rings of a geometry, with every path closed at the end. -/
def replay (geometry : Bytes) : Option (List (List Point)) := do
  let commands ← readCommands geometry.length geometry
  let canvas ← commands.foldlM execute { cursor := (0, 0), path := none, rings := [] }
  if canvas.path.isSome then none else some canvas.rings

def stepsFrom : Point → List Point → List Point
  | _, [] => []
  | cursor, point :: rest => (point.1 - cursor.1, point.2 - cursor.2) :: stepsFrom point rest

def ringCommands (cursor : Point) : List Point → List Command
  | [] => []
  | first :: rest =>
    .moveTo (stepsFrom cursor [first]) ::
      ((if rest.isEmpty then [] else [.lineTo (stepsFrom first rest)]) ++ [.closePath])

/-- The commands of rings, each from the last point of the one before it. -/
def commandsFrom : Point → List (List Point) → List Command
  | _, [] => []
  | cursor, ring :: rest => ringCommands cursor ring ++ commandsFrom (ring.getLastD cursor) rest

def writeStep (step : Point) : Bytes := pushVarint (zigzag step.1) ++ pushVarint (zigzag step.2)

def Command.write : Command → Bytes
  | .moveTo steps => pushVarint (8 * steps.length + 1) ++ steps.flatMap writeStep
  | .lineTo steps => pushVarint (8 * steps.length + 2) ++ steps.flatMap writeStep
  | .closePath => pushVarint 15

theorem unzigzag_zigzag (value : Int) : unzigzag (zigzag value) = value := by
  rw [zigzag, unzigzag]
  by_cases h : 0 ≤ value
  · rw [if_pos h, if_pos (by omega)]
    omega
  · rw [if_neg h, if_neg (by omega)]
    omega

theorem readSteps_write (steps : List Point) (rest : Bytes) :
    readSteps steps.length (steps.flatMap writeStep ++ rest) = some (steps, rest) := by
  induction steps with
  | nil => rfl
  | cons step others ih =>
    rw [length_cons, readSteps, flatMap_cons, writeStep, pushVarint, pushVarint,
      append_assoc, append_assoc, decode_encode]
    show (do
      let (dy, bytes) ← decode (encode (zigzag step.2) ++ _)
      let (steps, bytes) ← readSteps others.length bytes
      return ((unzigzag (zigzag step.1), unzigzag dy) :: steps, bytes)) = _
    rw [decode_encode]
    show (do
      let (steps, bytes) ← readSteps others.length _
      return ((unzigzag (zigzag step.1), unzigzag (zigzag step.2)) :: steps, bytes)) = _
    rw [ih, unzigzag_zigzag, unzigzag_zigzag]
    rfl

theorem readCommand_write (command : Command) (rest : Bytes) :
    readCommand (command.write ++ rest) = some (command, rest) := by
  cases command with
  | moveTo steps =>
    have hid : (8 * steps.length + 1) % 8 = 1 := by omega
    have hcount : (8 * steps.length + 1) / 8 = steps.length := by omega
    rw [readCommand, Command.write, pushVarint, append_assoc, decode_encode]
    dsimp only [bind_eq_bind, bind_some]
    rw [hid, hcount]
    show (readSteps steps.length _).map _ = _
    rw [readSteps_write]
    rfl
  | lineTo steps =>
    have hid : (8 * steps.length + 2) % 8 = 2 := by omega
    have hcount : (8 * steps.length + 2) / 8 = steps.length := by omega
    rw [readCommand, Command.write, pushVarint, append_assoc, decode_encode]
    dsimp only [bind_eq_bind, bind_some]
    rw [hid, hcount]
    show (readSteps steps.length _).map _ = _
    rw [readSteps_write]
    rfl
  | closePath =>
    rw [readCommand, Command.write, pushVarint, decode_encode]
    rfl

theorem write_ne_nil (command : Command) : command.write ≠ [] := by
  intro hnil
  have hread := readCommand_write command []
  rw [hnil] at hread
  cases hread

theorem length_le_write (commands : List Command) :
    commands.length ≤ (commands.flatMap Command.write).length := by
  induction commands with
  | nil => exact Nat.le_refl _
  | cons command others ih =>
    have hpos := length_pos_iff.mpr (write_ne_nil command)
    rw [length_cons, flatMap_cons, length_append]
    omega

theorem readCommands_write {fuel : Nat} {commands : List Command} (h : commands.length ≤ fuel) :
    readCommands fuel (commands.flatMap Command.write) = some commands := by
  induction commands generalizing fuel with
  | nil => rw [flatMap_nil, readCommands]
  | cons command others ih =>
    rw [length_cons] at h
    obtain ⟨left, rfl⟩ : ∃ left, fuel = left + 1 := ⟨fuel - 1, by omega⟩
    rw [flatMap_cons, readCommands, readCommand_write]
    · show (do
        let commands ← readCommands left (others.flatMap Command.write)
        return command :: commands) = _
      rw [ih (by omega)]
      rfl
    · intro hnil
      exact write_ne_nil command (append_eq_nil_iff.mp hnil).1

theorem lineTo_stepsFrom (cursor : Point) (path : List Point) (rings : List (List Point))
    (points : List Point) :
    lineTo { cursor := cursor, path := some path, rings := rings } (stepsFrom cursor points) =
      some { cursor := points.getLastD cursor, path := some (path ++ points), rings := rings } := by
  induction points generalizing cursor path with
  | nil => rw [stepsFrom, lineTo, append_nil, getLastD_nil]
  | cons point others ih =>
    have hmoved : Canvas.moved { cursor := cursor, path := some path, rings := rings }
        (point.1 - cursor.1, point.2 - cursor.2) = point := by
      refine Prod.ext ?_ ?_
      · show cursor.1 + (point.1 - cursor.1) = point.1
        omega
      · show cursor.2 + (point.2 - cursor.2) = point.2
        omega
    rw [stepsFrom, lineTo, hmoved, getLastD_cons]
    show lineTo { cursor := point, path := some (path ++ [point]), rings := rings }
      (stepsFrom point others) = _
    rw [ih, append_assoc, List.singleton_append]

theorem foldlM_ringCommands (cursor : Point) (rings : List (List Point)) {ring : List Point}
    (h : ring ≠ []) :
    (ringCommands cursor ring).foldlM execute { cursor := cursor, path := none, rings := rings } =
      some { cursor := ring.getLastD cursor, path := none, rings := rings ++ [ring] } := by
  cases ring with
  | nil => exact absurd rfl h
  | cons first rest =>
    have hmoved : Canvas.moved { cursor := cursor, path := none, rings := rings }
        (first.1 - cursor.1, first.2 - cursor.2) = first := by
      refine Prod.ext ?_ ?_
      · show cursor.1 + (first.1 - cursor.1) = first.1
        omega
      · show cursor.2 + (first.2 - cursor.2) = first.2
        omega
    have hopened : execute { cursor := cursor, path := none, rings := rings }
        (.moveTo (stepsFrom cursor [first])) =
        some { cursor := first, path := some [first], rings := rings } := by
      rw [execute, stepsFrom, moveTo, hmoved, stepsFrom, moveTo]
    rw [ringCommands, List.foldlM_cons, hopened, bind_eq_bind, bind_some]
    by_cases hrest : rest = []
    · rw [hrest]
      rfl
    · have hdrawn := lineTo_stepsFrom first [first] rings rest
      rw [if_neg (by rwa [List.isEmpty_iff]), List.singleton_append, List.foldlM_cons, execute,
        hdrawn, getLastD_cons]
      rfl

theorem foldlM_commandsFrom (cursor : Point) (drawn : List (List Point))
    {rings : List (List Point)} (h : ∀ ring ∈ rings, ring ≠ []) :
    ∃ last, (commandsFrom cursor rings).foldlM execute
        { cursor := cursor, path := none, rings := drawn } =
      some { cursor := last, path := none, rings := drawn ++ rings } := by
  induction rings generalizing cursor drawn with
  | nil => exact ⟨cursor, by rw [commandsFrom, append_nil]; rfl⟩
  | cons ring others ih =>
    obtain ⟨hring, hothers⟩ := forall_mem_cons.mp h
    obtain ⟨last, hlast⟩ := ih (ring.getLastD cursor) (drawn ++ [ring]) hothers
    refine ⟨last, ?_⟩
    rw [commandsFrom, foldlM_append, foldlM_ringCommands cursor drawn hring,
      bind_eq_bind, bind_some, hlast, append_assoc, List.singleton_append]

theorem replay_commandsFrom {rings : List (List Point)} (h : ∀ ring ∈ rings, ring ≠ []) :
    replay ((commandsFrom (0, 0) rings).flatMap Command.write) = some rings := by
  obtain ⟨last, hlast⟩ := foldlM_commandsFrom (0, 0) [] h
  rw [replay, readCommands_write (length_le_write _), bind_eq_bind, bind_some, hlast,
    bind_eq_bind, bind_some, if_neg (by exact Bool.false_ne_true), nil_append]

/-! ## The encoder writes these commands -/

theorem pushDeltas_eq (cursor : Point) (points : List Point) :
    pushDeltas cursor points = (stepsFrom cursor points).flatMap writeStep := by
  induction points generalizing cursor with
  | nil => rfl
  | cons point others ih => rw [pushDeltas, stepsFrom, flatMap_cons, ih]; rfl

theorem length_stepsFrom (cursor : Point) (points : List Point) :
    (stepsFrom cursor points).length = points.length := by
  induction points generalizing cursor with
  | nil => rfl
  | cons point others ih => rw [stepsFrom, length_cons, length_cons, ih]

theorem encodeRingCommands_eq (cursor : Point) (ring : List Point) :
    encodeRingCommands ring cursor =
      ((ringCommands cursor ring).flatMap Command.write, ring.getLastD cursor) := by
  cases ring with
  | nil => rfl
  | cons first rest =>
    have hlast : (first :: rest).getLast (cons_ne_nil _ _) = (first :: rest).getLastD cursor := by
      rw [getLastD_eq_getLast?, getLast?_eq_getLast_of_ne_nil (cons_ne_nil _ _), getD_some]
    have hline : 2 ||| rest.length <<< 3 = 8 * rest.length + 2 := by
      have hor := Nat.two_pow_add_eq_or_of_lt (i := 3) (by decide : 2 < 2 ^ 3) rest.length
      rw [Nat.or_comm, Nat.shiftLeft_eq, Nat.mul_comm, ← hor]
    have hmove : 1 ||| 1 <<< 3 = 9 := by decide
    have hclose : 7 ||| 1 <<< 3 = 15 := by decide
    have hstep : (stepsFrom cursor [first]).flatMap writeStep = pushZigzagDelta cursor first := by
      rw [← pushDeltas_eq, pushDeltas, pushDeltas, append_nil]
    have hopened : (Command.moveTo (stepsFrom cursor [first])).write =
        pushVarint 9 ++ pushZigzagDelta cursor first := by
      rw [Command.write, length_stepsFrom, hstep]
      rfl
    rw [encodeRingCommands, ringCommands, hlast, hline, hmove, hclose, flatMap_cons, hopened,
      flatMap_append, append_assoc]
    refine Prod.ext (congrArg (fun more => pushVarint 9 ++ pushZigzagDelta cursor first ++ more) ?_) rfl
    by_cases hrest : rest = []
    · rw [hrest]
      simp [Command.write]
    · have hlength : (stepsFrom first rest).length = rest.length := length_stepsFrom first rest
      rw [if_neg (by rwa [List.isEmpty_iff]), if_neg (by rwa [List.isEmpty_iff]), pushDeltas_eq,
        flatMap_singleton, flatMap_singleton, Command.write, hlength, Command.write]

variable (libm : Libm) (z x y extent : Nat)

def preparedHoles (holes : List (List PlanePoint)) : List (List Point) :=
  holes.filterMap fun hole => prepareRing (projectRing libm hole z x y extent) false

/-- The rings of a part that are encoded: none without its exterior. -/
def preparedPart (part : TilePolygonPart) : List (List Point) :=
  match prepareRing (projectRing libm part.exterior z x y extent) true with
  | none => []
  | some exterior =>
    exterior :: preparedHoles libm z x y extent part.holes

def preparedRings (feature : TilePolygonFeature) : List (List Point) :=
  feature.parts.flatMap (preparedPart libm z x y extent)

def lastOf (cursor : Point) (rings : List (List Point)) : Point :=
  rings.foldl (fun cursor ring => ring.getLastD cursor) cursor

theorem commandsFrom_append (cursor : Point) (rings more : List (List Point)) :
    commandsFrom cursor (rings ++ more) =
      commandsFrom cursor rings ++ commandsFrom (lastOf cursor rings) more := by
  induction rings generalizing cursor with
  | nil => rfl
  | cons ring others ih =>
    rw [cons_append, commandsFrom, commandsFrom, ih, append_assoc]
    rfl

theorem encodeHoles_eq (cursor : Point) (holes : List (List PlanePoint)) :
    encodeHoles libm z x y extent cursor holes =
      ((commandsFrom cursor (preparedHoles libm z x y extent holes)).flatMap Command.write,
        lastOf cursor (preparedHoles libm z x y extent holes)) := by
  induction holes generalizing cursor with
  | nil => rfl
  | cons hole rest ih =>
    rw [encodeHoles, preparedHoles, filterMap_cons]
    cases prepareRing (projectRing libm hole z x y extent) false with
    | none => exact ih cursor
    | some ring =>
      dsimp only
      rw [encodeRingCommands_eq, ih]
      dsimp only
      rw [commandsFrom, flatMap_append]
      rfl

theorem encodeParts_eq (cursor : Point) (parts : List TilePolygonPart) :
    encodeParts libm z x y extent cursor parts =
      (commandsFrom cursor (parts.flatMap (preparedPart libm z x y extent))).flatMap
        Command.write := by
  induction parts generalizing cursor with
  | nil => rfl
  | cons part rest ih =>
    rw [encodeParts, flatMap_cons, preparedPart]
    cases prepareRing (projectRing libm part.exterior z x y extent) true with
    | none => exact ih cursor
    | some exterior =>
      dsimp only
      rw [encodeRingCommands_eq]
      dsimp only
      rw [encodeHoles_eq]
      dsimp only
      rw [ih, commandsFrom_append, flatMap_append, commandsFrom, flatMap_append]
      rfl

theorem prepareRing_ne_nil {ring prepared : List Point} {exterior : Bool}
    (h : prepareRing ring exterior = some prepared) : prepared ≠ [] := by
  rw [prepareRing] at h
  by_cases hshort : ring.length < 3
  · rw [if_pos hshort] at h
    cases h
  · rw [if_neg hshort] at h
    have heither : ∀ turn : Bool, (if turn = true then ring.reverse else ring).length =
        ring.length := by
      intro turn
      cases turn with
      | true => exact length_reverse
      | false => rfl
    have hlength : prepared.length = ring.length := by
      rw [← Option.some.inj h]
      exact heither _
    exact ne_nil_of_length_pos (by omega)

theorem preparedRings_ne_nil (feature : TilePolygonFeature) :
    ∀ ring ∈ preparedRings libm z x y extent feature, ring ≠ [] := by
  intro ring hring
  obtain ⟨part, -, hpart⟩ := mem_flatMap.mp hring
  rw [preparedPart] at hpart
  cases hexterior : prepareRing (projectRing libm part.exterior z x y extent) true with
  | none =>
    rw [hexterior] at hpart
    cases hpart
  | some exterior =>
    rw [hexterior] at hpart
    obtain h | h := mem_cons.mp hpart
    · rw [h]
      exact prepareRing_ne_nil hexterior
    · obtain ⟨hole, -, hprepared⟩ := mem_filterMap.mp h
      exact prepareRing_ne_nil hprepared

theorem commandsFrom_eq_nil {rings : List (List Point)} (h : ∀ ring ∈ rings, ring ≠ []) :
    (commandsFrom (0, 0) rings).flatMap Command.write = [] → rings = [] := by
  intro hnil
  have hreplay := replay_commandsFrom h
  rw [hnil] at hreplay
  exact (Option.some.inj hreplay).symm

/-- A geometry is replayed to the rings that were prepared, and there is none without a ring. -/
theorem replay_encodeFeatureGeometry (feature : TilePolygonFeature) :
    match encodeFeatureGeometry libm feature z x y extent with
    | none => preparedRings libm z x y extent feature = []
    | some geometry => replay geometry = some (preparedRings libm z x y extent feature) := by
  have hrings := preparedRings_ne_nil libm z x y extent feature
  have hbuffer := encodeParts_eq libm z x y extent (0, 0) feature.parts
  rw [encodeFeatureGeometry, hbuffer]
  by_cases hempty : (commandsFrom (0, 0) (preparedRings libm z x y extent feature)).flatMap
      Command.write = []
  · have hnone : ((commandsFrom (0, 0)
        (feature.parts.flatMap (preparedPart libm z x y extent))).flatMap Command.write).isEmpty =
        true := List.isEmpty_iff.mpr hempty
    rw [if_pos hnone]
    exact commandsFrom_eq_nil hrings hempty
  · have hsome : ¬ ((commandsFrom (0, 0)
        (feature.parts.flatMap (preparedPart libm z x y extent))).flatMap Command.write).isEmpty =
        true := fun h => hempty (List.isEmpty_iff.mp h)
    rw [if_neg hsome]
    exact replay_commandsFrom hrings

end GeneGIS.Mvt
