import Adventure.CommandLine.Report
import Adventure.CommandLine.Settings
import Adventure.FileTree
import Adventure.Session.Save
/-! Playing without a screen: enter a room or load a saved game, let the scripts settle, apply verbs, and
report. -/
namespace Adventure.CommandLine

inductive PlayError where
  | noDirectory (root : String)
  | readingSave (path : String) (cause : FileTree.Error)
  | session (cause : Session.Error)
  | creating (directory : String) (cause : FileTree.Error)
  | writingLog (path : String) (cause : FileTree.Error)
  | writingSave (path : String) (cause : FileTree.Error)
  deriving DecidableEq, Repr

def PlayError.message : PlayError → String
  | .noDirectory root => s!"indexing data directory {root}: {root} is not a directory"
  | .readingSave path cause => s!"reading save {path}: {cause.message}"
  | .session cause => cause.message
  | .creating directory cause => s!"creating {directory}: {cause.message}"
  | .writingLog path cause => s!"writing event log to {path}: {cause.message}"
  | .writingSave path cause => s!"writing save to {path}: {cause.message}"

def frameLength : Moment := 50

structure Run where
  session : Session
  verbose : Bool
  tick : Nat
  /-- Latest first. -/
  events : List LoggedEvent
  /-- What was printed, latest line first. -/
  printed : List String

namespace Run

def print (r : Run) (line : String) : Run :=
  { r with printed := line :: r.printed }

def printAll (r : Run) (lines : List String) : Run :=
  lines.foldl print r

def log (r : Run) (event : HostEvent) : Run :=
  let entry : LoggedEvent := ⟨r.events.length, r.tick, event⟩
  let r := if r.verbose then r.print entry.line else r
  { r with events := entry :: r.events }

def collect (r : Run) : Run :=
  let (events, host) := r.session.host.takeEvents
  events.foldl log { r with session := r.session.setHost host }

def drive : (max : Nat) → Run → Run
  | 0, r => r
  | max + 1, r =>
    if r.session.interpreter.isDrained then r
    else
      let s := r.session.tick.2
      let session := s.setHost (s.host.advanceClock frameLength)
      drive max { r with session, tick := r.tick + 1 }.collect

/-- Lets the scripts settle, and counts the ticks it takes. -/
def settle (r : Run) (max : Nat) : Nat × Run :=
  let r := r.collect
  let settled := r.drive max
  (settled.tick - r.tick, settled)

def applyVerb (max : Nat) (r : Run) (command : Verb × String) : Run :=
  let (verb, object) := command
  match r.session.dispatchVerb verb object with
  | (true, session) =>
    let (ticks, r) := settle { r with session } max
    r.print s!"{verb.keyword} {object}: ran for {ticks} ticks"
  | (false, session) => { r with session }.print s!"{verb.keyword} {object}: nothing to do"

def summarize (r : Run) : Run :=
  let r := r.printAll (summary r.session)
  let (lines, session) := r.session.conversationLines
  let r := { r with session }
  match session.conversation with
  | some c => r.printAll (choices c.name lines)
  | none => r

end Run

structure Played where
  tree : FileTree
  /-- Everything printed, also before a failure. -/
  output : String
  result : Except PlayError Unit

def Played.ofRun (tree : FileTree) (r : Run) (result : Except PlayError Unit) : Played where
  tree
  output := String.join (r.printed.reverse.map (· ++ "\n"))
  result

/-- The directory of a path as it is written, without slashes and dots at its end. -/
def parentText (path : String) : String :=
  String.ofList ((strip ((strip path.toList.reverse).dropWhile (· != '/'))).reverse)
where
  strip : List Char → List Char
    | '/' :: cs => strip cs
    | '.' :: '/' :: cs => strip cs
    | cs => cs

/-- Writes the event log; missing directories are made. -/
def writeLog (tree : FileTree) (path : String) (log : String) : Except PlayError Unit × FileTree :=
  let directory := parentText path
  match tree.makeDirectories directory with
  | (.error e, tree) => (.error (.creating directory e), tree)
  | (.ok (), tree) =>
    match tree.write path (Text.encode log) with
    | .error e => (.error (.writingLog path e), tree)
    | .ok tree => (.ok (), tree)

def beginSession (tree : FileTree) (start : Start) (s : Session) : Except PlayError Session :=
  match start with
  | .room id =>
    match s.loadInventory with
    | (.error e, _) => .error (.session e)
    | (.ok (), s) =>
      match s.enterRoom id with
      | (.error e, _) => .error (.session e)
      | (.ok (), s) => .ok s
  | .save path =>
    match tree.read path with
    | .error e => .error (.readingSave path e)
    | .ok bytes =>
      match s.load bytes with
      | (.error e, _) => .error (.session e)
      | (.ok (), s) => .ok s

def writeSave (tree : FileTree) (settings : PlaySettings) (r : Run) : Played :=
  match settings.saveTo with
  | none => .ofRun tree r (.ok ())
  | some path =>
    let saved : Except PlayError FileTree := do
      let bytes ← r.session.save.mapError .session
      (tree.write path bytes).mapError (.writingSave path)
    match saved with
    | .error e => .ofRun tree r (.error e)
    | .ok tree => .ofRun tree (r.print s!"Saved session to {path}") (.ok ())

def writeResults (tree : FileTree) (settings : PlaySettings) (r : Run) : Played :=
  match settings.eventLog with
  | none => writeSave tree settings r
  | some path =>
    match writeLog tree path (eventLog r.session.rooms.current r.tick r.events.reverse) with
    | (.error e, tree) => .ofRun tree r (.error e)
    | (.ok (), tree) => writeSave tree settings (r.print s!"Saved event log to {path}")

def play (tree : FileTree) (settings : PlaySettings) : Played :=
  match tree.resources? settings.dataRoot with
  | none => ⟨tree, "", .error (.noDirectory settings.dataRoot)⟩
  | some resources =>
    let config := { SessionConfig.standard with
      seed := settings.seed, inventory := settings.inventory }
    match beginSession tree settings.start (.start config resources (.silent true)) with
    | .error e => ⟨tree, "", .error e⟩
    | .ok session =>
      let r : Run := { session, verbose := settings.verbose, tick := 0, events := [], printed := [] }
      let (ticks, r) := r.settle settings.ticks
      let room := Text.padLeft '0' 4 (toString r.session.rooms.current)
      let r := r.print s!"Room {room} settled after {ticks} ticks"
      let r := settings.verbs.foldl (Run.applyVerb settings.ticks) r
      writeResults tree settings r.summarize

end Adventure.CommandLine
