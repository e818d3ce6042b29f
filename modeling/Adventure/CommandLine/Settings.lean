import Adventure.CommandLine.Usage
import Adventure.Room.Verb
import Adventure.Text.Number
/-! The settings of a run of the player, as the command line gives them. -/
namespace Adventure.CommandLine

/-- The options as they are given. -/
structure PlayOptions where
  dataRoot : String := "data"
  room : Option UInt16 := none
  ticks : Nat := 500
  verbs : List String := []
  seed : UInt64 := 0
  inventory : String := "inv.txt"
  eventLog : Option String := none
  saveTo : Option String := none
  load : Option String := none
  verbose : Bool := false

def nonempty (value : String) : Except UsageError String :=
  if value.isEmpty then .error .invalidValue else .ok value

def roomNumber (value : String) : Except UsageError UInt16 :=
  match Text.readWide value with
  | .ok n => if 0 ≤ n ∧ n < 0x10000 then .ok n.toNat.toUInt16 else .error .valueValidation
  | .error _ => .error .valueValidation

def wholeNumber (value : String) : Except UsageError UInt64 :=
  (Text.readUInt64 value).mapError fun _ => .valueValidation

def playCommand : Command PlayOptions where
  options := [
    ("data-root", .single fun v o => do return { o with dataRoot := ← nonempty v }),
    ("room", .single fun v o => do return { o with room := some (← roomNumber v) }),
    ("ticks", .single fun v o => do return { o with ticks := (← wholeNumber v).toNat }),
    ("verb", .repeatable fun v o => .ok { o with verbs := o.verbs ++ [v] }),
    ("seed", .single fun v o => do return { o with seed := ← wholeNumber v }),
    ("inventory", .single fun v o => .ok { o with inventory := v }),
    ("event-log-json", .single fun v o => do return { o with eventLog := some (← nonempty v) }),
    ("save-out", .single fun v o => do return { o with saveTo := some (← nonempty v) }),
    ("load", .single fun v o => do return { o with load := some (← nonempty v) }),
    ("verbose", .flag fun o => { o with verbose := true })]
  bare := fun _ _ => .error .unknownArgument

/-- Where a run begins. -/
inductive Start where
  | room (id : UInt16)
  | save (path : String)

structure PlaySettings where
  dataRoot : String
  start : Start
  ticks : Nat
  verbs : List (Verb × String)
  seed : UInt64
  inventory : String
  eventLog : Option String
  saveTo : Option String
  verbose : Bool

inductive SettingsError where
  | usage (cause : UsageError)
  | roomAndLoad
  | noStart
  | notVerbObject (arg : String)
  | unknownVerb (word : String)
  | noObject (arg : String)
  deriving DecidableEq, Repr

def SettingsError.message : SettingsError → String
  | .usage _ => "usage"
  | .roomAndLoad => "--room cannot be combined with --load"
  | .noStart => "either --room or --load is required"
  | .notVerbObject arg => s!"--verb {Text.quote arg} is not VERB:OBJECT"
  | .unknownVerb word => Verb.unknownMessage word
  | .noObject arg => s!"--verb {Text.quote arg} names no object"

/-- Parts `VERB:OBJECT`; the object may hold further colons. -/
def verbObject (arg : String) : Except SettingsError (Verb × String) :=
  match Text.cut? (· == ':') arg with
  | none => .error (.notVerbObject arg)
  | some (word, object) =>
    match Verb.ofText? (Text.trim word) with
    | none => .error (.unknownVerb (Text.trim word))
    | some verb =>
      let object := Text.trim object
      if object.isEmpty then .error (.noObject arg) else .ok (verb, object)

def PlayOptions.start (o : PlayOptions) : Except SettingsError Start :=
  match o.room, o.load with
  | some _, some _ => .error .roomAndLoad
  | some id, none => .ok (.room id)
  | none, some path => .ok (.save path)
  | none, none => .error .noStart

def PlaySettings.ofArguments (args : List String) : Except SettingsError PlaySettings := do
  let o ← (playCommand.read {} args).mapError .usage
  let start ← o.start
  let verbs ← o.verbs.mapM verbObject
  return {
    dataRoot := o.dataRoot, start, ticks := o.ticks, verbs, seed := o.seed
    inventory := o.inventory, eventLog := o.eventLog, saveTo := o.saveTo, verbose := o.verbose }

end Adventure.CommandLine
