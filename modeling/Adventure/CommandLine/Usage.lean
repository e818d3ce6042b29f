/-! Reading command lines: options `--name`, `--name VALUE` and `--name=VALUE`, and bare arguments. A value
is checked when the next option or the end of the line is reached. -/
namespace Adventure.CommandLine

inductive UsageError where
  | unknownArgument
  | valueValidation
  | invalidValue
  | argumentConflict
  | tooManyValues
  | missingRequiredArgument
  | displayHelp
  | displayVersion
  deriving DecidableEq, Repr

/-- An option of a command whose settings are kept in `σ`. -/
inductive Setting (σ : Type) where
  | flag (set : σ → σ)
  | single (set : String → σ → Except UsageError σ)
  | repeatable (set : String → σ → Except UsageError σ)

structure Command (σ : Type) where
  options : List (String × Setting σ)
  /-- Takes a bare argument, if it may stand there. -/
  bare : String → σ → Except UsageError σ

/-- An option that was named, and the value given to it so far. -/
structure Waiting (σ : Type) where
  name : String
  setting : Setting σ
  value : Option String

structure Progress (σ : Type) where
  settings : σ
  given : List String
  waiting : Option (Waiting σ)
  /-- After `--` every argument is bare. -/
  onlyBare : Bool

namespace Progress
variable {σ : Type}

def claim (p : Progress σ) (name : String) : Except UsageError (Progress σ) :=
  if p.given.contains name then .error .argumentConflict
  else .ok { p with given := name :: p.given }

def settle (p : Progress σ) (w : Waiting σ) : Except UsageError (Progress σ) :=
  match w.setting, w.value with
  | .flag set, _ => do
    let p ← p.claim w.name
    return { p with settings := set p.settings }
  | .single set, some value => do
    let p ← p.claim w.name
    return { p with settings := ← set value p.settings }
  | .repeatable set, some value => do return { p with settings := ← set value p.settings }
  | _, none => .error .invalidValue

def flush (p : Progress σ) : Except UsageError (Progress σ) :=
  match p.waiting with
  | some w => { p with waiting := none }.settle w
  | none => .ok p

def long (c : Command σ) (p : Progress σ) (name : String) (value : Option String) :
    Except UsageError (Progress σ) :=
  match c.options.lookup name, value with
  | some (.flag _), some _ => .error .tooManyValues
  | some setting, some value => do (← p.flush).settle { name, setting, value }
  | some (.flag set), none => do (← p.flush).settle { name, setting := .flag set, value := none }
  | some setting, none => do
    return { ← p.flush with waiting := some { name, setting, value := none } }
  | none, _ =>
    if name == "help" || name == "version" then
      if value.isSome then .error .tooManyValues
      else do
        let _ ← p.flush
        throw (if name == "help" then .displayHelp else .displayVersion)
    else .error .unknownArgument

def short (p : Progress σ) (letter : Char) : Except UsageError (Progress σ) :=
  if letter == 'h' || letter == 'V' then do
    let _ ← p.flush
    throw (if letter == 'h' then .displayHelp else .displayVersion)
  else .error .unknownArgument

def plain (c : Command σ) (p : Progress σ) (arg : String) : Except UsageError (Progress σ) :=
  match p.waiting with
  | some { name, setting, value := none } =>
    .ok { p with waiting := some { name, setting, value := some arg } }
  | _ => do
    let _ ← c.bare arg p.settings
    let p ← p.flush
    return { p with settings := ← c.bare arg p.settings }

def add (c : Command σ) (p : Progress σ) (arg : String) : Except UsageError (Progress σ) :=
  if p.onlyBare then do
    let settings ← c.bare arg p.settings
    return { p with settings }
  else
    match arg.toList with
    | ['-', '-'] => .ok { p with onlyBare := true }
    | '-' :: '-' :: name =>
      let value := name.dropWhile (· != '=')
      p.long c (String.ofList (name.takeWhile (· != '=')))
        (if value.isEmpty then none else some (String.ofList value.tail))
    | '-' :: letter :: _ => p.short letter
    | _ => p.plain c arg

end Progress

def Command.read {σ : Type} (c : Command σ) (standard : σ) (args : List String) :
    Except UsageError σ := do
  let start : Progress σ := { settings := standard, given := [], waiting := none, onlyBare := false }
  let p ← args.foldlM (Progress.add c) start
  return (← p.flush).settings

end Adventure.CommandLine
