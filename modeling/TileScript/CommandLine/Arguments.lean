import TileScript.Id
import TileScript.Text.Numeral
import TileScript.Text.Search

/-! # Arguments

The arguments of the program: flags, a command, and the flags and files of the command. A flag that
takes a value has it in the same argument or in the next one. The first fault ends the reading, and
so does a request for help or for the version.
-/

namespace TileScript.CommandLine

/-- The three commands. -/
inductive Action where
  | run
  | functions
  | check
  deriving DecidableEq, Repr

inductive Flag where
  | verbose
  | help
  | version
  | scenario
  | scripts
  | ticks
  | budget
  | events
  | eventEntity
  | eventTick
  deriving DecidableEq, Repr

/-- What is wrong with the arguments. -/
inductive UsageError where
  | noAction
  | unexpected (argument : String)
  | repeated (flag : Flag)
  | missingValue (flag : Flag)
  | unwantedValue (flag : Flag)
  | invalidValue (flag : Flag) (value : String)
  | missingFlag (flag : Flag)
  | invalidFile
  | noFiles
  deriving DecidableEq, Repr

/-- Why reading ended before the last argument. -/
inductive Stop where
  | fault (e : UsageError)
  /-- Help was asked for, with a command or the whole program. -/
  | help (action : Option Action)
  | version (action : Option Action)
  deriving DecidableEq, Repr

namespace Action

def name : Action → String
  | .run => "run"
  | .functions => "functions"
  | .check => "check"

def ofName? (s : String) : Option Action :=
  if s = "run" then some .run
  else if s = "functions" then some .functions
  else if s = "check" then some .check
  else none

@[simp] theorem ofName?_name (a : Action) : ofName? a.name = some a := by
  cases a <;> decide

end Action

namespace Flag

def long : Flag → String
  | .verbose => "verbose"
  | .help => "help"
  | .version => "version"
  | .scenario => "scenario"
  | .scripts => "scripts"
  | .ticks => "ticks"
  | .budget => "budget"
  | .events => "events"
  | .eventEntity => "event-entity"
  | .eventTick => "event-tick"

def short? : Flag → Option Char
  | .verbose => some 'v'
  | .help => some 'h'
  | .version => some 'V'
  | .scenario => some 's'
  | .ticks => some 't'
  | .budget => some 'b'
  | .events => some 'e'
  | .scripts | .eventEntity | .eventTick => none

def takesValue : Flag → Bool
  | .verbose | .help | .version | .events => false
  | .scenario | .scripts | .ticks | .budget | .eventEntity | .eventTick => true

/-- The flags that a command knows, or the program before a command. -/
def known : Option Action → List Flag
  | some .run =>
    [.scenario, .scripts, .ticks, .budget, .events, .eventEntity, .eventTick, .verbose, .help,
      .version]
  | some .functions => [.scripts, .verbose, .help, .version]
  | some .check | none => [.verbose, .help, .version]

end Flag

/-- What the arguments gave so far. -/
structure Options where
  verbose : Bool := false
  scenario : Option String := none
  scripts : Option String := none
  ticks : Option Nat := none
  budget : Option Nat := none
  events : Bool := false
  eventEntity : Option EntityId := none
  eventTick : Option Nat := none
  files : List String := []
  deriving DecidableEq, Repr

/-- The form of one argument. -/
inductive Argument where
  /-- Two hyphens: everything behind them is a file. -/
  | escape
  | long (name : String) (value : Option String)
  | short (letters : List Char)
  | plain (text : String)
  deriving DecidableEq, Repr

/-- Hyphens open flags, but one hyphen alone is plain. -/
def Argument.ofText (text : String) : Argument :=
  match text.toList with
  | ['-', '-'] => .escape
  | '-' :: '-' :: name =>
    match Text.splitOnce? '=' name with
    | some (name, value) => .long (String.ofList name) (some (String.ofList value))
    | none => .long (String.ofList name) none
  | '-' :: c :: letters => .short (c :: letters)
  | _ => .plain text

/-- Reading under way. -/
structure Reading where
  options : Options := {}
  /-- The flag whose value is the next argument. -/
  waiting : Option Flag := none
  /-- Whether everything to come is a file. -/
  escaped : Bool := false
  deriving DecidableEq, Repr

namespace Options

/-- Gives a field its value unless it has one. -/
def fill {α : Type} (flag : Flag) (value : String) (old new : Option α) (set : α → Options) :
    Except Stop Options :=
  match old, new with
  | some _, _ => .error (.fault (.repeated flag))
  | none, some a => .ok (set a)
  | none, none => .error (.fault (.invalidValue flag value))

/-- A path has at least one character. -/
def path? (value : String) : Option String := if value = "" then none else some value

/-- An entity is given by its number, and zero may have either sign. -/
def entity? (value : String) : Option EntityId :=
  ((Text.readInt? value.toList).bind toUInt32?).map EntityId.mk

/-- Takes a flag that has a value. -/
def setValue (o : Options) (flag : Flag) (value : String) : Except Stop Options :=
  match flag with
  | .scenario => fill flag value o.scenario (path? value) fun p => { o with scenario := some p }
  | .scripts => fill flag value o.scripts (path? value) fun p => { o with scripts := some p }
  | .ticks =>
    fill flag value o.ticks (Text.readNat64? value.toList) fun n => { o with ticks := some n }
  | .budget =>
    fill flag value o.budget (Text.readNat64? value.toList) fun n => { o with budget := some n }
  | .eventEntity =>
    fill flag value o.eventEntity (entity? value) fun id => { o with eventEntity := some id }
  | .eventTick =>
    fill flag value o.eventTick (Text.readNat64? value.toList) fun n =>
      { o with eventTick := some n }
  | .verbose | .help | .version | .events => .error (.fault (.unwantedValue flag))

/-- Takes a flag that has no value. -/
def setFlag (action : Option Action) (o : Options) (flag : Flag) : Except Stop Options :=
  match flag with
  | .help => .error (.help action)
  | .version => .error (.version action)
  | .verbose =>
    if o.verbose then .error (.fault (.repeated flag)) else .ok { o with verbose := true }
  | .events => if o.events then .error (.fault (.repeated flag)) else .ok { o with events := true }
  | .scenario | .scripts | .ticks | .budget | .eventEntity | .eventTick =>
    .error (.fault (.missingValue flag))

/-- Takes a file; only one command has files. -/
def addFile (action : Option Action) (o : Options) (path : String) : Except Stop Options :=
  if action ≠ some .check then .error (.fault (.unexpected path))
  else if path = "" then .error (.fault .invalidFile)
  else .ok { o with files := o.files ++ [path] }

end Options

namespace Reading

/-- A flag by its long name, with the value behind an equals sign if there is one. -/
def long (action : Option Action) (r : Reading) (name : String) (value : Option String) :
    Except Stop Reading :=
  match (Flag.known action).find? (·.long == name), value with
  | none, _ => .error (.fault (.unexpected ("--" ++ name)))
  | some flag, some v => return { r with options := ← r.options.setValue flag v }
  | some flag, none =>
    if flag.takesValue then return { r with waiting := some flag }
    else return { r with options := ← r.options.setFlag action flag }

/-- Flags by their letters. What follows the letter of a flag with a value is the value, behind an
equals sign or without one. -/
def short (action : Option Action) (r : Reading) : List Char → Except Stop Reading
  | [] => .ok r
  | c :: cs =>
    match (Flag.known action).find? (·.short? == some c) with
    | none => .error (.fault (.unexpected (String.ofList ['-', c])))
    | some flag =>
      if flag.takesValue then
        match cs with
        | [] => return { r with waiting := some flag }
        | '=' :: value => return { r with options := ← r.options.setValue flag (String.ofList value) }
        | value => return { r with options := ← r.options.setValue flag (String.ofList value) }
      else do
        let options ← r.options.setFlag action flag
        short action { r with options } cs

/-- Takes one argument. A flag that waits for its value takes only a plain one. -/
def step (action : Option Action) (r : Reading) (argument : String) : Except Stop Reading :=
  if r.escaped then return { r with options := ← r.options.addFile action argument }
  else
    match r.waiting, Argument.ofText argument with
    | some flag, .plain value =>
      return { r with options := ← r.options.setValue flag value, waiting := none }
    | some flag, _ => .error (.fault (.missingValue flag))
    | none, .escape => return { r with escaped := true }
    | none, .long name value => r.long action name value
    | none, .short letters => r.short action letters
    | none, .plain text => return { r with options := ← r.options.addFile action text }

/-- The options, once all arguments are read. -/
def finish (r : Reading) : Except Stop Options :=
  match r.waiting with
  | some flag => .error (.fault (.missingValue flag))
  | none => .ok r.options

end Reading

/-- Which events to show. -/
structure EventFilter where
  entity : Option EntityId := none
  tick : Option Nat := none
  deriving DecidableEq, Repr

structure RunOptions where
  scenario : String
  /-- The directory of the scripts. -/
  scripts : String := "."
  ticks : Nat := 10
  budget : Option Nat := none
  /-- The events to print, if events are printed. -/
  events : Option EventFilter := none
  deriving DecidableEq, Repr

/-- A command with what it needs. -/
inductive Invocation where
  | run (o : RunOptions)
  | functions (scripts : String)
  | check (files : List String)
  deriving DecidableEq, Repr

namespace Options

/-- The options of a run. A filter of events is of use only with events. -/
def runOptions (o : Options) : Except Stop RunOptions :=
  match o.scenario with
  | none => .error (.fault (.missingFlag .scenario))
  | some scenario =>
    if !o.events && (o.eventEntity.isSome || o.eventTick.isSome) then
      .error (.fault (.missingFlag .events))
    else
      .ok {
        scenario
        scripts := o.scripts.getD "."
        ticks := o.ticks.getD 10
        budget := o.budget
        events := if o.events then some ⟨o.eventEntity, o.eventTick⟩ else none }

def invocation (o : Options) : Action → Except Stop Invocation
  | .run => o.runOptions.map .run
  | .functions => .ok (.functions (o.scripts.getD "."))
  | .check => if o.files.isEmpty then .error (.fault .noFiles) else .ok (.check o.files)

end Options

namespace Invocation

/-- Reads the arguments behind a command. -/
def ofArguments (action : Action) (args : List String) : Except Stop Invocation := do
  let r ← args.foldlM (Reading.step (some action)) {}
  (← r.finish).invocation action

/-- What follows the word `help`: nothing, or one thing there is help for. -/
def helpTopic : List String → Stop
  | [] => .help none
  | [topic] =>
    match Action.ofName? topic with
    | some a => .help (some a)
    | none => if topic = "help" then .help none else .fault (.unexpected topic)
  | _ :: extra :: _ => .fault (.unexpected extra)

/-- Reads arguments from the program's flags on. -/
def read (r : Reading) : List String → Except Stop Invocation
  | [] => .error (.fault .noAction)
  | a :: args =>
    if r.escaped then .error (.fault (.unexpected a))
    else if a = "help" then .error (helpTopic args)
    else
      match Action.ofName? a with
      | some action => ofArguments action args
      | none => do
        let r ← r.step none a
        read r args

/-- The invocation that arguments ask for. -/
def parse (args : List String) : Except Stop Invocation := read {} args

end Invocation

end TileScript.CommandLine
