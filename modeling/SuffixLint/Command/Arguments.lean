import SuffixLint.Log
import SuffixLint.Path
import SuffixLint.Report.Format
/-!
# Arguments of the command line

Arguments are options, which begin with a hyphen, and words. Options that hold for every command may
stand before the command or behind it, and then the later place counts. An option stands at most
once on either side. Two hyphens alone end the options, and one hyphen alone is a word.
-/

namespace SuffixLint.Command

/-! ## What is asked for -/

/-- The form in which a short answer is given. -/
inductive AnswerForm where
  | text
  | json
  deriving DecidableEq, Repr

/-- What is to be done. -/
inductive Task where
  /-- Judge one name. -/
  | check (name : String) (isAsync : Bool) (form : AnswerForm)
  /-- Inspect the declarations in inputs and report on them. -/
  | scan (inputs : List Path) (format : Option Format) (output : Option Path)
      (failOn : Option Severity)
  /-- List the detectors and the rules. -/
  | rules (form : AnswerForm)
  /-- Write example settings into a directory. -/
  | init (dir : Path)
  deriving DecidableEq, Repr

/-- What is asked of the program: a task, and what holds for every task. -/
structure Invocation where
  /-- The directory that holds the settings. -/
  config : Path
  /-- The level up to which log records are shown. -/
  logLevel : Log.Level
  task : Task
  deriving DecidableEq, Repr

/-- A page of text that the program shows of itself. -/
inductive Page where
  | help
  | version
  deriving DecidableEq, Repr

/-- What the arguments ask for. -/
inductive Request where
  | page (p : Page)
  | run (i : Invocation)
  deriving DecidableEq, Repr

/-- Why arguments are refused. -/
inductive ArgumentError where
  | noCommand
  | unknownCommand (word : String)
  | unknownOption (argument : String)
  | missingValue (name : String)
  | unexpectedValue (name : String)
  | badValue (name value : String)
  | repeated (name : String)
  | unexpectedWord (word : String)
  | badWord (word : String)
  | missingWord
  deriving DecidableEq, Repr

/-- The text of a refusal. -/
def ArgumentError.message : ArgumentError → String
  | noCommand => "a command is required"
  | unknownCommand word => "unrecognized command '" ++ word ++ "'"
  | unknownOption argument => "unexpected argument '" ++ argument ++ "'"
  | missingValue name => "a value is required for '--" ++ name ++ "'"
  | unexpectedValue name => "no value is expected for '--" ++ name ++ "'"
  | badValue name value => "invalid value '" ++ value ++ "' for '--" ++ name ++ "'"
  | repeated name => "'--" ++ name ++ "' cannot be given more than once"
  | unexpectedWord word => "unexpected argument '" ++ word ++ "'"
  | badWord word => "invalid value '" ++ word ++ "'"
  | missingWord => "an argument is missing"

/-! ## Options and words -/

/-- What an option does. -/
inductive Effect where
  /-- It is on when it is given. -/
  | switch
  /-- It has a value that is as it has to be. -/
  | value (accepts : String → Bool)
  /-- It shows a page at once. -/
  | page (p : Page)

/-- An option. -/
structure Known where
  /-- The name behind two hyphens. -/
  name : String
  /-- The letter behind one hyphen. -/
  letter : Option Char := none
  effect : Effect

/-- The options and words that may stand on one side of the command. -/
structure Grammar where
  options : List Known
  /-- How many words are taken; without a bound, any number. The first word above it is refused. -/
  most : Option Nat := some 0
  /-- How many words there have to be. -/
  least : Nat := 0
  acceptsWord : String → Bool := fun _ => true
  /-- Whether the first word ends this side. -/
  endsAtWord : Bool := false

/-- What has been given: options by their names with their values, and words. -/
structure Given where
  options : List (String × String) := []
  words : List String := []
  deriving Repr

namespace Given

/-- The value of an option. -/
def value? (g : Given) (name : String) : Option String :=
  g.options.lookup name

/-- Whether an option is given. -/
def has (g : Given) (name : String) : Bool :=
  (g.value? name).isSome

/-- What has been given, with one more option. -/
def addOption (g : Given) (k : Known) (value : String) : Except ArgumentError Given :=
  if g.has k.name then .error (.repeated k.name)
  else
    match k.effect with
    | .value accepts =>
      if accepts value then .ok { g with options := g.options ++ [(k.name, value)] }
      else .error (.badValue k.name value)
    | _ => .ok { g with options := g.options ++ [(k.name, value)] }

/-- What has been given, with one more word. -/
def addWord (g : Given) (grammar : Grammar) (word : String) : Except ArgumentError Given :=
  if grammar.most.any (· ≤ g.words.length) then .error (.unexpectedWord word)
  else if grammar.acceptsWord word then .ok { g with words := g.words ++ [word] }
  else .error (.badWord word)

end Given

/-- Whether an argument is an option or ends the options. -/
def isOption (argument : String) : Bool :=
  argument.startsWith "-" && argument ≠ "-"

/-- The option that an argument names, with the value that is attached to it. -/
def Grammar.option? (grammar : Grammar) : List Char → Option (Known × Option String)
  | '-' :: '-' :: body =>
    let name := String.ofList (body.takeWhile (· ≠ '='))
    let behind := body.dropWhile (· ≠ '=')
    let attached := if behind.isEmpty then none else some (String.ofList (behind.drop 1))
    (grammar.options.find? fun k => k.name = name).map fun k => (k, attached)
  | '-' :: c :: r =>
    let value := match r with
      | '=' :: r' => r'
      | _ => r
    let attached := if r.isEmpty then none else some (String.ofList value)
    (grammar.options.find? fun k => k.letter = some c).map fun k => (k, attached)
  | _ => none

/-- What the arguments on one side of the command come to. -/
inductive Side where
  /-- A page is to be shown, whatever follows. -/
  | page (p : Page)
  /-- A word has ended the side, and arguments follow it. -/
  | word (given : Given) (word : String) (rest : List String)
  | all (given : Given)

/-- Takes the arguments behind the two hyphens that end the options, all of which are words. -/
def takeWords (grammar : Grammar) (given : Given) (words : List String) :
    Except ArgumentError Side :=
  (words.foldlM (fun (g : Given) w => g.addWord grammar w) given).map .all

/-- Whether an option is given by a letter. -/
def isByLetter (argument : String) : Bool :=
  !argument.startsWith "--"

/-- Takes the arguments of one side from the left. A value that is not attached to its option
follows it, and may not look like an option. -/
def takeSide (grammar : Grammar) (given : Given) : List String → Except ArgumentError Side
  | [] => .ok (.all given)
  | argument :: rest =>
    if argument = "--" then takeWords grammar given rest
    else if isOption argument then
      match grammar.option? argument.toList with
      | none => .error (.unknownOption argument)
      | some (k, attached) =>
        match k.effect, attached with
        | .page p, none => .ok (.page p)
        | .page p, some _ =>
          if isByLetter argument then .ok (.page p) else .error (.unexpectedValue k.name)
        | .switch, none =>
          match given.addOption k "" with
          | .error e => .error e
          | .ok g => takeSide grammar g rest
        | .switch, some _ => .error (.unexpectedValue k.name)
        | .value _, some v =>
          match given.addOption k v with
          | .error e => .error e
          | .ok g => takeSide grammar g rest
        | .value _, none =>
          match rest with
          | [] => .error (.missingValue k.name)
          | v :: rest' =>
            if isOption v then .error (.missingValue k.name)
            else
              match given.addOption k v with
              | .error e => .error e
              | .ok g => takeSide grammar g rest'
    else if grammar.endsAtWord then .ok (.word given argument rest)
    else
      match given.addWord grammar argument with
      | .error e => .error e
      | .ok g => takeSide grammar g rest

/-! ## The options of this program -/

/-- A path may be anything but empty. -/
def acceptsPath (text : String) : Bool :=
  !text.isEmpty

/-- An option whose value is one of some words. -/
def Known.oneOf (name : String) (letter : Option Char) (words : List String) : Known :=
  ⟨name, letter, .value words.contains⟩

/-- The options that hold for every command. -/
def common : List Known := [
  ⟨"config", none, .value acceptsPath⟩,
  .oneOf "log-level" none (Log.Level.all.map Log.Level.name),
  ⟨"help", some 'h', .page .help⟩]

/-- What may stand before the command. -/
def before : Grammar where
  options := common ++ [⟨"version", some 'V', .page .version⟩]
  endsAtWord := true

/-- The words for the form of a short answer. -/
def answerForms : List (String × AnswerForm) :=
  [("text", .text), ("json", .json)]

/-- The option for the form of a short answer. -/
def answerForm : Known :=
  .oneOf "format" (some 'f') (answerForms.map Prod.fst)

/-- What may follow `check`. -/
def checkGrammar : Grammar where
  options := common ++ [answerForm, ⟨"sync", none, .switch⟩]
  most := some 1
  least := 1

/-- What may follow `scan`. -/
def scanGrammar : Grammar where
  options := common ++ [
    .oneOf "format" (some 'f') ([Format.text, .json, .sarif].map Format.name),
    ⟨"output", some 'o', .value acceptsPath⟩,
    .oneOf "fail-on" none (Severity.all.map Severity.name)]
  most := none
  least := 1
  acceptsWord := acceptsPath

/-- What may follow `rules`. -/
def rulesGrammar : Grammar where
  options := common ++ [answerForm]

/-- What may follow `init`. -/
def initGrammar : Grammar where
  options := common
  most := some 1
  acceptsWord := acceptsPath

/-! ## Tasks -/

/-- The form of a short answer that is asked for. -/
def Given.form (g : Given) : AnswerForm :=
  ((g.value? "format").bind (answerForms.lookup ·)).getD .text

/-- The task of `check`. -/
def Given.check (g : Given) : Task :=
  .check (g.words.headD "") (!g.has "sync") g.form

/-- The task of `scan`. Its options take the words for formats and severities only, each of which
names one (`Format.ofText_name`, `Severity.ofText_name`), so that none is dropped here. -/
def Given.scan (g : Given) : Task :=
  .scan (g.words.map Path.mk) ((g.value? "format").bind fun f => (Format.ofText f).toOption)
    ((g.value? "output").map Path.mk)
    ((g.value? "fail-on").bind fun w => (Severity.ofText w).toOption)

/-- The task of `rules`. -/
def Given.rules (g : Given) : Task :=
  .rules g.form

/-- The task of `init`. -/
def Given.init (g : Given) : Task :=
  .init ⟨g.words.headD "."⟩

/-- The commands, with what may follow each and the task that it stands for. -/
def commands : List (String × Grammar × (Given → Task)) := [
  ("check", checkGrammar, Given.check),
  ("scan", scanGrammar, Given.scan),
  ("rules", rulesGrammar, Given.rules),
  ("init", initGrammar, Given.init)]

/-- What holds for every task, by what stands before and behind the command. -/
def invocation (before behind : Given) (task : Task) : Invocation :=
  let value? (name : String) := (behind.value? name).or (before.value? name)
  { config := ⟨(value? "config").getD "."⟩
    logLevel := ((value? "log-level").bind Log.Level.ofName?).getD .warn
    task := task }

/-- The request for help, which may name one command. -/
def helpRequest : List String → Except ArgumentError Request
  | [] => .ok (.page .help)
  | [word] =>
    if word = "help" ∨ (commands.lookup word).isSome then .ok (.page .help)
    else .error (.unknownCommand word)
  | _ :: word :: _ => .error (.unknownCommand word)

/-- The request in what follows a command word. -/
def afterCommand (given : Given) (word : String) (rest : List String) :
    Except ArgumentError Request :=
  match commands.lookup word with
  | none => if word = "help" then helpRequest rest else .error (.unknownCommand word)
  | some (grammar, task) =>
    match takeSide grammar {} rest with
    | .error e => .error e
    | .ok (.page p) => .ok (.page p)
    | .ok (.word _ w _) => .error (.unexpectedWord w)
    | .ok (.all behind) =>
      if behind.words.length < grammar.least then .error .missingWord
      else .ok (.run (invocation given behind (task behind)))

/-- The request that arguments make. -/
def parseArguments (arguments : List String) : Except ArgumentError Request :=
  match takeSide before {} arguments with
  | .error e => .error e
  | .ok (.page p) => .ok (.page p)
  | .ok (.word given word rest) => afterCommand given word rest
  | .ok (.all _) => .error .noCommand

end SuffixLint.Command
