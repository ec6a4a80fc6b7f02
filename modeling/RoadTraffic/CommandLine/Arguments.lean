import RoadTraffic.Remote
import RoadTraffic.Text.Number

/-!
# Arguments

The command line names a command, gives it operands and options, and may say where the
configuration and the server are. An option is written `--name value` or `--name=value` and may be
given once; after `--` there are operands only. What the command line does not say about
configuration and server is taken from the environment.

* `Invocation.parse`: what the arguments ask for.
-/

namespace RoadTraffic

/-- What the program can be asked to do. -/
inductive Command where
  /-- Summarizes a packed key list. -/
  | inspectKeys (path : String)
  /-- Summarizes packed values. -/
  | inspectValues (path : String)
  /-- Packs the key list of the features in a JSON file. -/
  | encodeKeys (features output : String)
  /-- Packs the speed groups in a JSON file. -/
  | encodeValues (values output : String)
  /-- Brings the traffic of an edition up to date, starting from a revision. -/
  | sync (edition : Edition) (dataVersion : Int) (token : String)
  deriving DecidableEq, Repr

/-- What the arguments ask for. -/
structure Invocation where
  /-- The configuration file. -/
  config : Option String
  /-- The base URL of the server; the empty text says that there is none. -/
  baseUrl : Option String
  command : Command
  deriving DecidableEq, Repr

/-- Why no command is run. -/
inductive Refusal where
  /-- The arguments make no sense. -/
  | misuse
  /-- Help was asked for. -/
  | help
  /-- The version of the program was asked for. -/
  | version
  deriving DecidableEq, Repr

/-! ## Words -/

/-- What an argument looks like. -/
inductive ArgumentWord where
  | operand
  /-- Two dashes, after which there are operands only. -/
  | separator
  /-- Two dashes and a name, with the value after an equals sign if there is one. -/
  | long (name : String) (value : Option String)
  /-- A dash and letters. -/
  | short (letter : Char)
  deriving DecidableEq, Repr

/-- What an argument looks like. A single dash is an operand. -/
def ArgumentWord.of (argument : String) : ArgumentWord :=
  match argument.toList with
  | ['-', '-'] => .separator
  | '-' :: '-' :: body =>
    let value := match body.dropWhile (· != '=') with
      | [] => none
      | _ :: value => some (String.ofList value)
    .long (String.ofList (body.takeWhile (· != '='))) value
  | '-' :: letter :: _ => .short letter
  | _ => .operand

/-! ## Forms -/

/-- What may stand among the arguments of a command, or before the command. -/
structure ArgumentForm where
  /-- The names of options, and which values they take. -/
  options : List (String × (String → Bool))
  /-- The number of operands, each of which is a path. -/
  operands : Nat
  /-- Whether the version of the program can be asked for. -/
  tellsVersion : Bool := false

/-- What stands among arguments. -/
structure ArgumentList where
  options : List (String × String) := []
  operands : List String := []
  deriving DecidableEq, Repr

namespace ArgumentForm

/-- Whether a `text` may be a path. -/
def isPath (text : String) : Bool := !text.isEmpty

/-- Whether a `text` is a whole number. -/
def isNumber (text : String) : Bool := (Number.parse? text.toList).isSome

/-- Any text will do. -/
def anyText (_ : String) : Bool := true

/-- What may stand anywhere: `--config` and `--base-url`. -/
def shared : List (String × (String → Bool)) := [("config", isPath), ("base-url", anyText)]

/-- Takes the `value` of the option `name`, which must not have one yet. -/
def takeOption (form : ArgumentForm) (found : ArgumentList) (name value : String) :
    Except Refusal ArgumentList :=
  match form.options.lookup name, found.options.lookup name with
  | some accepts, none =>
    if accepts value then .ok { found with options := (name, value) :: found.options }
    else .error .misuse
  | _, _ => .error .misuse

/-- Takes arguments up to the first operand that there is no place for, which is left with what
comes after it. If the last argument was the name of an option, `pending` is that name. -/
def scan (form : ArgumentForm) (found : ArgumentList) (pending : Option String) :
    List String → Except Refusal (ArgumentList × List String)
  | [] => if pending.isSome then .error .misuse else .ok (found, [])
  | argument :: rest =>
    match pending, ArgumentWord.of argument with
    | some name, .operand =>
      match form.takeOption found name argument with
      | .ok found => scan form found none rest
      | .error refusal => .error refusal
    | some _, _ => .error .misuse
    | none, .operand =>
      if found.operands.length = form.operands then .ok (found, argument :: rest)
      else if isPath argument then
        scan form { found with operands := found.operands ++ [argument] } none rest
      else .error .misuse
    | none, .separator =>
      let operands := found.operands ++ rest
      if operands.length ≤ form.operands && rest.all isPath then .ok ({ found with operands }, [])
      else .error .misuse
    | none, .long name (some value) =>
      match form.takeOption found name value with
      | .ok found => scan form found none rest
      | .error refusal => .error refusal
    | none, .long name none =>
      if name == "help" then .error .help
      else if name == "version" && form.tellsVersion then .error .version
      else if (form.options.lookup name).isSome then scan form found (some name) rest
      else .error .misuse
    | none, .short letter =>
      if letter == 'h' then .error .help
      else if letter == 'V' && form.tellsVersion then .error .version
      else .error .misuse

end ArgumentForm

/-! ## Commands -/

/-- A command, what it takes, and what it is with that. -/
structure CommandForm where
  name : String
  arguments : ArgumentForm
  command? : ArgumentList → Option Command

namespace CommandForm

/-- A `command` on one file. -/
def onFile (name : String) (command : String → Command) : CommandForm where
  name
  arguments := { options := ArgumentForm.shared, operands := 1 }
  command? found := match found.operands with
    | [path] => some (command path)
    | _ => none

/-- A `command` that makes one file of another. -/
def fromFile (name : String) (command : String → String → Command) : CommandForm where
  name
  arguments := { options := ArgumentForm.shared, operands := 2 }
  command? found := match found.operands with
    | [input, output] => some (command input output)
    | _ => none

/-- The command that synchronizes. -/
def synchronizing : CommandForm where
  name := "sync"
  arguments :=
    { options := ArgumentForm.shared ++
        [("region", ArgumentForm.anyText), ("version", ArgumentForm.isNumber),
         ("data-version", ArgumentForm.isNumber), ("etag", ArgumentForm.anyText)]
      operands := 0 }
  command? found := do
    let number? (name : String) : Option Int := do
      Number.parse? (← found.options.lookup name).toList
    let region ← found.options.lookup "region"
    let version ← number? "version"
    let dataVersion ← number? "data-version"
    return .sync ⟨region, version⟩ dataVersion ((found.options.lookup "etag").getD "")

/-- All commands. -/
def all : List CommandForm :=
  [onFile "inspect-keys" .inspectKeys, onFile "inspect-values" .inspectValues,
   fromFile "encode-keys" .encodeKeys, fromFile "encode-values" .encodeValues, synchronizing]

/-- The command of the given `name`. -/
def named? (name : String) : Option CommandForm := all.find? (·.name == name)

end CommandForm

namespace Invocation

/-- What may stand before the command. -/
def outerForm : ArgumentForm where
  options := ArgumentForm.shared
  operands := 0
  tellsVersion := true

/-- The word that asks for help, or for help on a command. -/
def helpWord : String := "help"

/-- Help is given on all commands, on one, and on `helpWord` itself. -/
def helpOn : List String → Refusal
  | [] => .help
  | [name] => if name == helpWord || (CommandForm.named? name).isSome then .help else .misuse
  | _ => .misuse

/-- A setting that may be given before the command, after it or in the environment. What is said
after the command counts first, and the environment last. A value in the environment that the
option would not take is a misuse unless the option is given in both places. -/
def setting (environment : List (String × String)) (outer inner : ArgumentList)
    (name entry : String) (accepts : String → Bool) : Except Refusal (Option String) :=
  let before := outer.options.lookup name
  let after := inner.options.lookup name
  let outside := environment.lookup entry
  if outside.all accepts || (before.isSome && after.isSome) then
    .ok ((after <|> before) <|> outside)
  else .error .misuse

/-- The invocation of a command with the `arguments` after its name, which must all have their
place. -/
def ofCommand (environment : List (String × String)) (outer : ArgumentList) (form : CommandForm)
    (arguments : List String) : Except Refusal Invocation :=
  match form.arguments.scan {} none arguments with
  | .error refusal => .error refusal
  | .ok (_, _ :: _) => .error .misuse
  | .ok (inner, []) => do
    let config ← setting environment outer inner "config" "TRAFFIC_CONFIG" ArgumentForm.isPath
    let baseUrl ←
      setting environment outer inner "base-url" "TRAFFIC_DATA_BASE_URL" ArgumentForm.anyText
    match form.command? inner with
    | some command => .ok { config, baseUrl, command }
    | none => .error .misuse

/-- What the `arguments` ask for in the given `environment`. -/
def parse (environment : List (String × String)) (arguments : List String) :
    Except Refusal Invocation :=
  match outerForm.scan {} none arguments with
  | .error refusal => .error refusal
  | .ok (_, []) => .error .misuse
  | .ok (outer, name :: rest) =>
    match CommandForm.named? name with
    | some form => ofCommand environment outer form rest
    | none => .error (if name == helpWord then helpOn rest else .misuse)

end Invocation

end RoadTraffic
