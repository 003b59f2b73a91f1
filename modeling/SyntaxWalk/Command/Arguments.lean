import SyntaxWalk.Number.Literal

/-!
# Command-line arguments

A command line consists of options for the whole program, the name of a command, and the options and
operands of that command. Options and operands of a command may be mixed; `--` ends the options, and a
lone `-` is an operand. An option that takes a value has it attached (`--name=value`, `-nvalue`,
`-n=value`) or as the next argument, which then must not look like an option. Short flags may be written
together. Nothing may be given twice in one place, but the options of the whole program may be given both
before and after the command; then the later one counts.

Arguments are taken one after the other, and the first that cannot be taken decides the error. A request
for the version or for help takes effect at once. The word `help` in the place of the command is followed
by at most one word, a command or again `help`.
-/

set_option autoImplicit false

namespace SyntaxWalk

/-- The formats in which traces are printed. -/
inductive Format where
  | text
  | json
  deriving DecidableEq

/-- What the program is asked to do. -/
inductive Command where
  /-- Trace files, possibly with another policy for unknown types and another limit on the depth. -/
  | trace (files : List String) (lenient : Bool) (format : Format) (maxDepth : Option Nat)
  /-- Show the fields of a type. -/
  | keys (nodeType : String)
  /-- List the types. -/
  | types
  deriving DecidableEq

/-- A command with the options of the whole program. -/
structure Invocation where
  command : Command
  /-- The path of the settings file, if one is named. -/
  settings : Option String
  /-- Is the whole log wanted? -/
  verbose : Bool
  deriving DecidableEq

/-- Why a command line was refused. -/
inductive UsageError where
  | unknownOption (written : String)
  | unknownCommand (written : String)
  | missingCommand
  | repeated (option : String)
  | missingValue (option : String)
  | unexpectedValue (option : String)
  | invalidValue (option value : String)
  | missingOperand
  | unexpectedOperand (written : String)
  deriving DecidableEq

/-- The wording of the error. -/
def UsageError.message : UsageError → String
  | unknownOption written => "unexpected argument '" ++ written ++ "' found"
  | unknownCommand written => "unrecognized subcommand '" ++ written ++ "'"
  | missingCommand => "a subcommand is required but one was not provided"
  | repeated option => "the argument '" ++ option ++ "' cannot be used multiple times"
  | missingValue option => "a value is required for '" ++ option ++ "' but none was supplied"
  | unexpectedValue option => "unexpected value for '" ++ option ++ "' found"
  | invalidValue option value => "invalid value '" ++ value ++ "' for '" ++ option ++ "'"
  | missingOperand => "the required arguments were not provided"
  | unexpectedOperand written => "unexpected argument '" ++ written ++ "' found"

/-- What a command line asks for. -/
inductive Request where
  | run (invocation : Invocation)
  | version
  | help

/-- Why the taking of arguments ends before their end. -/
inductive Interruption where
  | refused (error : UsageError)
  | version
  | help

/-- The options. -/
inductive Flag where
  | config
  | verbose
  | lenient
  | format
  | maxDepth
  | version
  | help
  deriving DecidableEq

namespace Flag

/-- The long name. -/
def long : Flag → String
  | config => "config"
  | verbose => "verbose"
  | lenient => "lenient"
  | format => "format"
  | maxDepth => "max-depth"
  | version => "version"
  | help => "help"

/-- The short name. -/
def short? : Flag → Option Char
  | config => some 'c'
  | verbose => some 'v'
  | format => some 'f'
  | version => some 'V'
  | help => some 'h'
  | lenient => none
  | maxDepth => none

/-- Does the option take a value? -/
def takesValue : Flag → Bool
  | config => true
  | format => true
  | maxDepth => true
  | _ => false

/-- The option as it is written. -/
def written (flag : Flag) : String :=
  "--" ++ flag.long

end Flag

/-- The options that were given, and the operands, latest first. -/
structure Given where
  config : Option String := none
  verbose : Bool := false
  lenient : Bool := false
  format : Option Format := none
  maxDepth : Option Nat := none
  operands : List String := []

/-- The kinds of places at which arguments stand. -/
inductive Scope where
  /-- Before the command. -/
  | program
  | trace
  | keys
  | types
  deriving DecidableEq

namespace Scope

/-- The options known at a place. -/
def flags : Scope → List Flag
  | program => [.config, .verbose, .version, .help]
  | trace => [.config, .verbose, .lenient, .format, .maxDepth, .help]
  | keys => [.config, .verbose, .help]
  | types => [.config, .verbose, .help]

/-- The place after the command of the given name. -/
def ofCommand? : String → Option Scope
  | "trace" => some trace
  | "keys" => some keys
  | "types" => some types
  | _ => none

end Scope

/-- A natural number below `2 ^ 64`: digits, possibly after a plus sign. -/
def natural? (text : String) : Option Nat :=
  let digits := match text.toList with
    | '+' :: rest => rest
    | cs => cs
  match Literal.takeDigits digits with
  | ([], _) => none
  | (ds, []) => let n := Literal.ofDigits ds; if n < Nat.pow 2 64 then some n else none
  | _ => none

/-- The format with the given name. -/
def Format.ofName? : String → Option Format
  | "text" => some .text
  | "json" => some .json
  | _ => none

/-- An argument, told apart by its looks. -/
inductive Argument where
  /-- The end of the options. -/
  | terminator
  /-- A long option, with the value attached to it. -/
  | long (name : String) (value : Option String)
  /-- Short options written together. -/
  | short (letters : List Char)
  /-- Anything else. -/
  | plain (text : String)

namespace Argument

/-- Tells an argument apart by its looks. -/
def ofText (text : String) : Argument :=
  match text.toList with
  | ['-', '-'] => terminator
  | '-' :: '-' :: rest =>
    let name := String.ofList (rest.takeWhile (· != '='))
    match rest.dropWhile (· != '=') with
    | _ :: value => long name (some (String.ofList value))
    | [] => long name none
  | '-' :: first :: rest => short (first :: rest)
  | _ => plain text

end Argument

namespace Given

/-- Takes a flag without a value. -/
def setFlag (given : Given) (flag : Flag) : Except Interruption Given :=
  match flag with
  | .version => .error .version
  | .help => .error .help
  | .verbose =>
    if given.verbose then .error (.refused (.repeated flag.written))
    else .ok { given with verbose := true }
  | .lenient =>
    if given.lenient then .error (.refused (.repeated flag.written))
    else .ok { given with lenient := true }
  | _ => .error (.refused (.missingValue flag.written))

/-- Takes an option with its value. -/
def setValue (given : Given) (flag : Flag) (value : String) : Except Interruption Given :=
  match flag with
  | .config =>
    if given.config.isSome then .error (.refused (.repeated flag.written))
    else if value = "" then .error (.refused (.missingValue flag.written))
    else .ok { given with config := some value }
  | .format =>
    if given.format.isSome then .error (.refused (.repeated flag.written))
    else
      match Format.ofName? value with
      | some format => .ok { given with format := some format }
      | none => .error (.refused (.invalidValue flag.written value))
  | .maxDepth =>
    if given.maxDepth.isSome then .error (.refused (.repeated flag.written))
    else
      match natural? value with
      | some depth => .ok { given with maxDepth := some depth }
      | none => .error (.refused (.invalidValue flag.written value))
  | _ => .error (.refused (.unexpectedValue flag.written))

/-- Takes short options written together. An option that takes a value takes the rest of the letters,
without an equals sign before it; if nothing is left, it is given back and waits for its value. -/
def takeLetters (scope : Scope) (given : Given) :
    List Char → Except Interruption (Given × Option Flag)
  | [] => .ok (given, none)
  | letter :: rest =>
    match scope.flags.find? fun flag => flag.short? = some letter with
    | none => .error (.refused (.unknownOption (String.ofList ['-', letter])))
    | some flag =>
      if flag.takesValue then
        match rest with
        | [] => .ok (given, some flag)
        | '=' :: value => (given.setValue flag (String.ofList value)).map fun g => (g, none)
        | value => (given.setValue flag (String.ofList value)).map fun g => (g, none)
      else
        match given.setFlag flag with
        | .error interruption => .error interruption
        | .ok given => takeLetters scope given rest

/-- Takes a long option. An option that still needs its value is given back. -/
def takeLong (scope : Scope) (given : Given) (name : String) (value : Option String) :
    Except Interruption (Given × Option Flag) :=
  match scope.flags.find? fun flag => flag.long = name with
  | none => .error (.refused (.unknownOption ("--" ++ name)))
  | some flag =>
    match flag.takesValue, value with
    | true, some value => (given.setValue flag value).map fun g => (g, none)
    | true, none => .ok (given, some flag)
    | false, some _ => .error (.refused (.unexpectedValue flag.written))
    | false, none => (given.setFlag flag).map fun g => (g, none)

/-- Takes an operand of a command. -/
def takeOperand (scope : Scope) (given : Given) (text : String) : Except Interruption Given :=
  match scope with
  | .trace =>
    if text = "" then .error (.refused (.missingValue "files"))
    else .ok { given with operands := text :: given.operands }
  | .keys =>
    if given.operands.isEmpty then .ok { given with operands := [text] }
    else .error (.refused (.unexpectedOperand text))
  | _ => .error (.refused (.unexpectedOperand text))

/-- Takes operands after the end of the options. -/
def takeOperands (scope : Scope) (given : Given) : List String → Except Interruption Given
  | [] => .ok given
  | text :: rest =>
    match given.takeOperand scope text with
    | .error interruption => .error interruption
    | .ok given => takeOperands scope given rest

end Given

/-- The arguments of one place, and after those before the command, the command and what follows it. -/
structure Taken where
  given : Given
  command : Option (Scope × List String)

/-- What the arguments after the word `help` ask for. They name the command on which help is wanted, and
no command has further ones below it. -/
def helpOn : List String → Interruption
  | [] => .help
  | name :: rest =>
    if (Scope.ofCommand? name).isSome || name = "help" then
      match rest with
      | [] => .help
      | surplus :: _ => .refused (.unknownCommand surplus)
    else .refused (.unknownCommand name)

/-- Takes the arguments of one place. An option may be waiting for its value. -/
def takeArguments (scope : Scope) (given : Given) (waiting : Option Flag) :
    List String → Except Interruption Taken
  | [] =>
    match waiting with
    | some flag => .error (.refused (.missingValue flag.written))
    | none => .ok ⟨given, none⟩
  | text :: rest =>
    match waiting, Argument.ofText text with
    | some flag, .plain value =>
      match given.setValue flag value with
      | .error interruption => .error interruption
      | .ok given => takeArguments scope given none rest
    | some flag, _ => .error (.refused (.missingValue flag.written))
    | none, .terminator =>
      match given.takeOperands scope rest with
      | .error interruption => .error interruption
      | .ok given => .ok ⟨given, none⟩
    | none, .long name value =>
      match given.takeLong scope name value with
      | .error interruption => .error interruption
      | .ok (given, waiting) => takeArguments scope given waiting rest
    | none, .short letters =>
      match given.takeLetters scope letters with
      | .error interruption => .error interruption
      | .ok (given, waiting) => takeArguments scope given waiting rest
    | none, .plain text =>
      if scope = .program then
        match Scope.ofCommand? text with
        | some scope => .ok ⟨given, some (scope, rest)⟩
        | none =>
          if text = "help" then .error (helpOn rest)
          else .error (.refused (.unknownCommand text))
      else
        match given.takeOperand scope text with
        | .error interruption => .error interruption
        | .ok given => takeArguments scope given none rest

/-- The command of a place and of what was given there. -/
def commandOf (scope : Scope) (given : Given) : Except Interruption Command :=
  match scope, given.operands.reverse with
  | .trace, [] => .error (.refused .missingOperand)
  | .trace, files =>
    .ok (.trace files given.lenient (given.format.getD .text) given.maxDepth)
  | .keys, [nodeType] => .ok (.keys nodeType)
  | .keys, _ => .error (.refused .missingOperand)
  | .types, _ => .ok .types
  | .program, _ => .error (.refused .missingCommand)

/-- The invocation that a command line describes. -/
def invocationOf (arguments : List String) : Except Interruption Invocation := do
  let program ← takeArguments .program {} none arguments
  match program.command with
  | none => .error (.refused .missingCommand)
  | some (scope, rest) =>
    let taken ← takeArguments scope {} none rest
    let command ← commandOf scope taken.given
    return {
      command
      settings := taken.given.config <|> program.given.config
      verbose := program.given.verbose || taken.given.verbose }

/-- The request that a command line describes. -/
def Request.ofArguments (arguments : List String) : Except UsageError Request :=
  match invocationOf arguments with
  | .ok invocation => .ok (.run invocation)
  | .error .version => .ok .version
  | .error .help => .ok .help
  | .error (.refused error) => .error error

end SyntaxWalk
