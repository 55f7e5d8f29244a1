import CommandShell.Text.Split

namespace CommandShell.CommandLine

-- What the program was asked for: one line, a script, or neither to read standard input.
structure Options where
  config : Option String := none
  line : Option String := none
  script : Option String := none
deriving DecidableEq, Repr

inductive Choice where
  | help
  | version
  | run (options : Options)
deriving DecidableEq, Repr

inductive UsageError where
  | unknownOption (text : String)
  | missingValue (option : String)
  | emptyValue (option : String)
  | unexpectedValue (option : String)
  | repeated (option : String)
  | unexpectedArgument (text : String)
  | conflict
deriving DecidableEq, Repr

namespace UsageError

def message : UsageError → String
  | unknownOption text | unexpectedArgument text => "unexpected argument '" ++ text ++ "' found"
  | missingValue option | emptyValue option => "a value is required for '" ++ option ++ "'"
  | unexpectedValue option => "unexpected value for '" ++ option ++ "'"
  | repeated option => "the argument '" ++ option ++ "' cannot be used multiple times"
  | conflict => "the argument '-c <LINE>' cannot be used with '[SCRIPT]'"

end UsageError

namespace Options

private def configName : String := "--config <FILE>"

private def lineName : String := "-c <LINE>"

def setConfig (o : Options) (path : String) : Except UsageError Options :=
  if path = "" then .error (.emptyValue configName)
  else if o.config.isSome then .error (.repeated configName)
  else .ok { o with config := some path }

def setLine (o : Options) (line : String) : Except UsageError Options :=
  if o.line.isSome then .error (.repeated lineName) else .ok { o with line := some line }

def setScript (o : Options) (path : String) : Except UsageError Options :=
  if o.script.isSome then .error (.unexpectedArgument path)
  else if path = "" then .error (.emptyValue "[SCRIPT]")
  else .ok { o with script := some path }

-- A line and a script exclude each other.
def check (o : Options) : Except UsageError Choice :=
  if o.line.isSome ∧ o.script.isSome then .error .conflict else .ok (.run o)

end Options

-- How an argument reads.
inductive Argument where
  | long (name : String) (value : Option String)
  | short (letters : List Char)
  | endOfOptions
  | plain (text : String)
deriving DecidableEq, Repr

namespace Argument

def ofString (s : String) : Argument :=
  match s.toList with
  | ['-', '-'] => .endOfOptions
  | '-' :: '-' :: rest =>
    match Text.splitOnce '=' rest with
    | some (name, value) => .long (String.ofList name) (some (String.ofList value))
    | none => .long (String.ofList rest) none
  | '-' :: c :: rest => .short (c :: rest)
  | _ => .plain s

end Argument

-- What letters behind one dash ask for; a value may follow its letter.
inductive Letters where
  | help
  | version
  | line (value : Option String)
  | unknown (c : Char)
deriving DecidableEq, Repr

def readLetters : List Char → Letters
  | 'h' :: _ => .help
  | 'V' :: _ => .version
  | 'c' :: [] => .line none
  | 'c' :: '=' :: value => .line (some (String.ofList value))
  | 'c' :: value => .line (some (String.ofList value))
  | c :: _ => .unknown c
  | [] => .unknown '-'

-- Arguments after the end of options.
def readPlain (o : Options) : List String → Except UsageError Choice
  | [] => o.check
  | s :: rest => do readPlain (← o.setScript s) rest

-- Read arguments from left to right.  The value of an option may be the next argument unless that
-- starts with a dash.
def readArguments (o : Options) : List String → Except UsageError Choice
  | [] => o.check
  | s :: rest =>
    match Argument.ofString s with
    | .endOfOptions => readPlain o rest
    | .plain text => do readArguments (← o.setScript text) rest
    | .long "config" (some path) => do readArguments (← o.setConfig path) rest
    | .long "config" none =>
      match rest with
      | value :: rest =>
        match Argument.ofString value with
        | .plain path => do readArguments (← o.setConfig path) rest
        | _ => .error (.missingValue s)
      | [] => .error (.missingValue s)
    | .long "help" none => .ok .help
    | .long "version" none => .ok .version
    | .long "help" (some _) | .long "version" (some _) => .error (.unexpectedValue s)
    | .long _ _ => .error (.unknownOption s)
    | .short letters =>
      match readLetters letters with
      | .help => .ok .help
      | .version => .ok .version
      | .unknown _ => .error (.unknownOption s)
      | .line (some line) => do readArguments (← o.setLine line) rest
      | .line none =>
        match rest with
        | value :: rest =>
          match Argument.ofString value with
          | .plain line => do readArguments (← o.setLine line) rest
          | _ => .error (.missingValue s)
        | [] => .error (.missingValue s)

-- The text for `--help`.
def usage : String :=
  "Line-oriented operational shell

Usage: opsh [OPTIONS] [SCRIPT]

Arguments:
  [SCRIPT]  Run a script file and exit

Options:
      --config <FILE>  User configuration file, overlaid on the built-in defaults
  -c <LINE>            Run one line and exit
  -h, --help           Print help
  -V, --version        Print version
"

def versionText : String := "opsh 0.1.0\n"

end CommandShell.CommandLine
