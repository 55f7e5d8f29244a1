import CommandShell.Session.Execution

namespace CommandShell.Session

open Binding (Args Slot Table)
open Handler (Kind Options)

-- What already ends a chain for a pipe or formatter.
def Chain.occupied? (c : Chain) : Option Kind :=
  if c.sink.isSome then some .sink
  else if c.formatter.isSome then some .formatter
  else none

-- Where a redirection stands and what it is called.
structure Site where
  name : String
  token : Nat

namespace Site

def fault (at_ : Site) (cause : DispatchCause) : Error :=
  .dispatch ⟨at_.name, cause, at_.token⟩

end Site

variable (s : Session)

-- Bind the arguments of a redirection; what is missing is shown at the redirection.
def bindAt (at_ : Site) (options : Options) (args : Args) : Except Error (List Slot) :=
  (options.bind at_.name args s.interpolation).mapError fun e =>
    .bind { e with token := e.token.or (some at_.token) }

def attachPipe (at_ : Site) (pipe : Handler.Pipe) (args : Args) (c : Chain) : Except Error Chain :=
  match c.occupied? with
  | some previous => .error (at_.fault (.misplaced .pipe previous))
  | none => do
    let slots ← bindAt s at_ pipe.options args
    return { c with pipes := c.pipes ++ [⟨at_.name, at_.token, pipe.filter slots⟩] }

def attachFormatter (at_ : Site) (formatter : Handler.Formatter) (args : Args) (c : Chain) :
    Except Error Chain :=
  match c.occupied? with
  | some previous => .error (at_.fault (.misplaced .formatter previous))
  | none => do
    let slots ← bindAt s at_ formatter.options args
    return { c with formatter := some ⟨at_.name, at_.token, formatter.format slots⟩ }

def attachSink (at_ : Site) (args : Args) (c : Chain) : Except Error Chain :=
  if c.sink.isSome then .error (at_.fault (.misplaced .sink .sink))
  else
    match s.library.handler? .sink at_.name with
    | none => .error (at_.fault .unknownRedirection)
    | some sink => do
      let slots ← bindAt s at_ (sink.options s.context) args
      return { c with sink := some ⟨at_.name, at_.token, sink.target slots⟩ }

-- A name is looked up among the pipes, then the formatters, then the sinks.
def attachNamed (at_ : Site) (args : Args) (c : Chain) : Except Error Chain :=
  match s.library.handler? .pipe at_.name, s.library.handler? .formatter at_.name,
    s.library.handler? .sink at_.name with
  | some pipe, _, _ => attachPipe s at_ pipe args c
  | none, some formatter, _ => attachFormatter s at_ formatter args c
  | none, none, some _ => attachSink s at_ args c
  | none, none, none => .error (at_.fault .unknownRedirection)

-- The operand in a file or shell redirection's own token, as the only argument of a sink.
def operand (token : Script.Token) (kind : Script.TokenKind) (index : Nat) : Args :=
  ⟨[{ token with kind, group := 1, node := none }], index⟩

def attach (script : Script) (c : Chain) (r : Script.Redirection) : Except Error Chain :=
  let token := script.token r.head
  match token.kind with
  | .fileRedirection => attachSink s ⟨"file", r.head⟩ (operand token .bareArgument r.head) c
  | .shellRedirection => attachSink s ⟨"sh", r.head⟩ (operand token .singleQuoted r.head) c
  | _ =>
    match r.node.blocks with
    | block :: _ => .error (.dispatch ⟨token.text, .unexpectedBlock, block.first⟩)
    | [] =>
      attachNamed s ⟨token.text, r.head⟩ ⟨script.argsOf r.node, r.node.firstArg⟩ c

-- The configured formatter and sink where a chain has none, with the options they start with.
def attachDefaults (token : Nat) (c : Chain) : Chain :=
  let settings := s.config.settings
  let formatter := (s.library.handler? .formatter settings.defaultFormatter).map fun f =>
    ⟨settings.defaultFormatter, token, f.format f.options.values⟩
  let sink := (s.library.handler? .sink settings.defaultSink).map fun k =>
    ⟨settings.defaultSink, token, k.target (k.options s.context).values⟩
  { c with formatter := c.formatter.or formatter, sink := c.sink.or sink }

-- The chain that a command's redirections make up.
def chainOf (script : Script) (c : Script.Command) : Except Error Chain := do
  return attachDefaults s c.head (← c.redirections.foldlM (attach s script) {})

-- Names that a session handles itself.
inductive Builtin where
  | cd
  | exit
  | reload
  | source
deriving DecidableEq, Repr

namespace Builtin

def all : List Builtin := [cd, exit, reload, source]

def name : Builtin → String
  | cd => "cd"
  | exit => "exit"
  | reload => "reload"
  | source => "source"

def ofName? (name : String) : Option Builtin := all.find? (·.name = name)

def table : Builtin → Table
  | cd => Handler.tableOf [⟨"path", ⟨.optional, .text⟩, "*=#1,opt"⟩]
  | source => Handler.tableOf [⟨"file", ⟨.one, .path⟩, "*=#1"⟩]
  | exit | reload => .empty

end Builtin

-- Runs a text in a session.
abbrev TextRun := String → Session → Session × Option Error

-- Run a script file, unless too many are being run.
def sourceFile (inner : TextRun) (file : String) : Session × Option Error :=
  let path := s.world.expandPath file
  let fail (s : Session) (message : String) : Session × Option Error :=
    (s, some (.run (.failed (path ++ ": " ++ message))))
  if maxDepth ≤ s.depth then fail s "nested too deeply"
  else
    match s.world.readText path with
    | .error e => fail s e.message
    | .ok text =>
      let (after, result) := inner text { s with depth := s.depth + 1 }
      let after := { after with depth := after.depth - 1 }
      match result with
      | none => (after, none)
      | some (.run e) => (after, some (.run e))
      | some e => fail after e.message

def runBuiltin (inner : TextRun) (b : Builtin) (args : Args) : Session × Option Error :=
  match Binding.bind b.table b.name args s.interpolation with
  | .error e => (s, some (.bind e))
  | .ok slots =>
    match b with
    | .cd => (s.cd ((Handler.valueAt slots 0).text?.getD "/"), none)
    | .exit => ({ s with exiting := true }, none)
    | .reload =>
      match Config.load s.world with
      | .error e => (s, some (.config e))
      | .ok config => ({ s with config }, none)
    | .source => sourceFile s inner (Handler.valueAt slots 0).text

-- The command of this name, if it can be used here.
def command? (name : String) : Option Handler.Command :=
  (s.library.handler? .command name).filter (·.isApplicable s.context)

-- Bind a registered command and its redirections and carry it out.
def runRegistered (script : Script) (c : Script.Command) (block : Option BlockRun)
    (handler : Handler.Command) (name : String) (args : Args) : Session × Option Error :=
  match (handler.options s.context).bind name args s.interpolation with
  | .error e => (s, some (.bind e))
  | .ok options =>
    let s := { s with requests := s.requests + 1 }
    match chainOf s script c with
    | .error e => (s, some e)
    | .ok chain =>
      let request : Request := ⟨s.requests, script, c, options, s.context, chain, none⟩
      let (s, failure) := Activity.carryOut ⟨s, request⟩ handler block
      (s, failure.map .run)

-- Run one command.
def dispatch (inner : TextRun) (script : Script) (c : Script.Command) (block : Option BlockRun) :
    Session × Option Error :=
  let name := (script.token c.head).text
  let args : Args := ⟨script.argsOf c.node, c.node.firstArg⟩
  match Builtin.ofName? name, command? s name with
  | some b, _ => runBuiltin s inner b args
  | none, some handler => runRegistered s script c block handler name args
  | none, none => (s, some (.dispatch ⟨name, .notFound, c.head⟩))

end CommandShell.Session
