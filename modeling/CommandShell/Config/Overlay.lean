import CommandShell.Config.Settings
import CommandShell.Config.Toml
import CommandShell.World

namespace CommandShell.Config

-- A configuration file that cannot be read, or that says something else than it may.
inductive ConfigError where
  | io (path : String) (error : World.FileError)
  | malformed (path : String)
deriving DecidableEq, Repr

namespace ConfigError

def message : ConfigError → String
  | io path e => path ++ ": " ++ e.message
  | malformed path => path ++ ": not a valid configuration"

end ConfigError

namespace Settings

def keys : List String :=
  ["prompt", "continuation_prompt", "queue_capacity", "default_formatter", "default_sink",
    "history_file", "completion_timeout_ms"]

-- Change one setting.  Numbers are not negative.
def set? (s : Settings) (key : String) (v : TomlValue) : Option Settings :=
  match key, v with
  | "prompt", .text t => some { s with prompt := t }
  | "continuation_prompt", .text t => some { s with continuationPrompt := t }
  | "queue_capacity", .integer (.ofNat n) => some { s with queueCapacity := n }
  | "default_formatter", .text t => some { s with defaultFormatter := t }
  | "default_sink", .text t => some { s with defaultSink := t }
  | "history_file", .text t => some { s with historyFile := t }
  | "completion_timeout_ms", .integer (.ofNat n) => some { s with completionTimeout := n }
  | _, _ => none

end Settings

namespace Logging

def keys : List String := ["level", "file"]

def set? (l : Logging) (key : String) (v : TomlValue) : Option Logging :=
  match key, v with
  | "level", .text t => some { l with level := t }
  | "file", .text t => some { l with file := t }
  | _, _ => none

end Logging

-- A value that is given, with its whole path and the length of the header's part of it.
structure Assignment where
  path : List String
  headed : Nat
  value : TomlValue
deriving Repr

namespace Assignment

-- Paths of the tables that its dotted keys made.
def tables (a : Assignment) : List (List String) :=
  (List.range' (a.headed + 1) (a.path.length - (a.headed + 1))).map a.path.take

end Assignment

private def headersOf : List Statement → List (List String)
  | [] => []
  | .header path :: rest => path :: headersOf rest
  | .assign _ _ :: rest => headersOf rest

private def assignmentsOf (header : List String) : List Statement → List Assignment
  | [] => []
  | .header path :: rest => assignmentsOf path rest
  | .assign path v :: rest => ⟨header ++ path, header.length, v⟩ :: assignmentsOf header rest

-- Neither path leads through the other one.
private def areApart (p q : List String) : Bool := !p.isPrefixOf q && !q.isPrefixOf p

private def allPairs {α : Type} (related : α → α → Bool) : List α → Bool
  | [] => true
  | x :: rest => rest.all (related x) && allPairs related rest

-- No table and no value is given twice.
def isConsistent (headers : List (List String)) (assignments : List Assignment) : Bool :=
  allPairs (· ≠ ·) headers && allPairs areApart (assignments.map (·.path)) &&
    headers.all fun h => assignments.all fun a => !a.path.isPrefixOf h && !a.tables.contains h

-- Change a part of the configuration as a whole: by its keys, or by all values in their order.
private def setAll? {α : Type} (set? : α → String → TomlValue → Option α) (keys : List String)
    (x : α) : TomlValue → Option α
  | .table entries =>
    if allPairs areApart (entries.map (·.1)) then
      entries.foldlM (fun x (path, v) => match path with
        | [key] => set? x key v
        | _ => none) x
    else none
  | .array items =>
    if keys.length ≤ items.length then
      (keys.zip items).foldlM (fun x (key, v) => set? x key v) x
    else none
  | _ => none

private def assign? (c : Config) (a : Assignment) : Option Config :=
  match a.path with
  | ["settings", key] => (c.settings.set? key a.value).map fun s => { c with settings := s }
  | ["logging", key] => (c.logging.set? key a.value).map fun l => { c with logging := l }
  | ["settings"] =>
    (setAll? Settings.set? Settings.keys c.settings a.value).map fun s => { c with settings := s }
  | ["logging"] =>
    (setAll? Logging.set? Logging.keys c.logging a.value).map fun l => { c with logging := l }
  | _ => none

-- The configuration with what a file says changed.
def overlay? (c : Config) (text : String) : Option Config := do
  let statements ← Toml.parse? text
  let headers := headersOf statements
  let assignments := assignmentsOf [] statements
  if isConsistent headers assignments ∧ headers.all (· ∈ [["settings"], ["logging"]]) then
    assignments.foldlM assign? c
  else none

-- The defaults changed by a file that must be there.
def loadFrom (w : World) (path : String) : Except ConfigError Config :=
  match w.readText path with
  | .error e => .error (.io path e)
  | .ok text =>
    match overlay? {} text with
    | some c => .ok c
    | none => .error (.malformed path)

private def joinPath (directory name : String) : String :=
  if directory = "" ∨ directory.toList.getLast? = some '/' then directory ++ name
  else directory ++ "/" ++ name

-- The defaults changed by the file below the home directory, if there is one.
def load (w : World) : Except ConfigError Config :=
  match w.environment.home? with
  | none => .ok {}
  | some home =>
    let path := joinPath home ".config/opsh/config.toml"
    if w.disk.hasEntry path then loadFrom w path else .ok {}

private def expandSetting (w : World) (path : String) : Option String :=
  if path = "" then none else some (w.expandPath path)

def historyPath (c : Config) (w : World) : Option String := expandSetting w c.settings.historyFile

def logPath (c : Config) (w : World) : Option String := expandSetting w c.logging.file

end CommandShell.Config
