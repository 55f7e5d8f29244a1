import CommandShell.Dictionary
import CommandShell.Text.Split
import CommandShell.Text.Utf8

namespace CommandShell.World

-- The value of an environment variable is text, or bytes that are not.
inductive Setting where
  | text (s : String)
  | bytes (bs : List UInt8)
deriving DecidableEq, Repr

namespace Setting

def toBytes : Setting → List UInt8
  | text s => Text.encodeUtf8 s
  | bytes bs => bs

end Setting

abbrev Environment := Dictionary Setting

namespace Environment

-- Bytes that happen to be text count as text.
def setting (bytes : List UInt8) : Setting :=
  match Text.decodeUtf8? bytes with
  | some s => .text s
  | none => .bytes bytes

-- The value of a name.  An entry is a name, an equals sign and a value, and what is looked up may
-- reach up to a later equals sign.
def get? (env : Environment) (name : String) : Option Setting :=
  match Text.splitOnce '=' name.toList with
  | none => Dictionary.get? name env
  | some (front, more) => do
    let value := (← Dictionary.get? (String.ofList front) env).toBytes
    let passed := Text.encodeUtf8 (String.ofList more ++ "=")
    if passed.isPrefixOf value then some (setting (value.drop passed.length)) else none

-- The bytes before each zero byte; what follows the last one is left out.
private def zeroEnded (current : List UInt8) : List UInt8 → List (List UInt8)
  | [] => []
  | b :: rest =>
    if b = 0 then current.reverse :: zeroEnded [] rest else zeroEnded (b :: current) rest

-- The environment from its entries, each a name, an equals sign and a value before a zero byte.
def ofBytes (bytes : List UInt8) : Environment :=
  (zeroEnded [] bytes).foldl (fun env entry =>
    let equals := '='.toNat.toUInt8
    match Text.decodeUtf8? (entry.takeWhile (· ≠ equals)) with
    | some name => Dictionary.insert name (setting ((entry.dropWhile (· ≠ equals)).drop 1)) env
    | none => env) []

-- The home directory as text, even if it is empty.
def home? (env : Environment) : Option String :=
  match Dictionary.get? "HOME" env with
  | some (.text s) => some s
  | _ => none

-- The home directory for paths, which is that of the account if the variable is empty or missing.
def pathHome? (env : Environment) (account : Option String) : Option String :=
  match Dictionary.get? "HOME" env with
  | some (.text "") | none => account
  | some (.text s) => some s
  | some (.bytes _) => none

end Environment

-- A tilde that stands alone or before a slash is the home directory, if there is one.
def expandTilde (home : Option String) (s : String) : String :=
  match s.toList with
  | '~' :: rest =>
    if rest.isEmpty ∨ rest.head? = some '/' then
      match home with
      | some home => home ++ String.ofList rest
      | none => s
    else s
  | _ => s

end CommandShell.World
