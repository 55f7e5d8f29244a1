import CommandShell.Text.Quoted
import CommandShell.Text.Split
import CommandShell.Text.WhiteSpace

namespace CommandShell.Binding

-- How a field is given to the commands named: by options, by position, or both.
structure FlagSet where
  commands : List String
  aliases : List String := []
  position : Option Nat := none
  optional : Bool := false
  counting : Bool := false
  undocumented : Bool := false
deriving DecidableEq, Repr

-- One dash before a single character, two before a longer name.
def displayAlias (name : String) : String :=
  (if name.length = 1 then "-" else "--") ++ name

namespace FlagSet

def appliesTo (set : FlagSet) (command : String) : Bool :=
  set.commands.contains command

-- Applies to every command that no other set names.
def isWildcard (set : FlagSet) : Bool :=
  set.commands.contains "*"

def display (set : FlagSet) : String :=
  if set.aliases.isEmpty then
    match set.position with
    | some p => "#" ++ toString p
    | none => ""
  else "|".intercalate (set.aliases.map displayAlias)

end FlagSet

inductive TagCause where
  | unqualified (part : String)
  | noCommand (part : String)
  | badPosition (item : String)
  | zeroPosition
  | unknownFlag (item : String)
  | nothingDeclared (part : String)
  | empty
  | mixedFlag
  | taken (key owner command : String)
deriving DecidableEq, Repr

namespace TagCause

def message : TagCause → String
  | unqualified part => "section " ++ Text.quoted part ++ " lacks a command qualifier"
  | noCommand part => "section " ++ Text.quoted part ++ " names no command"
  | badPosition item => "invalid position " ++ Text.quoted item
  | zeroPosition => "positions start at #1"
  | unknownFlag item => "unknown flag " ++ Text.quoted item
  | nothingDeclared part => "section " ++ Text.quoted part ++ " declares neither alias nor position"
  | empty => "empty tag"
  | mixedFlag => "boolean fields cannot mix aliases and a position"
  | taken key owner command => key ++ " already used by " ++ owner ++ " for " ++ command

end TagCause

-- Trimmed parts of a text.
def parts (separator : Char) (s : String) : List String :=
  (Text.splitString separator s).map Text.trim

-- A number that fits 64 bits; a plus sign may stand before it.
def position? (s : String) : Option Nat :=
  let digits := match s.toList with
    | '+' :: rest => rest
    | cs => cs
  if digits.isEmpty ∨ ¬digits.all Char.isDigit then none
  else
    let value := digits.foldl (fun n d => n * 10 + (d.toNat - '0'.toNat)) 0
    if value < Nat.pow 2 64 then some value else none

def trimDashes (s : String) : String :=
  String.ofList (s.toList.dropWhile (· = '-'))

-- The item at an index of a set's specification.
def addItem (set : FlagSet) (index : Nat) (item : String) : Except TagCause FlagSet :=
  if item = "" ∧ index = 0 then .ok set
  else if item = "opt" ∧ 0 < index then .ok { set with optional := true }
  else if item = "count" ∧ 0 < index then .ok { set with counting := true }
  else if item = "undoc" ∧ 0 < index then .ok { set with undocumented := true }
  else
    match item.toList with
    | '#' :: rest =>
      match position? (String.ofList rest) with
      | none => .error (.badPosition item)
      | some 0 => .error .zeroPosition
      | some p => .ok { set with position := some p }
    | _ =>
      if index = 0 then
        .ok { set with aliases := ((parts '|' item).map trimDashes).filter (· ≠ "") }
      else .error (.unknownFlag item)

def addItems (set : FlagSet) (index : Nat) : List String → Except TagCause FlagSet
  | [] => .ok set
  | item :: rest => do addItems (← addItem set index item) (index + 1) rest

def readSet (part : String) : Except TagCause FlagSet :=
  match Text.splitOnce '=' part.toList with
  | none => .error (.unqualified part)
  | some (names, spec) => do
    let commands := (parts '|' (String.ofList names)).filter (· ≠ "")
    if commands.isEmpty then throw (.noCommand part)
    let set ← addItems { commands } 0 (parts ',' (String.ofList spec))
    if set.aliases.isEmpty ∧ set.position.isNone then throw (.nothingDeclared part)
    return set

-- Read the declaration of a field:
--
--     tag   = set (';' set)*
--     set   = names '=' item (',' item)*
--     names = '*' | name ('|' name)*
--     item  = alias ('|' alias)* | '#' position | 'opt' | 'count' | 'undoc'
def readTag (tag : String) : Except TagCause (List FlagSet) := do
  let sets ← ((parts ';' tag).filter (· ≠ "")).mapM readSet
  if sets.isEmpty then throw .empty
  return sets

end CommandShell.Binding
