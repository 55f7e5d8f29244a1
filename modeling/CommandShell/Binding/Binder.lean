import CommandShell.Binding.Coercion
import CommandShell.Binding.Table
import CommandShell.Script.Token

namespace CommandShell.Binding

open Script (Token)

inductive BindCause where
  | unknownOption (text : String)
  | optionAfterArguments (text : String)
  | unexpectedArgument (position : Nat)
  | missingValue (option : String)
  | emptyValue (option : String)
  | alreadySpecified (field : String)
  | invalidValue (field value : String) (reason : CoercionError)
  | missingOption (display : String)
  | missingArgument (position : Nat)
  | interpolation (message : String)
deriving DecidableEq, Repr

namespace BindCause

def message : BindCause → String
  | unknownOption text => "unknown option " ++ text
  | optionAfterArguments text => "unexpected option after arguments: " ++ text
  | unexpectedArgument position => "unexpected argument #" ++ toString position
  | missingValue option => "option " ++ option ++ " requires a value (end of line)"
  | emptyValue option => "empty value for option " ++ option
  | alreadySpecified field => "option or argument already specified: " ++ field
  | invalidValue field value reason =>
    "invalid value " ++ Text.quoted value ++ " for " ++ field ++ ": " ++ reason.message
  | missingOption display => "missing one of the options: " ++ display
  | missingArgument position => "missing argument #" ++ toString position
  | interpolation message => "interpolation failed: " ++ message

end BindCause

-- `token` is the script index of the token at fault; an omission has none.
structure BindError where
  cause : BindCause
  token : Option Nat
deriving DecidableEq, Repr

namespace BindError

def message (e : BindError) : String := e.cause.message

end BindError

-- Expands variables in a piece of an argument, or says why it cannot.
abbrev Interpolation := String → Except String String

-- The arguments of a command, with the script index of the first one.
structure Args where
  tokens : List Token
  first : Nat
deriving DecidableEq, Repr

-- The values of a table's fields so far, and the indices of the fields that were given.
structure Filling where
  slots : List Slot
  given : List Nat

-- The text of a piece at script index `index`.
def expand (interpolate : Interpolation) (index : Nat) (t : Token) : Except BindError String :=
  if t.kind = .singleQuoted then .ok t.text
  else (interpolate t.text).mapError fun m => ⟨.interpolation m, some index⟩

-- The text of the pieces of one word, the first at script index `index`.
def assemble (interpolate : Interpolation) (index : Nat) : List Token → Except BindError String
  | [] => .ok ""
  | t :: rest => do
    return (← expand interpolate index t) ++ (← assemble interpolate (index + 1) rest)

namespace Active

-- What an argument for the field at a position is called.
def called (a : Active) (position : Nat) : String :=
  if a.set.aliases.isEmpty then "argument #" ++ toString position else a.set.display

-- Takes no value from the arguments.
def standsAlone (a : Active) : Bool := a.set.counting || a.shape = .flag

end Active

namespace Filling

def slot (f : Filling) (a : Active) : Slot := (f.slots[a.index]?).getD a.field.type.initial

def give (f : Filling) (a : Active) (slot : Slot) : Filling :=
  ⟨f.slots.set a.index slot, a.index :: f.given⟩

-- A second value for a field that holds one is an error.
def store (f : Filling) (a : Active) (name value : String) (index : Nat) :
    Except BindError Filling :=
  if a.index ∈ f.given ∧ a.shape = .scalar then
    .error ⟨.alreadySpecified name, some index⟩
  else
    match (f.slot a).assign a.field.type.scalar value with
    | .error reason => .error ⟨.invalidValue name value reason, some index⟩
    | .ok slot => .ok (f.give a slot)

-- Store the word that some pieces make.
def take (f : Filling) (interpolate : Interpolation) (a : Active) (name : String) (index : Nat)
    (pieces : List Token) : Except BindError Filling := do
  let value ← assemble interpolate index pieces
  f.store a name value index

-- Set a flag or count up.
def raise (f : Filling) (a : Active) (option : String) (index : Nat) :
    Except BindError Filling :=
  let type := a.field.type.scalar
  match if a.set.counting then (f.slot a).increment type else (f.slot a).setFlag type with
  | .error reason => .error ⟨.invalidValue a.set.display option reason, some index⟩
  | .ok slot => .ok (f.give a slot)

-- What is required and was not given: an option first, else the least position.
def omission? (f : Filling) (table : Table) (command : String) : Option BindError :=
  let missing := (table.active command).filter fun a => !(f.given.contains a.index || a.isOptional)
  match missing.find? fun a => a.set.position.isNone with
  | some a => some ⟨.missingOption a.set.display, none⟩
  | none => (missing.filterMap (·.set.position)).min?.map fun p => ⟨.missingArgument p, none⟩

end Filling

-- The field that an option as it is written stands for.
def Table.byOption? (table : Table) (command option : String) : Option Active :=
  table.byAlias? command (String.ofList (option.toList.dropWhile (· = '-')))

-- The state of one binding: the group number before the first argument that counts as positional,
-- and whether options may still come.
structure Binder extends Filling where
  base : Nat
  options : Bool

namespace Binder

def belongs (group : Nat) (t : Token) : Bool :=
  t.kind.isArgument && t.group = group

variable (table : Table) (command : String) (interpolate : Interpolation)

-- Bind the tokens from script index `index` on.  The values stored before an error are kept.
def run (b : Binder) (index : Nat) : List Token → Filling × Option BindError
  | [] => (b.toFilling, none)
  | t :: rest =>
    if t.kind = .option then
      if ¬b.options then (b.toFilling, some ⟨.optionAfterArguments t.text, some index⟩)
      else
        match table.byOption? command t.text with
        | none => (b.toFilling, some ⟨.unknownOption t.text, some index⟩)
        | some a =>
          if a.standsAlone then
            match b.raise a t.text index with
            | .error e => (b.toFilling, some e)
            | .ok f => run { b with toFilling := f, base := b.base + 1 } (index + 1) rest
          else
            match rest with
            | [] => (b.toFilling, some ⟨.missingValue t.text, some index⟩)
            | head :: more =>
              if ¬head.kind.isArgument then
                (b.toFilling, some ⟨.emptyValue t.text, some (index + 1)⟩)
              else
                let pieces := head :: more.takeWhile (belongs head.group)
                match b.take interpolate a a.set.display (index + 1) pieces with
                | .error e => (b.toFilling, some e)
                | .ok f =>
                  run { b with toFilling := f, base := b.base + 2 } (index + 1 + pieces.length)
                    (more.dropWhile (belongs head.group))
    else
      let position := t.group - b.base
      match table.byPosition? command position with
      | none => (b.toFilling, some ⟨.unexpectedArgument position, some index⟩)
      | some a =>
        if ¬t.kind.isArgument then (b.toFilling, some ⟨.emptyValue "", some index⟩)
        else
          let pieces := t :: rest.takeWhile (belongs t.group)
          match b.take interpolate a (a.called position) index pieces with
          | .error e => (b.toFilling, some e)
          | .ok f =>
            run { b with toFilling := f, options := b.options && a.shape ≠ .list }
              (index + pieces.length) (rest.dropWhile (belongs t.group))
termination_by tokens => tokens.length
decreasing_by
  · simp
  · have hd := (List.dropWhile_sublist (belongs head.group) (l := more)).length_le
    simp
    omega
  · have hd := (List.dropWhile_sublist (belongs t.group) (l := rest)).length_le
    simp
    omega

end Binder

namespace Filling

-- The outcome of a binding whose arguments were all walked, or that ended at an error.
def close (table : Table) (command : String) :
    Filling × Option BindError → List Slot × Option BindError
  | (f, some e) => (f.slots, some e)
  | (f, none) => (f.slots, f.omission? table command)

end Filling

-- Bind arguments onto values that are there already.
def bindOnto (slots : List Slot) (table : Table) (command : String) (args : Args)
    (interpolate : Interpolation) : List Slot × Option BindError :=
  let base := (args.tokens.head?.map (·.group - 1)).getD 0
  Filling.close table command <|
    Binder.run table command interpolate ⟨⟨slots, []⟩, base, true⟩ args.first args.tokens

-- Bind arguments onto values that only count if nothing is wrong.
def bindFrom (slots : List Slot) (table : Table) (command : String) (args : Args)
    (interpolate : Interpolation) : Except BindError (List Slot) :=
  match bindOnto slots table command args interpolate with
  | (_, some e) => .error e
  | (slots, none) => .ok slots

-- Bind the arguments of a command to the fields of a table.
def bind (table : Table) (command : String) (args : Args) (interpolate : Interpolation) :
    Except BindError (List Slot) :=
  bindFrom table.initial table command args interpolate

end CommandShell.Binding
