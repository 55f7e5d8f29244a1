import CommandShell.Output.Token

namespace CommandShell.Output

-- A complete top-level value with its name.
structure Record where
  name : Option String
  value : Json.Value
deriving Repr, Inhabited

inductive Contents where
  | object (entries : Dictionary Json.Value)
  | array (items : List Json.Value)
deriving Repr

namespace Contents

-- A child of an object that has no name gets the number of entries before it.
def add (contents : Contents) (child : Record) : Contents :=
  match contents with
  | object entries =>
    .object (Dictionary.insert (child.name.getD (toString entries.length)) child.value entries)
  | array items => .array (items ++ [child.value])

def toValue : Contents → Json.Value
  | object entries => .object entries
  | array items => .array items

end Contents

-- An object or array that was not closed yet.
structure Container where
  name : Option String
  contents : Contents
deriving Repr

namespace Container

def add (c : Container) (child : Record) : Container :=
  { c with contents := c.contents.add child }

def toRecord (c : Container) : Record := ⟨c.name, c.contents.toValue⟩

end Container

-- Puts the tokens of a stream together to records.  The innermost container is the first.
structure Assembler where
  containers : List Container := []
deriving Repr

namespace Assembler

def empty : Assembler := {}

def depth (a : Assembler) : Nat := a.containers.length

-- A value outside all containers is a record of its own.
def attach (a : Assembler) (r : Record) : Assembler × Option Record :=
  match a.containers with
  | [] => (a, some r)
  | c :: rest => (⟨c.add r :: rest⟩, none)

-- Take a token; gives the record that it completes.
def push (a : Assembler) : Token → Assembler × Option Record
  | .object name => (⟨⟨name, .object []⟩ :: a.containers⟩, none)
  | .array name => (⟨⟨name, .array []⟩ :: a.containers⟩, none)
  | .value name v => a.attach ⟨name, v⟩
  | .close =>
    match a.containers with
    | [] => (a, none)
    | c :: rest => attach ⟨rest⟩ c.toRecord
  | .endOfStream => (a, none)

private def collapse (c : Container) : List Container → Record
  | [] => c.toRecord
  | parent :: rest => collapse (parent.add c.toRecord) rest

-- Close what is still open.
def finish (a : Assembler) : Assembler × Option Record :=
  match a.containers with
  | [] => (a, none)
  | c :: rest => (empty, some (collapse c rest))

end Assembler

end CommandShell.Output
