import CommandShell.Script.Scanner

namespace CommandShell.Script

mutual

-- A command with the commands of its blocks and with its redirections.
inductive Command where
  | mk (node : Node) (blocks : List (List Command)) (redirections : List Redirection)

inductive Redirection where
  | mk (node : Node) (blocks : List (List Command))

end

namespace Command

def node : Command → Node
  | mk node _ _ => node

def blocks : Command → List (List Command)
  | mk _ blocks _ => blocks

def redirections : Command → List Redirection
  | mk _ _ redirections => redirections

-- Index of the token with the command's name.
def head (c : Command) : Nat := c.node.extent.first

end Command

namespace Redirection

def node : Redirection → Node
  | mk node _ => node

def blocks : Redirection → List (List Command)
  | mk _ blocks => blocks

def head (r : Redirection) : Nat := r.node.extent.first

end Redirection

def token (s : Script) (index : Nat) : Token := s.tokens[index]?.getD default

def node (s : Script) (id : Nat) : Node := s.nodes[id]?.getD default

def spanOf (s : Script) (range : Range) : Span :=
  (s.token range.first).span.join (s.token range.last).span

-- The source of a run of tokens, as written.
def textOf (s : Script) (range : Range) : String :=
  let span := s.spanOf range
  String.ofList (Text.slice s.source.toList span.start span.stop)

-- Argument tokens of a node.
def argsOf (s : Script) (node : Node) : List Token :=
  match node.args with
  | some range => (List.range' range.first (range.last + 1 - range.first)).map s.token
  | none => []

-- The command that a token opens.
def opens? (s : Script) (index : Nat) : Option Nat :=
  match s.tokens[index]? with
  | some ⟨.command, _, _, _, _, some id⟩ => some id
  | _ => none

-- The commands opened at the given indices, where each covers its whole extent: indices below
-- `next` belong to a command before.
def opened (s : Script) (next : Nat) : List Nat → List Nat
  | [] => []
  | index :: rest =>
    if index < next then s.opened next rest
    else
      match s.opens? index with
      | some id => id :: s.opened ((s.node id).extent.last + 1) rest
      | none => s.opened next rest

-- Where the inside of a block ends.  A block that was not closed runs to the end of the input.
def blockStop (s : Script) (block : Range) : Nat :=
  if (s.token block.last).kind = .blockEnd ∧ block.first < block.last then block.last
  else s.tokens.size

def attached (s : Script) (inside : Range → List Command) (id : Nat) : Command :=
  let node := s.node id
  .mk node (node.blocks.map inside) <| node.redirections.filterMap fun range => do
    let node := s.node (← (s.token range.first).node)
    return .mk node (node.blocks.map inside)

-- The commands between two token indices, down to `levels` nested blocks.
def between (s : Script) : Nat → Nat → Nat → List Command
  | 0, _, _ => []
  | levels + 1, first, stop =>
    (s.opened 0 (List.range' first (stop - first))).map <| s.attached fun block =>
      s.between levels (block.first + 1) (s.blockStop block)

-- The top-level commands.  Every nested block takes a token, so there are fewer levels than
-- tokens.
def commands (s : Script) : List Command :=
  s.between s.tokens.size 0 s.tokens.size

-- What is met on the way through a script: a command, the start of a block, a redirection.
inductive Visit where
  | command (depth : Nat) (command : Command)
  | block (depth : Nat)
  | redirection (depth : Nat) (redirection : Redirection)

mutual

def Command.visits (depth : Nat) : Command → List Visit
  | .mk node blocks redirections =>
    .command depth (.mk node blocks redirections) ::
      (blockVisits depth blocks ++ redirectionVisits (depth + 1) redirections)

def Redirection.visits (depth : Nat) : Redirection → List Visit
  | .mk node blocks => .redirection depth (.mk node blocks) :: blockVisits depth blocks

def blockVisits (depth : Nat) : List (List Command) → List Visit
  | [] => []
  | block :: rest => .block depth :: (commandVisits (depth + 1) block ++ blockVisits depth rest)

def commandVisits (depth : Nat) : List Command → List Visit
  | [] => []
  | command :: rest => command.visits depth ++ commandVisits depth rest

def redirectionVisits (depth : Nat) : List Redirection → List Visit
  | [] => []
  | redirection :: rest => redirection.visits depth ++ redirectionVisits depth rest

end

-- Everything in a script, each command before what is attached to it.
def visits (s : Script) : List Visit :=
  commandVisits 0 s.commands

end CommandShell.Script
