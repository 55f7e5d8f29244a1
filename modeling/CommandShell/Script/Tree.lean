import CommandShell.Script.Error

namespace CommandShell

-- A script as it was read: its text, all tokens in order, and one entry per command or
-- redirection.
structure Script where
  source : String
  tokens : Array Script.Token
  nodes : Array Script.Node
deriving DecidableEq, Repr, Inhabited

namespace Script

-- What the next token of a block attaches to.
inductive Head where
  | none
  | command (id : Nat)
  | redirection (owner id : Nat)
deriving DecidableEq, Repr

namespace Head

-- The command that a redirection would belong to.
def owner? : Head → Option Nat
  | none => .none
  | command id => some id
  | redirection owner _ => some owner

-- The node that arguments and blocks go to.
def target? : Head → Option Nat
  | none => .none
  | command id => some id
  | redirection _ id => some id

end Head

-- A block around the innermost one: the `{` that was opened there, and what it attached to.
structure Enclosing where
  opened : Nat
  head : Head
deriving DecidableEq, Repr

-- Command table of an input that is still being read.
structure Tree where
  tokens : Array Token := #[]
  nodes : Array Node := #[]
  head : Head := .none
  enclosing : List Enclosing := []
deriving DecidableEq, Repr

def mapLast {α : Type} (f : α → α) : List α → List α
  | [] => []
  | [x] => [f x]
  | x :: y :: rest => x :: mapLast f (y :: rest)

namespace Node

def opened (index : Nat) : Node := { extent := .single index }

def reach (n : Node) (index : Nat) : Node := { n with extent := n.extent.extendTo index }

def addArg (n : Node) (index : Nat) : Node :=
  match n.args with
  | some args => { n with args := some (args.extendTo index) }
  | none => { n with args := some (.single index) }

def addRedirection (n : Node) (index : Nat) : Node :=
  { n with redirections := n.redirections ++ [.single index] }

def openBlock (n : Node) (index : Nat) : Node :=
  { n with blocks := n.blocks ++ [.single index] }

def closeBlock (n : Node) (index : Nat) : Node :=
  { n with blocks := mapLast (·.extendTo index) n.blocks }

def reachRedirection (n : Node) (index : Nat) : Node :=
  { n with redirections := mapLast (·.extendTo index) n.redirections }

end Node

namespace Tree

-- A tree whose first command has an empty name at the start of the text, so that arguments can
-- follow at once.
def headed : Tree where
  tokens := #[⟨.command, "", ⟨0, 0⟩, 1, 0, some 0⟩]
  nodes := #[.opened 0]
  head := .command 0

-- Number of open blocks.
def depth (t : Tree) : Nat := t.enclosing.length

def innermostOpen? (t : Tree) : Option Token := do
  let frame ← t.enclosing.head?
  t.tokens[frame.opened]?

def update (t : Tree) (id : Nat) (f : Node → Node) : Tree :=
  { t with nodes := t.nodes.modify id f }

def push (t : Tree) (token : Token) : Tree :=
  { t with tokens := t.tokens.push token }

-- Everything that the current head belongs to now reaches up to `index`.
def reach (t : Tree) (index : Nat) : Tree :=
  match t.head with
  | .none => t
  | .command id => t.update id (·.reach index)
  | .redirection owner id =>
    (t.update owner fun n => (n.reach index).reachRedirection index).update id (·.reach index)

-- Take one more token in.  A refused token leaves no trace.
def insert (t : Tree) (token : Token) : Except LexError Tree :=
  let index := t.tokens.size
  let id := t.nodes.size
  match token.kind with
  | .command =>
    .ok { t with
      tokens := t.tokens.push { token with node := some id }
      nodes := t.nodes.push (.opened index)
      head := .command id }
  | .separator => .ok { t.push token with head := .none }
  | .redirection | .shellRedirection | .fileRedirection =>
    match t.head.owner? with
    | none => .error ⟨.emptyCommandHead, token.span⟩
    | some owner =>
      let opened := { t with nodes := t.nodes.push (.opened index) }
      let owned := opened.update owner fun n => (n.reach index).addRedirection index
      .ok { owned.push { token with node := some id } with head := .redirection owner id }
  | .option | .bareArgument | .singleQuoted | .doubleQuoted =>
    match t.head.target? with
    | none => .error ⟨.emptyCommandHead, token.span⟩
    | some target =>
      if (t.nodes[target]?.map (·.blocks.isEmpty)).getD true then
        .ok (((t.update target (·.addArg index)).reach index).push token)
      else .error ⟨.argumentAfterBlock, token.span⟩
  | .blockBegin =>
    match t.head.target? with
    | none => .error ⟨.emptyCommandHead, token.span⟩
    | some target =>
      let opened := ((t.update target (·.openBlock index)).reach index).push token
      .ok { opened with head := .none, enclosing := ⟨index, t.head⟩ :: t.enclosing }
  | .blockEnd =>
    match t.enclosing with
    | [] => .error ⟨.blockUnderflow, token.span⟩
    | frame :: outer =>
      let parent := { t with head := frame.head, enclosing := outer }
      let closed := match frame.head.target? with
        | some target => parent.update target (·.closeBlock index)
        | none => parent
      .ok ((closed.reach index).push token)

def toScript (t : Tree) (source : String) : Script :=
  ⟨source, t.tokens, t.nodes⟩

end Tree

end Script

end CommandShell
