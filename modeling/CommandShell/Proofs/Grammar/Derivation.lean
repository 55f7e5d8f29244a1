import CommandShell.Script.Outline

namespace CommandShell.Script

namespace TokenKind

-- Tokens that stand behind the name of a command or redirection.
def isPiece (kind : TokenKind) : Bool := kind = option || kind.isArgument

-- Tokens that open a node.
def opensNode (kind : TokenKind) : Bool := kind = command || kind.isRedirection

end TokenKind

abbrev Arg := { t : Token // t.kind.isPiece = true }

namespace Derivation

mutual

-- A script is a list of separators and commands; what belongs to a command stands in the order
-- of its tokens.
inductive Item where
  | separator (token : Token) (kind : token.kind = .separator)
  | command (name : Token) (kind : name.kind = .command) (args : List Arg) (blocks : List Block)
      (redirections : List Redirected)

inductive Redirected where
  | mk (name : Token) (kind : name.kind.isRedirection = true) (args : List Arg)
      (blocks : List Block)

inductive Block where
  | mk (opening : Token) (opens : opening.kind = .blockBegin) (body : List Item)
      (closing : Token) (closes : closing.kind = .blockEnd)

end

def argTokens (args : List Arg) : List Token := args.map (·.1)

mutual

def Item.tokens : Item → List Token
  | .separator token _ => [token]
  | .command name _ args blocks redirections =>
    name :: (argTokens args ++ blocksTokens blocks ++ redirectedTokens redirections)

def Redirected.tokens : Redirected → List Token
  | .mk name _ args blocks => name :: (argTokens args ++ blocksTokens blocks)

def Block.tokens : Block → List Token
  | .mk opening _ body closing _ => opening :: (itemsTokens body ++ [closing])

def itemsTokens : List Item → List Token
  | [] => []
  | item :: rest => item.tokens ++ itemsTokens rest

def blocksTokens : List Block → List Token
  | [] => []
  | block :: rest => block.tokens ++ blocksTokens rest

def redirectedTokens : List Redirected → List Token
  | [] => []
  | redirected :: rest => redirected.tokens ++ redirectedTokens rest

end

-- The range of `count` tokens from `first` on, if there are any.
def rangeOf (first count : Nat) : Option Range :=
  if count = 0 then none else some ⟨first, first + count - 1⟩

-- The ranges of parts that follow each other, by their numbers of tokens.
def ranges (first : Nat) : List Nat → List Range
  | [] => []
  | count :: rest => ⟨first, first + count - 1⟩ :: ranges (first + count) rest

-- The node of a command whose first token has the index `first`.
def commandNode (first : Nat) (args : List Arg) (blocks : List Block)
    (redirections : List Redirected) : Node :=
  let blocksFirst := first + 1 + args.length
  let redirectedFirst := blocksFirst + (blocksTokens blocks).length
  { extent := ⟨first, redirectedFirst + (redirectedTokens redirections).length - 1⟩
    args := rangeOf (first + 1) args.length
    blocks := ranges blocksFirst (blocks.map (·.tokens.length))
    redirections := ranges redirectedFirst (redirections.map (·.tokens.length)) }

def redirectedNode (first : Nat) (args : List Arg) (blocks : List Block) : Node :=
  commandNode first args blocks []

mutual

-- What is to be met on the way through a part whose first token has the index `first`.
def Item.outline (first : Nat) : Item → List Command
  | .separator _ _ => []
  | .command _ _ args blocks redirections =>
    let blocksFirst := first + 1 + args.length
    let redirectedFirst := blocksFirst + (blocksTokens blocks).length
    [.mk (commandNode first args blocks redirections) (blocksOutline blocksFirst blocks)
      (redirectedOutline redirectedFirst redirections)]

def Redirected.outline (first : Nat) : Redirected → Redirection
  | .mk _ _ args blocks =>
    .mk (redirectedNode first args blocks) (blocksOutline (first + 1 + args.length) blocks)

def Block.outline (first : Nat) : Block → List Command
  | .mk _ _ body _ _ => itemsOutline (first + 1) body

def itemsOutline (first : Nat) : List Item → List Command
  | [] => []
  | item :: rest => item.outline first ++ itemsOutline (first + item.tokens.length) rest

def blocksOutline (first : Nat) : List Block → List (List Command)
  | [] => []
  | block :: rest => block.outline first :: blocksOutline (first + block.tokens.length) rest

def redirectedOutline (first : Nat) : List Redirected → List Redirection
  | [] => []
  | redirected :: rest =>
    redirected.outline first :: redirectedOutline (first + redirected.tokens.length) rest

end

mutual

-- The nodes in the order of their first tokens, each with its arguments.
def Item.parts (first : Nat) : Item → List (Node × List Token)
  | .separator _ _ => []
  | .command _ _ args blocks redirections =>
    let blocksFirst := first + 1 + args.length
    let redirectedFirst := blocksFirst + (blocksTokens blocks).length
    (commandNode first args blocks redirections, argTokens args) ::
      (blocksParts blocksFirst blocks ++ redirectedParts redirectedFirst redirections)

def Redirected.parts (first : Nat) : Redirected → List (Node × List Token)
  | .mk _ _ args blocks =>
    (redirectedNode first args blocks, argTokens args) ::
      blocksParts (first + 1 + args.length) blocks

def Block.parts (first : Nat) : Block → List (Node × List Token)
  | .mk _ _ body _ _ => itemsParts (first + 1) body

def itemsParts (first : Nat) : List Item → List (Node × List Token)
  | [] => []
  | item :: rest => item.parts first ++ itemsParts (first + item.tokens.length) rest

def blocksParts (first : Nat) : List Block → List (Node × List Token)
  | [] => []
  | block :: rest => block.parts first ++ blocksParts (first + block.tokens.length) rest

def redirectedParts (first : Nat) : List Redirected → List (Node × List Token)
  | [] => []
  | redirected :: rest =>
    redirected.parts first ++ redirectedParts (first + redirected.tokens.length) rest

end

def itemsNodes (first : Nat) (items : List Item) : List Node := (itemsParts first items).map (·.1)

def blocksNodes (first : Nat) (blocks : List Block) : List Node :=
  (blocksParts first blocks).map (·.1)

def redirectedNodes (first : Nat) (list : List Redirected) : List Node :=
  (redirectedParts first list).map (·.1)

-- Tokens as they are kept: those that open a node have its number, from `id` on.
def numbered (id : Nat) : List Token → List Token
  | [] => []
  | t :: rest =>
    if t.kind.opensNode then { t with node := some id } :: numbered (id + 1) rest
    else t :: numbered id rest

@[simp] theorem length_numbered (id : Nat) (tokens : List Token) :
    (numbered id tokens).length = tokens.length := by
  induction tokens generalizing id with
  | nil => rfl
  | cons t rest ih =>
    rw [numbered]
    split <;> simp [ih]

theorem numbered_append (id : Nat) (a b : List Token) :
    numbered id (a ++ b) = numbered id a ++ numbered (id + a.countP (·.kind.opensNode)) b := by
  induction a generalizing id with
  | nil => rfl
  | cons t rest ih =>
    rw [List.cons_append, numbered, numbered, List.countP_cons]
    split
    · simp [ih, Nat.add_assoc, Nat.add_comm 1]
    · simp [ih]

theorem opensNode_of_isRedirection {kind : TokenKind} (h : kind.isRedirection = true) :
    kind.opensNode = true := by
  simp [TokenKind.opensNode, h]

theorem opensNode_of_isPiece {kind : TokenKind} (h : kind.isPiece = true) :
    kind.opensNode = false := by
  cases kind <;> first | rfl | cases h

@[simp] theorem countP_argTokens (args : List Arg) :
    (argTokens args).countP (·.kind.opensNode) = 0 := by
  rw [List.countP_eq_zero]
  intro t ht
  obtain ⟨arg, -, rfl⟩ := List.mem_map.1 ht
  simp [opensNode_of_isPiece arg.2]

@[simp] theorem numbered_argTokens (id : Nat) (args : List Arg) :
    numbered id (argTokens args) = argTokens args := by
  induction args with
  | nil => rfl
  | cons arg rest ih =>
    rw [argTokens, List.map_cons, numbered, if_neg (by simp [opensNode_of_isPiece arg.2])]
    exact congrArg _ ih

@[simp] theorem length_argTokens (args : List Arg) : (argTokens args).length = args.length := by
  simp [argTokens]

-- The indices of the tokens that open a node, the first token having the index `first`.
def openings (first : Nat) (tokens : List Token) : List Nat :=
  ((tokens.zipIdx first).filter (·.1.kind.opensNode)).map (·.2)

theorem openings_cons (first : Nat) (t : Token) (rest : List Token) :
    openings first (t :: rest) =
      if t.kind.opensNode then first :: openings (first + 1) rest
      else openings (first + 1) rest := by
  rw [openings, List.zipIdx_cons, List.filter_cons]
  split <;> rfl

theorem openings_append (first : Nat) (a b : List Token) :
    openings first (a ++ b) = openings first a ++ openings (first + a.length) b := by
  simp [openings, List.zipIdx_append]

theorem length_openings (first : Nat) (tokens : List Token) :
    (openings first tokens).length = tokens.countP (·.kind.opensNode) := by
  induction tokens generalizing first with
  | nil => rfl
  | cons t rest ih =>
    rw [openings_cons, List.countP_cons]
    split <;> simp [ih]

@[simp] theorem openings_argTokens (first : Nat) (args : List Arg) :
    openings first (argTokens args) = [] := by
  rw [← List.length_eq_zero_iff, length_openings, countP_argTokens]

mutual

-- The nodes and the tokens that open them are in the same order.
theorem Item.openings_tokens (first : Nat) : (item : Item) →
    openings first item.tokens = (item.parts first).map (·.1.extent.first)
  | .separator token kind => by
    have ht : token.kind.opensNode = false := by rw [kind]; rfl
    simp [Item.tokens, Item.parts, openings, ht]
  | .command name kind args blocks redirections => by
    have hn : name.kind.opensNode = true := by rw [kind]; rfl
    have hb := openings_blocksTokens (first + 1 + args.length) blocks
    have hr := openings_redirectedTokens (first + 1 + args.length + (blocksTokens blocks).length)
      redirections
    rw [Item.tokens, List.append_assoc, openings_cons, if_pos hn, openings_append,
      openings_append]
    simp [Item.parts, commandNode, hb, hr]

theorem Redirected.openings_tokens (first : Nat) : (redirected : Redirected) →
    openings first redirected.tokens = (redirected.parts first).map (·.1.extent.first)
  | .mk name kind args blocks => by
    have hn := opensNode_of_isRedirection kind
    have hb := openings_blocksTokens (first + 1 + args.length) blocks
    rw [Redirected.tokens, openings_cons, if_pos hn, openings_append]
    simp [Redirected.parts, redirectedNode, commandNode, hb]

theorem Block.openings_tokens (first : Nat) : (block : Block) →
    openings first block.tokens = (block.parts first).map (·.1.extent.first)
  | .mk opening opens body closing closes => by
    have ho : opening.kind.opensNode = false := by rw [opens]; rfl
    have hc : closing.kind.opensNode = false := by rw [closes]; rfl
    have hb := openings_itemsTokens (first + 1) body
    rw [Block.tokens, openings_cons, if_neg (by simp [ho]), openings_append, hb, openings_cons,
      if_neg (by simp [hc])]
    simp [Block.parts, openings]

theorem openings_itemsTokens (first : Nat) : (items : List Item) →
    openings first (itemsTokens items) = (itemsParts first items).map (·.1.extent.first)
  | [] => rfl
  | item :: rest => by
    have hi := item.openings_tokens first
    have hr := openings_itemsTokens (first + item.tokens.length) rest
    rw [itemsTokens, openings_append, hi, hr, itemsParts, List.map_append]

theorem openings_blocksTokens (first : Nat) : (blocks : List Block) →
    openings first (blocksTokens blocks) = (blocksParts first blocks).map (·.1.extent.first)
  | [] => rfl
  | block :: rest => by
    have hb := block.openings_tokens first
    have hr := openings_blocksTokens (first + block.tokens.length) rest
    rw [blocksTokens, openings_append, hb, hr, blocksParts, List.map_append]

theorem openings_redirectedTokens (first : Nat) : (list : List Redirected) →
    openings first (redirectedTokens list) =
      (redirectedParts first list).map (·.1.extent.first)
  | [] => rfl
  | redirected :: rest => by
    have hd := redirected.openings_tokens first
    have hr := openings_redirectedTokens (first + redirected.tokens.length) rest
    rw [redirectedTokens, openings_append, hd, hr, redirectedParts, List.map_append]

end

theorem Item.countP_tokens (first : Nat) (item : Item) :
    item.tokens.countP (·.kind.opensNode) = (item.parts first).length := by
  rw [← length_openings first, item.openings_tokens, List.length_map]

theorem Redirected.countP_tokens (first : Nat) (redirected : Redirected) :
    redirected.tokens.countP (·.kind.opensNode) = (redirected.parts first).length := by
  rw [← length_openings first, redirected.openings_tokens, List.length_map]

theorem Block.countP_tokens (first : Nat) (block : Block) :
    block.tokens.countP (·.kind.opensNode) = (block.parts first).length := by
  rw [← length_openings first, block.openings_tokens, List.length_map]

theorem countP_itemsTokens (first : Nat) (items : List Item) :
    (itemsTokens items).countP (·.kind.opensNode) = (itemsParts first items).length := by
  rw [← length_openings first, openings_itemsTokens, List.length_map]

theorem countP_blocksTokens (first : Nat) (blocks : List Block) :
    (blocksTokens blocks).countP (·.kind.opensNode) = (blocksParts first blocks).length := by
  rw [← length_openings first, openings_blocksTokens, List.length_map]

end Derivation

end CommandShell.Script
