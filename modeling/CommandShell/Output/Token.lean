import CommandShell.Json.Value

namespace CommandShell.Output

-- One element of what a command puts out.  A name is a key of the object around it; `close`
-- ends the innermost object or array.
inductive Token where
  | object (name : Option String)
  | array (name : Option String)
  | close
  | value (name : Option String) (value : Json.Value)
  | endOfStream
deriving Repr, Inhabited

mutual

-- The tokens that a value falls into.
def tokensOf (name : Option String) : Json.Value → List Token
  | .object entries => .object name :: (tokensOfEntries entries ++ [.close])
  | .array items => .array name :: (tokensOfItems items ++ [.close])
  | .null => [.value name .null]
  | .bool b => [.value name (.bool b)]
  | .number n => [.value name (.number n)]
  | .string s => [.value name (.string s)]

def tokensOfItems : List Json.Value → List Token
  | [] => []
  | v :: rest => tokensOf none v ++ tokensOfItems rest

def tokensOfEntries : List (String × Json.Value) → List Token
  | [] => []
  | (key, v) :: rest => tokensOf (some key) v ++ tokensOfEntries rest

end

end CommandShell.Output
