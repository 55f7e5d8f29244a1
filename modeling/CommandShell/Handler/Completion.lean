import CommandShell.Text.Search

namespace CommandShell.Handler

-- One word to complete: the name of the handler that it stands behind, the word, the arguments before
-- it, and what was offered so far.
structure CompletionRequest where
  name : String
  word : String
  args : List String := []
  candidates : List String := []
deriving DecidableEq, Repr

namespace CompletionRequest

-- Offer a text if it extends the word.
def add (r : CompletionRequest) (candidate : String) : CompletionRequest :=
  if Text.startsWith candidate r.word ∧ candidate ∉ r.candidates then
    { r with candidates := r.candidates ++ [candidate] }
  else r

-- What is left of some offers, in order.
def sorted (r : CompletionRequest) (offers : List String) : List String :=
  (offers.foldl add r).candidates.mergeSort

end CompletionRequest

end CommandShell.Handler
