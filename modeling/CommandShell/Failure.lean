namespace CommandShell

-- Why a command, or a stage that its output runs through, did not succeed.  A breakdown is a
-- failure that a handler did not report itself.
inductive Failure where
  | failed (message : String)
  | brokeDown (message : String)
  | cancelled
  | outputClosed
  | block
  | io (message : String)
  | json (message : String)
deriving DecidableEq, Repr

namespace Failure

def message : Failure → String
  | failed message | io message | json message => message
  | brokeDown message => "panic: " ++ message
  | cancelled => "cancelled"
  | outputClosed => "output pipeline closed"
  | block => "nested block failed"

end Failure

end CommandShell
