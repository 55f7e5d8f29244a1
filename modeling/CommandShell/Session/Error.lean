import CommandShell.Binding.Binder
import CommandShell.Config.Overlay
import CommandShell.Failure
import CommandShell.Handler.Registry
import CommandShell.Script.Error

namespace CommandShell.Session

open Handler (Kind)

-- Why a command or redirection cannot be used where it stands.
inductive DispatchCause where
  | notFound
  | unknownRedirection
  | misplaced (kind previous : Kind)
  | unexpectedBlock
deriving DecidableEq, Repr

-- `token` is the script index of the token at fault.
structure DispatchError where
  name : String
  cause : DispatchCause
  token : Nat
deriving DecidableEq, Repr

namespace DispatchError

def message (e : DispatchError) : String :=
  e.name ++ ": " ++ match e.cause with
    | .notFound => "not found or not applicable"
    | .unknownRedirection => "no pipe, formatter or sink with this name"
    | .misplaced kind previous => "a " ++ kind.label ++ " cannot follow a " ++ previous.label
    | .unexpectedBlock => "a redirection takes no \x7b … \x7d block"

end DispatchError

-- What can go wrong with a text or one of its commands.
inductive Error where
  | lex (e : Script.LexError)
  | bind (e : Binding.BindError)
  | dispatch (e : DispatchError)
  | run (e : Failure)
  | config (e : Config.ConfigError)
deriving DecidableEq, Repr

namespace Error

def message : Error → String
  | lex e => e.message
  | bind e => e.message
  | dispatch e => e.message
  | run e => e.message
  | config e => e.message

end Error

end CommandShell.Session
