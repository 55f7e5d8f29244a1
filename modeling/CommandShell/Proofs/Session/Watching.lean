import CommandShell.Handler.Library
import CommandShell.Proofs.Session.Stability

namespace CommandShell.Session

open Cancellation

variable {s : Session}

end CommandShell.Session
