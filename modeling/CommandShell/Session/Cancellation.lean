namespace CommandShell.Session

-- Looks out for the trigger while a request runs.
structure Watch where
  request : Nat
  cancelled : Bool := false
deriving DecidableEq, Repr

-- One trigger for all requests, and the watches of those that run, the innermost first.  Without
-- a watcher installed no request is watched.
structure Cancellation where
  installed : Bool := false
  raised : Bool := false
  watches : List Watch := []
deriving DecidableEq, Repr

namespace Cancellation

-- A request starts.  A trigger raised before does not cancel it.
def start (c : Cancellation) (request : Nat) : Cancellation :=
  if c.installed then { c with raised := false, watches := ⟨request, false⟩ :: c.watches } else c

def raise (c : Cancellation) : Cancellation := { c with raised := true }

-- A watch looks at the trigger; the first one that finds it raised takes it.
def poll (c : Cancellation) (request : Nat) : Cancellation :=
  let mark (w : Watch) : Watch := if w.request = request then { w with cancelled := true } else w
  if c.raised ∧ c.watches.any fun w => w.request = request && !w.cancelled then
    { c with raised := false, watches := c.watches.map mark }
  else c

-- Every watch looks at the trigger, in some order of the requests that are watched.
def pollAll (c : Cancellation) (order : List Nat → List Nat) : Cancellation :=
  (order (c.watches.map (·.request))).foldl poll c

-- The innermost request ends.
def finish (c : Cancellation) : Cancellation :=
  if c.installed then { c with watches := c.watches.tail } else c

def isCancelled (c : Cancellation) (request : Nat) : Bool :=
  c.watches.any fun w => w.request = request && w.cancelled

end Cancellation

end CommandShell.Session
