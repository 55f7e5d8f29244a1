import CommandShell.Handler.Samples

namespace CommandShell.Handler

namespace Library

-- Register handlers of one kind in one group.
def addAll (l : Library) (kind : Kind) (group : String) (handlers : List (String × Handlers kind)) :
    Library :=
  handlers.foldl (fun l (name, handler) => l.add kind name group handler) l

def standard : Library :=
  let l : Library := Registry.empty
  let l := addAll l .command "demo" [("echo", .echo), ("seq", .seq)]
  let l := addAll l .command "session" [("set", .set), ("in", .within), ("pwd", .pwd)]
  let l := addAll l .pipe "filter" [("limit", .limit), ("grep", .grep)]
  let l := addAll l .formatter "format" [("text", .text), ("json", .json)]
  addAll l .sink "output" [("stdout", .console), ("file", .file), ("sh", .shell)]

-- The standard handlers with the output captured.
def captured (group : String) : Library :=
  standard.add .sink "stdout" group .captured

-- Also the handlers that show what a session does.
def extended : Library :=
  let group := "test"
  let l := captured group
  let l := addAll l .command group [("tree", .tree), ("inspect", .inspect), ("repeat", .rerun),
    ("boom", .fail), ("restart", .restart), ("stall", .stall (.ends none)),
    ("slow", .slow)]
  let l := addAll l .pipe group [("failpipe", .faulty false), ("panicpipe", .faulty true)]
  let l := addAll l .formatter group [("raw", .tally), ("badfmt", .faulty false),
    ("panicfmt", .faulty true)]
  addAll l .sink group [("nosink", .closed), ("broken", .narrow)]

end Library

end CommandShell.Handler
