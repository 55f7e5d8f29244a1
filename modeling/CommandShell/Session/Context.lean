import CommandShell.World.Environment
import CommandShell.Text.Split

namespace CommandShell.Session

-- Where a session is and what its variables hold.
structure Context where
  segments : List String := []
  vars : Dictionary String := []
deriving DecidableEq, Repr

namespace Context

def path (c : Context) : String := "/" ++ "/".intercalate c.segments

-- Follow one part of a path.
def enter (segments : List String) (part : String) : List String :=
  if part = "" ∨ part = "." then segments
  else if part = ".." then segments.dropLast
  else segments ++ [part]

-- Follow a path from here, or from the root if it starts with a slash.
def cd (c : Context) (target : String) : Context :=
  let start := if target.toList.head? = some '/' then [] else c.segments
  { c with segments := (Text.splitString '/' target).foldl enter start }

def var? (c : Context) (name : String) : Option String := Dictionary.get? name c.vars

def setVar (c : Context) (name value : String) : Context :=
  { c with vars := Dictionary.insert name value c.vars }

def unsetVar (c : Context) (name : String) : Context :=
  { c with vars := Dictionary.erase name c.vars }

end Context

end CommandShell.Session
