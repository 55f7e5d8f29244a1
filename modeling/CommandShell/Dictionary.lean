namespace CommandShell

-- Entries in increasing order of their keys, each key once.
abbrev Dictionary (α : Type) := List (String × α)

namespace Dictionary

variable {α : Type}

def get? (key : String) : Dictionary α → Option α
  | [] => none
  | (k, v) :: rest => if key = k then some v else get? key rest

-- Put an entry into its place; an entry with the same key is replaced.
def insert (key : String) (value : α) : Dictionary α → Dictionary α
  | [] => [(key, value)]
  | (k, v) :: rest =>
    if key < k then (key, value) :: (k, v) :: rest
    else if key = k then (key, value) :: rest
    else (k, v) :: insert key value rest

def erase (key : String) (d : Dictionary α) : Dictionary α :=
  d.filter (·.1 ≠ key)

def ofList (entries : List (String × α)) : Dictionary α :=
  entries.foldl (fun d (k, v) => insert k v d) []

def keys (d : Dictionary α) : List String := d.map (·.1)

end Dictionary

end CommandShell
