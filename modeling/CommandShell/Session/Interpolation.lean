import CommandShell.Session.Context
import CommandShell.Text.Alphanumeric

namespace CommandShell.Session

open World (Environment expandTilde)

-- What a variable is found to be; a value that is not text cannot be used.
inductive Found where
  | text (s : String)
  | missing
  | unreadable (bytes : List UInt8)
deriving DecidableEq, Repr

structure UnreadableVariable where
  name : String
  bytes : List UInt8
deriving DecidableEq, Repr

namespace UnreadableVariable

def message (e : UnreadableVariable) : String :=
  "error looking key '" ++ e.name ++ "' up: environment variable was not valid unicode: " ++
    Text.quotedBytes e.bytes

end UnreadableVariable

def isNameChar (c : Char) : Bool := Text.isAlphanumeric c || c = '_'

-- The inside of braces: a variable's name, and the default after the first `:-` unless the name
-- before it would be empty.
def splitDefault (inside : List Char) : List Char × Option (List Char) :=
  let rec find : List Char → Option (List Char × List Char)
    | ':' :: '-' :: rest => some ([], rest)
    | c :: rest => (find rest).map fun (name, default) => (c :: name, default)
    | [] => none
  match find inside with
  | some (c :: name, default) => (c :: name, some default)
  | _ => (inside, none)

variable (valueOf : String → Found)

-- What `$` followed by `cs` stands for, and what is left after it.
def expandDollar (cs : List Char) : Except UnreadableVariable (List Char × List Char) :=
  match cs with
  | '\x7b' :: rest =>
    match Text.splitOnce '\x7d' rest with
    | none => .ok (['$', '\x7b'], rest)
    | some (inside, after) =>
      let (name, default) := splitDefault inside
      match valueOf (String.ofList name), default with
      | .text s, _ => .ok (s.toList, after)
      | _, some default => .ok (default, after)
      | .missing, none => .ok ('$' :: '\x7b' :: inside ++ ['\x7d'], after)
      | .unreadable bytes, none => .error ⟨String.ofList name, bytes⟩
  | '$' :: rest => .ok (['$'], rest)
  | _ =>
    let name := cs.takeWhile isNameChar
    let after := cs.dropWhile isNameChar
    if name.isEmpty then .ok (['$'], cs)
    else
      match valueOf (String.ofList name) with
      | .text s => .ok (s.toList, after)
      | .missing => .ok ('$' :: name, after)
      | .unreadable bytes => .error ⟨String.ofList name, bytes⟩

theorem length_of_expandDollar {cs text rest : List Char}
    (h : expandDollar valueOf cs = .ok (text, rest)) : rest.length ≤ cs.length := by
  have hd := (List.dropWhile_sublist isNameChar (l := cs)).length_le
  unfold expandDollar at h
  split at h
  · split at h
    · cases h
      simp
    · next hs =>
      have hl := Text.length_of_splitOnce hs
      simp only at h
      split at h <;> cases h <;> simp <;> omega
  · cases h
    simp
  · simp only at h
    split at h
    · cases h
      exact Nat.le_refl _
    · split at h <;> cases h <;> exact hd

-- Replace variables from left to right.  What is put in is not looked at again.
def expandVariables : List Char → Except UnreadableVariable (List Char)
  | [] => .ok []
  | c :: cs =>
    if c = '$' then
      match h : expandDollar valueOf cs with
      | .error e => .error e
      | .ok (text, rest) =>
        have := length_of_expandDollar valueOf h
        do return text ++ (← expandVariables rest)
    else do return c :: (← expandVariables cs)
termination_by cs => cs.length
decreasing_by all_goals simp <;> omega

namespace Context

-- Session variables come before the environment.
def lookup (c : Context) (env : Environment) (name : String) : Found :=
  match c.var? name with
  | some s => .text s
  | none =>
    match Environment.get? env name with
    | some (.text s) => .text s
    | some (.bytes bs) => .unreadable bs
    | none => .missing

-- Expand variables, then a leading tilde unless a variable brought it in.
def interpolate (c : Context) (env : Environment) (s : String) :
    Except UnreadableVariable String := do
  let expanded := String.ofList (← expandVariables (c.lookup env) s.toList)
  if s.toList.head? = some '~' then return expandTilde env.home? expanded
  else return expanded

end Context

end CommandShell.Session
