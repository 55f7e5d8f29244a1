import CommandShell.Dictionary
import CommandShell.Number.Binary

namespace CommandShell.Json

inductive Number where
  | integer (n : Int)
  | double (x : Number.Double)
deriving DecidableEq, Repr

-- The entries of an object form a dictionary.
inductive Value where
  | null
  | bool (b : Bool)
  | number (n : Number)
  | string (s : String)
  | array (items : List Value)
  | object (entries : List (String × Value))
deriving Repr, Inhabited

namespace Value

def int (n : Int) : Value := .number (.integer n)

def ofEntries (entries : List (String × Value)) : Value := .object (Dictionary.ofList entries)

def ofOption {α : Type} (f : α → Value) : Option α → Value
  | some x => f x
  | none => .null

def strings (texts : List String) : Value := .array (texts.map .string)

end Value

end CommandShell.Json
