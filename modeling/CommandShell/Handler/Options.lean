import CommandShell.Binding.Binder

namespace CommandShell.Handler

open Binding (Args BindError Declaration FieldType Interpolation Slot Table)

-- The table of the options that a handler declares.
def tableOf (declarations : List Declaration) : Table :=
  match Table.build declarations with
  | .ok table => table
  | .error _ => .empty

-- The options of a handler, with the values that they have before any argument.
structure Options where
  table : Table
  values : List Slot := table.initial

namespace Options

def declared (declarations : List Declaration) : Options := { table := tableOf declarations }

def bind (o : Options) (name : String) (args : Args) (interpolate : Interpolation) :
    Except BindError (List Slot) :=
  Binding.bindFrom o.values o.table name args interpolate

end Options

-- The value of the option at a place in the table.
def valueAt (slots : List Slot) (index : Nat) : Slot :=
  (slots[index]?).getD (.optional none)

def textType : FieldType := ⟨.one, .text⟩

def flagType : FieldType := ⟨.one, .bool⟩

def countType (width : Binding.Width) : FieldType := ⟨.one, .integer false width⟩

end CommandShell.Handler
