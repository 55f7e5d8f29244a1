import CommandShell.Binding.Tag
import CommandShell.Binding.Value

namespace CommandShell.Binding

-- A field as it is declared.
structure Declaration where
  name : String
  type : FieldType
  tag : String
deriving DecidableEq, Repr

structure Field where
  name : String
  type : FieldType
  sets : List FlagSet
deriving DecidableEq, Repr

structure TagError where
  field : String
  cause : TagCause
deriving DecidableEq, Repr

namespace TagError

def message (e : TagError) : String := "field " ++ e.field ++ ": " ++ e.cause.message

end TagError

namespace Field

-- The set that governs a command: one that names it before one for every command.
def setFor? (f : Field) (command : String) : Option FlagSet :=
  (f.sets.find? (·.appliesTo command)).or (f.sets.find? (·.isWildcard))

def ofDeclaration (d : Declaration) : Except TagError Field := do
  let sets ← (readTag d.tag).mapError (⟨d.name, ·⟩)
  if d.type.shape = .flag ∧ sets.any fun s => s.position.isSome && !s.aliases.isEmpty then
    throw ⟨d.name, .mixedFlag⟩
  return ⟨d.name, d.type, sets⟩

-- Never has to be given.
def isOptional (f : Field) (set : FlagSet) : Bool :=
  set.optional || set.counting || (f.type.shape = .flag && set.position.isNone)

end Field

-- A way to reach a field: the command, the option or position as written, the field's name.
structure Claim where
  command : String
  key : String
  owner : String
deriving DecidableEq, Repr

namespace FlagSet

def keys (set : FlagSet) : List String :=
  set.aliases.map displayAlias ++ set.position.toList.map fun p => "#" ++ toString p

end FlagSet

namespace Field

def claims (f : Field) : List Claim :=
  f.sets.flatMap fun set => set.commands.flatMap fun command =>
    set.keys.map fun key => ⟨command, key, f.name⟩

end Field

-- The first claim on a key that was taken before for the same command.
def firstConflict? (taken : List Claim) : List Claim → Option TagError
  | [] => none
  | claim :: rest =>
    match taken.find? fun other => other.command = claim.command && other.key = claim.key with
    | some other => some ⟨claim.owner, .taken claim.key other.owner claim.command⟩
    | none => firstConflict? (taken ++ [claim]) rest

structure Table where
  fields : List Field
deriving DecidableEq, Repr

-- A field that a command can be given, with its place in the table.
structure Active where
  index : Nat
  field : Field
  set : FlagSet
deriving DecidableEq, Repr

namespace Active

def isOptional (a : Active) : Bool := a.field.isOptional a.set

def shape (a : Active) : Shape := a.field.type.shape

end Active

namespace Table

def empty : Table := ⟨[]⟩

def build (declarations : List Declaration) : Except TagError Table := do
  let fields ← declarations.mapM Field.ofDeclaration
  match firstConflict? [] (fields.flatMap Field.claims) with
  | some e => throw e
  | none => return ⟨fields⟩

-- Values of all fields before any was given.
def initial (t : Table) : List Slot := t.fields.map (·.type.initial)

def activeFrom (command : String) (index : Nat) : List Field → List Active
  | [] => []
  | f :: rest =>
    match f.setFor? command with
    | some set => ⟨index, f, set⟩ :: activeFrom command (index + 1) rest
    | none => activeFrom command (index + 1) rest

theorem getElem?_of_mem_activeFrom {command : String} {index : Nat} {fields : List Field}
    {a : Active} (h : a ∈ activeFrom command index fields) :
    index ≤ a.index ∧ fields[a.index - index]? = some a.field := by
  induction fields generalizing index with
  | nil => cases h
  | cons f rest ih =>
    have hrest (hm : a ∈ activeFrom command (index + 1) rest) :
        index ≤ a.index ∧ (f :: rest)[a.index - index]? = some a.field := by
      obtain ⟨hle, ha⟩ := ih hm
      have hindex : a.index - index = a.index - (index + 1) + 1 := by omega
      exact ⟨by omega, by rw [hindex, List.getElem?_cons_succ, ha]⟩
    rw [activeFrom] at h
    split at h
    · rcases List.mem_cons.1 h with rfl | hm
      · simp
      · exact hrest hm
    · exact hrest h

def active (t : Table) (command : String) : List Active :=
  activeFrom command 0 t.fields

theorem getElem?_of_mem_active {t : Table} {command : String} {a : Active}
    (h : a ∈ t.active command) : t.fields[a.index]? = some a.field :=
  (getElem?_of_mem_activeFrom h).2

-- The field that an option without its dashes stands for.
def byAlias? (t : Table) (command name : String) : Option Active :=
  (t.active command).find? fun a => a.set.aliases.contains name

-- The field that takes the argument at a position: the one declared there, else the last list
-- declared before it.
def byPosition? (t : Table) (command : String) (position : Nat) : Option Active :=
  let active := t.active command
  (active.find? fun a => a.set.position = some position).or
    (active.reverse.find? fun a => a.shape = .list && a.set.position.any (· < position))

private def bracketed (optional : Bool) (first last text : String) : String :=
  if optional then "[" ++ text ++ "]" else first ++ text ++ last

private def optionUsage (a : Active) : String :=
  let value := if a.shape = .flag ∨ a.set.counting then "" else " <" ++ a.field.type.label ++ ">"
  bracketed a.isOptional "" "" (a.set.display ++ value)

private def positionUsage (a : Active) : String :=
  bracketed a.isOptional "<" ">" (a.field.name ++ if a.shape = .list then "..." else "")

-- What a command accepts, on one line: options in table order, then arguments by position.
def usage (t : Table) (command : String) : String :=
  let documented := (t.active command).filter fun a => !a.set.undocumented
  let options := documented.filter fun a => a.set.position.isNone
  let positional := (documented.filter fun a => a.set.position.isSome).mergeSort
    fun a b => a.set.position.getD 0 ≤ b.set.position.getD 0
  " ".intercalate (command :: options.map optionUsage ++ positional.map positionUsage)

-- The options that a command accepts, with dashes.
def optionNames (t : Table) (command : String) : List String :=
  ((t.active command).filter fun a => !a.set.undocumented).flatMap
    fun a => a.set.aliases.map displayAlias

end Table

end CommandShell.Binding
