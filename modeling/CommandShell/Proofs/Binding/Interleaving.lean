import CommandShell.Proofs.Binding.Exclusion
import CommandShell.Proofs.Binding.Words
import Mathlib.Data.Finset.Insert

namespace CommandShell.Binding

open Script (Argued Scanner Token TokenKind)

-- The kinds and texts of the pieces of a word, without where they stand.
abbrev Spelling := List (TokenKind × String)

def spelling (pieces : List Token) : Spelling := pieces.map fun t => (t.kind, t.text)

-- An option as it is given: alone, or with the word behind it as its value.
inductive Item where
  | alone (option : String)
  | valued (option : String) (word : Spelling)
deriving DecidableEq, Repr

-- The arguments are these words at positions and these options with their values, each in their
-- order, mixed in any way.  An option that is not known may be among those that stand alone.
inductive Interleaves (table : Table) (command : String) :
    List Argument → List Spelling → List Item → Prop
  | nil : Interleaves table command [] [] []
  | word {first : Token} {more : List Token} {rest : List Argument} {words : List Spelling}
      {items : List Item} (behind : Interleaves table command rest words items) :
      Interleaves table command (.word first more :: rest) (spelling (first :: more) :: words)
        items
  | alone {t : Token} {rest : List Argument} {words : List Spelling} {items : List Item}
      (stands : ∀ a ∈ table.byOption? command t.text, a.standsAlone = true)
      (behind : Interleaves table command rest words items) :
      Interleaves table command (.option t :: rest) words (.alone t.text :: items)
  | valued {t first : Token} {more : List Token} {rest : List Argument} {words : List Spelling}
      {items : List Item} (takes : ∃ a ∈ table.byOption? command t.text, a.standsAlone = false)
      (behind : Interleaves table command rest words items) :
      Interleaves table command (.option t :: .word first more :: rest) words
        (.valued t.text (spelling (first :: more)) :: items)

-- The values so far, and which fields were given, in whatever order.
structure Held where
  slots : List Slot
  given : Finset Nat

namespace Held

def slot (h : Held) (a : Active) : Slot := (h.slots[a.index]?).getD a.field.type.initial

def give (h : Held) (a : Active) (slot : Slot) : Held :=
  ⟨h.slots.set a.index slot, insert a.index h.given⟩

variable {h : Held} {a b : Active} {x y : Slot}

theorem slot_give_of_ne (hne : a.index ≠ b.index) : (h.give a x).slot b = h.slot b := by
  simp [slot, give, List.getElem?_set_ne hne]

theorem give_comm (hne : a.index ≠ b.index) :
    (h.give a x).give b y = (h.give b y).give a x := by
  simp [give, List.set_comm _ _ hne, Finset.insert_comm a.index]

end Held

-- What an argument does to the field it is for: it gives it a value that depends on the one there
-- was, and may be allowed only once.
structure Change where
  field : Active
  once : Bool
  next : Slot → Option Slot

namespace Change

-- The value that is given, if one can be.
def value? (c : Change) (h : Held) : Option Slot :=
  if c.once ∧ c.field.index ∈ h.given then none else c.next (h.slot c.field)

def apply (c : Change) (h : Held) : Option Held := (c.value? h).map (h.give c.field)

-- It makes no difference which of two changes comes first.
def Commutes (c d : Change) : Prop := ∀ h, (c.apply h).bind d.apply = (d.apply h).bind c.apply

variable {c d : Change} {h : Held}

theorem value?_give_of_ne {a : Active} {x : Slot} (hne : a.index ≠ d.field.index) :
    d.value? (h.give a x) = d.value? h := by
  have hgiven : d.field.index ∈ (h.give a x).given ↔ d.field.index ∈ h.given := by
    simp [Held.give, Ne.symm hne]
  simp only [value?, hgiven, Held.slot_give_of_ne hne]

-- Changes of different fields do not see one another.
theorem commutes_of_ne (hne : c.field.index ≠ d.field.index) : c.Commutes d := by
  intro h
  have hc (y : Slot) : c.value? (h.give d.field y) = c.value? h := value?_give_of_ne hne.symm
  have hd (x : Slot) : d.value? (h.give c.field x) = d.value? h := value?_give_of_ne hne
  rw [apply, apply]
  cases hx : c.value? h with
  | none => cases d.value? h <;> simp [apply, hc, hx]
  | some x =>
    cases hy : d.value? h with
    | none => simp [apply, hd, hy]
    | some y => simp [apply, hc, hd, hx, hy, Held.give_comm hne]

-- Of two changes of a field that takes one value the later one fails.
theorem bind_apply_of_once (hd : d.once = true) (he : c.field.index = d.field.index) :
    (c.apply h).bind d.apply = none := by
  rw [Option.bind_eq_none_iff]
  intro h' hc
  obtain ⟨x, -, rfl⟩ := Option.map_eq_some_iff.1 hc
  have hgiven : d.field.index ∈ (h.give c.field x).given := by simp [Held.give, he]
  simp [apply, value?, hd, hgiven]

theorem commutes_of_once (hc : c.once = true) (hd : d.once = true)
    (he : c.field.index = d.field.index) : c.Commutes d := by
  intro h
  rw [bind_apply_of_once hd he, bind_apply_of_once hc he.symm]

-- Changes one after the other; one that cannot be said fails.
def applyAll (changes : List (Option Change)) (h : Held) : Option Held :=
  changes.foldlM (fun h c? => c?.bind (·.apply h)) h

theorem applyAll_cons (c? : Option Change) (changes : List (Option Change)) (h : Held) :
    applyAll (c? :: changes) h = (c?.bind (·.apply h)).bind (applyAll changes) := by
  rw [applyAll, List.foldlM_cons]
  rfl

theorem applyAll_append (changes more : List (Option Change)) (h : Held) :
    applyAll (changes ++ more) h = (applyAll changes h).bind (applyAll more) := by
  rw [applyAll, List.foldlM_append]
  rfl

-- A change can be made behind those it commutes with.
theorem applyAll_concat_of_commutes {changes : List (Option Change)} (c? : Option Change)
    (hc : ∀ c ∈ c?, ∀ d? ∈ changes, ∀ d ∈ d?, c.Commutes d) (h : Held) :
    applyAll (changes ++ [c?]) h = applyAll (c? :: changes) h := by
  induction changes generalizing h with
  | nil => rfl
  | cons d? changes ih =>
    have hrest : ∀ c ∈ c?, ∀ e? ∈ changes, ∀ e ∈ e?, c.Commutes e := fun c hm e? he? =>
      hc c hm e? (List.mem_cons_of_mem _ he?)
    have hswap : (d?.bind (·.apply h)).bind (fun h => c?.bind (·.apply h)) =
        (c?.bind (·.apply h)).bind (fun h => d?.bind (·.apply h)) := by
      cases c? with
      | none => simp
      | some c =>
        cases d? with
        | none => simp
        | some d => exact (hc c rfl (some d) (List.mem_cons_self ..) d rfl h).symm
    calc applyAll (d? :: changes ++ [c?]) h
      _ = (d?.bind (·.apply h)).bind (applyAll (changes ++ [c?])) := applyAll_cons ..
      _ = (d?.bind (·.apply h)).bind (applyAll (c? :: changes)) := by
        congr 1
        exact funext (ih hrest)
      _ = ((d?.bind (·.apply h)).bind fun h => c?.bind (·.apply h)).bind (applyAll changes) := by
        simp only [applyAll_cons, Option.bind_assoc]
      _ = ((c?.bind (·.apply h)).bind fun h => d?.bind (·.apply h)).bind (applyAll changes) := by
        rw [hswap]
      _ = applyAll (c? :: d? :: changes) h := by
        simp only [applyAll_cons, Option.bind_assoc]

end Change

section Changes

variable (table : Table) (command : String) (interpolate : Interpolation)

def pieceText? (kind : TokenKind) (text : String) : Option String :=
  if kind = .singleQuoted then some text else (interpolate text).toOption

-- The text that the pieces of a word make, if none of them fails.
def textOf? : Spelling → Option String
  | [] => some ""
  | (kind, text) :: rest => do
    return (← pieceText? interpolate kind text) ++ (← textOf? rest)

-- A word is stored in a field.
def Active.takes? (a : Active) (word : Spelling) : Option Change := do
  let value ← textOf? interpolate word
  return ⟨a, a.shape = .scalar, fun slot => (slot.assign a.field.type.scalar value).toOption⟩

-- A flag is set, or a count goes up.
def Active.raises (a : Active) : Change :=
  ⟨a, false, fun slot => Except.toOption <|
    if a.set.counting then slot.increment a.field.type.scalar
    else slot.setFlag a.field.type.scalar⟩

def Item.change? : Item → Option Change
  | .alone option => do
    let a ← table.byOption? command option
    if a.standsAlone then return a.raises else none
  | .valued option word => do
    let a ← table.byOption? command option
    if a.standsAlone then none else a.takes? interpolate word

def wordChange? (position : Nat) (word : Spelling) : Option Change := do
  (← table.byPosition? command position).takes? interpolate word

-- What words do behind `words` words that went to positions.
def wordChanges (words : Nat) : List Spelling → List (Option Change)
  | [] => []
  | word :: rest =>
    wordChange? table command interpolate (words + 1) word :: wordChanges (words + 1) rest

end Changes

namespace Filling

variable {table : Table} {command : String} {interpolate : Interpolation}
  {f : Filling} {a : Active} {pieces : List Token}

def held (f : Filling) : Held := ⟨f.slots, f.given.toFinset⟩

-- What is held behind a walk that went to the end.
def reached : Filling × Option BindError → Option Held
  | (f, none) => some f.held
  | (_, some _) => none

theorem held_give (f : Filling) (a : Active) (x : Slot) :
    (f.give a x).held = f.held.give a x := by
  simp [held, give, Held.give]

theorem toOption_assemble (index : Nat) (pieces : List Token) :
    (assemble interpolate index pieces).toOption = textOf? interpolate (spelling pieces) := by
  induction pieces generalizing index with
  | nil => rfl
  | cons t rest ih =>
    have hrest := ih (index + 1)
    have hexpand : (expand interpolate index t).toOption =
        pieceText? interpolate t.kind t.text := by
      rw [expand, pieceText?]
      split
      · rfl
      · cases interpolate t.text <;> rfl
    rw [spelling, List.map_cons, textOf?, ← hexpand, ← spelling, ← hrest, assemble]
    cases expand interpolate index t with
    | error e => rfl
    | ok first => cases assemble interpolate (index + 1) rest <;> rfl

theorem toOption_store (name value : String) (index : Nat) :
    (f.store a name value index).toOption.map held =
      Change.apply ⟨a, a.shape = .scalar,
        fun slot => (slot.assign a.field.type.scalar value).toOption⟩ f.held := by
  have hgiven : a.index ∈ f.held.given ↔ a.index ∈ f.given := List.mem_toFinset
  have hslot : f.held.slot a = f.slot a := rfl
  simp only [store, Change.apply, Change.value?, decide_eq_true_eq, hgiven, hslot,
    and_comm (b := a.shape = .scalar)]
  split
  · rfl
  · cases (f.slot a).assign a.field.type.scalar value with
    | error e => rfl
    | ok x => exact congrArg some (held_give f a x)

theorem toOption_take (name : String) (index : Nat) :
    (f.take interpolate a name index pieces).toOption.map held =
      (a.takes? interpolate (spelling pieces)).bind (·.apply f.held) := by
  rw [take, Active.takes?, ← toOption_assemble index]
  cases assemble interpolate index pieces with
  | error e => rfl
  | ok value => exact toOption_store name value index

theorem toOption_raise (option : String) (index : Nat) :
    (f.raise a option index).toOption.map held = a.raises.apply f.held := by
  have hslot : f.held.slot a = f.slot a := rfl
  simp only [raise, Active.raises, Change.apply, Change.value?, hslot]
  generalize (if a.set.counting = true then (f.slot a).increment a.field.type.scalar
    else (f.slot a).setFlag a.field.type.scalar) = raised
  cases raised with
  | error e => simp [Except.toOption]
  | ok x => simp [Except.toOption, held_give]

-- Words and options that are mixed do what the options do, and then the words.
theorem reached_walk {words : List Spelling} {items : List Item} {arguments : List Argument}
    (hi : Interleaves table command arguments words items) {before : Nat}
    (hl : ∀ k < words.length, ∀ a ∈ table.byPosition? command (before + k + 1), a.shape ≠ .list)
    (hc : ∀ c? ∈ wordChanges table command interpolate before words, ∀ c ∈ c?,
      ∀ item ∈ items, ∀ d ∈ item.change? table command interpolate, c.Commutes d)
    (index : Nat) :
    reached (f.walk table command interpolate true before index arguments) =
      Change.applyAll (items.map (·.change? table command interpolate) ++
        wordChanges table command interpolate before words) f.held := by
  induction hi generalizing f before index with
  | nil => rfl
  | @word first more rest words items behind ih =>
    have hcnext : ∀ c? ∈ wordChanges table command interpolate (before + 1) words, ∀ c ∈ c?,
        ∀ item ∈ items, ∀ d ∈ item.change? table command interpolate, c.Commutes d :=
      fun c? hm => hc c? (List.mem_cons_of_mem _ hm)
    have hlnext : ∀ k < words.length, ∀ a ∈ table.byPosition? command (before + 1 + k + 1),
        a.shape ≠ .list := by
      intro k hk
      have hnext := hl (k + 1) (Nat.succ_lt_succ hk)
      rwa [show before + (k + 1) + 1 = before + 1 + k + 1 by omega] at hnext
    rw [wordChanges, List.append_cons, Change.applyAll_append,
      Change.applyAll_concat_of_commutes _ ?_, Change.applyAll_cons, Option.bind_assoc]
    · simp only [← Change.applyAll_append]
      rw [walk, wordChange?]
      cases hf : table.byPosition? command (before + 1) with
      | none => rfl
      | some a =>
        have hshape : a.shape ≠ .list := hl 0 (Nat.succ_pos _) a hf
        have ht : (f.take interpolate a (a.called (before + 1)) index (first :: more)).toOption.map
            held = _ := toOption_take _ _
        simp only [Option.bind_eq_bind, Option.bind_some, ← ht, ne_eq, hshape, not_false_eq_true,
          decide_true, Bool.and_self]
        cases f.take interpolate a (a.called (before + 1)) index (first :: more) with
        | error e => rfl
        | ok next => exact ih hlnext hcnext (index + (more.length + 1))
    · intro c hm d? hd d hdm
      obtain ⟨item, hitem, rfl⟩ := List.mem_map.1 hd
      exact hc _ (List.mem_cons_self ..) c hm item hitem d hdm
  | @alone t rest words items stands behind ih =>
    have hcnext : ∀ c? ∈ wordChanges table command interpolate before words, ∀ c ∈ c?,
        ∀ item ∈ items, ∀ d ∈ item.change? table command interpolate, c.Commutes d :=
      fun c? hm c hcm item hitem => hc c? hm c hcm item (List.mem_cons_of_mem _ hitem)
    rw [List.map_cons, List.cons_append, Change.applyAll_cons, Item.change?, walk]
    cases hf : table.byOption? command t.text with
    | none => rfl
    | some a =>
      have ha := stands a hf
      have hr := toOption_raise (f := f) (a := a) t.text index
      simp only [Option.bind_eq_bind, Option.bind_some, Option.pure_def, ha, if_true, not_true,
        if_false, ← hr]
      cases f.raise a t.text index with
      | error e => rfl
      | ok next => exact ih hl hcnext (index + 1)
  | @valued t first more rest words items takes behind ih =>
    have hcnext : ∀ c? ∈ wordChanges table command interpolate before words, ∀ c ∈ c?,
        ∀ item ∈ items, ∀ d ∈ item.change? table command interpolate, c.Commutes d :=
      fun c? hm c hcm item hitem => hc c? hm c hcm item (List.mem_cons_of_mem _ hitem)
    obtain ⟨a, hf, ha⟩ := takes
    have ht : (f.take interpolate a a.set.display (index + 1) (first :: more)).toOption.map held =
        _ := toOption_take _ _
    rw [List.map_cons, List.cons_append, Change.applyAll_cons, Item.change?, walk,
      Option.mem_def.1 hf]
    simp only [Option.bind_eq_bind, Option.bind_some, ha, Bool.false_eq_true, not_true, if_false,
      ← ht]
    cases f.take interpolate a a.set.display (index + 1) (first :: more) with
    | error e => rfl
    | ok next => exact ih hl hcnext (index + 1 + (more.length + 1))

-- What is missing does not depend on the order in which fields were given.
theorem omission?_congr {g : Filling} (h : f.held = g.held) :
    f.omission? table command = g.omission? table command := by
  have hgiven (i : Nat) : f.given.contains i = g.given.contains i := by
    have hs : f.given.toFinset = g.given.toFinset := congrArg Held.given h
    have hm : i ∈ f.given ↔ i ∈ g.given := by rw [← List.mem_toFinset, hs, List.mem_toFinset]
    rw [Bool.eq_iff_iff, List.contains_iff_mem, List.contains_iff_mem, hm]
  simp only [omission?, hgiven]

end Filling

-- Walks that reach the same end in the same bindings.
theorem bindFrom_eq_ok_iff_of_reached {table : Table} {command : String} {args args' : Args}
    {interpolate : Interpolation} {slots bound : List Slot} (hargs : Argued args.tokens)
    (hargs' : Argued args'.tokens)
    (h : Filling.reached (Filling.walk table command interpolate ⟨slots, []⟩ true 0 args.first
        (Argument.ofTokens args.tokens)) =
      Filling.reached (Filling.walk table command interpolate ⟨slots, []⟩ true 0 args'.first
        (Argument.ofTokens args'.tokens))) :
    bindFrom slots table command args interpolate = .ok bound ↔
      bindFrom slots table command args' interpolate = .ok bound := by
  simp only [bindFrom, bindOnto_eq_of_argued table command interpolate _ _ hargs,
    bindOnto_eq_of_argued table command interpolate _ _ hargs', bindInOrder]
  generalize Filling.walk _ _ _ _ _ _ args.first _ = walked at h ⊢
  generalize Filling.walk _ _ _ _ _ _ args'.first _ = walked' at h ⊢
  obtain ⟨f, e | e⟩ := walked <;> obtain ⟨g, e' | e'⟩ := walked'
  · have hheld : f.held = g.held := Option.some.inj h
    have hslots : f.slots = g.slots := congrArg Held.slots hheld
    simp only [Filling.close, Filling.omission?_congr hheld, hslots]
  · cases h
  · cases h
  · simp [Filling.close]

section Built

variable {declarations : List Declaration} {table : Table} {command : String}

theorem exists_of_mem_mapM {α β ε : Type} {f : α → Except ε β} {xs : List α} {ys : List β}
    (h : xs.mapM f = .ok ys) {y : β} (hy : y ∈ ys) : ∃ x ∈ xs, f x = .ok y := by
  induction xs generalizing ys with
  | nil =>
    cases h
    cases hy
  | cons x xs ih =>
    rw [List.mapM_cons] at h
    cases hx : f x with
    | error e =>
      rw [hx] at h
      cases h
    | ok z =>
      cases hxs : xs.mapM f with
      | error e =>
        rw [hx, hxs] at h
        cases h
      | ok zs =>
        rw [hx, hxs] at h
        cases h
        rcases List.mem_cons.1 hy with rfl | hm
        · exact ⟨x, List.mem_cons_self .., hx⟩
        · obtain ⟨w, hw, hfw⟩ := ih hxs hm
          exact ⟨w, List.mem_cons_of_mem _ hw, hfw⟩

theorem aliases_of_ofDeclaration {d : Declaration} {f : Field}
    (h : Field.ofDeclaration d = .ok f) (hf : f.type.shape = .flag) :
    ∀ set ∈ f.sets, set.position ≠ none → set.aliases = [] := by
  rw [Field.ofDeclaration] at h
  cases hr : readTag d.tag with
  | error e =>
    rw [hr] at h
    cases h
  | ok sets =>
    rw [hr] at h
    simp only [Except.mapError, Bind.bind, Except.bind, Pure.pure, Except.pure] at h
    split at h
    · cases h
    · next hmixed =>
      cases h
      intro set hm hp
      by_contra ha
      refine hmixed ⟨hf, List.any_eq_true.2 ⟨set, hm, ?_⟩⟩
      rw [Bool.and_eq_true, Option.isSome_iff_ne_none]
      exact ⟨hp, by simpa using ha⟩

-- A flag of a table that is built has no options beside a position.
theorem aliases_of_build (h : Table.build declarations = .ok table) {f : Field}
    (hm : f ∈ table.fields) (hf : f.type.shape = .flag) :
    ∀ set ∈ f.sets, set.position ≠ none → set.aliases = [] := by
  rw [Table.build] at h
  cases hfields : declarations.mapM Field.ofDeclaration with
  | error e =>
    rw [hfields] at h
    cases h
  | ok fields =>
    rw [hfields] at h
    simp only [Bind.bind, Except.bind] at h
    split at h
    · cases h
    · cases h
      obtain ⟨d, -, hd⟩ := exists_of_mem_mapM hfields hm
      exact aliases_of_ofDeclaration hd hf

theorem eq_of_index {a b : Active} (ha : a ∈ table.active command) (hb : b ∈ table.active command)
    (h : a.index = b.index) : a = b := by
  have hfield : a.field = b.field := by
    have hfa := Table.getElem?_of_mem_active ha
    rw [h, Table.getElem?_of_mem_active hb] at hfa
    exact (Option.some.inj hfa).symm
  have hset : a.set = b.set := by
    have hsa := (Table.setFor?_of_mem_activeFrom ha).2
    rw [hfield, (Table.setFor?_of_mem_activeFrom hb).2] at hsa
    exact (Option.some.inj hsa).symm
  cases a
  cases b
  simp_all

-- What takes an argument and is not a list is declared for its position.
theorem of_byPosition? {a : Active} {position : Nat} (h : table.byPosition? command position = some a)
    (hl : a.shape ≠ .list) : a ∈ table.active command ∧ a.set.position = some position := by
  rcases Option.or_eq_some_iff.1 h with hf | ⟨-, hf⟩
  · exact ⟨List.mem_of_find?_eq_some hf, by simpa using List.find?_some hf⟩
  · have ht := List.find?_some hf
    simp [hl] at ht

theorem of_byOption? {a : Active} {option : String} (h : table.byOption? command option = some a) :
    a ∈ table.active command ∧ a.set.aliases ≠ [] := by
  refine ⟨List.mem_of_find?_eq_some h, fun hn => ?_⟩
  have ht := List.find?_some h
  simp [hn] at ht

-- A field that takes a word at a position, and is no list, takes one value if it is an option too.
theorem shape_of_shared (h : Table.build declarations = .ok table)
    (hc : ∀ f ∈ table.fields, ∀ set ∈ f.sets, set.counting = true → set.position = none)
    {a : Active} {position : Nat} {option : String}
    (hp : table.byPosition? command position = some a) (hl : a.shape ≠ .list)
    (ho : table.byOption? command option = some a) :
    a.standsAlone = false ∧ a.shape = .scalar := by
  obtain ⟨hm, hposition⟩ := of_byPosition? hp hl
  obtain ⟨hfield, hset⟩ := Table.setFor?_of_mem_activeFrom hm
  have hsets : a.set ∈ a.field.sets := (Field.of_setFor?_eq_some hset).1
  have hsome : a.set.position ≠ none := by simp [hposition]
  have hcounting : a.set.counting = false :=
    Bool.eq_false_iff.2 fun ht => hsome (hc _ hfield _ hsets ht)
  have hflag : a.shape ≠ .flag := fun hf =>
    (of_byOption? ho).2 (aliases_of_build h hfield hf _ hsets hsome)
  have hscalar : a.shape = .scalar := by
    cases hs : a.shape with
    | flag => exact absurd hs hflag
    | scalar => rfl
    | list => exact absurd hs hl
  exact ⟨by simp [Active.standsAlone, hcounting, hflag], hscalar⟩

variable {interpolate : Interpolation}

theorem of_takes? {a : Active} {word : Spelling} {c : Change}
    (h : a.takes? interpolate word = some c) :
    c.field = a ∧ c.once = decide (a.shape = .scalar) := by
  obtain ⟨value, -, hv⟩ := Option.bind_eq_some_iff.1 h
  cases hv
  exact ⟨rfl, rfl⟩

-- A word and an option with its value may change places, unless the word goes to a list.
theorem commutes_of_build (h : Table.build declarations = .ok table)
    (hc : ∀ f ∈ table.fields, ∀ set ∈ f.sets, set.counting = true → set.position = none)
    {position : Nat} (hl : ∀ a ∈ table.byPosition? command position, a.shape ≠ .list)
    {word : Spelling} {item : Item} {c d : Change}
    (hw : wordChange? table command interpolate position word = some c)
    (hi : item.change? table command interpolate = some d) : c.Commutes d := by
  obtain ⟨a, hp, ha⟩ := Option.bind_eq_some_iff.1 hw
  obtain ⟨hca, hconce⟩ := of_takes? ha
  have hm := (of_byPosition? hp (hl a hp)).1
  by_cases hne : c.field.index = d.field.index
  swap
  · exact Change.commutes_of_ne hne
  cases item with
  | alone option =>
    obtain ⟨b, ho, hb⟩ := Option.bind_eq_some_iff.1 hi
    split at hb
    · next hs =>
      cases hb
      have hba : b = a := eq_of_index (of_byOption? ho).1 hm (by rw [← hca, hne]; rfl)
      subst hba
      rw [(shape_of_shared h hc hp (hl b hp) ho).1] at hs
      cases hs
    · cases hb
  | valued option value =>
    obtain ⟨b, ho, hb⟩ := Option.bind_eq_some_iff.1 hi
    split at hb
    · cases hb
    · obtain ⟨hdb, hdonce⟩ := of_takes? hb
      have hba : b = a := eq_of_index (of_byOption? ho).1 hm (by rw [← hca, ← hdb, hne])
      subst hba
      have hscalar := (shape_of_shared h hc hp (hl b hp) ho).2
      exact Change.commutes_of_once (by simp [hconce, hscalar]) (by simp [hdonce, hscalar]) hne

theorem exists_of_mem_wordChanges {before : Nat} {words : List Spelling} {c? : Option Change}
    (h : c? ∈ wordChanges table command interpolate before words) :
    ∃ k < words.length, ∃ word,
      c? = wordChange? table command interpolate (before + k + 1) word := by
  induction words generalizing before with
  | nil => cases h
  | cons word words ih =>
    rcases List.mem_cons.1 h with rfl | hm
    · exact ⟨0, Nat.succ_pos _, word, rfl⟩
    · obtain ⟨k, hk, word, rfl⟩ := ih hm
      refine ⟨k + 1, Nat.succ_lt_succ hk, word, ?_⟩
      rw [show before + (k + 1) + 1 = before + 1 + k + 1 by omega]

end Built

-- Options and words at positions commute: as long as no word goes to a list, how options with
-- their values and words are mixed makes no difference to what is bound, or whether anything is.
theorem bindFrom_interleaved {declarations : List Declaration} {table : Table}
    (hbuild : Table.build declarations = .ok table)
    (hcounting : ∀ f ∈ table.fields, ∀ set ∈ f.sets, set.counting = true → set.position = none)
    {command : String} {words : List Spelling} {items : List Item} {args args' : Args}
    (hlist : ∀ k < words.length, ∀ a ∈ table.byPosition? command (k + 1), a.shape ≠ .list)
    (hargs : Argued args.tokens) (hargs' : Argued args'.tokens)
    (h : Interleaves table command (Argument.ofTokens args.tokens) words items)
    (h' : Interleaves table command (Argument.ofTokens args'.tokens) words items)
    (slots bound : List Slot) (interpolate : Interpolation) :
    bindFrom slots table command args interpolate = .ok bound ↔
      bindFrom slots table command args' interpolate = .ok bound := by
  have hlists : ∀ k < words.length, ∀ a ∈ table.byPosition? command (0 + k + 1),
      a.shape ≠ .list := by simpa using hlist
  have hcommutes : ∀ c? ∈ wordChanges table command interpolate 0 words, ∀ c ∈ c?,
      ∀ item ∈ items, ∀ d ∈ item.change? table command interpolate, c.Commutes d := by
    intro c? hm c hc item _ d hd
    obtain ⟨k, hk, word, rfl⟩ := exists_of_mem_wordChanges hm
    exact commutes_of_build hbuild hcounting (hlists k hk) hc hd
  refine bindFrom_eq_ok_iff_of_reached hargs hargs' ?_
  rw [Filling.reached_walk h hlists hcommutes, Filling.reached_walk h' hlists hcommutes]

-- A counter, an option that may come again, and a field that is an option and a position.
theorem bindFrom_interleaved_copy :
    let declarations : List Declaration :=
      [⟨"verbose", ⟨.one, .integer false .bits8⟩, "*=v,count"⟩, ⟨"tags", ⟨.many, .text⟩, "*=t"⟩,
        ⟨"source", ⟨.one, .text⟩, "*=#1"⟩, ⟨"target", ⟨.optional, .path⟩, "copy=to,#2"⟩]
    let count : FlagSet := { commands := ["*"], aliases := ["v"], counting := true }
    let tags : FlagSet := { commands := ["*"], aliases := ["t"] }
    let source : FlagSet := { commands := ["*"], position := some 1 }
    let target : FlagSet := { commands := ["copy"], aliases := ["to"], position := some 2 }
    let table : Table :=
      ⟨[⟨"verbose", ⟨.one, .integer false .bits8⟩, [count]⟩, ⟨"tags", ⟨.many, .text⟩, [tags]⟩,
        ⟨"source", ⟨.one, .text⟩, [source]⟩, ⟨"target", ⟨.optional, .path⟩, [target]⟩]⟩
    let token (kind : TokenKind) (text : String) (start stop group : Nat) : Token :=
      ⟨kind, text, ⟨start, stop⟩, 1, group, none⟩
    let v (start group : Nat) := token .option "-v" start (start + 2) group
    let t (start group : Nat) := token .option "-t" start (start + 2) group
    let s (start group : Nat) := token .bareArgument "s" start (start + 1) group
    let rc (start group : Nat) := token .singleQuoted "rc" start (start + 4) group
    let a (start group : Nat) := token .bareArgument "a" start (start + 1) group
    let d (start group : Nat) := token .bareArgument "d" start (start + 1) group
    let args : Args := ⟨[v 5 2, s 8 3, rc 9 3, t 14 4, a 17 5, d 19 6], 1⟩
    let args' : Args := ⟨[s 5 2, rc 6 2, d 11 3, v 13 4, t 16 5, a 19 6], 1⟩
    let words : List Spelling :=
      [[(.bareArgument, "s"), (.singleQuoted, "rc")], [(.bareArgument, "d")]]
    let items : List Item := [.alone "-v", .valued "-t" [(.bareArgument, "a")]]
    let fed := (Scanner.starting .command).feedLines ["copy -v s'rc' -t a d"]
    let fed' := (Scanner.starting .command).feedLines ["copy s'rc' d -v -t a"]
    let node := fed.1.snapshot.node 0
    let node' := fed'.1.snapshot.node 0
    let bound : List Slot :=
      [.one (.integer 1), .many [.text "a"], .one (.text "src"), .optional (some (.text "d"))]
    Table.build declarations = .ok table ∧
      (∀ f ∈ table.fields, ∀ set ∈ f.sets, set.counting = true → set.position = none) ∧
      (∀ k < words.length, ∀ a ∈ table.byPosition? "copy" (k + 1), a.shape ≠ .list) ∧
      fed.1.finish.2 = .ok fed.1.snapshot ∧ fed'.1.finish.2 = .ok fed'.1.snapshot ∧
      fed.1.snapshot.argsOf node = args.tokens ∧ fed'.1.snapshot.argsOf node' = args'.tokens ∧
      Argued args.tokens ∧ Argued args'.tokens ∧
      Interleaves table "copy" (Argument.ofTokens args.tokens) words items ∧
      Interleaves table "copy" (Argument.ofTokens args'.tokens) words items ∧
      bindFrom table.initial table "copy" args .ok = .ok bound ∧
      bindFrom table.initial table "copy" args' .ok = .ok bound := by
  intro declarations count tags source target table token v t s rc a d args args' words items
    fed fed' node node' bound
  have hbuild : Table.build declarations = .ok table := by decide +kernel
  have hcounting : ∀ f ∈ table.fields, ∀ set ∈ f.sets, set.counting = true →
      set.position = none := by decide +kernel
  have hlist : ∀ k < words.length, ∀ a ∈ table.byPosition? "copy" (k + 1), a.shape ≠ .list := by
    decide +kernel
  have hfed : fed.2 = none := by decide +kernel
  have hfed' : fed'.2 = none := by decide +kernel
  have hs : fed.1.finish.2 = .ok fed.1.snapshot := by decide +kernel
  have hs' : fed'.1.finish.2 = .ok fed'.1.snapshot := by decide +kernel
  have hn : node ∈ fed.1.snapshot.nodes := by decide +kernel
  have hn' : node' ∈ fed'.1.snapshot.nodes := by decide +kernel
  have ht : fed.1.snapshot.argsOf node = args.tokens := by decide +kernel
  have ht' : fed'.1.snapshot.argsOf node' = args'.tokens := by decide +kernel
  have hgrouped := Script.grouped_starting .command
  have hargs : Argued args.tokens :=
    ht ▸ Script.argued_of_finish (hgrouped.of_feedLines (Prod.ext rfl hfed)) hs node hn
  have hargs' : Argued args'.tokens :=
    ht' ▸ Script.argued_of_finish (hgrouped.of_feedLines (Prod.ext rfl hfed')) hs' node' hn'
  have hstands : ∀ a ∈ table.byOption? "copy" "-v", a.standsAlone = true := by decide +kernel
  have htakes : ∃ a ∈ table.byOption? "copy" "-t", a.standsAlone = false :=
    ⟨⟨1, ⟨"tags", ⟨.many, .text⟩, [tags]⟩, tags⟩, by decide +kernel, by decide⟩
  have ha : Argument.ofTokens args.tokens =
      [.option (v 5 2), .word (s 8 3) [rc 9 3], .option (t 14 4), .word (a 17 5) [],
        .word (d 19 6) []] := by decide
  have ha' : Argument.ofTokens args'.tokens =
      [.word (s 5 2) [rc 6 2], .word (d 11 3) [], .option (v 13 4), .option (t 16 5),
        .word (a 19 6) []] := by decide
  have h : Interleaves table "copy" (Argument.ofTokens args.tokens) words items := by
    rw [ha]
    exact .alone hstands (.word (.valued htakes (.word .nil)))
  have h' : Interleaves table "copy" (Argument.ofTokens args'.tokens) words items := by
    rw [ha']
    exact .word (.word (.alone hstands (.valued htakes .nil)))
  have hb : bindFrom table.initial table "copy" args .ok = .ok bound := by decide +kernel
  refine ⟨hbuild, hcounting, hlist, hs, hs', ht, ht', hargs, hargs', h, h', hb, ?_⟩
  exact (bindFrom_interleaved hbuild hcounting hlist hargs hargs' h h' _ _ _).1 hb

end CommandShell.Binding
