import CommandShell.Output.Assembler
import CommandShell.Proofs.Json.Ordered

namespace CommandShell.Output

theorem tokensOf_ne_nil (name : Option String) (v : Json.Value) : tokensOf name v ≠ [] := by
  cases v <;> simp [tokensOf]

namespace Assembler

-- Take tokens one after the other, with what each of them gives.
def pushAll (a : Assembler) : List Token → Assembler × List (Option Record)
  | [] => (a, [])
  | t :: rest =>
    let (next, record) := a.push t
    let (last, records) := next.pushAll rest
    (last, record :: records)

variable (a : Assembler)

@[simp] theorem pushAll_nil : a.pushAll [] = (a, []) := rfl

theorem pushAll_cons (t : Token) (rest : List Token) :
    a.pushAll (t :: rest) =
      (((a.push t).1.pushAll rest).1, (a.push t).2 :: ((a.push t).1.pushAll rest).2) := rfl

theorem pushAll_singleton (t : Token) : a.pushAll [t] = ((a.push t).1, [(a.push t).2]) := rfl

theorem pushAll_append (front behind : List Token) :
    a.pushAll (front ++ behind) =
      (((a.pushAll front).1.pushAll behind).1,
        (a.pushAll front).2 ++ ((a.pushAll front).1.pushAll behind).2) := by
  induction front generalizing a with
  | nil => rfl
  | cons t rest ih => rw [List.cons_append, pushAll_cons, ih, pushAll_cons]; rfl

-- Some tokens amount to one: only the last of them can give a record, the one that the single
-- token gives, and both leave the same containers open.
def Amounts (tokens : List Token) (t : Token) : Prop :=
  ∀ a : Assembler, a.pushAll tokens =
    ((a.push t).1, List.replicate (tokens.length - 1) none ++ [(a.push t).2])

-- Inside of an open container no token of a part gives a record.
theorem Amounts.inside {tokens : List Token} {name : Option String} {v : Json.Value}
    (h : Amounts tokens (.value name v)) (ne : tokens ≠ []) (c : Container)
    (rest : List Container) :
    pushAll ⟨c :: rest⟩ tokens =
      (⟨c.add ⟨name, v⟩ :: rest⟩, List.replicate tokens.length none) := by
  have count : tokens.length - 1 + 1 = tokens.length := by
    have := List.length_pos_iff.mpr ne
    omega
  have single : push ⟨c :: rest⟩ (.value name v) = (⟨c.add ⟨name, v⟩ :: rest⟩, none) := rfl
  rw [h, single, ← List.replicate_succ', count]

-- The parts of an array go behind those it has.
theorem pushAll_tokensOfItems {items : List Json.Value}
    (h : ∀ v ∈ items, Amounts (tokensOf none v) (.value none v)) (name : Option String)
    (done : List Json.Value) (rest : List Container) :
    pushAll ⟨⟨name, .array done⟩ :: rest⟩ (tokensOfItems items) =
      (⟨⟨name, .array (done ++ items)⟩ :: rest⟩,
        List.replicate (tokensOfItems items).length none) := by
  induction items generalizing done with
  | nil => rw [tokensOfItems, List.append_nil]; rfl
  | cons v items ih =>
    obtain ⟨hv, hi⟩ := List.forall_mem_cons.mp h
    have first := hv.inside (tokensOf_ne_nil none v) ⟨name, .array done⟩ rest
    have added : Container.add ⟨name, .array done⟩ ⟨none, v⟩ = ⟨name, .array (done ++ [v])⟩ := rfl
    rw [tokensOfItems, pushAll_append, first, added, ih hi, List.append_assoc,
      List.singleton_append, List.length_append, List.replicate_add]

-- The entries of an object come in the order of their keys, so each of them goes behind those
-- that the object has.
theorem pushAll_tokensOfEntries {entries done : Dictionary Json.Value}
    (h : ∀ e ∈ entries, Amounts (tokensOf (some e.1) e.2) (.value (some e.1) e.2))
    (ordered : entries.IsOrdered) (above : ∀ d ∈ done, ∀ e ∈ entries, d.1 < e.1)
    (name : Option String) (rest : List Container) :
    pushAll ⟨⟨name, .object done⟩ :: rest⟩ (tokensOfEntries entries) =
      (⟨⟨name, .object (done ++ entries)⟩ :: rest⟩,
        List.replicate (tokensOfEntries entries).length none) := by
  induction entries generalizing done with
  | nil => rw [tokensOfEntries, List.append_nil]; rfl
  | cons e entries ih =>
    obtain ⟨key, v⟩ := e
    obtain ⟨hv, he⟩ := List.forall_mem_cons.mp h
    obtain ⟨least, hr⟩ := Dictionary.isOrdered_cons.mp ordered
    have first := hv.inside (tokensOf_ne_nil (some key) v) ⟨name, .object done⟩ rest
    have last : Dictionary.insert key v done = done ++ [(key, v)] :=
      Dictionary.insert_eq_append (fun d hd => above d hd (key, v) List.mem_cons_self) v
    have added : Container.add ⟨name, .object done⟩ ⟨some key, v⟩ =
        ⟨name, .object (done ++ [(key, v)])⟩ :=
      congrArg (fun entries => (⟨name, .object entries⟩ : Container)) last
    have still : ∀ d ∈ done ++ [(key, v)], ∀ e ∈ entries, d.1 < e.1 := by
      intro d hd e he
      rcases List.mem_append.mp hd with hd | hd
      · exact above d hd e (List.mem_cons_of_mem _ he)
      · exact List.mem_singleton.mp hd ▸ least e he
    rw [tokensOfEntries, pushAll_append, first, added, ih he hr still, List.append_assoc,
      List.singleton_append, List.length_append, List.replicate_add]

-- A container that was opened and filled is attached by the token that closes it.
theorem amounts_of_filled {opening : Token} {parts : List Token} {name : Option String}
    {empty full : Contents} (opens : ∀ a : Assembler,
      a.push opening = (⟨⟨name, empty⟩ :: a.containers⟩, none))
    (fills : ∀ rest, pushAll ⟨⟨name, empty⟩ :: rest⟩ parts =
      (⟨⟨name, full⟩ :: rest⟩, List.replicate parts.length none)) :
    Amounts (opening :: (parts ++ [.close])) (.value name full.toValue) := by
  intro a
  have closes : push ⟨⟨name, full⟩ :: a.containers⟩ .close = a.push (.value name full.toValue) :=
    rfl
  have count : (opening :: (parts ++ [Token.close])).length - 1 = parts.length + 1 := by
    simp only [List.length_cons, List.length_append, List.length_nil]
    omega
  rw [pushAll_cons, opens, pushAll_append, fills, pushAll_singleton, closes, count,
    List.replicate_succ]
  rfl

-- Induction on the value, each part inside of the containers around it.
theorem amounts_tokensOf (name : Option String) (v : Json.OrderedValue) :
    Amounts (tokensOf name v.value) (.value name v.value) := by
  obtain ⟨v, ordered⟩ := v
  dsimp only
  induction ordered generalizing name with
  | null | bool b | number n | string s => exact fun a => rfl
  | array values ih =>
    have fills := pushAll_tokensOfItems (fun v hv => ih v hv none) name []
    rw [tokensOf]
    exact amounts_of_filled (fun a => rfl) fills
  | @object entries keys values ih =>
    have above : ∀ d ∈ ([] : Dictionary Json.Value), ∀ e ∈ entries, d.1 < e.1 := nofun
    have fills := pushAll_tokensOfEntries (fun e he => ih e he (some e.1)) keys above name
    rw [tokensOf]
    exact amounts_of_filled (fun a => rfl) fills

-- The innermost container is closed first.
theorem finish_cons_cons (c parent : Container) (rest : List Container) :
    finish ⟨c :: parent :: rest⟩ = finish ⟨parent.add c.toRecord :: rest⟩ := rfl

-- Closing whatever is open, from the innermost container outwards, gives a record at the end only.
theorem pushAll_close (c : Container) (rest : List Container) :
    pushAll ⟨c :: rest⟩ (List.replicate (rest.length + 1) .close) =
      (empty, List.replicate rest.length none ++ [(finish ⟨c :: rest⟩).2]) := by
  induction rest generalizing c with
  | nil => rfl
  | cons parent rest ih =>
    have closes : push ⟨c :: parent :: rest⟩ .close = (⟨parent.add c.toRecord :: rest⟩, none) := rfl
    rw [List.length_cons, List.replicate_succ, pushAll_cons, closes, ih, finish_cons_cons,
      List.replicate_succ, List.cons_append]

theorem finish_eq_pushAll_close :
    a.finish = (empty, (a.pushAll (List.replicate a.depth .close)).2.getLast?.join) := by
  obtain ⟨containers⟩ := a
  cases containers with
  | nil => rfl
  | cons c rest =>
    have closed := pushAll_close c rest
    rw [show depth ⟨c :: rest⟩ = rest.length + 1 from rfl, closed, List.getLast?_concat]
    rfl

-- The tokens of a value, whatever containers are open, do what the value does as one token, and
-- an assembler finishes as if everything open in it were closed.
theorem assembles (name : Option String) (v : Json.OrderedValue) :
    a.pushAll (tokensOf name v.value) =
        ((a.push (.value name v.value)).1,
          List.replicate ((tokensOf name v.value).length - 1) none ++
            [(a.push (.value name v.value)).2]) ∧
      (a.containers = [] → a.push (.value name v.value) = (a, some ⟨name, v.value⟩)) ∧
      a.finish = (empty, (a.pushAll (List.replicate a.depth .close)).2.getLast?.join) := by
  refine ⟨amounts_tokensOf name v a, fun outside => ?_, a.finish_eq_pushAll_close⟩
  rw [push, attach, outside]

-- A value without a name in an open object: it gets a number for a name.
theorem assembles_in_object :
    (Json.Value.object [("a", .array [.null]), ("b", .object [])]).IsOrdered ∧
      pushAll ⟨[⟨none, .object []⟩]⟩
          (tokensOf none (.object [("a", .array [.null]), ("b", .object [])])) =
        (⟨[⟨none, .object [("0", .object [("a", .array [.null]), ("b", .object [])])]⟩]⟩,
          List.replicate 7 none) := by
  have ordered : (Json.Value.object [("a", .array [.null]), ("b", .object [])]).IsOrdered :=
    .object (by decide) fun e he => by
      rcases List.mem_pair.mp he with rfl | rfl
      · exact .array fun v hv => List.mem_singleton.mp hv ▸ .null
      · exact .object Dictionary.isOrdered_nil nofun
  exact ⟨ordered, (assembles ⟨[⟨none, .object []⟩]⟩ none ⟨_, ordered⟩).1⟩

end Assembler

end CommandShell.Output
