import CommandShell.Proofs.Binding.Interleaving

namespace CommandShell.Binding

open Script (Token TokenKind)
open Binder (belongs)

-- What an argument brings to a field: a value or, for an option that stands alone, nothing but that
-- it is there.
structure Delivery where
  field : Active
  value : Option String
deriving DecidableEq, Repr

section Arguments

variable (table : Table) (command : String) (interpolate : Interpolation)

-- The text of the word that begins with `first`: of all pieces of its group that come in a row.
def wordText? (first : Token) (more : List Token) : Option String :=
  textOf? interpolate (spelling (first :: more.takeWhile (belongs first.group)))

-- What the tokens of arguments bring, each to its field: an option by its name, alone or with the
-- word behind it, and any other word by its position, which is counted from the group `base` on
-- and leaves out the options with their values.
inductive Delivers : Nat → List Token → List Delivery → Prop where
  | nil {base : Nat} : Delivers base [] []
  | alone {base : Nat} {t : Token} {rest : List Token} {a : Active} {ds : List Delivery}
      (option : t.kind = .option) (named : table.byOption? command t.text = some a)
      (stands : a.standsAlone = true) (behind : Delivers (base + 1) rest ds) :
      Delivers base (t :: rest) (⟨a, none⟩ :: ds)
  | valued {base : Nat} {t first : Token} {more : List Token} {a : Active} {s : String}
      {ds : List Delivery} (option : t.kind = .option)
      (named : table.byOption? command t.text = some a) (takes : a.standsAlone = false)
      (argument : first.kind.isArgument = true) (text : wordText? interpolate first more = some s)
      (behind : Delivers (base + 2) (more.dropWhile (belongs first.group)) ds) :
      Delivers base (t :: first :: more) (⟨a, some s⟩ :: ds)
  | word {base : Nat} {first : Token} {more : List Token} {a : Active} {s : String}
      {ds : List Delivery} (argument : first.kind.isArgument = true)
      (placed : table.byPosition? command (first.group - base) = some a)
      (text : wordText? interpolate first more = some s)
      (behind : Delivers base (more.dropWhile (belongs first.group)) ds) :
      Delivers base (first :: more) (⟨a, some s⟩ :: ds)

end Arguments

section Delivers

variable {table : Table} {command : String} {interpolate : Interpolation} {base : Nat}
  {tokens : List Token} {ds ds' : List Delivery}

theorem not_isArgument_of_option {t : Token} (h : t.kind = .option) :
    t.kind.isArgument ≠ true := by
  rw [h]
  decide

theorem Delivers.unique (h : Delivers table command interpolate base tokens ds)
    (h' : Delivers table command interpolate base tokens ds') : ds' = ds := by
  induction h generalizing ds' with
  | nil => cases h'; rfl
  | alone option named stands _ ih =>
    cases h' with
    | alone _ named' _ behind =>
      cases named.symm.trans named'
      rw [ih behind]
    | valued _ named' takes =>
      cases named.symm.trans named'
      cases stands.symm.trans takes
    | word argument => exact absurd argument (not_isArgument_of_option option)
  | valued option named takes _ text _ ih =>
    cases h' with
    | alone _ named' stands =>
      cases named.symm.trans named'
      cases takes.symm.trans stands
    | valued _ named' _ _ text' behind =>
      cases named.symm.trans named'
      cases text.symm.trans text'
      rw [ih behind]
    | word argument => exact absurd argument (not_isArgument_of_option option)
  | word argument placed text _ ih =>
    cases h' with
    | alone option | valued option => exact absurd argument (not_isArgument_of_option option)
    | word _ placed' text' behind =>
      cases placed.symm.trans placed'
      cases text.symm.trans text'
      rw [ih behind]

end Delivers

-- What a field becomes of what it receives: a value is stored, and an option that stands alone sets
-- a flag or counts up.
def Active.receive (a : Active) (slot : Slot) : Option String → Option Slot
  | some s => (slot.assign a.field.type.scalar s).toOption
  | none => Except.toOption <|
    if a.set.counting then slot.increment a.field.type.scalar
    else slot.setFlag a.field.type.scalar

namespace Delivery

-- Only a value can come too often.
def change (d : Delivery) : Change :=
  ⟨d.field, d.value.isSome && d.field.shape = .scalar, (d.field.receive · d.value)⟩

def applyAll (ds : List Delivery) : Held → Option Held :=
  Change.applyAll (ds.map fun d => some d.change)

theorem applyAll_cons (d : Delivery) (ds : List Delivery) (h : Held) :
    applyAll (d :: ds) h = (d.change.apply h).bind (applyAll ds) :=
  Change.applyAll_cons ..

end Delivery

namespace Filling

variable {table : Table} {command : String} {interpolate : Interpolation} {f g : Filling}
  {a : Active} {pieces : List Token}

theorem apply_of_raise {option : String} {index : Nat} (h : f.raise a option index = .ok g) :
    (Delivery.change ⟨a, none⟩).apply f.held = some g.held := by
  have raised := toOption_raise (f := f) (a := a) option index
  rw [h] at raised
  exact raised.symm

theorem apply_of_take {name : String} {index : Nat}
    (h : f.take interpolate a name index pieces = .ok g) :
    ∃ s, textOf? interpolate (spelling pieces) = some s ∧
      (Delivery.change ⟨a, some s⟩).apply f.held = some g.held := by
  have taken : (f.take interpolate a name index pieces).toOption.map held = _ :=
    toOption_take name index
  rw [h, Active.takes?, Option.bind_eq_bind, Option.bind_assoc] at taken
  obtain ⟨s, hs, happly⟩ := Option.bind_eq_some_iff.mp taken.symm
  exact ⟨s, hs, happly⟩

end Filling

-- A walk over all arguments makes the changes that they bring, one after the other.  Induction
-- along the walk: where it ends with an error there is nothing to show.
theorem exists_delivers {table : Table} {command : String} {interpolate : Interpolation}
    {b : Binder} {index : Nat} {tokens : List Token} {g : Filling}
    (h : b.run table command interpolate index tokens = (g, none)) :
    ∃ ds, Delivers table command interpolate b.base tokens ds ∧
      Delivery.applyAll ds b.held = some g.held := by
  fun_induction Binder.run table command interpolate b index tokens with
  | case1 b index =>
    cases h
    exact ⟨[], .nil, rfl⟩
  | case5 b index t rest option _ a named stands f raised ih =>
    obtain ⟨ds, behind, happly⟩ := ih h
    refine ⟨⟨a, none⟩ :: ds, .alone option named stands behind, ?_⟩
    rw [Delivery.applyAll_cons, Filling.apply_of_raise raised]
    exact happly
  | case9 b index t option _ a named takes first more argument pieces f taken ih =>
    obtain ⟨ds, behind, happly⟩ := ih h
    obtain ⟨s, text, hs⟩ := Filling.apply_of_take taken
    refine ⟨⟨a, some s⟩ :: ds, .valued option named (Bool.eq_false_iff.mpr takes)
      (not_not.mp argument) text behind, ?_⟩
    rw [Delivery.applyAll_cons, hs]
    exact happly
  | case13 b index first more _ position a placed argument pieces f taken ih =>
    obtain ⟨ds, behind, happly⟩ := ih h
    obtain ⟨s, text, hs⟩ := Filling.apply_of_take taken
    refine ⟨⟨a, some s⟩ :: ds, .word (not_not.mp argument) placed text behind, ?_⟩
    rw [Delivery.applyAll_cons, hs]
    exact happly
  | case2 | case3 | case4 | case6 | case7 | case8 | case10 | case11 | case12 => cases h

-- What a field receives, in order.
def received (a : Active) (ds : List Delivery) : List (Option String) :=
  (ds.filter (·.field = a)).map (·.value)

section Received

variable {a : Active} {d : Delivery} {ds : List Delivery}

theorem received_cons_self (value : Option String) :
    received a (⟨a, value⟩ :: ds) = value :: received a ds := by
  simp [received]

theorem received_cons_of_ne (h : d.field ≠ a) : received a (d :: ds) = received a ds := by
  simp [received, h]

theorem received_eq_nil_iff : received a ds = [] ↔ ∀ d ∈ ds, d.field ≠ a := by
  simp [received]

theorem mem_received {value : Option String} : value ∈ received a ds ↔ ⟨a, value⟩ ∈ ds := by
  simp only [received, List.mem_map, List.mem_filter, decide_eq_true_eq]
  constructor
  · rintro ⟨⟨field, value⟩, ⟨hm, rfl⟩, rfl⟩
    exact hm
  · exact fun hm => ⟨_, ⟨hm, rfl⟩, rfl⟩

end Received

-- It is for a field of the command, and stands alone only if that takes no value; one that counts
-- receives a value at a position only.
structure Delivery.Sound (table : Table) (command : String) (d : Delivery) : Prop where
  active : d.field ∈ table.active command
  stands : d.value = none → d.field.standsAlone = true
  counts : d.field.set.counting = true → d.field.set.position = none → d.value = none

section Sound

variable {table : Table} {command : String} {interpolate : Interpolation}

theorem mem_active_of_byPosition? {a : Active} {position : Nat}
    (h : table.byPosition? command position = some a) :
    a ∈ table.active command ∧ a.set.position ≠ none := by
  rcases Option.or_eq_some_iff.mp h with hf | ⟨-, hf⟩
  · have placed := List.find?_some hf
    exact ⟨List.mem_of_find?_eq_some hf, by simp_all⟩
  · have placed := List.find?_some hf
    refine ⟨List.mem_reverse.mp (List.mem_of_find?_eq_some hf), fun hn => ?_⟩
    simp [hn] at placed

theorem Delivers.sound {base : Nat} {tokens : List Token} {ds : List Delivery}
    (h : Delivers table command interpolate base tokens ds) : ∀ d ∈ ds, d.Sound table command := by
  induction h with
  | nil => exact List.forall_mem_nil _
  | @alone base t rest a ds option named stands _ ih =>
    have first : Delivery.Sound table command ⟨a, none⟩ :=
      ⟨(of_byOption? named).1, fun _ => stands, fun _ _ => rfl⟩
    exact List.forall_mem_cons.mpr ⟨first, ih⟩
  | @valued base t first more a s ds option named takes _ _ _ ih =>
    have counting : a.set.counting = false := (Bool.or_eq_false_iff.mp takes).1
    have first : Delivery.Sound table command ⟨a, some s⟩ :=
      ⟨(of_byOption? named).1, nofun, fun hc => absurd hc (Bool.eq_false_iff.mp counting)⟩
    exact List.forall_mem_cons.mpr ⟨first, ih⟩
  | @word base first more a s ds _ placed _ _ ih =>
    obtain ⟨hm, hp⟩ := mem_active_of_byPosition? placed
    have first : Delivery.Sound table command ⟨a, some s⟩ :=
      ⟨hm, nofun, fun _ hn => absurd hn hp⟩
    exact List.forall_mem_cons.mpr ⟨first, ih⟩

end Sound

namespace Delivery

variable {table : Table} {command : String} {a : Active} {d : Delivery} {ds : List Delivery}
  {h h' : Held}

-- What the first change does, and that the others are made behind it.
theorem exists_of_applyAll_cons (happly : applyAll (d :: ds) h = some h') :
    ∃ x, d.field.receive (h.slot d.field) d.value = some x ∧
      (d.change.once = true → d.field.index ∉ h.given) ∧
      applyAll ds (h.give d.field x) = some h' := by
  rw [applyAll_cons] at happly
  obtain ⟨mid, hmid, happly⟩ := Option.bind_eq_some_iff.mp happly
  obtain ⟨x, hx, rfl⟩ := Option.map_eq_some_iff.mp hmid
  rw [Change.value?] at hx
  split at hx
  · cases hx
  · next hn => exact ⟨x, hx, fun once given => hn ⟨once, given⟩, happly⟩

theorem mem_given_of_applyAll {i : Nat} (happly : applyAll ds h = some h') :
    i ∈ h'.given ↔ i ∈ h.given ∨ ∃ d ∈ ds, d.field.index = i := by
  induction ds generalizing h with
  | nil =>
    cases happly
    simp
  | cons d ds ih =>
    obtain ⟨x, -, -, happly⟩ := exists_of_applyAll_cons happly
    have first : i ∈ (h.give d.field x).given ↔ d.field.index = i ∨ i ∈ h.given := by
      rw [Held.give, Finset.mem_insert, eq_comm]
    rw [ih happly, first]
    simp only [List.mem_cons, exists_eq_or_imp, or_assoc, or_left_comm]

theorem getElem?_of_applyAll {i : Nat} (happly : applyAll ds h = some h')
    (others : ∀ d ∈ ds, d.field.index ≠ i) : h'.slots[i]? = h.slots[i]? := by
  induction ds generalizing h with
  | nil =>
    cases happly
    rfl
  | cons d ds ih =>
    obtain ⟨x, -, -, happly⟩ := exists_of_applyAll_cons happly
    obtain ⟨first, rest⟩ := List.forall_mem_cons.mp others
    rw [ih happly rest, Held.give, List.getElem?_set_ne first]

-- A field becomes what it makes of what it receives, whatever comes in between.
theorem foldlM_of_applyAll (happly : applyAll ds h = some h')
    (sound : ∀ d ∈ ds, d.Sound table command) (ha : a ∈ table.active command) {slot : Slot}
    (hslot : h.slots[a.index]? = some slot) :
    ∃ slot', h'.slots[a.index]? = some slot' ∧
      (received a ds).foldlM a.receive slot = some slot' := by
  induction ds generalizing h slot with
  | nil =>
    cases happly
    exact ⟨slot, hslot, rfl⟩
  | cons d ds ih =>
    obtain ⟨first, rest⟩ := List.forall_mem_cons.mp sound
    obtain ⟨x, hx, -, happly⟩ := exists_of_applyAll_cons happly
    by_cases he : d.field = a
    · obtain ⟨field, value⟩ := d
      cases he
      have here : h.slot field = slot := by rw [Held.slot, hslot, Option.getD_some]
      have there : (h.give field x).slots[field.index]? = some x := by
        obtain ⟨hlt, -⟩ := List.getElem?_eq_some_iff.mp hslot
        simp [Held.give, hlt]
      obtain ⟨slot', hs, hf⟩ := ih happly rest there
      refine ⟨slot', hs, ?_⟩
      rw [received_cons_self, List.foldlM_cons, ← here, hx]
      exact hf
    -- Two fields of a command that are not the same have slots of their own.
    · have hne : d.field.index ≠ a.index := fun hi => he (eq_of_index first.active ha hi)
      have same : (h.give d.field x).slots[a.index]? = some slot := by
        rw [Held.give, List.getElem?_set_ne hne, hslot]
      rw [received_cons_of_ne he]
      exact ih happly rest same

-- A field that takes one value receives no second one.
theorem length_received_of_once (happly : applyAll ds h = some h')
    (once : ∀ d ∈ ds, d.field = a → d.change.once = true) :
    (received a ds).length ≤ 1 ∧ (a.index ∈ h.given → received a ds = []) := by
  induction ds generalizing h with
  | nil => exact ⟨Nat.zero_le 1, fun _ => rfl⟩
  | cons d ds ih =>
    obtain ⟨first, rest⟩ := List.forall_mem_cons.mp once
    obtain ⟨x, -, hn, happly⟩ := exists_of_applyAll_cons happly
    obtain ⟨most, none⟩ := ih happly rest
    by_cases he : d.field = a
    · obtain ⟨field, value⟩ := d
      cases he
      have nothing : received field ds = [] := none (by simp [Held.give])
      rw [received_cons_self, nothing]
      exact ⟨le_rfl, fun given => absurd given (hn (first rfl))⟩
    · rw [received_cons_of_ne he]
      exact ⟨most, fun given => none (by simp [Held.give, given])⟩

end Delivery

end CommandShell.Binding
