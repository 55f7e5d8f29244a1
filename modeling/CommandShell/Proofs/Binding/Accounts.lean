import CommandShell.Proofs.Binding.Deliveries

namespace CommandShell.Binding

open Script (Token TokenKind)

-- How many values a slot is for.
def Slot.arity : Slot → Arity
  | one _ => .one
  | optional _ => .optional
  | many _ => .many

-- A field that holds one value, this one.
def FieldType.holding (t : FieldType) (v : Scalar) : Slot :=
  match t.arity with
  | .one => .one v
  | .optional => .optional (some v)
  | .many => .many [v]

-- What a slot becomes of one more value.
def Slot.put (slot : Slot) (v : Scalar) : Slot :=
  match slot with
  | one _ => .one v
  | optional _ => .optional (some v)
  | many vs => .many (vs ++ [v])

section Receive

variable {a : Active} {slot slot' : Slot}

theorem Slot.exists_of_assign {t : ScalarType} {s : String} (h : slot.assign t s = .ok slot') :
    ∃ v, t.coerce s = .ok v ∧ slot' = slot.put v := by
  rw [assign] at h
  cases hv : t.coerce s with
  | error e =>
    rw [hv] at h
    cases h
  | ok v =>
    rw [hv] at h
    exact ⟨v, rfl, (Except.ok.inj h).symm⟩

theorem Slot.exists_of_increment {t : ScalarType} (h : slot.increment t = .ok slot') :
    ∃ signed width n, t = .integer signed width ∧ slot = .one (.integer n) ∧
      n < maxInteger signed width ∧ slot' = .one (.integer (n + 1)) := by
  unfold increment at h
  split at h
  · next n signed width =>
    split at h
    · next hn => exact ⟨signed, width, n, rfl, rfl, hn, (Except.ok.inj h).symm⟩
    · cases h
  · cases h

theorem eq_ok_of_toOption {ε α : Type} {x : Except ε α} {y : α} (h : x.toOption = some y) :
    x = .ok y := by
  cases x with
  | error e => cases h
  | ok z => exact congrArg Except.ok (Option.some.inj h)

-- Values go to the end of a list one by one, and nothing else can be done to it.
theorem exists_of_foldlM_many {values : List (Option String)} {old : List Scalar}
    (h : values.foldlM a.receive (.many old) = some slot') :
    ∃ texts new, values = texts.map some ∧
      List.Forall₂ (fun s v => a.field.type.scalar.coerce s = .ok v) texts new ∧
      slot' = .many (old ++ new) := by
  induction values generalizing old with
  | nil =>
    cases h
    exact ⟨[], [], rfl, .nil, by rw [List.append_nil]⟩
  | cons value values ih =>
    rw [List.foldlM_cons] at h
    obtain ⟨mid, hmid, h⟩ := Option.bind_eq_some_iff.mp h
    cases value with
    | none =>
      have raised := eq_ok_of_toOption hmid
      split at raised <;> cases raised
    | some s =>
      have stored := eq_ok_of_toOption hmid
      obtain ⟨v, hv, rfl⟩ := Slot.exists_of_assign stored
      obtain ⟨texts, new, rfl, each, rfl⟩ := ih h
      exact ⟨s :: texts, v :: new, rfl, .cons hv each, by simp⟩

-- A field that counts goes up by one each time, and never above the greatest number of its type.
theorem of_foldlM_count (hc : a.set.counting = true) {signed : Bool} {width : Width}
    (ht : a.field.type.scalar = .integer signed width) {times : Nat} {n : Int}
    (hn : n ≤ maxInteger signed width)
    (h : (List.replicate times none).foldlM a.receive (.one (.integer n)) = some slot') :
    n + times ≤ maxInteger signed width ∧ slot' = .one (.integer (n + times)) := by
  induction times generalizing n with
  | zero =>
    cases h
    exact ⟨by omega, by simp⟩
  | succ times ih =>
    rw [List.replicate_succ, List.foldlM_cons] at h
    obtain ⟨mid, hmid, h⟩ := Option.bind_eq_some_iff.mp h
    have counted := eq_ok_of_toOption hmid
    rw [if_pos hc, ht] at counted
    obtain ⟨signed', width', n', htype, hslot, hlt, rfl⟩ := Slot.exists_of_increment counted
    cases htype
    cases hslot
    obtain ⟨most, rfl⟩ := ih (by omega) h
    refine ⟨by omega, ?_⟩
    rw [Int.natCast_succ, Int.add_assoc, Int.add_comm 1]

end Receive

-- The required fields that nothing was brought to, in the order of the table.
def lacking (table : Table) (command : String) (ds : List Delivery) : List Active :=
  (table.active command).filter fun a => !a.isOptional && (received a ds).isEmpty

-- What is reported of fields that are missing: the first one without a position or, if all have
-- one, the least position.
inductive Omits : List Active → BindCause → Prop where
  | option {before behind : List Active} {a : Active}
      (positions : ∀ b ∈ before, b.set.position ≠ none) (here : a.set.position = none) :
      Omits (before ++ a :: behind) (.missingOption a.set.display)
  | argument {missing : List Active} {a : Active} {p : Nat}
      (positions : ∀ b ∈ missing, b.set.position ≠ none) (mem : a ∈ missing)
      (here : a.set.position = some p) (least : ∀ b ∈ missing, ∀ q ∈ b.set.position, p ≤ q) :
      Omits missing (.missingArgument p)

theorem exists_omits {missing : List Active} (h : missing ≠ []) :
    ∃ cause, Omits missing cause ∧
      (match missing.find? fun a => a.set.position.isNone with
        | some a => some (BindError.mk (.missingOption a.set.display) none)
        | none => (missing.filterMap (·.set.position)).min?.map fun p =>
            ⟨.missingArgument p, none⟩) = some ⟨cause, none⟩ := by
  cases hf : missing.find? fun a => a.set.position.isNone with
  | some a =>
    obtain ⟨here, before, behind, rfl, positions⟩ := List.find?_eq_some_iff_append.mp hf
    refine ⟨_, .option (fun b hb => ?_) (by simpa using here), rfl⟩
    exact Option.isSome_iff_ne_none.mp (by simpa using positions b hb)
  | none =>
    have positions : ∀ b ∈ missing, b.set.position ≠ none := by
      simpa using hf
    cases hm : (missing.filterMap (·.set.position)).min? with
    | none =>
      obtain ⟨a, rest, rfl⟩ := List.exists_cons_of_ne_nil h
      have nothing := List.filterMap_eq_nil_iff.mp (List.min?_eq_none_iff.mp hm)
      exact absurd (nothing a List.mem_cons_self) (positions a List.mem_cons_self)
    | some p =>
      obtain ⟨mem, least⟩ := List.min?_eq_some_iff.mp hm
      obtain ⟨a, ha, here⟩ := List.mem_filterMap.mp mem
      refine ⟨_, .argument positions ha here fun b hb q hq => ?_, rfl⟩
      exact least q (List.mem_filterMap.mpr ⟨b, hb, hq⟩)

theorem Filling.omission?_of_given {f : Filling} {table : Table} {command : String}
    {ds : List Delivery}
    (given : ∀ a ∈ table.active command, a.index ∈ f.given ↔ received a ds ≠ []) :
    (lacking table command ds = [] → f.omission? table command = none) ∧
      (lacking table command ds ≠ [] → ∃ cause, Omits (lacking table command ds) cause ∧
        f.omission? table command = some ⟨cause, none⟩) := by
  have same : ((table.active command).filter fun a =>
      !(f.given.contains a.index || a.isOptional)) = lacking table command ds := by
    refine List.filter_congr fun a ha => ?_
    have decided : f.given.contains a.index = !(received a ds).isEmpty := by
      rw [Bool.eq_iff_iff, List.contains_iff_mem, given a ha]
      simp
    rw [decided, Bool.not_or, Bool.not_not, Bool.and_comm]
  rw [omission?, same]
  refine ⟨fun hn => by rw [hn]; rfl, exists_omits⟩

-- The values of a table's fields, each for as many as its field takes.
def Fits (table : Table) (slots : List Slot) : Prop :=
  slots.map Slot.arity = table.fields.map (·.type.arity)

theorem fits_initial (table : Table) : Fits table table.initial := by
  rw [Fits, Table.initial, List.map_map]
  refine List.map_congr_left fun f _ => ?_
  rw [Function.comp_apply, FieldType.initial]
  cases f.type.arity <;> rfl

-- How the values behind a binding come from those before it and from what was brought.
structure Accounts (table : Table) (command : String) (slots : List Slot) (ds : List Delivery)
    (bound : List Slot) : Prop where
  required : ∀ a ∈ table.active command, a.isOptional = false → received a ds ≠ []
  single : ∀ a ∈ table.active command, a.shape = .scalar → a.set.counting = false →
    received a ds = [] ∨ ∃ s v, received a ds = [some s] ∧
      a.field.type.scalar.coerce s = .ok v ∧ bound[a.index]? = some (a.field.type.holding v)
  several : ∀ a ∈ table.active command, a.shape = .list →
    ∃ texts old new, received a ds = texts.map some ∧ slots[a.index]? = some (.many old) ∧
      List.Forall₂ (fun s v => a.field.type.scalar.coerce s = .ok v) texts new ∧
      bound[a.index]? = some (.many (old ++ new))
  counted : ∀ a ∈ table.active command, a.set.counting = true → a.set.position = none →
    ∃ times, received a ds = List.replicate times none ∧ (times = 0 ∨ ∃ signed width n,
      a.field.type.scalar = .integer signed width ∧ slots[a.index]? = some (.one (.integer n)) ∧
      n + times ≤ maxInteger signed width ∧ bound[a.index]? = some (.one (.integer (n + times))))
  unchanged : ∀ i, (∀ a ∈ table.active command, a.index = i → received a ds = []) →
    bound[i]? = slots[i]?

section Accounting

variable {table : Table} {command : String} {slots : List Slot} {ds : List Delivery} {h' : Held}
  {a : Active}

theorem Fits.exists_slot (fits : Fits table slots) (ha : a ∈ table.active command) :
    ∃ slot, slots[a.index]? = some slot ∧ slot.arity = a.field.type.arity := by
  have same := congrArg (·[a.index]?) fits
  simp only [List.getElem?_map, Table.getElem?_of_mem_active ha, Option.map_some] at same
  exact Option.map_eq_some_iff.mp same

-- A field of the command has a value of its arity, which becomes what is made of it.
theorem exists_foldlM_of_applyAll (fits : Fits table slots)
    (happly : Delivery.applyAll ds ⟨slots, ∅⟩ = some h')
    (sound : ∀ d ∈ ds, d.Sound table command) (ha : a ∈ table.active command) :
    ∃ slot slot', slots[a.index]? = some slot ∧ slot.arity = a.field.type.arity ∧
      h'.slots[a.index]? = some slot' ∧ (received a ds).foldlM a.receive slot = some slot' := by
  obtain ⟨slot, hslot, harity⟩ := fits.exists_slot ha
  obtain ⟨slot', hslot', hfold⟩ := Delivery.foldlM_of_applyAll happly sound ha hslot
  exact ⟨slot, slot', hslot, harity, hslot', hfold⟩

theorem single_of_applyAll (fits : Fits table slots)
    (happly : Delivery.applyAll ds ⟨slots, ∅⟩ = some h')
    (sound : ∀ d ∈ ds, d.Sound table command) (ha : a ∈ table.active command)
    (hs : a.shape = .scalar) (hc : a.set.counting = false) :
    received a ds = [] ∨ ∃ s v, received a ds = [some s] ∧
      a.field.type.scalar.coerce s = .ok v ∧
      h'.slots[a.index]? = some (a.field.type.holding v) := by
  have takes : a.standsAlone = false := by simp [Active.standsAlone, hs, hc]
  have valued : ∀ d ∈ ds, d.field = a → d.value ≠ none := by
    rintro d hd rfl hn
    exact Bool.false_ne_true (takes.symm.trans ((sound d hd).stands hn))
  have once : ∀ d ∈ ds, d.field = a → d.change.once = true := by
    intro d hd he
    have hv := Option.isSome_iff_ne_none.mpr (valued d hd he)
    simp [Delivery.change, hv, he, hs]
  -- So it is nothing that the field receives, or a single value.
  obtain ⟨most, -⟩ := Delivery.length_received_of_once happly once
  obtain ⟨slot, slot', hslot, harity, hslot', hfold⟩ :=
    exists_foldlM_of_applyAll fits happly sound ha
  rcases Nat.le_one_iff_eq_zero_or_eq_one.mp most with hlen | hlen
  · exact .inl (List.eq_nil_of_length_eq_zero hlen)
  obtain ⟨value, hr⟩ := List.length_eq_one_iff.mp hlen
  have hm : value ∈ received a ds := hr ▸ List.mem_cons_self
  obtain ⟨s, rfl⟩ := Option.ne_none_iff_exists'.mp (valued _ (mem_received.mp hm) rfl)
  rw [hr, List.foldlM_cons] at hfold
  obtain ⟨mid, hmid, hfold⟩ := Option.bind_eq_some_iff.mp hfold
  cases hfold
  obtain ⟨v, hv, rfl⟩ := Slot.exists_of_assign (eq_ok_of_toOption hmid)
  refine .inr ⟨s, v, hr, hv, hslot'.trans (congrArg some ?_)⟩
  rw [FieldType.holding, ← harity]
  cases slot with
  | one _ | optional _ => rfl
  | many vs =>
    rw [Active.shape, FieldType.shape, ← harity] at hs
    cases hs

theorem several_of_applyAll (fits : Fits table slots)
    (happly : Delivery.applyAll ds ⟨slots, ∅⟩ = some h')
    (sound : ∀ d ∈ ds, d.Sound table command) (ha : a ∈ table.active command)
    (hs : a.shape = .list) :
    ∃ texts old new, received a ds = texts.map some ∧ slots[a.index]? = some (.many old) ∧
      List.Forall₂ (fun s v => a.field.type.scalar.coerce s = .ok v) texts new ∧
      h'.slots[a.index]? = some (.many (old ++ new)) := by
  obtain ⟨slot, slot', hslot, harity, hslot', hfold⟩ :=
    exists_foldlM_of_applyAll fits happly sound ha
  have many : a.field.type.arity = .many := by
    rw [Active.shape, FieldType.shape] at hs
    split at hs
    · cases hs
    · next h => exact h
    · cases hs
  cases slot with
  | one _ | optional _ => cases harity.trans many
  | many old =>
    obtain ⟨texts, new, hr, each, rfl⟩ := exists_of_foldlM_many hfold
    exact ⟨texts, old, new, hr, hslot, each, hslot'⟩

theorem counted_of_applyAll (fits : Fits table slots)
    (happly : Delivery.applyAll ds ⟨slots, ∅⟩ = some h')
    (sound : ∀ d ∈ ds, d.Sound table command) (ha : a ∈ table.active command)
    (hc : a.set.counting = true) (hp : a.set.position = none) :
    ∃ times, received a ds = List.replicate times none ∧ (times = 0 ∨ ∃ signed width n,
      a.field.type.scalar = .integer signed width ∧ slots[a.index]? = some (.one (.integer n)) ∧
      n + times ≤ maxInteger signed width ∧
      h'.slots[a.index]? = some (.one (.integer (n + times)))) := by
  have alone : ∀ value ∈ received a ds, value = none := fun value hm =>
    (sound _ (mem_received.mp hm)).counts hc hp
  have hr := List.eq_replicate_iff.mpr ⟨rfl, alone⟩
  refine ⟨_, hr, ?_⟩
  obtain ⟨slot, slot', hslot, -, hslot', hfold⟩ :=
    exists_foldlM_of_applyAll fits happly sound ha
  cases hk : (received a ds).length with
  | zero => exact .inl rfl
  | succ times =>
    -- The first time it counts shows what there was, and that it is below the greatest number.
    have first := hfold
    rw [hr, hk, List.replicate_succ, List.foldlM_cons] at first
    obtain ⟨mid, hmid, -⟩ := Option.bind_eq_some_iff.mp first
    have counted := eq_ok_of_toOption hmid
    rw [if_pos hc] at counted
    obtain ⟨signed, width, n, htype, rfl, hlt, -⟩ := Slot.exists_of_increment counted
    rw [hr, hk] at hfold
    obtain ⟨most, rfl⟩ := of_foldlM_count hc htype hlt.le hfold
    exact .inr ⟨signed, width, n, htype, hslot, most, hslot'⟩

theorem unchanged_of_applyAll (happly : Delivery.applyAll ds ⟨slots, ∅⟩ = some h')
    (sound : ∀ d ∈ ds, d.Sound table command) {i : Nat}
    (nothing : ∀ a ∈ table.active command, a.index = i → received a ds = []) :
    h'.slots[i]? = slots[i]? := by
  refine Delivery.getElem?_of_applyAll happly fun d hd hi => ?_
  exact received_eq_nil_iff.mp (nothing d.field (sound d hd).active hi) d hd rfl

theorem accounts_of_applyAll (fits : Fits table slots)
    (happly : Delivery.applyAll ds ⟨slots, ∅⟩ = some h')
    (sound : ∀ d ∈ ds, d.Sound table command) (all : lacking table command ds = []) :
    Accounts table command slots ds h'.slots where
  required a ha optional hn := by
    have missing : a ∈ lacking table command ds :=
      List.mem_filter.mpr ⟨ha, by simp [optional, hn]⟩
    rw [all] at missing
    cases missing
  single _ ha := single_of_applyAll fits happly sound ha
  several _ ha := several_of_applyAll fits happly sound ha
  counted _ ha := counted_of_applyAll fits happly sound ha
  unchanged _ := unchanged_of_applyAll happly sound

theorem mem_given_iff_of_applyAll (happly : Delivery.applyAll ds ⟨slots, ∅⟩ = some h')
    (sound : ∀ d ∈ ds, d.Sound table command) (ha : a ∈ table.active command) :
    a.index ∈ h'.given ↔ received a ds ≠ [] := by
  rw [Delivery.mem_given_of_applyAll happly, ne_eq, received_eq_nil_iff, not_forall₂]
  simp only [Finset.notMem_empty, false_or, exists_prop, not_not]
  constructor
  · rintro ⟨d, hd, hi⟩
    exact ⟨d, hd, eq_of_index (sound d hd).active ha hi⟩
  · rintro ⟨d, hd, rfl⟩
    exact ⟨d, hd, rfl⟩

end Accounting

-- The group number before the first argument.
def Args.base (args : Args) : Nat := (args.tokens.head?.map (·.group - 1)).getD 0

section Binding

variable {table : Table} {command : String} {interpolate : Interpolation} {args : Args}
  {slots bound : List Slot} {f : Filling}

theorem exists_delivers_of_run
    (h : Binder.run table command interpolate ⟨⟨slots, []⟩, args.base, true⟩ args.first
      args.tokens = (f, none)) :
    ∃ ds, (∀ ds', Delivers table command interpolate args.base args.tokens ds' ↔ ds' = ds) ∧
      (∀ d ∈ ds, d.Sound table command) ∧ Delivery.applyAll ds ⟨slots, ∅⟩ = some f.held ∧
      ∀ a ∈ table.active command, a.index ∈ f.given ↔ received a ds ≠ [] := by
  obtain ⟨ds, brought, happly⟩ := exists_delivers h
  have sound := brought.sound
  refine ⟨ds, fun ds' => ⟨brought.unique, fun he => he ▸ brought⟩, sound, happly, ?_⟩
  intro a ha
  rw [← mem_given_iff_of_applyAll happly sound ha, Filling.held, List.mem_toFinset]

theorem bindFrom_of_run
    (h : Binder.run table command interpolate ⟨⟨slots, []⟩, args.base, true⟩ args.first
      args.tokens = (f, none)) :
    bindFrom slots table command args interpolate =
      match f.omission? table command with
      | some e => .error e
      | none => .ok f.slots := by
  rw [Args.base] at h
  rw [bindFrom, bindOnto]
  simp only [h, Filling.close]
  cases f.omission? table command <;> rfl

theorem exists_run_of_bindFrom (h : bindFrom slots table command args interpolate = .ok bound) :
    ∃ f, Binder.run table command interpolate ⟨⟨slots, []⟩, args.base, true⟩ args.first
      args.tokens = (f, none) ∧ f.omission? table command = none ∧ f.slots = bound := by
  cases hr : Binder.run table command interpolate ⟨⟨slots, []⟩, args.base, true⟩ args.first
    args.tokens with
  | mk f e =>
    rw [bindFrom, bindOnto, ← Args.base] at h
    simp only [hr] at h
    cases e with
    | some e => cases h
    | none =>
      refine ⟨f, rfl, ?_⟩
      rw [Filling.close] at h
      cases ho : f.omission? table command with
      | some e =>
        rw [ho] at h
        cases h
      | none =>
        rw [ho] at h
        exact ⟨rfl, Except.ok.inj h⟩

-- Every argument brings something to one field, and what a field is in the end comes from what it
-- was before and from what was brought to it.  If all arguments were taken and nothing is missing,
-- the binding succeeds; else it fails with the omission.
theorem bindFrom_accounts (fits : Fits table slots) (command : String) (args : Args)
    (interpolate : Interpolation) :
    let brings (ds : List Delivery) : Prop :=
      ∀ ds', Delivers table command interpolate args.base args.tokens ds' ↔ ds' = ds
    let start : Binder := ⟨⟨slots, []⟩, args.base, true⟩
    (∀ bound, bindFrom slots table command args interpolate = .ok bound →
      ∃ ds, brings ds ∧ Accounts table command slots ds bound) ∧
    ∀ f, start.run table command interpolate args.first args.tokens = (f, none) →
      ∃ ds, brings ds ∧
        (lacking table command ds = [] →
          bindFrom slots table command args interpolate = .ok f.slots) ∧
        (lacking table command ds ≠ [] → ∃ cause, Omits (lacking table command ds) cause ∧
          bindFrom slots table command args interpolate = .error ⟨cause, none⟩) := by
  constructor
  · intro bound h
    obtain ⟨f, hr, ho, rfl⟩ := exists_run_of_bindFrom h
    obtain ⟨ds, brought, sound, happly, given⟩ := exists_delivers_of_run hr
    refine ⟨ds, brought, accounts_of_applyAll fits happly sound ?_⟩
    by_contra hne
    obtain ⟨cause, -, hc⟩ := (Filling.omission?_of_given given).2 hne
    cases ho.symm.trans hc
  · intro f hr
    obtain ⟨ds, brought, -, -, given⟩ := exists_delivers_of_run hr
    obtain ⟨complete, missing⟩ := Filling.omission?_of_given given
    rw [bindFrom_of_run hr]
    refine ⟨ds, brought, fun hn => by rw [complete hn], fun hn => ?_⟩
    obtain ⟨cause, omits, hc⟩ := missing hn
    exact ⟨cause, omits, by rw [hc]⟩

end Binding

-- A counter and a list that are not empty before, a word of two pieces, and a field of another
-- command; then an option alone, behind which both positions are missing.
theorem bindFrom_accounts_copy :
    let count : FlagSet := { commands := ["*"], aliases := ["v"], counting := true }
    let tag : FlagSet := { commands := ["*"], aliases := ["t"], optional := true }
    let first : FlagSet := { commands := ["*"], position := some 1 }
    let second : FlagSet := { commands := ["copy"], aliases := ["to"], position := some 2 }
    let verbose : Field := ⟨"verbose", ⟨.one, .integer false .bits8⟩, [count]⟩
    let tags : Field := ⟨"tags", ⟨.many, .text⟩, [tag]⟩
    let source : Field := ⟨"source", ⟨.one, .text⟩, [first]⟩
    let target : Field := ⟨"target", ⟨.optional, .path⟩, [second]⟩
    let order : Field :=
      ⟨"order", ⟨.one, .text⟩, [{ commands := ["sort"], aliases := ["by"] }]⟩
    let table : Table := ⟨[verbose, tags, source, target, order]⟩
    let token (kind : TokenKind) (text : String) (start stop group : Nat) : Token :=
      ⟨kind, text, ⟨start, stop⟩, 1, group, none⟩
    let v (start group : Nat) := token .option "-v" start (start + 2) group
    let args : Args := ⟨[v 5 2, token .option "-t" 8 10 3, token .bareArgument "a" 11 12 4,
      token .bareArgument "s" 13 14 5, token .singleQuoted "rc" 14 18 5, v 19 6,
      token .bareArgument "d" 22 23 7], 1⟩
    let less : Args := ⟨[v 5 2], 1⟩
    let old : List Slot := [.one (.integer 3), .many [.text "x"], .one (.text ""), .optional none,
      .one (.text "name")]
    let bound : List Slot := [.one (.integer 5), .many [.text "x", .text "a"], .one (.text "src"),
      .optional (some (.text "d")), .one (.text "name")]
    let counted : Delivery := ⟨⟨0, verbose, count⟩, none⟩
    let ds : List Delivery := [counted, ⟨⟨1, tags, tag⟩, some "a"⟩,
      ⟨⟨2, source, first⟩, some "src"⟩, counted, ⟨⟨3, target, second⟩, some "d"⟩]
    Fits table old ∧ bindFrom old table "copy" args .ok = .ok bound ∧
      Delivers table "copy" .ok args.base args.tokens ds ∧ Accounts table "copy" old ds bound ∧
      Delivers table "copy" .ok less.base less.tokens [counted] ∧
      Omits (lacking table "copy" [counted]) (.missingArgument 1) ∧
      bindFrom old table "copy" less .ok = .error ⟨.missingArgument 1, none⟩ := by
  intro count tag first second verbose tags source target order table token v args less old bound
    counted ds
  have fits : Fits table old := rfl
  have named : table.byOption? "copy" "-v" = some counted.field := by decide +kernel
  have brought : Delivers table "copy" .ok args.base args.tokens ds := by
    refine .alone rfl named rfl (.valued rfl ?_ rfl rfl ?_ (.word rfl ?_ ?_ (.alone rfl named rfl
      (.word rfl ?_ ?_ .nil)))) <;> decide +kernel
  have alone : Delivers table "copy" .ok less.base less.tokens [counted] :=
    .alone rfl named rfl .nil
  have hbound : bindFrom old table "copy" args .ok = .ok bound := by decide +kernel
  have fails : bindFrom old table "copy" less .ok = .error ⟨.missingArgument 1, none⟩ := by
    decide +kernel
  have accounts : Accounts table "copy" old ds bound := by
    obtain ⟨_, brings, accounts⟩ := (bindFrom_accounts fits "copy" args .ok).1 bound hbound
    rw [(brings ds).mp brought]
    exact accounts
  have omits : Omits (lacking table "copy" [counted]) (.missingArgument 1) := by
    let start : Binder := ⟨⟨old, []⟩, less.base, true⟩
    let f : Filling := (start.run table "copy" .ok less.first less.tokens).1
    have taken : (start.run table "copy" .ok less.first less.tokens).2 = none := by decide +kernel
    obtain ⟨_, brings, -, missing⟩ :=
      (bindFrom_accounts fits "copy" less .ok).2 f (Prod.ext rfl taken)
    cases (brings [counted]).mp alone
    obtain ⟨cause, omits, he⟩ := missing (by decide +kernel)
    cases fails.symm.trans he
    exact omits
  exact ⟨fits, hbound, brought, accounts, alone, omits, fails⟩

end CommandShell.Binding
