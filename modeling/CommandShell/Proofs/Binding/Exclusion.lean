import CommandShell.Handler.Options
import Mathlib.Data.List.Pairwise

namespace CommandShell.Binding

-- Two claims on different keys, or for different commands.
def Claim.Apart (a b : Claim) : Prop := a.command = b.command → a.key ≠ b.key

-- Claims among which there is no conflict differ from one another and from those taken before.
theorem pairwise_of_firstConflict? {taken claims : List Claim} (ht : taken.Pairwise Claim.Apart)
    (h : firstConflict? taken claims = none) : (taken ++ claims).Pairwise Claim.Apart := by
  induction claims generalizing taken with
  | nil => simpa using ht
  | cons claim rest ih =>
    rw [firstConflict?] at h
    split at h
    · cases h
    · next hf =>
      have hnew : ∀ other ∈ taken, other.Apart claim := by
        intro other ho hc hk
        have hn := List.find?_eq_none.1 hf other ho
        simp [hc, hk] at hn
      have htaken : (taken ++ [claim]).Pairwise Claim.Apart :=
        List.pairwise_append.2 ⟨ht, List.pairwise_singleton _ _, by simpa using hnew⟩
      simpa using ih htaken h

-- A table that is built has no two fields with a claim on the same key for the same command.
theorem pairwise_of_build {declarations : List Declaration} {t : Table}
    (h : Table.build declarations = .ok t) :
    t.fields.Pairwise fun f g => ∀ a ∈ f.claims, ∀ b ∈ g.claims, a.Apart b := by
  rw [Table.build] at h
  cases hf : declarations.mapM Field.ofDeclaration with
  | error e =>
    rw [hf] at h
    cases h
  | ok fields =>
    rw [hf] at h
    simp only [Bind.bind, Except.bind] at h
    split at h
    · cases h
    · next hc =>
      cases h
      exact (List.pairwise_flatMap.1 (pairwise_of_firstConflict? .nil hc)).2

namespace FlagSet

variable {set : FlagSet}

-- The command under which the keys of a set are claimed that governs `command`.
def claimedFor (set : FlagSet) (command : String) : String :=
  if set.appliesTo command then command else "*"

theorem displayAlias_mem_keys {name : String} (h : name ∈ set.aliases) :
    displayAlias name ∈ set.keys :=
  List.mem_append_left _ (List.mem_map_of_mem h)

theorem position_mem_keys {p : Nat} (h : set.position = some p) :
    "#" ++ toString p ∈ set.keys := by
  simp [keys, h]

end FlagSet

namespace Field

variable {f : Field} {set : FlagSet} {command : String}

-- The set for a command is one of the field's own, and is for every command if it does not name
-- this one.
theorem of_setFor?_eq_some (h : f.setFor? command = some set) :
    set ∈ f.sets ∧ (set.appliesTo command = true ∨ set.isWildcard = true) := by
  rcases Option.or_eq_some_iff.1 h with hs | ⟨-, hs⟩
  · exact ⟨List.mem_of_find?_eq_some hs, .inl (by simpa using List.find?_some hs)⟩
  · exact ⟨List.mem_of_find?_eq_some hs, .inr (by simpa using List.find?_some hs)⟩

theorem claim_mem_claims (h : f.setFor? command = some set) {key : String} (hk : key ∈ set.keys) :
    ⟨set.claimedFor command, key, f.name⟩ ∈ f.claims := by
  obtain ⟨hs, ha⟩ := of_setFor?_eq_some h
  have hc : set.claimedFor command ∈ set.commands := by
    unfold FlagSet.claimedFor
    split
    · next hn => exact List.contains_iff_mem.1 hn
    · next hn => exact List.contains_iff_mem.1 (ha.resolve_left hn)
  exact List.mem_flatMap.2 ⟨set, hs, List.mem_flatMap.2 ⟨_, hc, List.mem_map.2 ⟨key, hk, rfl⟩⟩⟩

end Field

namespace Active

-- Two fields that a command can be given leave the options and positions of the other alone.
structure Exclusive (a b : Active) : Prop where
  aliases : ∀ name ∈ a.set.aliases, name ∉ b.set.aliases
  position : ∀ p, a.set.position = some p → b.set.position ≠ some p

theorem Exclusive.symm {a b : Active} (h : a.Exclusive b) : b.Exclusive a :=
  ⟨fun name hb ha => h.aliases name ha hb, fun p hb ha => h.position p ha hb⟩

-- Both fields are governed for the command in the same way: by name, or by the wildcard.
def LikeGoverned (command : String) (a b : Active) : Prop :=
  a.set.appliesTo command = b.set.appliesTo command

end Active

namespace Table

variable {t : Table} {command : String} {a : Active}

theorem setFor?_of_mem_activeFrom {index : Nat} {fields : List Field}
    (h : a ∈ activeFrom command index fields) :
    a.field ∈ fields ∧ a.field.setFor? command = some a.set := by
  induction fields generalizing index with
  | nil => cases h
  | cons f rest ih =>
    rw [activeFrom] at h
    split at h
    · next set hs =>
      rcases List.mem_cons.1 h with rfl | hm
      · exact ⟨List.mem_cons_self .., hs⟩
      · exact ⟨List.mem_cons_of_mem _ (ih hm).1, (ih hm).2⟩
    · exact ⟨List.mem_cons_of_mem _ (ih h).1, (ih h).2⟩

-- What holds between fields of a table holds between those that are active.
theorem pairwise_activeFrom {related : Field → Field → Prop} {fields : List Field} (index : Nat)
    (h : fields.Pairwise related) :
    (activeFrom command index fields).Pairwise fun a b => related a.field b.field := by
  induction h generalizing index with
  | nil => exact .nil
  | @cons f rest hf _ ih =>
    rw [activeFrom]
    split
    · exact .cons (fun b hb => hf _ (setFor?_of_mem_activeFrom hb).1) (ih (index + 1))
    · exact ih (index + 1)

theorem exclusive_of_claims {a b : Active} (ha : a.field.setFor? command = some a.set)
    (hb : b.field.setFor? command = some b.set)
    (h : ∀ x ∈ a.field.claims, ∀ y ∈ b.field.claims, x.Apart y) (hl : a.LikeGoverned command b) :
    a.Exclusive b := by
  have hsame : a.set.claimedFor command = b.set.claimedFor command := by
    rw [FlagSet.claimedFor, FlagSet.claimedFor, hl]
  have hkeys : ∀ key ∈ a.set.keys, key ∉ b.set.keys := fun key hka hkb =>
    h _ (Field.claim_mem_claims ha hka) _ (Field.claim_mem_claims hb hkb) hsame rfl
  exact ⟨fun name hn hm => hkeys _ (FlagSet.displayAlias_mem_keys hn)
      (FlagSet.displayAlias_mem_keys hm),
    fun p hp hq => hkeys _ (FlagSet.position_mem_keys hp) (FlagSet.position_mem_keys hq)⟩

theorem pairwise_exclusive {declarations : List Declaration}
    (h : Table.build declarations = .ok t) (command : String) :
    (t.active command).Pairwise fun a b => a.LikeGoverned command b → a.Exclusive b := by
  refine List.Pairwise.imp_of_mem ?_ (pairwise_activeFrom 0 (pairwise_of_build h))
  intro a b ha hb hclaims
  exact exclusive_of_claims (setFor?_of_mem_activeFrom ha).2 (setFor?_of_mem_activeFrom hb).2
    hclaims

-- Two active fields that are governed in the same way and share something are one.
theorem eq_of_shared {declarations : List Declaration} (h : Table.build declarations = .ok t)
    {a b : Active} (ha : a ∈ t.active command) (hb : b ∈ t.active command)
    (hl : a.LikeGoverned command b) (hn : ¬a.Exclusive b) : b = a := by
  by_contra hne
  have : Std.Symm fun a b : Active => a.LikeGoverned command b → a.Exclusive b :=
    ⟨fun x y hxy hyx => (hxy hyx.symm).symm⟩
  exact hn ((pairwise_exclusive h command).forall ha hb (Ne.symm hne) hl)

end Table

-- Among the fields that are active for a command, an option or a position belongs to no more than
-- one of those that the command is named for, and to no more than one of those that any command
-- has.  A field that is looked up by its option or its position is found unless one answers that is
-- governed in the other way.
theorem exclusive_of_build {declarations : List Declaration} {t : Table}
    (h : Table.build declarations = .ok t) (command : String) :
    ((t.active command).Pairwise fun a b => a.LikeGoverned command b → a.Exclusive b) ∧
    ∀ a ∈ t.active command,
      (∀ name ∈ a.set.aliases, ∃ b, t.byAlias? command name = some b ∧
        (b = a ∨ ¬a.LikeGoverned command b)) ∧
      ∀ p, a.set.position = some p → ∃ b, t.byPosition? command p = some b ∧
        (b = a ∨ ¬a.LikeGoverned command b) := by
  refine ⟨Table.pairwise_exclusive h command, fun a ha => ⟨fun name hn => ?_, fun p hp => ?_⟩⟩
  · cases hf : t.byAlias? command name with
    | none =>
      have hnone := List.find?_eq_none.1 hf a ha
      simp [hn] at hnone
    | some b =>
      have hb : b ∈ t.active command := List.mem_of_find?_eq_some hf
      have hname : name ∈ b.set.aliases := by simpa using List.find?_some hf
      refine ⟨b, rfl, ?_⟩
      by_cases hl : a.LikeGoverned command b
      · exact .inl (Table.eq_of_shared h ha hb hl fun he => he.aliases name hn hname)
      · exact .inr hl
  · cases hf : (t.active command).find? fun b => b.set.position = some p with
    | none =>
      have hnone := List.find?_eq_none.1 hf a ha
      simp [hp] at hnone
    | some b =>
      have hb : b ∈ t.active command := List.mem_of_find?_eq_some hf
      have hpos : b.set.position = some p := by simpa using List.find?_some hf
      refine ⟨b, by simp [Table.byPosition?, hf], ?_⟩
      by_cases hl : a.LikeGoverned command b
      · exact .inl (Table.eq_of_shared h ha hb hl fun he => he.position p hp hpos)
      · exact .inr hl

-- A field for every command and two for a command of their own, one of them with an option of the
-- first.
theorem exclusive_of_build_create :
    let declarations : List Declaration :=
      [⟨"a", Handler.textType, "*=x|k,#1"⟩, ⟨"b", Handler.textType, "create=x"⟩,
        ⟨"c", Handler.textType, "create|add=k,opt;*=c"⟩]
    ∃ t, Table.build declarations = .ok t ∧
      (t.active "create").map (fun a => (a.field.name, a.set.aliases)) =
        [("a", ["x", "k"]), ("b", ["x"]), ("c", ["k"])] ∧
      (t.active "create").Pairwise fun a b => a.LikeGoverned "create" b → a.Exclusive b := by
  intro declarations
  have hk : (Table.build declarations).toOption.map
      (fun t => (t.active "create").map fun a => (a.field.name, a.set.aliases)) =
        some [("a", ["x", "k"]), ("b", ["x"]), ("c", ["k"])] := by decide +kernel
  cases h : Table.build declarations with
  | error e =>
    rw [h] at hk
    cases hk
  | ok t =>
    rw [h] at hk
    exact ⟨t, rfl, Option.some.inj hk, (exclusive_of_build h "create").1⟩

-- A table is built though a field for every command and a field for one command have the same
-- option, and for that command the first of them answers to it.
theorem build_accepts_shared_option :
    let declarations : List Declaration :=
      [⟨"a", Handler.textType, "*=x"⟩, ⟨"b", Handler.textType, "create=x"⟩]
    ∃ t a b, Table.build declarations = .ok t ∧ t.active "create" = [a, b] ∧
      ¬a.Exclusive b ∧ t.byAlias? "create" "x" = some a := by
  intro declarations
  let a : Active := ⟨0, ⟨"a", Handler.textType, [{ commands := ["*"], aliases := ["x"] }]⟩,
    { commands := ["*"], aliases := ["x"] }⟩
  let b : Active := ⟨1, ⟨"b", Handler.textType, [{ commands := ["create"], aliases := ["x"] }]⟩,
    { commands := ["create"], aliases := ["x"] }⟩
  have hk : (Table.build declarations).toOption = some ⟨[a.field, b.field]⟩ := by decide +kernel
  refine ⟨⟨[a.field, b.field]⟩, a, b, ?_, by decide, ?_, by decide⟩
  · cases h : Table.build declarations with
    | error e =>
      rw [h] at hk
      cases hk
    | ok t =>
      rw [h] at hk
      exact congrArg _ (Option.some.inj hk)
  · intro he
    exact he.aliases "x" (by decide) (by decide)

end CommandShell.Binding
