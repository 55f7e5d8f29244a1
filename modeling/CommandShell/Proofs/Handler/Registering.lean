import CommandShell.Handler.Registry
import Mathlib.Data.List.Induction
import Mathlib.Data.List.Sort
import Mathlib.Data.String.Basic

namespace CommandShell.Handler

namespace Live

variable {live : Live} {key other : Kind × String} {id : Nat}

theorem get?_put :
    (live.put key id).get? other = if key = other then some id else live.get? other := by
  induction live with
  | nil => rfl
  | cons first rest ih =>
    obtain ⟨k, old⟩ := first
    rw [put]
    split
    · next hk =>
      subst hk
      rw [get?, get?]
      split <;> rfl
    · next hk =>
      rw [get?, ih, get?]
      by_cases he : k = other
      · rw [if_pos he, if_pos he, if_neg fun h => hk (he.trans h.symm)]
      · rw [if_neg he, if_neg he]

theorem mem_of_get? (h : live.get? key = some id) : (key, id) ∈ live := by
  induction live with
  | nil => cases h
  | cons first rest ih =>
    obtain ⟨k, old⟩ := first
    rw [get?] at h
    split at h
    · next hk =>
      cases h
      exact hk ▸ List.mem_cons_self ..
    · exact List.mem_cons_of_mem _ (ih h)

theorem isSome_get?_iff : (live.get? key).isSome = true ↔ key ∈ live.map (·.1) := by
  induction live with
  | nil => simp [get?]
  | cons first rest ih =>
    obtain ⟨k, old⟩ := first
    rw [get?, List.map_cons, List.mem_cons]
    split
    · next hk => exact iff_of_true rfl (.inl hk.symm)
    · next hk => exact ih.trans (or_iff_right fun he => hk he.symm).symm

end Live

namespace Registry

variable {η : Kind → Type} {r : Registry η} {kind other : Kind} {name called group : String}
  {handler : η kind}

-- Every name that counts leads to its descriptor, and that one to a handler of its kind.
theorem exists_of_get? {id : Nat} (h : r.live.get? (kind, name) = some id) :
    ∃ d, r.registrations[id]? = some d ∧ d.kind = kind ∧ d.name = name ∧
      d.index < (r.table kind).length := by
  obtain ⟨d, hd, hk, hi⟩ := r.placed _ (Live.mem_of_get? h)
  obtain ⟨rfl, rfl⟩ := Prod.mk.inj hk
  exact ⟨d, hd, rfl, rfl, hi⟩

theorem lookup?_eq_none_iff : r.lookup? kind name = none ↔ r.live.get? (kind, name) = none := by
  rw [lookup?]
  cases h : r.live.get? (kind, name) with
  | none => exact iff_of_true rfl rfl
  | some id =>
    obtain ⟨d, hd, -⟩ := exists_of_get? h
    simp [hd]

theorem of_lookup? {d : Descriptor} (h : r.lookup? kind name = some d) :
    d.kind = kind ∧ d.name = name ∧ d.index < (r.table kind).length := by
  obtain ⟨id, hid, hd⟩ := Option.bind_eq_some_iff.1 h
  obtain ⟨d', hd', hrest⟩ := exists_of_get? hid
  obtain rfl := Option.some.inj (hd.symm.trans hd')
  exact hrest

theorem mem_table_of_handler? (h : r.handler? kind name = some handler) :
    handler ∈ r.table kind := by
  obtain ⟨d, -, hd⟩ := Option.bind_eq_some_iff.1 h
  exact List.mem_of_getElem? hd

-- A handler is there for every name that counts.
theorem handler?_eq_none_iff : r.handler? kind name = none ↔ r.lookup? kind name = none := by
  rw [handler?]
  cases h : r.lookup? kind name with
  | none => exact iff_of_true rfl rfl
  | some d =>
    obtain ⟨-, -, hi⟩ := of_lookup? h
    simp [hi]

section Names

theorem names_perm (r : Registry η) (kind : Kind) :
    (r.names kind).Perm (((r.live.map (·.1)).filter (·.1 = kind)).map (·.2)) := by
  rw [List.filter_map, List.map_map]
  exact List.mergeSort_perm _ _

theorem mem_names : name ∈ r.names kind ↔ (r.live.get? (kind, name)).isSome = true := by
  rw [(r.names_perm kind).mem_iff, Live.isSome_get?_iff]
  simp

-- The names of a kind are sorted, without a repetition.
theorem pairwise_names (r : Registry η) (kind : Kind) : (r.names kind).Pairwise (· < ·) := by
  have hsorted : (r.names kind).Pairwise (· ≤ ·) := by
    rw [names]
    simpa using List.pairwise_mergeSort' (· ≤ ·) ((r.live.filter (·.1.1 = kind)).map (·.1.2))
  have hnodup : (r.names kind).Nodup := by
    rw [(r.names_perm kind).nodup_iff]
    refine List.Nodup.map_on (fun x hx y hy h => ?_) (r.distinct.filter _)
    have hkind := (List.mem_filter.1 hx).2
    have hkind' := (List.mem_filter.1 hy).2
    simp only [decide_eq_true_eq] at hkind hkind'
    exact Prod.ext (hkind.trans hkind'.symm) h
  exact hsorted.imp₂ (fun _ _ => lt_of_le_of_ne) hnodup

-- Listed are exactly the names that a handler is found for.
theorem isSome_handler?_iff : (r.handler? kind name).isSome = true ↔ name ∈ r.names kind := by
  rw [mem_names, ← not_iff_not, Bool.not_eq_true, Bool.not_eq_true, Option.isSome_eq_false_iff,
    Option.isSome_eq_false_iff, Option.isNone_iff_eq_none, Option.isNone_iff_eq_none,
    handler?_eq_none_iff, lookup?_eq_none_iff]

end Names

section Add

theorem lookup?_add_self :
    (r.add kind name group handler).lookup? kind name =
      some ⟨name, group, kind, (r.table kind).length⟩ := by
  simp [lookup?, add, Live.get?_put]

-- What is registered for another kind or under another name is found as before.
theorem lookup?_add_of_ne (h : ¬(kind = other ∧ name = called)) :
    (r.add kind name group handler).lookup? other called = r.lookup? other called := by
  have hkey : (kind, name) ≠ (other, called) := fun he => h (Prod.mk.inj he)
  simp only [lookup?, add, Live.get?_put, if_neg hkey]
  cases hg : r.live.get? (other, called) with
  | none => rfl
  | some id =>
    obtain ⟨d, hd, -⟩ := exists_of_get? hg
    exact List.getElem?_append_left (List.getElem?_eq_some_iff.1 hd).1

theorem handler?_add_self :
    (r.add kind name group handler).handler? kind name = some handler := by
  rw [handler?, lookup?_add_self]
  show (push r.table kind handler kind)[(r.table kind).length]? = some handler
  rw [push_self, List.getElem?_concat_length]

theorem handler?_add_of_ne (h : ¬(kind = other ∧ name = called)) :
    (r.add kind name group handler).handler? other called = r.handler? other called := by
  rw [handler?, lookup?_add_of_ne h, handler?]
  cases hl : r.lookup? other called with
  | none => rfl
  | some d =>
    obtain ⟨later, hlater⟩ := prefix_push r.table kind handler other
    show (push r.table kind handler other)[d.index]? = _
    rw [← hlater]
    exact List.getElem?_append_left (of_lookup? hl).2.2

theorem length_table_add :
    ((r.add kind name group handler).table other).length =
      (r.table other).length + if kind = other then 1 else 0 := by
  show (push r.table kind handler other).length = _
  by_cases hk : kind = other
  · cases hk
    simp [push_self]
  · simp [push_of_ne r.table kind handler hk, hk]

end Add

end Registry

variable {η : Kind → Type}

-- What is passed when a handler is registered.
structure Registration (η : Kind → Type) where
  name : String
  group : String
  kind : Kind
  handler : η kind

-- The registration is for this kind and this name.
def Registration.Names (g : Registration η) (kind : Kind) (name : String) : Prop :=
  g.kind = kind ∧ g.name = name

def Registry.register (r : Registry η) (g : Registration η) : Registry η :=
  r.add g.kind g.name g.group g.handler

-- Where among the handlers of a kind the next one comes.
def countOf (kind : Kind) (calls : List (Registration η)) : Nat :=
  calls.countP (·.kind = kind)

-- A registry in which handlers were registered one after the other: a handler is found when it is
-- the latest one of its kind and name, all of them are described in order, each with its own place
-- in the table of its kind, and the names of a kind are listed in order.
structure Registered (calls : List (Registration η)) (r : Registry η) : Prop where
  latest : ∀ kind name handler, r.handler? kind name = some handler ↔
    ∃ before group after, calls = before ++ ⟨name, group, kind, handler⟩ :: after ∧
      ∀ later ∈ after, ¬later.Names kind name
  missing : ∀ kind name, r.handler? kind name = none ↔ ∀ g ∈ calls, ¬g.Names kind name
  described : r.descriptors.length = calls.length
  sized : ∀ kind, (r.table kind).length = countOf kind calls
  placed : ∀ before g after, calls = before ++ g :: after →
    r.descriptors[before.length]? = some ⟨g.name, g.group, g.kind, countOf g.kind before⟩ ∧
      (r.table g.kind)[countOf g.kind before]? = some g.handler
  sorted : ∀ kind, (r.names kind).Pairwise (· < ·)
  listed : ∀ kind name, name ∈ r.names kind ↔ ∃ g ∈ calls, g.Names kind name

section Calls

variable {r : Registry η} {calls before after : List (Registration η)} {g x : Registration η}

theorem countOf_concat (kind : Kind) : countOf kind (calls ++ [g]) =
    countOf kind calls + if g.kind = kind then 1 else 0 := by
  simp [countOf, List.countP_append, List.countP_singleton]

-- A call in a longer list is the last one, or one of those before it.
theorem split_of_concat (h : calls ++ [g] = before ++ x :: after) :
    (calls = before ∧ g = x ∧ after = []) ∨
      ∃ rest, after = rest ++ [g] ∧ calls = before ++ x :: rest := by
  rcases List.eq_nil_or_concat after with rfl | ⟨rest, last, rfl⟩
  · obtain ⟨hcalls, hg⟩ := List.append_inj' h rfl
    exact .inl ⟨hcalls, (List.cons.inj hg).1, rfl⟩
  · rw [List.concat_eq_append, ← List.cons_append, ← List.append_assoc] at h
    obtain ⟨hcalls, hg⟩ := List.append_inj' h rfl
    obtain rfl := (List.cons.inj hg).1
    exact .inr ⟨rest, List.concat_eq_append, hcalls⟩

theorem registered_empty : Registered [] (.empty : Registry η) := by
  refine ⟨fun kind name handler => ?_, ?_, rfl, fun _ => rfl, ?_, Registry.pairwise_names _, ?_⟩
  · refine iff_of_false nofun ?_
    rintro ⟨before, group, after, h, -⟩
    simp at h
  · exact fun kind name => iff_of_true rfl nofun
  · intro before g after h
    simp at h
  · intro kind name
    simp [Registry.names, Registry.empty]

namespace Registered

theorem latest_register (h : Registered calls r) (g : Registration η) (kind : Kind)
    (name : String) (handler : η kind) : (r.register g).handler? kind name = some handler ↔
      ∃ before group after, calls ++ [g] = before ++ ⟨name, group, kind, handler⟩ :: after ∧
        ∀ later ∈ after, ¬later.Names kind name := by
  obtain ⟨gname, ggroup, gkind, ghandler⟩ := g
  by_cases hn : gkind = kind ∧ gname = name
  · obtain ⟨rfl, rfl⟩ := hn
    rw [Registry.register, Registry.handler?_add_self, Option.some.injEq]
    constructor
    · rintro rfl
      exact ⟨calls, ggroup, [], rfl, nofun⟩
    · rintro ⟨before, group, after, hsplit, hafter⟩
      rcases split_of_concat hsplit with ⟨-, hg, -⟩ | ⟨rest, rfl, -⟩
      · cases hg
        rfl
      · exact absurd ⟨rfl, rfl⟩ (hafter ⟨gname, ggroup, gkind, ghandler⟩ (by simp))
  · rw [Registry.register, Registry.handler?_add_of_ne hn, h.latest]
    constructor
    · rintro ⟨before, group, after, rfl, hafter⟩
      refine ⟨before, group, after ++ [⟨gname, ggroup, gkind, ghandler⟩], by simp,
        fun later hl => ?_⟩
      rcases List.mem_append.1 hl with hl | hl
      · exact hafter later hl
      · exact List.mem_singleton.1 hl ▸ hn
    · rintro ⟨before, group, after, hsplit, hafter⟩
      rcases split_of_concat hsplit with ⟨-, hg, -⟩ | ⟨rest, rfl, hcalls⟩
      · cases hg
        exact absurd ⟨rfl, rfl⟩ hn
      · exact ⟨before, group, rest, hcalls, fun later hl => hafter later (by simp [hl])⟩

theorem missing_register (h : Registered calls r) (g : Registration η) (kind : Kind)
    (name : String) : (r.register g).handler? kind name = none ↔
      ∀ x ∈ calls ++ [g], ¬x.Names kind name := by
  by_cases hn : g.Names kind name
  · obtain ⟨rfl, rfl⟩ := hn
    rw [Registry.register, Registry.handler?_add_self]
    exact iff_of_false nofun fun hall => hall g (by simp) ⟨rfl, rfl⟩
  · rw [Registry.register, Registry.handler?_add_of_ne hn, h.missing]
    constructor
    · intro hall x hx
      rcases List.mem_append.1 hx with hx | hx
      · exact hall x hx
      · exact List.mem_singleton.1 hx ▸ hn
    · exact fun hall x hx => hall x (List.mem_append_left _ hx)

theorem placed_register (h : Registered calls r) (hsplit : calls ++ [g] = before ++ x :: after) :
    (r.register g).descriptors[before.length]? =
        some ⟨x.name, x.group, x.kind, countOf x.kind before⟩ ∧
      ((r.register g).table x.kind)[countOf x.kind before]? = some x.handler := by
  have hdescriptors : (r.register g).descriptors =
    r.descriptors ++ [⟨g.name, g.group, g.kind, (r.table g.kind).length⟩] := rfl
  rcases split_of_concat hsplit with ⟨rfl, rfl, -⟩ | ⟨rest, -, hcalls⟩
  · rw [hdescriptors, ← h.described, ← h.sized g.kind, List.getElem?_concat_length]
    refine ⟨rfl, ?_⟩
    show (push r.table g.kind g.handler g.kind)[(r.table g.kind).length]? = _
    rw [push_self, List.getElem?_concat_length]
  · obtain ⟨hd, ht⟩ := h.placed before x rest hcalls
    obtain ⟨later, hlater⟩ := prefix_push r.table g.kind g.handler x.kind
    refine ⟨?_, ?_⟩
    · rw [hdescriptors, List.getElem?_append_left (List.getElem?_eq_some_iff.1 hd).1, hd]
    · show (push r.table g.kind g.handler x.kind)[countOf x.kind before]? = _
      rw [← hlater, List.getElem?_append_left (List.getElem?_eq_some_iff.1 ht).1, ht]

-- One more registration.
theorem register (h : Registered calls r) (g : Registration η) :
    Registered (calls ++ [g]) (r.register g) where
  latest := h.latest_register g
  missing := h.missing_register g
  described := by
    show (r.descriptors ++ [_]).length = _
    simp [h.described]
  sized kind := by
    rw [Registry.register, Registry.length_table_add, h.sized, countOf_concat]
  placed _ _ _ := h.placed_register
  sorted := (r.register g).pairwise_names
  listed kind name := by
    rw [← Registry.isSome_handler?_iff, ← not_iff_not, Bool.not_eq_true,
      Option.isSome_eq_false_iff, Option.isNone_iff_eq_none, h.missing_register]
    simp only [not_exists, not_and]

end Registered

-- Whatever is registered in whatever order, the registry accounts for it.
theorem registered_foldl (calls : List (Registration η)) :
    Registered calls (calls.foldl Registry.register .empty) := by
  induction calls using List.reverseRecOn with
  | nil => exact registered_empty
  | append_singleton calls g ih =>
    rw [List.foldl_concat]
    exact ih.register g

end Calls

end CommandShell.Handler
