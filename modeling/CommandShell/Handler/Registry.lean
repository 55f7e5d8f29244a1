namespace CommandShell.Handler

inductive Kind where
  | command
  | pipe
  | formatter
  | sink
deriving DecidableEq, Repr

namespace Kind

def label : Kind → String
  | command => "command"
  | pipe => "pipe"
  | formatter => "formatter"
  | sink => "sink"

end Kind

-- What is told about a handler.  `index` is its place among the handlers of its kind.
structure Descriptor where
  name : String
  group : String
  kind : Kind
  index : Nat
deriving DecidableEq, Repr

-- For a kind and a name, the place of the descriptor that counts.
abbrev Live := List ((Kind × String) × Nat)

namespace Live

variable {live : Live} {key : Kind × String} {id : Nat} {entry : (Kind × String) × Nat}

def get? (key : Kind × String) : Live → Option Nat
  | [] => none
  | (k, id) :: rest => if k = key then some id else get? key rest

-- An entry with the same key is replaced.
def put (key : Kind × String) (id : Nat) : Live → Live
  | [] => [(key, id)]
  | (k, old) :: rest => if k = key then (key, id) :: rest else (k, old) :: put key id rest

theorem mem_put (h : entry ∈ live.put key id) : entry = (key, id) ∨ entry ∈ live := by
  induction live with
  | nil => exact .inl (List.mem_singleton.1 h)
  | cons first rest ih =>
    obtain ⟨k, old⟩ := first
    rw [put] at h
    split at h
    · exact (List.mem_cons.1 h).imp_right (List.mem_cons_of_mem _)
    · rcases List.mem_cons.1 h with rfl | h
      · exact .inr (List.mem_cons_self ..)
      · exact (ih h).imp_right (List.mem_cons_of_mem _)

theorem mem_keys_put {k : Kind × String} (h : k ∈ (live.put key id).map (·.1)) :
    k = key ∨ k ∈ live.map (·.1) := by
  obtain ⟨entry, he, rfl⟩ := List.mem_map.1 h
  rcases mem_put he with rfl | he
  · exact .inl rfl
  · exact .inr (List.mem_map_of_mem he)

theorem nodup_put (h : (live.map (·.1)).Nodup) : ((live.put key id).map (·.1)).Nodup := by
  induction live with
  | nil => exact List.nodup_cons.2 ⟨List.not_mem_nil, .nil⟩
  | cons first rest ih =>
    obtain ⟨k, old⟩ := first
    obtain ⟨hk, hrest⟩ := List.nodup_cons.1 h
    rw [put]
    split
    · next he => exact he ▸ h
    · next hne => exact List.nodup_cons.2 ⟨fun hm => (mem_keys_put hm).elim hne hk, ih hrest⟩

end Live

variable {η : Kind → Type}

section Push

variable (table : (kind : Kind) → List (η kind)) (kind : Kind) (handler : η kind)

-- Put one more handler behind those of its kind.
def push : (kind : Kind) → List (η kind) := fun other =>
  if h : kind = other then table other ++ [h ▸ handler] else table other

theorem push_self : push table kind handler kind = table kind ++ [handler] := dif_pos rfl

theorem push_of_ne {other : Kind} (h : kind ≠ other) :
    push table kind handler other = table other :=
  dif_neg h

theorem prefix_push (other : Kind) : table other <+: push table kind handler other := by
  by_cases h : kind = other
  · cases h
    rw [push_self]
    exact List.prefix_append ..
  · exact (push_of_ne table kind handler h).symm ▸ List.prefix_rfl

end Push

-- Handlers in the order of their registration.  For a name that one kind has twice, the later
-- handler counts.
structure Registry (η : Kind → Type) where
  registrations : List Descriptor
  live : Live
  -- All handlers of one kind.
  table : (kind : Kind) → List (η kind)
  distinct : (live.map (·.1)).Nodup
  placed : ∀ entry ∈ live, ∃ d, registrations[entry.2]? = some d ∧
    (d.kind, d.name) = entry.1 ∧ d.index < (table d.kind).length

namespace Registry

def empty : Registry η := ⟨[], [], fun _ => [], .nil, nofun⟩

def add (r : Registry η) (kind : Kind) (name group : String) (handler : η kind) : Registry η where
  registrations := r.registrations ++ [⟨name, group, kind, (r.table kind).length⟩]
  live := r.live.put (kind, name) r.registrations.length
  table := push r.table kind handler
  distinct := Live.nodup_put r.distinct
  placed := by
    intro entry he
    rcases Live.mem_put he with rfl | he
    · refine ⟨_, List.getElem?_concat_length, rfl, ?_⟩
      simp [push_self]
    · obtain ⟨d, hd, hk, hi⟩ := r.placed entry he
      refine ⟨d, ?_, hk, Nat.lt_of_lt_of_le hi (prefix_push r.table kind handler d.kind).length_le⟩
      rw [List.getElem?_append_left (List.getElem?_eq_some_iff.1 hd).1, hd]

-- All registrations, also those that no longer count.
def descriptors (r : Registry η) : List Descriptor := r.registrations

def lookup? (r : Registry η) (kind : Kind) (name : String) : Option Descriptor := do
  let id ← r.live.get? (kind, name)
  r.registrations[id]?

def handler? (r : Registry η) (kind : Kind) (name : String) : Option (η kind) := do
  let d ← r.lookup? kind name
  (r.table kind)[d.index]?

-- The names of one kind, sorted.
def names (r : Registry η) (kind : Kind) : List String :=
  ((r.live.filter (·.1.1 = kind)).map (·.1.2)).mergeSort

end Registry

end CommandShell.Handler
