import CommandShell.Json.Reader
import Mathlib.Data.String.Basic

namespace CommandShell

namespace Dictionary

variable {α : Type}

-- Each key is less than the keys behind it.
def IsOrdered (d : Dictionary α) : Prop := d.keys.Pairwise (· < ·)

instance (d : Dictionary α) : Decidable d.IsOrdered :=
  inferInstanceAs (Decidable (d.keys.Pairwise (· < ·)))

@[simp] theorem isOrdered_nil : IsOrdered ([] : Dictionary α) := List.Pairwise.nil

theorem isOrdered_cons {key : String} {value : α} {rest : Dictionary α} :
    IsOrdered ((key, value) :: rest) ↔ (∀ e ∈ rest, key < e.1) ∧ rest.IsOrdered := by
  simp only [IsOrdered, keys, List.map_cons, List.pairwise_cons, List.mem_map,
    forall_exists_index, and_imp, forall_apply_eq_imp_iff₂]

theorem mem_insert {key : String} {value : α} {d : Dictionary α} {e : String × α}
    (h : e ∈ insert key value d) : e = (key, value) ∨ e ∈ d := by
  induction d with
  | nil => exact .inl (List.mem_singleton.mp h)
  | cons first rest ih =>
    obtain ⟨k, v⟩ := first
    by_cases hl : key < k
    · rw [insert, if_pos hl] at h
      exact List.mem_cons.mp h
    by_cases he : key = k
    · rw [insert, if_neg hl, if_pos he, List.mem_cons] at h
      exact h.imp_right (List.mem_cons_of_mem _)
    · rw [insert, if_neg hl, if_neg he, List.mem_cons] at h
      rcases h with rfl | h
      · exact .inr List.mem_cons_self
      · exact (ih h).imp_right (List.mem_cons_of_mem _)

theorem isOrdered_insert {d : Dictionary α} (h : d.IsOrdered) (key : String) (value : α) :
    (insert key value d).IsOrdered := by
  induction d with
  | nil => exact isOrdered_cons.mpr ⟨nofun, isOrdered_nil⟩
  | cons first rest ih =>
    obtain ⟨k, v⟩ := first
    obtain ⟨above, hr⟩ := isOrdered_cons.mp h
    by_cases hl : key < k
    · rw [insert, if_pos hl]
      refine isOrdered_cons.mpr ⟨fun e he => ?_, h⟩
      rcases List.mem_cons.mp he with rfl | he
      · exact hl
      · exact lt_trans hl (above e he)
    by_cases he : key = k
    · rw [insert, if_neg hl, if_pos he]
      exact isOrdered_cons.mpr ⟨he ▸ above, hr⟩
    · rw [insert, if_neg hl, if_neg he]
      have hk : k < key := lt_of_le_of_ne (not_lt.mp hl) (Ne.symm he)
      refine isOrdered_cons.mpr ⟨fun e hm => ?_, ih hr⟩
      rcases mem_insert hm with rfl | hm
      · exact hk
      · exact above e hm

-- A key that is not there yet adds an entry.
theorem perm_insert {key : String} {d : Dictionary α} (h : key ∉ d.keys) (value : α) :
    (insert key value d).Perm ((key, value) :: d) := by
  induction d with
  | nil => exact .refl _
  | cons first rest ih =>
    obtain ⟨k, v⟩ := first
    obtain ⟨hne, hr⟩ : key ≠ k ∧ key ∉ keys rest := not_or.mp (mt List.mem_cons.mpr h)
    by_cases hl : key < k
    · rw [insert, if_pos hl]
    · rw [insert, if_neg hl, if_neg hne]
      exact ((ih hr).cons _).trans (.swap ..)

theorem length_insert_le (key : String) (value : α) (d : Dictionary α) :
    (insert key value d).length ≤ d.length + 1 := by
  induction d with
  | nil => rfl
  | cons first rest ih =>
    rw [insert]
    split
    · rfl
    · split <;> simp only [List.length_cons] <;> omega

-- A key that is there keeps their number.
theorem length_insert_of_mem {key : String} {d : Dictionary α} (ordered : d.IsOrdered)
    (h : key ∈ d.keys) (value : α) : (insert key value d).length = d.length := by
  induction d with
  | nil => cases h
  | cons first rest ih =>
    obtain ⟨k, v⟩ := first
    obtain ⟨above, hr⟩ := isOrdered_cons.mp ordered
    by_cases he : key = k
    · rw [insert, if_neg (he ▸ lt_irrefl key), if_pos he]
      rfl
    · have hm : key ∈ keys rest := (List.mem_cons.mp h).resolve_left he
      obtain ⟨e, hm', rfl⟩ := List.mem_map.mp hm
      rw [insert, if_neg (lt_asymm (above e hm')), if_neg he, List.length_cons, ih hr hm,
        List.length_cons]

-- An entry whose key is above all others goes to the end.
theorem insert_eq_append {d : Dictionary α} {key : String} (h : ∀ e ∈ d, e.1 < key)
    (value : α) : insert key value d = d ++ [(key, value)] := by
  induction d with
  | nil => rfl
  | cons first rest ih =>
    obtain ⟨k, v⟩ := first
    have hk : k < key := h (k, v) List.mem_cons_self
    rw [insert, if_neg (lt_asymm hk), if_neg hk.ne', List.cons_append,
      ih fun e he => h e (List.mem_cons_of_mem _ he)]

end Dictionary

namespace Json

namespace Value

-- The entries of every object in it increase by their keys.
inductive IsOrdered : Value → Prop where
  | null : IsOrdered .null
  | bool (b : Bool) : IsOrdered (.bool b)
  | number (n : Number) : IsOrdered (.number n)
  | string (s : String) : IsOrdered (.string s)
  | array {items : List Value} (values : ∀ v ∈ items, IsOrdered v) : IsOrdered (.array items)
  | object {entries : Dictionary Value} (keys : entries.IsOrdered)
      (values : ∀ e ∈ entries, IsOrdered e.2) : IsOrdered (.object entries)

theorem isOrdered_insert {entries : Dictionary Value} (h : (object entries).IsOrdered)
    {v : Value} (hv : v.IsOrdered) (key : String) :
    (object (Dictionary.insert key v entries)).IsOrdered := by
  cases h with
  | object keys values =>
    refine .object (Dictionary.isOrdered_insert keys key v) fun e he => ?_
    rcases Dictionary.mem_insert he with rfl | he
    · exact hv
    · exact values e he

-- Entries in any order make an object whose entries increase.
theorem isOrdered_ofEntries {entries : List (String × Value)}
    (h : ∀ e ∈ entries, e.2.IsOrdered) : (ofEntries entries).IsOrdered := by
  have step : ∀ d : Dictionary Value, (object d).IsOrdered →
      (object (entries.foldl (fun d (k, v) => Dictionary.insert k v d) d)).IsOrdered := by
    induction entries with
    | nil => exact fun d hd => hd
    | cons e rest ih =>
      intro d hd
      exact ih (fun e he => h e (List.mem_cons_of_mem _ he)) _
        (isOrdered_insert hd (h e List.mem_cons_self) e.1)
  exact step [] (.object Dictionary.isOrdered_nil nofun)

end Value

-- A value with its entries in order.  No object that has a key twice, or an entry out of its place,
-- is part of one.
structure OrderedValue where
  value : Value
  ordered : value.IsOrdered

theorem isOrdered_of_token? {c : Char} {cs rest : List Char} {v : Value}
    (h : token? c cs = some (.scalar v, rest)) : v.IsOrdered := by
  rcases scalar_cases h with rfl | ⟨b, rfl⟩ | ⟨n, rfl⟩ | ⟨s, rfl⟩
  · exact .null
  · exact .bool b
  · exact .number n
  · exact .string s

theorem isOrdered_of_mem_tokensFrom {fuel : Nat} {cs : List Char} {tokens : List Token}
    (h : tokensFrom fuel cs = some tokens) {v : Value} (hv : .scalar v ∈ tokens) :
    v.IsOrdered := by
  induction fuel generalizing cs tokens with
  | zero =>
    cases cs with
    | nil => cases h; cases hv
    | cons c cs => cases h
  | succ fuel ih =>
    cases cs with
    | nil => cases h; cases hv
    | cons c cs =>
      rw [tokensFrom] at h
      split at h
      · exact ih h hv
      · obtain ⟨⟨token, rest⟩, ht, h⟩ := Option.bind_eq_some_iff.mp h
        obtain ⟨behind, hb, he⟩ := Option.bind_eq_some_iff.mp h
        cases he
        rcases List.mem_cons.mp hv with rfl | hv
        · exact isOrdered_of_token? ht
        · exact ih hb hv

-- All that was read into a container so far is ordered.
def Frame.IsOrdered : Frame → Prop
  | .array items => ∀ v ∈ items, v.IsOrdered
  | .object entries _ => ∀ e ∈ entries, e.2.IsOrdered

theorem isOrdered_array_nil : Frame.IsOrdered (.array []) := nofun

theorem isOrdered_object_nil : Frame.IsOrdered (.object [] "") := nofun

namespace Reading

structure IsOrdered (r : Reading) : Prop where
  frames : ∀ f ∈ r.frames, f.IsOrdered
  result : ∀ v ∈ r.result, v.IsOrdered

variable {r r' : Reading}

theorem IsOrdered.put (h : r.IsOrdered) {v : Value} (hv : v.IsOrdered) :
    (r.put v).IsOrdered := by
  unfold Reading.put
  split
  case h_1 hf => exact ⟨h.frames, fun w hw => Option.mem_some_iff.mp hw ▸ hv⟩
  case h_2 items outer hf =>
    obtain ⟨hi, ho⟩ := List.forall_mem_cons.mp (hf ▸ h.frames)
    exact ⟨List.forall_mem_cons.mpr ⟨List.forall_mem_cons.mpr ⟨hv, hi⟩, ho⟩, h.result⟩
  case h_3 entries key outer hf =>
    obtain ⟨he, ho⟩ := List.forall_mem_cons.mp (hf ▸ h.frames)
    exact ⟨List.forall_mem_cons.mpr ⟨List.forall_mem_cons.mpr ⟨hv, he⟩, ho⟩, h.result⟩

theorem IsOrdered.enter (h : r.IsOrdered) {frame : Frame} (hf : frame.IsOrdered)
    {expected : Expected} (he : r.enter frame expected = some r') : r'.IsOrdered := by
  unfold Reading.enter at he
  split at he <;> cases he
  exact ⟨List.forall_mem_cons.mpr ⟨hf, h.frames⟩, h.result⟩

-- One token keeps it: a container that ends is made of what was read into it.
theorem IsOrdered.take (h : r.IsOrdered) {t : Token} (ht : ∀ v, t = .scalar v → v.IsOrdered)
    (he : r.take t = some r') : r'.IsOrdered := by
  unfold Reading.take at he
  split at he
  case h_1 | h_2 => cases he; exact h.put (ht _ rfl)
  case h_3 | h_4 => exact h.enter isOrdered_array_nil he
  case h_5 | h_6 => exact h.enter isOrdered_object_nil he
  case h_7 _ items outer _ hf | h_8 _ items outer _ hf =>
    cases he
    obtain ⟨hi, ho⟩ := List.forall_mem_cons.mp (hf ▸ h.frames)
    have inner : Value.IsOrdered (.array items.reverse) :=
      .array fun v hv => hi v (List.mem_reverse.mp hv)
    have around : IsOrdered { r with frames := outer } := ⟨ho, h.result⟩
    exact around.put inner
  case h_9 _ entries _ outer _ hf | h_10 _ entries _ outer _ hf =>
    cases he
    obtain ⟨hi, ho⟩ := List.forall_mem_cons.mp (hf ▸ h.frames)
    have inner : (Value.ofEntries entries.reverse).IsOrdered :=
      Value.isOrdered_ofEntries fun e he => hi e (List.mem_reverse.mp he)
    have around : IsOrdered { r with frames := outer } := ⟨ho, h.result⟩
    exact around.put inner
  case h_11 _ _ entries _ outer _ hf | h_12 _ _ entries _ outer _ hf =>
    cases he
    obtain ⟨hi, ho⟩ := List.forall_mem_cons.mp (hf ▸ h.frames)
    exact ⟨List.forall_mem_cons.mpr ⟨hi, ho⟩, h.result⟩
  case h_13 | h_14 | h_15 => cases he; exact ⟨h.frames, h.result⟩
  case h_16 => cases he

theorem IsOrdered.foldlM (h : r.IsOrdered) {tokens : List Token}
    (ht : ∀ v, .scalar v ∈ tokens → v.IsOrdered)
    (he : tokens.foldlM Reading.take r = some r') : r'.IsOrdered := by
  induction tokens generalizing r with
  | nil => cases he; exact h
  | cons t rest ih =>
    rw [List.foldlM_cons] at he
    obtain ⟨next, hn, he⟩ := Option.bind_eq_some_iff.mp he
    have hnext : next.IsOrdered := h.take (fun v hv => ht v (hv ▸ List.mem_cons_self)) hn
    exact ih hnext (fun v hv => ht v (List.mem_cons_of_mem _ hv)) he

end Reading

-- Whatever the order of the keys in a text, the value that is read is ordered.
theorem isOrdered_of_parse? {text : String} {v : Value} (h : parse? text = some v) :
    v.IsOrdered := by
  obtain ⟨tokens, ht, h⟩ := Option.bind_eq_some_iff.mp h
  obtain ⟨reading, hr, h⟩ := Option.bind_eq_some_iff.mp h
  have start : Reading.IsOrdered {} := ⟨nofun, nofun⟩
  have read := start.foldlM (fun v hv => isOrdered_of_mem_tokensFrom ht hv) hr
  split at h
  · exact read.result v h
  · cases h

end Json

end CommandShell
