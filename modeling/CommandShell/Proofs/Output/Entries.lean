import CommandShell.Proofs.Output.Written
import Mathlib.Data.List.Forall2
import Mathlib.Data.List.Nodup

namespace CommandShell.Output

namespace Written

-- The key of a child behind `before` others of an object: its name, or else its number.
def key (before : Nat) (w : Written) : String := w.name.getD (toString before)

def keys (before : Nat) (children : List Written) : List String :=
  (children.zipIdx before).map fun p => key p.2 p.1

-- Nothing that was written is lost in a value: the entries of each object in it are the children
-- that were written into it, each under its key.
inductive Kept : Written → Json.Value → Prop where
  | value {name : Option String} {v : Json.Value} : Kept (.value name v) v
  | array {name : Option String} {children : List Written} {items : List Json.Value}
      (each : List.Forall₂ Kept children items) :
      Kept (.container .array name children) (.array items)
  | object {name : Option String} {children : List Written} {entries : Dictionary Json.Value}
      {values : List Json.Value} (stored : entries.Perm ((keys 0 children).zip values))
      (each : List.Forall₂ Kept children values) :
      Kept (.container .object name children) (.object entries)

-- Something holds of the children of each object that is written.
inductive Throughout (P : List Written → Prop) : Written → Prop where
  | value {name : Option String} {v : Json.Value} : Throughout P (.value name v)
  | array {name : Option String} {children : List Written}
      (each : ∀ w ∈ children, Throughout P w) : Throughout P (.container .array name children)
  | object {name : Option String} {children : List Written} (here : P children)
      (each : ∀ w ∈ children, Throughout P w) : Throughout P (.container .object name children)

-- No two children have the same name.
def Distinct (children : List Written) : Prop :=
  children.Pairwise fun u w => ∀ name ∈ u.name, name ∉ w.name

-- The number of a child without a name is no child's name.
def Apart (children : List Written) : Prop :=
  ∀ p ∈ children.zipIdx, p.1.name = none → ∀ u ∈ children, toString p.2 ∉ u.name

instance (children : List Written) : Decidable (Distinct children) :=
  inferInstanceAs (Decidable (children.Pairwise _))

instance (children : List Written) : Decidable (Apart children) :=
  inferInstanceAs (Decidable (∀ p ∈ children.zipIdx, _))

section Keys

variable {children : List Written}

@[simp] theorem keys_cons (before : Nat) (w : Written) (rest : List Written) :
    keys before (w :: rest) = key before w :: keys (before + 1) rest := rfl

@[simp] theorem length_keys (before : Nat) (children : List Written) :
    (keys before children).length = children.length := by simp [keys]

theorem eq_of_toString {i j : Nat} (h : toString i = toString j) : i = j := by
  have repr : i.repr = j.repr := h
  rw [Nat.repr_eq_ofList_toDigits, Nat.repr_eq_ofList_toDigits] at repr
  have digits : Nat.toDigits 10 i = Nat.toDigits 10 j := String.ofList_injective repr
  rw [← Nat.ofDigitChars_ten_toDigits (n := i), digits, Nat.ofDigitChars_ten_toDigits]

theorem eq_of_distinct (h : Distinct children) {i j : Nat} {u w : Written}
    (hu : (u, i) ∈ children.zipIdx) (hw : (w, j) ∈ children.zipIdx) {name : String}
    (hun : u.name = some name) (hwn : w.name = some name) : i = j := by
  have hui : children[i]? = some u := List.mem_zipIdx_iff_getElem?.mp hu
  have hwj : children[j]? = some w := List.mem_zipIdx_iff_getElem?.mp hw
  obtain ⟨hi, rfl⟩ := List.getElem?_eq_some_iff.mp hui
  obtain ⟨hj, rfl⟩ := List.getElem?_eq_some_iff.mp hwj
  have apart := List.pairwise_iff_getElem.mp h
  rcases Nat.lt_trichotomy i j with hlt | heq | hgt
  · exact absurd hwn (apart i j hi hj hlt name hun)
  · exact heq
  · exact absurd hun (apart j i hj hi hgt name hwn)

-- Children whose keys are the same are one, unless the name of one is the number of the other.
theorem eq_of_key (h : Distinct children) (apart : Apart children) {i j : Nat} {u w : Written}
    (hu : (u, i) ∈ children.zipIdx) (hw : (w, j) ∈ children.zipIdx) (same : key i u = key j w) :
    i = j := by
  rw [key, key] at same
  cases hun : u.name with
  | none =>
    rw [hun, Option.getD_none] at same
    cases hwn : w.name with
    | none =>
      rw [hwn, Option.getD_none] at same
      exact eq_of_toString same
    | some name =>
      rw [hwn, Option.getD_some] at same
      exact absurd (same ▸ hwn) (apart _ hu hun w (List.fst_mem_of_mem_zipIdx hw))
  | some name =>
    rw [hun, Option.getD_some] at same
    cases hwn : w.name with
    | none =>
      rw [hwn, Option.getD_none] at same
      exact absurd (same ▸ hun) (apart _ hw hwn u (List.fst_mem_of_mem_zipIdx hu))
    | some name' =>
      rw [hwn, Option.getD_some] at same
      exact eq_of_distinct h hu hw hun (same ▸ hwn)

-- Names that are distinct keep the keys distinct unless one of them is the number of a child
-- without a name.
theorem nodup_keys_iff (h : Distinct children) : (keys 0 children).Nodup ↔ Apart children := by
  have numbered : (children.zipIdx).Nodup := by
    refine .of_map Prod.snd ?_
    rw [List.zipIdx_map_snd]
    exact List.nodup_range' 1
  rw [keys, List.nodup_map_iff_inj_on numbered]
  constructor
  · rintro inj ⟨w, i⟩ hw hn u hu hi
    obtain ⟨j, hj⟩ := List.mem_iff_getElem?.mp hu
    have same : key i w = key j u := by simp [key, hn, Option.mem_def.mp hi]
    have one := inj (w, i) hw (u, j) (List.mem_zipIdx_iff_getElem?.mpr hj) same
    obtain ⟨rfl, -⟩ := Prod.mk.inj one
    rw [hn] at hi
    cases hi
  · rintro apart ⟨u, i⟩ hu ⟨w, j⟩ hw same
    obtain rfl := eq_of_key h apart hu hw same
    have hui := List.mem_zipIdx_iff_getElem?.mp hu
    exact Prod.ext (Option.some.inj (hui.symm.trans (List.mem_zipIdx_iff_getElem?.mp hw))) rfl

end Keys

section Entries

variable {d : Dictionary Json.Value} {children : List Written}

-- What an object has for entries when children are put into it, one after the other.
def entries (d : Dictionary Json.Value) : List Written → Dictionary Json.Value
  | [] => d
  | w :: rest => entries (Dictionary.insert (key d.length w) w.record.value d) rest

theorem fill_object (d : Dictionary Json.Value) (children : List Written) :
    fill (.object d) children = .object (entries d children) := by
  induction children generalizing d with
  | nil => rw [fill, entries]
  | cons w rest ih => rw [fill, Contents.add, ih, entries, key, name_record]

theorem length_entries_le (d : Dictionary Json.Value) (children : List Written) :
    (entries d children).length ≤ d.length + children.length := by
  induction children generalizing d with
  | nil => rfl
  | cons w rest ih =>
    have first := Dictionary.length_insert_le (key d.length w) w.record.value d
    have others := ih (Dictionary.insert (key d.length w) w.record.value d)
    rw [entries, List.length_cons]
    omega

-- Children with new keys of their own are all added.
theorem perm_entries (nodup : (keys d.length children).Nodup)
    (new : ∀ k ∈ keys d.length children, k ∉ d.keys) :
    (entries d children).Perm
      (d ++ (keys d.length children).zip (children.map (·.record.value))) := by
  induction children generalizing d with
  | nil => simp [entries]
  | cons w rest ih =>
    obtain ⟨own, hrest⟩ := List.nodup_cons.mp nodup
    obtain ⟨first, others⟩ := List.forall_mem_cons.mp new
    have added := Dictionary.perm_insert first w.record.value
    have count := added.length_eq
    have later : ∀ k ∈ keys (d.length + 1) rest,
        k ∉ Dictionary.keys (Dictionary.insert (key d.length w) w.record.value d) := by
      intro k hk hm
      rcases List.mem_cons.mp ((added.map Prod.fst).subset hm) with rfl | hm
      · exact own hk
      · exact others k hk hm
    rw [List.length_cons] at count
    rw [← count] at hrest later
    rw [entries, keys_cons, List.map_cons, List.zip_cons_cons, ← count]
    exact (ih hrest later).trans ((added.append_right _).trans List.perm_middle.symm)

-- If all children are added, they have keys of their own.
theorem nodup_of_length_entries (ordered : d.IsOrdered)
    (all : (entries d children).length = d.length + children.length) :
    (keys d.length children).Nodup ∧ ∀ k ∈ keys d.length children, k ∉ d.keys := by
  induction children generalizing d with
  | nil => exact ⟨.nil, nofun⟩
  | cons w rest ih =>
    rw [entries, List.length_cons] at all
    have most := length_entries_le (Dictionary.insert (key d.length w) w.record.value d) rest
    have first : key d.length w ∉ d.keys := by
      intro hm
      have same := Dictionary.length_insert_of_mem ordered hm w.record.value
      omega
    have added := Dictionary.perm_insert first w.record.value
    have count := added.length_eq
    rw [List.length_cons] at count
    have still := Dictionary.isOrdered_insert ordered (key d.length w) w.record.value
    obtain ⟨hrest, later⟩ := ih still (by omega)
    rw [count] at hrest later
    have apart (k : String) (hk : k ∈ keys (d.length + 1) rest) :
        k ≠ key d.length w ∧ k ∉ d.keys := by
      have hn := fun hm => later k hk ((added.map Prod.fst).symm.subset hm)
      exact not_or.mp (mt List.mem_cons.mpr hn)
    rw [keys_cons]
    exact ⟨List.nodup_cons.mpr ⟨fun hm => (apart _ hm).1 rfl, hrest⟩,
      List.forall_mem_cons.mpr ⟨first, fun k hk => (apart k hk).2⟩⟩

-- The values under keys that are distinct are determined by what is stored.
theorem eq_of_perm_zip {ks : List String} {values values' : List Json.Value} (nodup : ks.Nodup)
    (h : values.length = ks.length) (h' : values'.length = ks.length)
    (same : (ks.zip values).Perm (ks.zip values')) : values = values' := by
  induction ks generalizing values values' with
  | nil => rw [List.eq_nil_of_length_eq_zero h, List.eq_nil_of_length_eq_zero h']
  | cons k ks ih =>
    obtain ⟨own, hrest⟩ := List.nodup_cons.mp nodup
    obtain ⟨v, values, rfl⟩ := List.exists_cons_of_length_eq_add_one h
    obtain ⟨v', values', rfl⟩ := List.exists_cons_of_length_eq_add_one h'
    rw [List.zip_cons_cons, List.zip_cons_cons] at same
    have head : v = v' := by
      rcases List.mem_cons.mp (same.subset List.mem_cons_self) with he | hm
      · exact (Prod.mk.inj he).2
      · exact absurd (List.of_mem_zip hm).1 own
    subst head
    rw [ih hrest (Nat.succ.inj h) (Nat.succ.inj h') same.cons_inv]

end Entries

section Kept

variable {name : Option String} {children : List Written} {P Q : List Written → Prop} {w : Written}

theorem kept_array_iff {items : List Json.Value} :
    Kept (.container .array name children) (.array items) ↔ List.Forall₂ Kept children items :=
  ⟨fun | .array each => each, .array⟩

theorem kept_object_iff {entries : Dictionary Json.Value} :
    Kept (.container .object name children) (.object entries) ↔
      ∃ values, entries.Perm ((keys 0 children).zip values) ∧ List.Forall₂ Kept children values :=
  ⟨fun | .object stored each => ⟨_, stored, each⟩, fun ⟨_, stored, each⟩ => .object stored each⟩

theorem throughout_array_iff :
    (container .array name children).Throughout P ↔ ∀ w ∈ children, w.Throughout P :=
  ⟨fun | .array each => each, .array⟩

theorem throughout_object_iff :
    (container .object name children).Throughout P ↔
      P children ∧ ∀ w ∈ children, w.Throughout P :=
  ⟨fun | .object here each => ⟨here, each⟩, fun ⟨here, each⟩ => .object here each⟩

theorem Throughout.iff_of_forall (h : w.Throughout fun children => P children ↔ Q children) :
    w.Throughout P ↔ w.Throughout Q := by
  induction h with
  | value => exact ⟨fun _ => .value, fun _ => .value⟩
  | array _ ih =>
    rw [throughout_array_iff, throughout_array_iff]
    exact forall₂_congr ih
  | object here _ ih =>
    rw [throughout_object_iff, throughout_object_iff]
    exact and_congr here (forall₂_congr ih)

theorem Throughout.mono (h : w.Throughout P) (hpq : ∀ children, P children → Q children) :
    w.Throughout Q := by
  induction h with
  | value => exact .value
  | array _ ih => exact .array ih
  | object here _ ih => exact .object (hpq _ here) ih

theorem forall₂_kept_iff (ih : ∀ w ∈ children, Kept w w.record.value ↔ w.Throughout P) :
    List.Forall₂ Kept children (children.map (·.record.value)) ↔
      ∀ w ∈ children, w.Throughout P := by
  rw [List.forall₂_map_right_iff, List.forall₂_same]
  exact forall₂_congr ih

-- What is written is kept in its record exactly if the keys in each object are distinct: where two
-- are the same, there are fewer entries than children.
theorem kept_iff_nodup (w : Written) :
    Kept w w.record.value ↔ w.Throughout fun children => (keys 0 children).Nodup := by
  induction w with
  | value name v => exact ⟨fun _ => .value, fun _ => by rw [record]; exact .value⟩
  | container bracket name children ih =>
    cases bracket with
    | array =>
      rw [record, Bracket.empty, fill_array, List.nil_append, throughout_array_iff]
      exact kept_array_iff.trans (forall₂_kept_iff ih)
    | object =>
      rw [record, Bracket.empty, fill_object, throughout_object_iff, ← forall₂_kept_iff ih]
      refine kept_object_iff.trans ⟨?_, ?_⟩
      · rintro ⟨values, stored, each⟩
        have count : values.length = (keys 0 children).length := by
          rw [length_keys, each.length_eq]
        have all : (entries [] children).length = 0 + children.length := by
          rw [stored.length_eq, List.length_zip, count, Nat.min_self, length_keys, Nat.zero_add]
        have nodup := (nodup_of_length_entries Dictionary.isOrdered_nil all).1
        have perm := perm_entries (d := []) nodup nofun
        have values_eq := eq_of_perm_zip nodup count (by simp) (stored.symm.trans perm)
        exact ⟨nodup, values_eq ▸ each⟩
      · rintro ⟨nodup, each⟩
        exact ⟨_, perm_entries (d := []) nodup nofun, each⟩

theorem kept_iff_apart_of_distinct (h : w.Throughout Distinct) :
    Kept w w.record.value ↔ w.Throughout Apart :=
  (kept_iff_nodup w).trans (h.mono fun _ => nodup_keys_iff).iff_of_forall

end Kept

end Written

namespace Assembler

-- The last of a stream is what was written, and nothing is open in front of it.
def Ends (s : List Token) (w : Written) : Prop :=
  ∃ before, s.filter Token.isContent = before ++ w.tokens ∧ (pushAll empty before).1 = empty

-- A record is given for a stream: by its last token, or at the end for what it leaves open, as if
-- that were closed.
inductive Gives : List Token → Record → Prop where
  | pushed {s : List Token} {t : Token} {a : Assembler} {r : Record}
      (h : (pushAll empty s).1.push t = (a, some r)) : Gives (s ++ [t]) r
  | finished {s : List Token} {r : Record} (h : (pushAll empty s).1.finish.2 = some r) :
      Gives (s ++ List.replicate (pushAll empty s).1.depth .close) r

variable {s : List Token} {r : Record} {w : Written}

theorem Gives.exists_pushed (h : Gives s r) :
    ∃ front t a, s = front ++ [t] ∧ (pushAll empty front).1.push t = (a, some r) := by
  cases h with
  | pushed h => exact ⟨_, _, _, rfl, h⟩
  | @finished s r h =>
    rw [finish_eq_pushAll_close] at h
    cases hd : (pushAll empty s).1.depth with
    | zero =>
      rw [hd] at h
      cases h
    | succ depth =>
      rw [hd, List.replicate_succ', pushAll_append, pushAll_singleton] at h
      refine ⟨s ++ List.replicate depth .close, .close, _, ?_, Prod.ext rfl ?_⟩
      · rw [List.replicate_succ', List.append_assoc]
      · simpa [pushAll_append] using h

theorem Gives.exists_ends (h : Gives s r) : ∃ w, Ends s w ∧ w.record = r := by
  obtain ⟨front, t, a, rfl, hp⟩ := h.exists_pushed
  obtain ⟨before, w, hs, hb, hr⟩ := exists_written hp
  exact ⟨w, ⟨before, hs, hb⟩, hr⟩

theorem Ends.record_eq (h : Ends s w) (hg : Gives s r) : w.record = r := by
  obtain ⟨front, t, a, rfl, hp⟩ := hg.exists_pushed
  obtain ⟨before, hs, hb⟩ := h
  obtain ⟨inner, t', b, ht, hi, hlast⟩ := (completes_tokens w).exists_last
  rw [filter_of_push hp, ht, ← List.append_assoc] at hs
  obtain ⟨hfront, hone⟩ := List.append_inj' hs rfl
  obtain rfl := List.singleton_inj.mp hone
  have state : (pushAll empty front).1 = b := by
    rw [← pushAll_filter_isContent, hfront, pushAll_append, hb, hi]
  rw [state, hlast] at hp
  exact Option.some.inj (Prod.mk.inj hp).2

-- A record is what was written last.  If no two children of an object in it have the same name,
-- then each of them is an entry of its own if, and only if, no child has a name that is the number
-- of a child without one: by that number the two would have the same key.
theorem kept_iff_apart (h : Gives s r) :
    (∃ w, Ends s w ∧ w.record = r) ∧
      ∀ w, Ends s w → w.Throughout Written.Distinct →
        (w.Kept r.value ↔ w.Throughout Written.Apart) := by
  refine ⟨h.exists_ends, fun w hw distinct => ?_⟩
  rw [← hw.record_eq h]
  exact Written.kept_iff_apart_of_distinct distinct

-- Named and unnamed children at two depths, in a stream that ends before they are closed.
theorem kept_iff_apart_of_unclosed :
    let inner : List Written := [.value none .null, .value (some "x") .null]
    let outer : List Written :=
      [.value (some "b") .null, .value none .null, .container .object none inner]
    let w : Written := .container .object none outer
    let s : List Token := [.close, .object none, .value (some "b") .null, .value none .null,
      .object none, .value none .null, .value (some "x") .null]
    let r : Record :=
      ⟨none, .object [("1", .null), ("2", .object [("0", .null), ("x", .null)]), ("b", .null)]⟩
    Gives (s ++ [.close, .close]) r ∧ Ends (s ++ [.close, .close]) w ∧
      w.Throughout Written.Distinct ∧ w.Throughout Written.Apart ∧ w.Kept r.value := by
  intro inner outer w s r
  have hg : Gives (s ++ [.close, .close]) r := .finished (s := s) (r := r) rfl
  have he : Ends (s ++ [.close, .close]) w := ⟨[.close], rfl, rfl⟩
  have throughout {P : List Written → Prop} (here : P outer) (below : P inner) :
      w.Throughout P := by
    refine .object here (List.forall_mem_cons.mpr ⟨.value, List.forall_mem_cons.mpr ⟨.value,
      List.forall_mem_singleton.mpr (.object below fun u hu => ?_)⟩⟩)
    rcases List.mem_pair.mp hu with rfl | rfl <;> exact .value
  have hd : w.Throughout Written.Distinct := throughout (by decide) (by decide)
  have ha : w.Throughout Written.Apart := throughout (by decide) (by decide)
  exact ⟨hg, he, hd, ha, ((kept_iff_apart hg).2 w he hd).mpr ha⟩

-- A child without a name takes the place of the one whose name is its number.
theorem unnamed_replaces_named :
    let w : Written :=
      .container .object none [.value (some "1") (.bool true), .value none (.bool false)]
    let r : Record := ⟨none, .object [("1", .bool false)]⟩
    Gives w.tokens r ∧ Ends w.tokens w ∧ w.Throughout Written.Distinct ∧ ¬w.Kept r.value := by
  intro w r
  have hg : Gives w.tokens r := .pushed (s := [_, _, _]) (a := empty) rfl
  have hd : w.Throughout Written.Distinct := .object (by decide) fun u hu => by
    rcases List.mem_pair.mp hu with rfl | rfl <;> exact .value
  refine ⟨hg, ⟨[], rfl, rfl⟩, hd, fun kept => ?_⟩
  obtain ⟨values, stored, each⟩ := Written.kept_object_iff.mp kept
  have entries := stored.length_eq
  have children := each.length_eq
  rw [List.length_zip, Written.length_keys, ← children] at entries
  cases entries

end Assembler

end CommandShell.Output
