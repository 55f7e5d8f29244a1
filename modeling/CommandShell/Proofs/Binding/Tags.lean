import CommandShell.Binding.Tag
import CommandShell.Proofs.Text.Splitting

namespace CommandShell.Text

-- A text that is not empty and that no white space surrounds.
structure Solid (cs : List Char) : Prop where
  taken : cs ≠ []
  front : ∀ c ∈ cs.head?, isWhiteSpace c = false
  back : ∀ c ∈ cs.getLast?, isWhiteSpace c = false

instance (cs : List Char) : Decidable (Solid cs) :=
  decidable_of_iff (cs ≠ [] ∧ cs.head?.all (!isWhiteSpace ·) = true ∧
      cs.getLast?.all (!isWhiteSpace ·) = true)
    ⟨fun h => ⟨h.1, by simpa [Option.all_eq_true] using h.2.1,
        by simpa [Option.all_eq_true] using h.2.2⟩,
      fun h => ⟨h.taken, by simpa [Option.all_eq_true] using h.front,
        by simpa [Option.all_eq_true] using h.back⟩⟩

namespace Solid

variable {cs ds : List Char}

theorem append (h : Solid cs) (h' : Solid ds) (middle : List Char) :
    Solid (cs ++ middle ++ ds) where
  taken := by simp [h.taken]
  front := by
    rw [List.append_assoc, List.head?_append_of_ne_nil _ h.taken]
    exact h.front
  back := by
    rw [List.getLast?_append_of_ne_nil _ h'.taken]
    exact h'.back

theorem intercalate {separator : List Char} {parts : List (List Char)} (hn : parts ≠ [])
    (h : ∀ part ∈ parts, Solid part) : Solid (separator.intercalate parts) := by
  induction parts with
  | nil => exact absurd rfl hn
  | cons part rest ih =>
    obtain ⟨hp, hr⟩ := List.forall_mem_cons.1 h
    cases rest with
    | nil => rwa [List.intercalate_singleton]
    | cons next rest =>
      rw [List.intercalate_cons_cons]
      exact hp.append (ih (List.cons_ne_nil _ _) hr) separator

-- There is nothing to trim.
theorem trim_eq {s : String} (h : Solid s.toList) : trim s = s := by
  have hdrop {ds : List Char} (hd : ∀ c ∈ ds.head?, isWhiteSpace c = false) :
      ds.dropWhile isWhiteSpace = ds := by
    cases ds with
    | nil => rfl
    | cons c ds => rw [List.dropWhile_cons_of_neg (by simp [hd c rfl])]
  have hback : ∀ c ∈ s.toList.reverse.head?, isWhiteSpace c = false := by
    rw [List.head?_reverse]
    exact h.back
  rw [trim, trimStart, hdrop h.front, trimEnd, hdrop hback, List.reverse_reverse,
    String.ofList_toList]

end Solid

end CommandShell.Text

namespace CommandShell.Binding

open Text (Solid)

-- A text that can stand between separators in a tag.
structure TagName (separators : List Char) (name : String) : Prop where
  solid : Solid name.toList
  plain : ∀ c ∈ separators, c ∉ name.toList

namespace FlagSet

-- What a set says of a field besides how it is given.
def words (set : FlagSet) : List String :=
  (if set.optional then ["opt"] else []) ++
    ((if set.counting then ["count"] else []) ++ if set.undocumented then ["undoc"] else [])

-- The items of a set as they are written: its aliases, then its position, then the words.
def items (set : FlagSet) : List String :=
  (if set.aliases.isEmpty then [] else ["|".intercalate set.aliases]) ++
    ((set.position.map fun p => "#" ++ toString p).toList ++ set.words)

def written (set : FlagSet) : String :=
  "|".intercalate set.commands ++ "=" ++ ",".intercalate set.items

-- A set that can be written as a tag.
structure Canonical (set : FlagSet) : Prop where
  named : set.commands ≠ []
  declared : set.aliases ≠ [] ∨ set.position.isSome = true
  commands : ∀ name ∈ set.commands, TagName [';', ',', '|', '='] name
  aliases : ∀ name ∈ set.aliases, TagName [';', ',', '|'] name ∧ name.toList.head? ≠ some '-'
  first : ∀ name ∈ set.aliases.head?, name.toList.head? ≠ some '#'
  positions : ∀ p ∈ set.position, 1 ≤ p ∧ p < Nat.pow 2 64

end FlagSet

instance (separators : List Char) (name : String) : Decidable (TagName separators name) :=
  decidable_of_iff (Solid name.toList ∧ separators.all (!name.toList.contains ·) = true)
    ⟨fun h => ⟨h.1, by simpa using h.2⟩, fun h => ⟨h.solid, by simpa using h.plain⟩⟩

instance (set : FlagSet) : Decidable set.Canonical :=
  decidable_of_iff (set.commands ≠ [] ∧ (set.aliases ≠ [] ∨ set.position.isSome = true) ∧
      (∀ name ∈ set.commands, TagName [';', ',', '|', '='] name) ∧
      (∀ name ∈ set.aliases, TagName [';', ',', '|'] name ∧ name.toList.head? ≠ some '-') ∧
      (∀ name ∈ set.aliases.head?, name.toList.head? ≠ some '#') ∧
      ∀ p ∈ set.position, 1 ≤ p ∧ p < Nat.pow 2 64)
    ⟨fun h => ⟨h.1, h.2.1, h.2.2.1, h.2.2.2.1, h.2.2.2.2.1, h.2.2.2.2.2⟩,
      fun h => ⟨h.named, h.declared, h.commands, h.aliases, h.first, h.positions⟩⟩

-- Sets as they are written in a tag.
def writtenTag (sets : List FlagSet) : String :=
  ";".intercalate (sets.map FlagSet.written)

variable {separator : String} {c : Char} {names : List String} {set : FlagSet} {p index : Nat}

namespace TagName

variable {separators fewer : List Char} {name : String}

theorem mono (h : TagName separators name) (hs : fewer ⊆ separators) : TagName fewer name :=
  ⟨h.solid, fun c hc => h.plain c (hs hc)⟩

-- Texts with a separator between them are one text for the separators around it.
theorem intercalate (hs : ∀ c ∈ separators, c ∉ separator.toList) (hn : names ≠ [])
    (h : ∀ name ∈ names, TagName separators name) :
    TagName separators (separator.intercalate names) := by
  constructor
  · rw [String.toList_intercalate]
    refine .intercalate (by simpa using hn) ?_
    simpa using fun name hm => (h name hm).solid
  · intro c hc
    rw [String.toList_intercalate]
    refine Text.not_mem_intercalate (hs c hc) ?_
    simpa using fun name hm => (h name hm).plain c hc

end TagName

theorem parts_intercalate (hs : separator.toList = [c]) (hn : names ≠ [])
    (h : ∀ name ∈ names, TagName [c] name) : parts c (separator.intercalate names) = names := by
  rw [parts, Text.splitString_intercalate hs hn fun name hm => (h name hm).plain c (by simp)]
  exact (List.map_congr_left fun name hm => (h name hm).solid.trim_eq).trans (List.map_id _)

theorem filter_solid (h : ∀ name ∈ names, Solid name.toList) :
    names.filter (· ≠ "") = names := by
  refine List.filter_eq_self.2 fun name hm => decide_eq_true fun he => (h name hm).taken ?_
  rw [he]
  rfl

section Items

theorem toList_position (p : Nat) : ("#" ++ toString p).toList = '#' :: Nat.toDigits 10 p := by
  rw [Nat.toString_eq_ofList_toDigits, String.toList_append]
  show ['#'] ++ (String.ofList (Nat.toDigits 10 p)).toList = _
  rw [String.toList_ofList, List.singleton_append]

theorem isDigit_of_position {p : Nat} : ∀ c ∈ Nat.toDigits 10 p, c.isDigit = true :=
  fun _ hc => Nat.isDigit_of_mem_toDigits (by decide) (by decide) hc

-- A position is read as it is written.
theorem position?_toDigits (hp : p < Nat.pow 2 64) :
    position? (String.ofList (Nat.toDigits 10 p)) = some p := by
  have hvalue : (Nat.toDigits 10 p).foldl (fun n d => n * 10 + (d.toNat - '0'.toNat)) 0 = p := by
    have hv := Nat.ofDigitChars_ten_toDigits (n := p)
    simpa only [Nat.ofDigitChars, Nat.mul_comm 10] using hv
  have hdigits : ¬((Nat.toDigits 10 p).isEmpty = true ∨
      ¬(Nat.toDigits 10 p).all Char.isDigit = true) := by
    rw [not_or, not_not, List.all_eq_true, List.isEmpty_iff]
    exact ⟨Nat.toDigits_ne_nil, isDigit_of_position⟩
  have hplus : ∀ rest, Nat.toDigits 10 p ≠ '+' :: rest := fun rest hd =>
    absurd (isDigit_of_position '+' (by rw [hd]; exact List.mem_cons_self)) (by decide)
  generalize Nat.toDigits 10 p = cs at hvalue hdigits hplus
  rw [position?, String.toList_ofList]
  split
  · exact absurd rfl (hplus _)
  · simp only [hvalue]
    rw [if_neg hdigits]
    exact if_pos hp

theorem addItem_position (set : FlagSet) (index : Nat) (hp : 1 ≤ p ∧ p < Nat.pow 2 64) :
    addItem set index ("#" ++ toString p) = .ok { set with position := some p } := by
  have hlist := toList_position p
  have hread := position?_toDigits hp.2
  generalize "#" ++ toString p = item at hlist
  have hne (word : String) (hw : word.toList.head? ≠ some '#') : item ≠ word := by
    rintro rfl
    exact hw (by rw [hlist]; rfl)
  simp only [addItem, hne "" (by decide), hne "opt" (by decide), hne "count" (by decide),
    hne "undoc" (by decide), false_and, if_false, hlist, hread]
  obtain ⟨q, rfl⟩ := Nat.exists_eq_add_of_le' hp.1
  rfl

theorem trimDashes_eq {name : String} (h : name.toList.head? ≠ some '-') :
    trimDashes name = name := by
  have hdrop : name.toList.dropWhile (· = '-') = name.toList := by
    cases hn : name.toList with
    | nil => rfl
    | cons c cs =>
      have hc : c ≠ '-' := fun hc => h (by rw [hn, hc]; rfl)
      rw [List.dropWhile_cons_of_neg (by simpa using hc)]
  rw [trimDashes, hdrop, String.ofList_toList]

theorem head?_intercalate {first : String} (hf : first.toList ≠ []) (rest : List String) :
    (separator.intercalate (first :: rest)).toList.head? = first.toList.head? := by
  rw [String.toList_intercalate, List.map_cons]
  cases rest.map String.toList with
  | nil => rw [List.intercalate_singleton]
  | cons next more =>
    rw [List.intercalate_cons_cons, List.append_assoc, List.head?_append_of_ne_nil _ hf]

-- The first item is no word, even if it looks like one.
theorem addItem_aliases (h : set.Canonical) (ha : set.aliases ≠ []) (base : FlagSet) :
    addItem base 0 ("|".intercalate set.aliases) = .ok { base with aliases := set.aliases } := by
  have hsolid : ∀ name ∈ set.aliases, Solid name.toList :=
    fun name hm => (h.aliases name hm).1.solid
  have hparts : parts '|' ("|".intercalate set.aliases) = set.aliases :=
    parts_intercalate rfl ha fun name hm => (h.aliases name hm).1.mono (by simp)
  have hdashes : set.aliases.map trimDashes = set.aliases :=
    (List.map_congr_left fun name hm => trimDashes_eq (h.aliases name hm).2).trans (List.map_id _)
  obtain ⟨first, rest, hfirst⟩ := List.exists_cons_of_ne_nil ha
  have hhead : ("|".intercalate set.aliases).toList.head? = first.toList.head? := by
    rw [hfirst]
    exact head?_intercalate (hsolid first (by simp [hfirst])).taken rest
  have hhash := h.first first (by simp [hfirst])
  generalize "|".intercalate set.aliases = item at hparts hhead
  have hitem : item ≠ "" := by
    rintro rfl
    exact (hsolid first (by simp [hfirst])).taken (List.head?_eq_none_iff.1 hhead.symm)
  rw [addItem, if_neg (not_and_of_not_left _ hitem), if_neg (not_and_of_not_right _ (by decide)),
    if_neg (not_and_of_not_right _ (by decide)), if_neg (not_and_of_not_right _ (by decide))]
  split
  · next rest hl =>
    rw [hl] at hhead
    exact absurd hhead.symm hhash
  · rw [if_pos rfl, hparts, hdashes, filter_solid hsolid]

-- Behind the first item, the words are read as such.
theorem addItems_words (set : FlagSet) (commands aliases : List String) (position : Option Nat)
    (hi : 0 < index) :
    addItems ⟨commands, aliases, position, false, false, false⟩ index set.words =
      .ok ⟨commands, aliases, position, set.optional, set.counting, set.undocumented⟩ := by
  rw [FlagSet.words]
  cases set.optional <;> cases set.counting <;> cases set.undocumented <;>
    simp [addItems, addItem, hi, Bind.bind, Except.bind]

-- The items of a set are read back.
theorem addItems_items (h : set.Canonical) :
    addItems { commands := set.commands } 0 set.items = .ok set := by
  rw [FlagSet.items]
  by_cases ha : set.aliases = []
  · obtain ⟨p, hp⟩ := Option.isSome_iff_exists.1 (h.declared.resolve_left (not_not_intro ha))
    have hitem := addItem_position { commands := set.commands } 0 (h.positions p hp)
    have hwords := addItems_words set set.commands [] (some p) Nat.one_pos
    rw [ha, hp]
    show addItems _ 0 (("#" ++ toString p) :: set.words) = _
    rw [addItems, hitem]
    refine hwords.trans ?_
    rw [← ha, ← hp]
  · have hitem := addItem_aliases h ha { commands := set.commands }
    have hempty : set.aliases.isEmpty = false := by simpa using ha
    simp only [hempty, Bool.false_eq_true, if_false]
    show addItems _ 0 ("|".intercalate set.aliases :: _) = _
    rw [addItems, hitem]
    cases hp : set.position with
    | none =>
      refine (addItems_words set set.commands set.aliases none Nat.one_pos).trans ?_
      rw [← hp]
    | some p =>
      show addItems _ 1 (("#" ++ toString p) :: set.words) = _
      rw [addItems, addItem_position _ _ (h.positions p hp)]
      refine (addItems_words set set.commands set.aliases (some p) Nat.two_pos).trans ?_
      rw [← hp]

end Items

theorem isWhiteSpace_of_isDigit (h : c.isDigit = true) : Text.isWhiteSpace c = false := by
  have all : ∀ n < 58, 48 ≤ n → Text.isWhiteSpace (Char.ofNat n) = false := by decide +kernel
  simp only [Char.isDigit, Bool.and_eq_true, decide_eq_true_eq, UInt32.le_iff_toNat_le] at h
  have hc := all c.toNat (Nat.lt_succ_of_le h.2) h.1
  rwa [Char.ofNat_toNat] at hc

theorem tagName_position (p : Nat) : TagName [';', ','] ("#" ++ toString p) := by
  constructor <;> rw [toList_position]
  · refine ⟨List.cons_ne_nil _ _, ?_, fun c hc => isWhiteSpace_of_isDigit ?_⟩
    · rintro c ⟨⟩
      decide +kernel
    · rw [List.getLast?_cons_of_ne_nil Nat.toDigits_ne_nil] at hc
      exact isDigit_of_position c (List.mem_of_getLast? hc)
  · intro c hc hm
    have hplain : c ≠ '#' ∧ c.isDigit = false := by
      rcases List.mem_pair.1 hc with rfl | rfl <;> decide
    rcases List.mem_cons.1 hm with rfl | hd
    · exact hplain.1 rfl
    · rw [isDigit_of_position c hd] at hplain
      cases hplain.2

theorem tagName_words : ∀ word ∈ set.words, TagName [';', ','] word := by
  have hall : ∀ word ∈ ["opt", "count", "undoc"], TagName [';', ','] word := by decide +kernel
  refine fun word hw => hall word ?_
  rw [FlagSet.words] at hw
  cases set.optional <;> cases set.counting <;> cases set.undocumented <;> simp at hw ⊢ <;> tauto

-- Every item is a part of its own.
theorem tagName_items (h : set.Canonical) : ∀ item ∈ set.items, TagName [';', ','] item := by
  intro item hi
  rw [FlagSet.items, List.mem_append, List.mem_append] at hi
  rcases hi with hi | hi | hi
  · by_cases ha : set.aliases = []
    · simp [ha] at hi
    obtain rfl : item = "|".intercalate set.aliases := by simpa [ha] using hi
    exact .intercalate (by simp) ha fun name hm => (h.aliases name hm).1.mono (by simp)
  · obtain ⟨p, -, rfl⟩ : ∃ p, set.position = some p ∧ "#" ++ toString p = item := by
      simpa [Option.map_eq_some_iff] using hi
    exact tagName_position p
  · exact tagName_words item hi

theorem items_ne_nil (h : set.Canonical) : set.items ≠ [] := by
  rw [FlagSet.items]
  rcases h.declared with ha | hp
  · simp [ha]
  · obtain ⟨p, hp⟩ := Option.isSome_iff_exists.1 hp
    simp [hp]

-- The names of the commands end at the first equals sign.
theorem toList_written (set : FlagSet) : set.written.toList =
    ("|".intercalate set.commands).toList ++ '=' :: (",".intercalate set.items).toList := by
  rw [FlagSet.written, String.toList_append, String.toList_append, List.append_assoc]
  rfl

-- The commands are one text between bars, without the equals sign that comes next.
theorem tagName_commands (h : set.Canonical) :
    TagName [';', ',', '='] ("|".intercalate set.commands) :=
  .intercalate (by simp) h.named fun name hm => (h.commands name hm).mono (by simp)

theorem tagName_written (h : set.Canonical) : TagName [';'] set.written := by
  have hcommands := tagName_commands h
  have hitems : TagName [';'] (",".intercalate set.items) :=
    .intercalate (by simp) (items_ne_nil h) fun item hm => (tagName_items h item hm).mono (by simp)
  constructor <;> rw [toList_written]
  · simpa using hcommands.solid.append hitems.solid ['=']
  · intro c hc
    obtain rfl := List.mem_singleton.1 hc
    rw [List.mem_append, List.mem_cons]
    exact not_or.2 ⟨hcommands.plain ';' (by simp), not_or.2 ⟨by decide, hitems.plain ';' hc⟩⟩

-- A set is read as it is written.
theorem readSet_written (h : set.Canonical) : readSet set.written = .ok set := by
  have hcommands : ∀ name ∈ set.commands, Solid name.toList :=
    fun name hm => (h.commands name hm).solid
  have hequals := (tagName_commands h).plain '=' (by simp)
  have hnames : parts '|' ("|".intercalate set.commands) = set.commands :=
    parts_intercalate rfl h.named fun name hm => (h.commands name hm).mono (by simp)
  have hitems : parts ',' (",".intercalate set.items) = set.items :=
    parts_intercalate rfl (items_ne_nil h) fun item hm => (tagName_items h item hm).mono (by simp)
  have hnamed : set.commands.isEmpty = false := by simpa using h.named
  have hdeclared : ¬(set.aliases.isEmpty = true ∧ set.position.isNone = true) := by
    rintro ⟨ha, hp⟩
    rcases h.declared with hd | hd
    · exact hd (List.isEmpty_iff.1 ha)
    · rw [Option.isNone_iff_eq_none.1 hp] at hd
      cases hd
  rw [readSet, toList_written, Text.splitOnce_append hequals]
  simp only [String.ofList_toList, hnames, hitems, filter_solid hcommands, hnamed, addItems_items h,
    Bind.bind, Except.bind, if_neg hdeclared]
  rfl

-- Sets that are written as a tag are read back.
theorem readTag_written {sets : List FlagSet} (hn : sets ≠ [])
    (h : ∀ set ∈ sets, FlagSet.Canonical set) : readTag (writtenTag sets) = .ok sets := by
  have hname : ∀ part ∈ sets.map FlagSet.written, TagName [';'] part := by
    simpa using fun set hs => tagName_written (h set hs)
  have hparts : parts ';' (writtenTag sets) = sets.map FlagSet.written :=
    parts_intercalate rfl (by simpa using hn) hname
  have hread : (sets.map FlagSet.written).mapM readSet = .ok sets := by
    clear hn hname hparts
    induction sets with
    | nil => rfl
    | cons set sets ih =>
      obtain ⟨hset, hsets⟩ := List.forall_mem_cons.1 h
      rw [List.map_cons, List.mapM_cons, readSet_written hset, ih hsets]
      rfl
  have hempty : sets.isEmpty = false := by simpa using hn
  rw [readTag, hparts, filter_solid fun part hp => (hname part hp).solid, hread]
  simp only [Bind.bind, Except.bind, hempty]
  rfl

-- An alias that looks like a word, the largest position behind aliases, and a position in front of
-- words.
theorem readTag_written_words :
    let sets : List FlagSet :=
      [⟨["*"], ["opt", "a=b"], some 18446744073709551615, true, false, false⟩,
        ⟨["copy", "move it"], [], some 1, false, true, true⟩]
    sets ≠ [] ∧ (∀ set ∈ sets, FlagSet.Canonical set) ∧
      writtenTag sets = "*=opt|a=b,#18446744073709551615,opt;copy|move it=#1,count,undoc" ∧
      readTag (writtenTag sets) = .ok sets := by
  intro sets
  have hn : sets ≠ [] := List.cons_ne_nil _ _
  have hc : ∀ set ∈ sets, FlagSet.Canonical set := by decide +kernel
  exact ⟨hn, hc, by decide +kernel, readTag_written hn hc⟩

end CommandShell.Binding
