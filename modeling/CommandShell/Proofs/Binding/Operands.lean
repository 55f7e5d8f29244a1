import CommandShell.Binding.Binder
import CommandShell.Proofs.Scanner.Operands
import CommandShell.Session.State
import Mathlib.Data.List.Dedup

namespace CommandShell.Binding

open Binder (belongs)
open Script (Groups Names Operand Style Token Written)

-- The first position of a command is a list of texts, so are the next ones up to the position
-- `count`, and nothing is required.
structure TakesTexts (table : Table) (command : String) (a : Active) (count : Nat) : Prop where
  active : a ∈ table.active command
  type : a.field.type = ⟨.many, .text⟩
  first : a.set.position = some 1
  only : ∀ b ∈ table.active command, b ≠ a → ∀ position ∈ b.set.position, count < position
  optional : ∀ b ∈ table.active command, b.isOptional = true

variable {table : Table} {command : String} {a : Active} {count : Nat}
  {interpolate : Interpolation}

theorem find?_of_unique {α : Type} {test : α → Bool} {x : α} {xs : List α} (hx : x ∈ xs)
    (ht : test x = true) (hu : ∀ y ∈ xs, test y = true → y = x) : xs.find? test = some x := by
  cases hf : xs.find? test with
  | none => exact absurd ht (List.find?_eq_none.1 hf x hx)
  | some y => rw [hu y (List.mem_of_find?_eq_some hf) (List.find?_some hf)]

namespace TakesTexts

theorem shape (h : TakesTexts table command a count) : a.shape = .list := by
  rw [Active.shape, h.type]
  rfl

-- The list is at the first position, and it is the last list before every other one.
theorem byPosition? (h : TakesTexts table command a count) {position : Nat} (hp : 0 < position)
    (hc : position ≤ count) : table.byPosition? command position = some a := by
  have hown : ∀ b ∈ table.active command, ∀ p ∈ b.set.position, p ≤ position → b = a := by
    intro b hb p hbp hle
    by_contra hne
    have hlt := h.only b hb hne p hbp
    omega
  by_cases h1 : position = 1
  · have hfirst : (table.active command).find? (fun b => b.set.position = some position) =
        some a := by
      refine find?_of_unique h.active (by simp [h.first, h1]) fun b hb ht => ?_
      exact hown b hb position (by simpa using ht) (Nat.le_refl _)
    rw [Table.byPosition?, hfirst]
    rfl
  · have hnone : (table.active command).find? (fun b => b.set.position = some position) = none := by
      refine List.find?_eq_none.2 fun b hb ht => ?_
      rw [decide_eq_true_eq] at ht
      rw [hown b hb position ht (Nat.le_refl _), h.first] at ht
      exact h1 (Option.some.inj ht).symm
    have hlast : (table.active command).reverse.find?
        (fun b => b.shape = .list && b.set.position.any (· < position)) = some a := by
      refine find?_of_unique (List.mem_reverse.2 h.active) ?_ fun b hb ht => ?_
      · simp [h.shape, h.first]
        omega
      · rw [Bool.and_eq_true, Option.any_eq_true] at ht
        obtain ⟨-, p, hbp, hlt⟩ := ht
        exact hown b (List.mem_reverse.1 hb) p hbp (by simp at hlt; omega)
    rw [Table.byPosition?, hnone]
    exact hlast

theorem omission? (h : TakesTexts table command a count) (f : Filling) :
    f.omission? table command = none := by
  have hm : ((table.active command).filter fun b =>
      !(f.given.contains b.index || b.isOptional)) = [] := by
    rw [List.filter_eq_nil_iff]
    intro b hb
    simp [h.optional b hb]
  simp only [Filling.omission?, hm]
  rfl

-- One more text goes to the end of the list.
theorem store (h : TakesTexts table command a count) {f : Filling} {texts : List Scalar}
    (hf : f.slots[a.index]? = some (.many texts)) (name text : String) (index : Nat) :
    f.store a name text index = .ok (f.give a (.many (texts ++ [.text text]))) := by
  have hs : ¬(a.index ∈ f.given ∧ a.shape = .scalar) := by
    rw [h.shape]
    simp
  rw [Filling.store, if_neg hs, Filling.slot, hf, h.type]
  rfl

end TakesTexts

-- A piece that stands for itself: it is not expanded, or that leaves it as it is.
def Literal (interpolate : Interpolation) (t : Token) : Prop :=
  t.kind = .singleQuoted ∨ interpolate t.text = .ok t.text

theorem expand_of_literal {t : Token} (h : Literal interpolate t) (index : Nat) :
    expand interpolate index t = .ok t.text := by
  by_cases hk : t.kind = .singleQuoted
  · rw [expand, if_pos hk]
  · rw [expand, if_neg hk, h.resolve_left hk]
    rfl

theorem assemble_of_literal {tokens : List Token} (h : ∀ t ∈ tokens, Literal interpolate t)
    (index : Nat) :
    assemble interpolate index tokens = .ok (String.ofList (tokens.flatMap (·.text.toList))) := by
  induction tokens generalizing index with
  | nil => rfl
  | cons t rest ih =>
    have ht := expand_of_literal (h t (List.mem_cons_self ..)) index
    have hrest := ih (fun u hu => h u (List.mem_cons_of_mem _ hu)) (index + 1)
    rw [assemble, ht, hrest, List.flatMap_cons, String.ofList_append, String.ofList_toList]
    rfl

section Run

variable {operands : List Operand} {tokens : List Token} {group : Nat}

theorem group_of_head?_groups (h : Groups group operands tokens) :
    ∀ t ∈ tokens.head?, t.group = group := by
  cases h with
  | nil => simp
  | @cons _ _ _ tokens more first rest =>
    intro t ht
    cases tokens with
    | nil => exact absurd rfl first.taken
    | cons u tail =>
      obtain rfl : u = t := Option.some.inj ht
      exact (first.pieces u (List.mem_cons_self ..)).2

-- A word goes to the field at its position.
theorem run_word {t : Token} {tail more : List Token} {b : Binder} {f : Filling} {index : Nat}
    (ht : t.kind.isArgument = true) (htail : ∀ u ∈ tail, belongs t.group u = true)
    (hmore : ∀ u ∈ more.head?, belongs t.group u = false)
    (hp : table.byPosition? command (t.group - b.base) = some a)
    (hf : b.take interpolate a (a.called (t.group - b.base)) index (t :: tail) = .ok f) :
    Binder.run table command interpolate b index (t :: (tail ++ more)) =
      Binder.run table command interpolate
        { b with toFilling := f, options := b.options && a.shape ≠ .list }
        (index + (tail.length + 1)) more := by
  have hk : t.kind ≠ .option := by
    intro hk
    rw [hk] at ht
    cases ht
  have htake : (tail ++ more).takeWhile (belongs t.group) = tail := by
    rw [List.takeWhile_append_of_pos htail]
    cases more with
    | nil => simp
    | cons u rest => simp [hmore u rfl]
  have hdrop : (tail ++ more).dropWhile (belongs t.group) = more := by
    rw [List.dropWhile_append_of_pos htail]
    cases more with
    | nil => rfl
    | cons u rest => simp [hmore u rfl]
  rw [Binder.run, if_neg hk]
  simp only [hp, ht, htake, hdrop, hf, not_true, if_false, List.length_cons]

-- Every group of arguments puts its text at the end of the list.
theorem run_groups (h : TakesTexts table command a count) (hg : Groups group operands tokens)
    (hl : ∀ t ∈ tokens, Literal interpolate t) {b : Binder} {texts : List Scalar}
    (hb : b.slots[a.index]? = some (.many texts)) (hbase : b.base < group)
    (hc : ∀ n < operands.length, group + n - b.base ≤ count) (index : Nat) :
    ∃ f, Binder.run table command interpolate b index tokens = (f, none) ∧
      f.slots = b.slots.set a.index (.many (texts ++ operands.map (.text ·.content))) := by
  induction hg generalizing b texts index with
  | nil =>
    refine ⟨b.toFilling, by rw [Binder.run], ?_⟩
    obtain ⟨hi, he⟩ := List.getElem?_eq_some_iff.1 hb
    rw [List.map_nil, List.append_nil, ← he, List.set_getElem_self]
  | @cons group operand operands tokens more first rest ih =>
    cases tokens with
    | nil => exact absurd rfl first.taken
    | cons t tail =>
      obtain ⟨ht, htg⟩ := first.pieces t (List.mem_cons_self ..)
      have htail : ∀ u ∈ tail, belongs t.group u = true := by
        intro u hu
        obtain ⟨hk, hug⟩ := first.pieces u (List.mem_cons_of_mem _ hu)
        simp [belongs, hk, hug, htg]
      have hmore : ∀ u ∈ more.head?, belongs t.group u = false := by
        intro u hu
        have hug := group_of_head?_groups rest u hu
        simp [belongs, hug, htg]
      have hfirst := hc 0 (by simp)
      have hposition : table.byPosition? command (t.group - b.base) = some a :=
        h.byPosition? (by omega) (by omega)
      have hassemble : assemble interpolate index (t :: tail) = .ok operand.content := by
        rw [assemble_of_literal (fun u hu => hl u (List.mem_append_left _ hu)), first.text,
          String.ofList_toList]
      have htake : b.take interpolate a (a.called (t.group - b.base)) index (t :: tail) =
          .ok (b.give a (.many (texts ++ [.text operand.content]))) := by
        rw [Filling.take, hassemble]
        exact h.store hb _ _ _
      have hi : a.index < b.slots.length := (List.getElem?_eq_some_iff.1 hb).1
      rw [List.cons_append, run_word ht htail hmore hposition htake]
      let next : Binder :=
        { b with
          toFilling := b.give a (.many (texts ++ [.text operand.content]))
          options := b.options && a.shape ≠ .list }
      have hnext : next.slots[a.index]? = some (.many (texts ++ [.text operand.content])) := by
        simp [next, Filling.give, hi]
      have hmoreLiteral : ∀ u ∈ more, Literal interpolate u :=
        fun u hu => hl u (List.mem_append_right _ hu)
      have hmoreCount : ∀ n < operands.length, group + 1 + n - next.base ≤ count := by
        intro n hn
        have hsucc := hc (n + 1) (by simpa using hn)
        simp only [next]
        omega
      obtain ⟨f, hrun, hf⟩ := ih hmoreLiteral hnext (Nat.lt_succ_of_lt hbase) hmoreCount _
      refine ⟨f, hrun, ?_⟩
      rw [hf]
      simp [next, Filling.give]

theorem base_of_groups (h : Groups 2 operands tokens) :
    (tokens.head?.map (·.group - 1)).getD 0 = if operands = [] then 0 else 1 := by
  cases h with
  | nil => rfl
  | @cons _ _ _ tokens more first rest =>
    cases tokens with
    | nil => exact absurd rfl first.taken
    | cons t tail => simp [(first.pieces t (List.mem_cons_self ..)).2]

-- Bound from the first group behind the command's name on.
theorem bind_groups (h : TakesTexts table command a operands.length) (hg : Groups 2 operands tokens)
    (hl : ∀ t ∈ tokens, Literal interpolate t) (first : Nat) :
    bind table command ⟨tokens, first⟩ interpolate =
      .ok (table.initial.set a.index (.many (operands.map (.text ·.content)))) := by
  have hfield := Table.getElem?_of_mem_active h.active
  have hinitial : table.initial[a.index]? = some (.many []) := by
    rw [Table.initial, List.getElem?_map, hfield]
    simp [h.type, FieldType.initial]
  let b : Binder := ⟨⟨table.initial, []⟩, if operands = [] then 0 else 1, true⟩
  have hbase : b.base < 2 := by
    simp only [b]
    split <;> omega
  have hcount : ∀ n < operands.length, 2 + n - b.base ≤ operands.length := by
    intro n hn
    have hne : operands ≠ [] := List.length_pos_iff.1 (Nat.zero_lt_of_lt hn)
    simp only [b, if_neg hne]
    omega
  obtain ⟨f, hrun, hf⟩ := run_groups h hg hl (b := b) hinitial hbase hcount first
  have hbind : bindOnto table.initial table command ⟨tokens, first⟩ interpolate =
      (f.slots, none) := by
    rw [bindOnto, base_of_groups hg, hrun, Filling.close, h.omission?]
  rw [bind, bindFrom, hbind, hf]
  simp [b]

end Run

section Groups

variable {operands : List Operand} {tokens : List Token} {group : Nat}

theorem le_group_of_groups (h : Groups group operands tokens) : ∀ t ∈ tokens, group ≤ t.group := by
  induction h with
  | nil => simp
  | cons first rest ih =>
    intro t ht
    rcases List.mem_append.1 ht with ht | ht
    · exact (first.pieces t ht).2.ge
    · exact Nat.le_of_succ_le (ih t ht)

-- The groups are numbered one after the other, one for each text.
theorem dedup_groups (h : Groups group operands tokens) :
    (tokens.map (·.group)).dedup = List.range' group operands.length := by
  induction h with
  | nil => rfl
  | @cons group operand operands tokens more first rest ih =>
    have hnone : group ∉ more.map (·.group) := by
      intro hm
      obtain ⟨t, ht, hg⟩ := List.mem_map.1 hm
      have hle := le_group_of_groups rest t ht
      omega
    have hfirst : tokens.map (·.group) = List.replicate tokens.length group := by
      refine List.eq_replicate_iff.2 ⟨by simp, fun n hm => ?_⟩
      obtain ⟨t, ht, rfl⟩ := List.mem_map.1 hm
      exact (first.pieces t ht).2
    have hdisjoint : List.Disjoint (List.replicate tokens.length group) (more.map (·.group)) := by
      intro n hn hm
      obtain rfl := List.eq_of_mem_replicate hn
      exact hnone hm
    have hlength : tokens.length ≠ 0 := by simpa using first.taken
    rw [List.map_append, hfirst, List.Disjoint.dedup_append hdisjoint,
      List.replicate_dedup hlength, ih, List.length_cons, List.range'_succ]
    rfl

theorem literal_of_groups (h : Groups group operands tokens)
    (hi : (∀ s, interpolate s = .ok s) ∨
      (∀ operand ∈ operands, operand.style = .single) ∧ interpolate "'" = .ok "'") :
    ∀ t ∈ tokens, Literal interpolate t := by
  induction h with
  | nil => simp
  | cons first rest ih =>
    intro t ht
    rcases List.mem_append.1 ht with ht | ht
    · rcases first.kinds t ht with hk | hd | hquote
      · exact .inl hk
      · rcases hi with hi | ⟨hs, -⟩
        · exact .inr (hi _)
        · rw [hs _ (List.mem_cons_self ..)] at hd
          cases hd
      · rcases hi with hi | ⟨-, hi⟩
        · exact .inr (hi _)
        · exact .inr (hquote ▸ hi)
    · exact ih (hi.imp_right fun h => ⟨fun o ho => h.1 o (List.mem_cons_of_mem _ ho), h.2⟩) t ht

end Groups

theorem interpolation_quote (session : Session) : session.interpolation "'" = .ok "'" := by
  simp [Session.interpolation, Session.Context.interpolate, Session.expandVariables]
  rfl

-- Texts in quotes behind a command's name reach the command as they are: each is an argument of its
-- own, and a list takes exactly these texts.  Under single quotes no variable is expanded.
theorem exists_bind_operands {name text : List Char} (hn : Names name text)
    (operands : List Operand) (h : TakesTexts table command a operands.length) :
    ∃ script node,
      Script.tokenize (String.ofList (name ++ operands.flatMap (·.source))) = .ok script ∧
      script.commands = [.mk node [] []] ∧ script.nodes = #[node] ∧
      (script.token node.extent.first).text = String.ofList text ∧
      ((script.argsOf node).map (·.group)).dedup = List.range' 2 operands.length ∧
      let bound := table.initial.set a.index (.many (operands.map (.text ·.content)))
      bind table command ⟨script.argsOf node, node.firstArg⟩ .ok = .ok bound ∧
      ((∀ operand ∈ operands, operand.style = .single) → ∀ session : Session,
        bind table command ⟨script.argsOf node, node.firstArg⟩ session.interpolation =
          .ok bound) := by
  obtain ⟨script, node, htokenize, hcommands, hnodes, htext, hgroups⟩ :=
    Script.exists_tokenize hn operands
  refine ⟨script, node, htokenize, hcommands, hnodes, htext, dedup_groups hgroups, ?_, ?_⟩
  · exact bind_groups h hgroups (literal_of_groups hgroups (.inl fun _ => rfl)) _
  · intro hsingle session
    have hl := literal_of_groups hgroups (.inr ⟨hsingle, interpolation_quote session⟩)
    exact bind_groups h hgroups hl _

-- A single quote and a dollar sign, escapes and a line end, nothing at all.
theorem exists_bind_operands_of_apostrophe :
    let set : FlagSet := { commands := ["*"], position := some 1, optional := true }
    let field : Field := ⟨"words", ⟨.many, .text⟩, [set]⟩
    let table : Table := ⟨[field]⟩
    let source := "echo 'it'\"'\"'s $HOME' \t\"a\\\\ \\\"b\\\"\n\" ''"
    Table.build [⟨"words", ⟨.many, .text⟩, "*=#1,opt"⟩] = .ok table ∧
      Names ['e', 'c', 'h', 'o'] ['e', 'c', 'h', 'o'] ∧ TakesTexts table "echo" ⟨0, field, set⟩ 3 ∧
      ∃ script node, Script.tokenize source = .ok script ∧ script.nodes = #[node] ∧
        ((script.argsOf node).map (·.group)).dedup = [2, 3, 4] ∧
        bind table "echo" ⟨script.argsOf node, node.firstArg⟩ .ok =
          .ok [.many [.text "it's $HOME", .text "a\\ \"b\"\n", .text ""]] := by
  intro set field table source
  have hbuild : Table.build [⟨"words", ⟨.many, .text⟩, "*=#1,opt"⟩] = .ok table := by
    decide +kernel
  have hn : Names ['e', 'c', 'h', 'o'] ['e', 'c', 'h', 'o'] := by
    refine ⟨by decide, by decide +kernel, by decide +kernel, by decide, ?_, by decide⟩
    intro cs h
    cases h
  have ht : TakesTexts table "echo" ⟨0, field, set⟩ 3 :=
    ⟨by decide +kernel, rfl, rfl, by decide +kernel, by decide +kernel⟩
  let operands : List Operand :=
    [⟨[' '], .single, "it's $HOME", by simp [Script.isBlank]⟩,
      ⟨[' ', '\t'], .double, "a\\ \"b\"\n", by simp [Script.isBlank]⟩,
      ⟨[' '], .single, "", by simp [Script.isBlank]⟩]
  have hsource : String.ofList (['e', 'c', 'h', 'o'] ++ operands.flatMap (·.source)) = source := by
    decide +kernel
  obtain ⟨script, node, htokenize, -, hnodes, -, hgroups, hbind, -⟩ :=
    exists_bind_operands hn operands ht
  exact ⟨hbuild, hn, ht, script, node, hsource ▸ htokenize, hnodes, hgroups, hbind⟩

end CommandShell.Binding
