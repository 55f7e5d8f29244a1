import CommandShell.Binding.Binder
import CommandShell.Proofs.Scanner.Grouping

namespace CommandShell.Binding

open Script (Argued Token)
open Binder (belongs)

-- An argument as it is written: an option, or a word of pieces that touch.
inductive Argument where
  | option (token : Token)
  | word (first : Token) (more : List Token)
deriving DecidableEq, Repr

namespace Argument

-- A piece in front of arguments begins the first of their words if it touches it.
def withPiece (t : Token) : List Argument → List Argument
  | .word first more :: rest =>
    if t.touches first then .word t (first :: more) :: rest
    else .word t [] :: .word first more :: rest
  | rest => .word t [] :: rest

-- The arguments that some tokens make, by where the tokens stand.
def ofTokens : List Token → List Argument
  | [] => []
  | t :: rest =>
    if t.kind = .option then .option t :: ofTokens rest else withPiece t (ofTokens rest)

end Argument

namespace Filling

variable (table : Table) (command : String) (interpolate : Interpolation)

-- Bind arguments one after the other: those from script index `index` on, behind `words` words
-- that went to positions.  `options` is whether options may still come.
def walk (f : Filling) (options : Bool) (words index : Nat) :
    List Argument → Filling × Option BindError
  | [] => (f, none)
  | .option t :: rest =>
    if ¬options then (f, some ⟨.optionAfterArguments t.text, some index⟩)
    else
      match table.byOption? command t.text with
      | none => (f, some ⟨.unknownOption t.text, some index⟩)
      | some a =>
        if a.standsAlone then
          match f.raise a t.text index with
          | .error e => (f, some e)
          | .ok f => f.walk options words (index + 1) rest
        else
          match rest with
          | [] => (f, some ⟨.missingValue t.text, some index⟩)
          | .option _ :: _ => (f, some ⟨.emptyValue t.text, some (index + 1)⟩)
          | .word first more :: rest =>
            match f.take interpolate a a.set.display (index + 1) (first :: more) with
            | .error e => (f, some e)
            | .ok f => f.walk options words (index + 1 + (more.length + 1)) rest
  | .word first more :: rest =>
    match table.byPosition? command (words + 1) with
    | none => (f, some ⟨.unexpectedArgument (words + 1), some index⟩)
    | some a =>
      match f.take interpolate a (a.called (words + 1)) index (first :: more) with
      | .error e => (f, some e)
      | .ok f => f.walk (options && a.shape ≠ .list) (words + 1) (index + (more.length + 1)) rest

end Filling

-- Bind arguments onto values that are there already, by nothing but their order.
def bindInOrder (slots : List Slot) (table : Table) (command : String) (first : Nat)
    (arguments : List Argument) (interpolate : Interpolation) : List Slot × Option BindError :=
  Filling.close table command <|
    Filling.walk table command interpolate ⟨slots, []⟩ true 0 first arguments

section Numbering

variable {t u : Token} {rest tokens : List Token}

-- Behind an option or a piece the group is the same for a piece that touches, else the next one.
theorem group_of_argued (h : Argued (t :: u :: rest)) :
    u.group = if t.touches u then t.group else t.group + 1 := by
  have hc := (List.isChain_cons_cons.1 h.counted).1
  exact hc (Script.isStructural_of_isPiece (h.pieces t (by simp)))
    (Script.isStructural_of_isPiece (h.pieces u (by simp)))

-- The pieces of a group are those that touch one another.
theorem belongs_eq_touches (h : Argued (t :: u :: rest)) : belongs t.group u = t.touches u := by
  have hg := group_of_argued h
  cases hu : t.touches u with
  | true =>
    rw [hu, if_pos rfl] at hg
    have ha : u.kind.isArgument = true := by
      simp only [Token.touches, Bool.and_eq_true] at hu
      exact hu.1.2
    simp [belongs, ha, hg]
  | false =>
    rw [hu, if_neg (by decide)] at hg
    simp [belongs, hg]

theorem Argued.of_suffix (h : Argued tokens) (hs : rest <:+ tokens) : Argued rest :=
  ⟨fun t ht => h.pieces t (hs.subset ht), fun t ht => h.positive t (hs.subset ht),
    h.counted.infix hs.isInfix⟩

theorem isArgument_of_argued (h : Argued (t :: rest)) (ht : t.kind ≠ .option) :
    t.kind.isArgument = true := by
  simpa [Script.TokenKind.isPiece, ht] using h.pieces t (List.mem_cons_self ..)

theorem ne_option_of_isArgument (h : t.kind.isArgument = true) : t.kind ≠ .option := by
  intro ho
  rw [ho] at h
  cases h

theorem group_of_option (h : Argued (t :: rest)) (ht : t.kind = .option) :
    ∀ u ∈ rest.head?, u.group = t.group + 1 := by
  intro u hu
  cases rest with
  | nil => cases hu
  | cons next rest =>
    obtain rfl : next = u := Option.some.inj hu
    have hn : t.touches next = false := by simp [Token.touches, ht, Script.TokenKind.isArgument]
    rw [group_of_argued h, hn, if_neg (by decide)]

-- Behind a word the next group starts.
theorem group_of_dropWhile (h : Argued (t :: rest)) :
    ∀ u ∈ (rest.dropWhile (belongs t.group)).head?, u.group = t.group + 1 := by
  induction rest generalizing t with
  | nil => simp
  | cons next rest ih =>
    have hg := group_of_argued h
    have hb := belongs_eq_touches h
    rw [List.dropWhile_cons]
    cases ht : t.touches next with
    | true =>
      rw [ht, if_pos rfl] at hg
      rw [hb, ht, if_pos rfl, ← hg]
      exact ih (Argued.of_suffix h (List.suffix_cons ..))
    | false =>
      rw [ht, if_neg (by decide)] at hg
      rw [hb, ht, if_neg (by decide)]
      intro u hu
      rw [List.head?_cons, Option.mem_some] at hu
      exact hu ▸ hg

-- A word takes all pieces of its group.
theorem ofTokens_word (h : Argued (t :: rest)) (ht : t.kind ≠ .option) :
    Argument.ofTokens (t :: rest) =
      .word t (rest.takeWhile (belongs t.group)) ::
        Argument.ofTokens (rest.dropWhile (belongs t.group)) := by
  induction rest generalizing t with
  | nil => simp [Argument.ofTokens, Argument.withPiece, ht]
  | cons next rest ih =>
    have hg := group_of_argued h
    have hb := belongs_eq_touches h
    rw [Argument.ofTokens, if_neg ht, List.takeWhile_cons, List.dropWhile_cons, hb]
    by_cases ho : next.kind = .option
    · have hn : t.touches next = false := by simp [Token.touches, ho, Script.TokenKind.isArgument]
      simp [Argument.ofTokens, Argument.withPiece, ho, hn]
    · rw [ih (Argued.of_suffix h (List.suffix_cons ..)) ho, Argument.withPiece]
      cases hn : t.touches next with
      | true =>
        rw [hn, if_pos rfl] at hg
        simp [hg]
      | false => simp [ih (Argued.of_suffix h (List.suffix_cons ..)) ho]

end Numbering

section Run

variable (table : Table) (command : String) (interpolate : Interpolation)

-- The base is kept so that the group of the next word is behind it by the word's position.
theorem run_eq_walk (b : Binder) (index words : Nat) (tokens : List Token) (h : Argued tokens)
    (hw : ∀ t ∈ tokens.head?, t.group = b.base + words + 1) :
    Binder.run table command interpolate b index tokens =
      Filling.walk table command interpolate b.toFilling b.options words index
        (Argument.ofTokens tokens) := by
  fun_induction Binder.run table command interpolate b index tokens generalizing words with
  | case1 => simp [Argument.ofTokens, Filling.walk]
  | case2 b index t rest hk ho => simp [Argument.ofTokens, Filling.walk, hk, ho]
  | case3 b index t rest hk ho hf => simp [Argument.ofTokens, Filling.walk, hk, ho, hf]
  | case4 b index t rest hk ho a hf ha e he =>
    simp [Argument.ofTokens, Filling.walk, hk, ho, hf, ha, he]
  | case5 b index t rest hk ho a hf ha f he ih =>
    have hrest : Argued rest := Argued.of_suffix h (List.suffix_cons ..)
    have hnext : ∀ u ∈ rest.head?, u.group = b.base + 1 + words + 1 := by
      intro u hu
      have ht := hw t rfl
      have hg := group_of_option h hk u hu
      omega
    rw [ih words hrest hnext]
    simp [Argument.ofTokens, Filling.walk, hk, ho, hf, ha, he]
  | case6 b index t hk ho a hf ha => simp [Argument.ofTokens, Filling.walk, hk, ho, hf, ha]
  | case7 b index t hk ho a hf ha head more hn =>
    have hhead : Argued (head :: more) := Argued.of_suffix h (List.suffix_cons ..)
    have hoption : head.kind = .option := by
      by_contra hne
      exact hn (isArgument_of_argued hhead hne)
    simp [Argument.ofTokens, Filling.walk, hk, ho, hf, ha, hoption]
  | case8 b index t hk ho a hf ha head more hn pieces e he =>
    have hhead : Argued (head :: more) := Argued.of_suffix h (List.suffix_cons ..)
    have hword := ofTokens_word hhead (ne_option_of_isArgument (not_not.1 hn))
    rw [Argument.ofTokens, if_pos hk, hword]
    simp [Filling.walk, ho, hf, ha, he, pieces]
  | case9 b index t hk ho a hf ha head more hn pieces f he ih =>
    have hhead : Argued (head :: more) := Argued.of_suffix h (List.suffix_cons ..)
    have hword := ofTokens_word hhead (ne_option_of_isArgument (not_not.1 hn))
    have hrest : Argued (more.dropWhile (belongs head.group)) :=
      Argued.of_suffix hhead ((List.dropWhile_suffix _).trans (List.suffix_cons ..))
    have hnext : ∀ u ∈ (more.dropWhile (belongs head.group)).head?,
        u.group = b.base + 2 + words + 1 := by
      intro u hu
      have ht := hw t rfl
      have hv := group_of_option h hk head rfl
      have hg := group_of_dropWhile hhead u hu
      omega
    rw [ih words hrest hnext, Argument.ofTokens, if_pos hk, hword]
    simp [Filling.walk, ho, hf, ha, he, pieces]
  | case10 b index t rest hk position hf =>
    have ht := hw t rfl
    have hp : position = words + 1 := by omega
    rw [ofTokens_word h hk]
    simp [Filling.walk, ← hp, hf]
  | case11 b index t rest hk position a hf hn => exact absurd (isArgument_of_argued h hk) hn
  | case12 b index t rest hk position a hf hn pieces e he =>
    have ht := hw t rfl
    have hp : position = words + 1 := by omega
    rw [ofTokens_word h hk]
    simp [Filling.walk, ← hp, hf, he, pieces]
  | case13 b index t rest hk position a hf hn pieces f he ih =>
    have ht := hw t rfl
    have hp : position = words + 1 := by omega
    have hrest : Argued (rest.dropWhile (belongs t.group)) :=
      Argued.of_suffix h ((List.dropWhile_suffix _).trans (List.suffix_cons ..))
    have hnext : ∀ u ∈ (rest.dropWhile (belongs t.group)).head?,
        u.group = b.base + (words + 1) + 1 := by
      intro u hu
      have hg := group_of_dropWhile h u hu
      omega
    rw [ih (words + 1) hrest hnext, ofTokens_word h hk]
    simp [Filling.walk, ← hp, hf, he, pieces]

-- The first group of a node's arguments is the one behind the base.
theorem bindOnto_eq_of_argued (slots : List Slot) (args : Args) (h : Argued args.tokens) :
    bindOnto slots table command args interpolate =
      bindInOrder slots table command args.first (Argument.ofTokens args.tokens) interpolate := by
  have hbase : ∀ t ∈ args.tokens.head?,
      t.group = (args.tokens.head?.map (·.group - 1)).getD 0 + 0 + 1 := by
    intro t ht
    have hpos := h.positive t (List.mem_of_mem_head? ht)
    rw [Option.mem_def.1 ht]
    simp
    omega
  rw [bindOnto, run_eq_walk table command interpolate _ _ 0 _ h hbase]
  rfl

end Run

open Script (Mode Scanner)

-- For every node of a script, binding by group numbers is binding by the order of the words.
theorem bindOnto_eq_bindInOrder {mode : Mode} {lines : List String} {s : Scanner} {script : Script}
    (hfed : (Scanner.starting mode).feedLines lines = (s, none)) (hs : s.finish.2 = .ok script)
    {node : Script.Node} (hn : node ∈ script.nodes) (slots : List Slot) (table : Table)
    (command : String) (interpolate : Interpolation) :
    bindOnto slots table command ⟨script.argsOf node, node.firstArg⟩ interpolate =
      bindInOrder slots table command node.firstArg (Argument.ofTokens (script.argsOf node))
        interpolate := by
  have hg : Script.Grouped s := (Script.grouped_starting mode).of_feedLines hfed
  exact bindOnto_eq_of_argued table command interpolate slots ⟨_, _⟩
    (Script.argued_of_finish hg hs node hn)

-- A value that touches its option, pieces that touch, and a word behind the marker.
theorem bindOnto_eq_bindInOrder_of_marker :
    let limit : Field :=
      ⟨"limit", ⟨.optional, .integer false .bits32⟩, [{ commands := ["*"], aliases := ["l"] }]⟩
    let targets : Field :=
      ⟨"targets", ⟨.many, .text⟩, [{ commands := ["*"], position := some 1 }]⟩
    let table : Table := ⟨[limit, targets]⟩
    let fed := (Scanner.starting .command).feedLines ["a b", "copy -l'3' s'rc' -- -y"]
    let script := fed.1.snapshot
    let node := script.node 1
    let bound := ([Slot.optional (some (.integer 3)), .many [.text "src", .text "-y"]], none)
    fed.2 = none ∧ fed.1.finish.2 = .ok script ∧ node ∈ script.nodes ∧
      bindOnto table.initial table "copy" ⟨script.argsOf node, node.firstArg⟩ .ok = bound ∧
      bindInOrder table.initial table "copy" node.firstArg (Argument.ofTokens (script.argsOf node))
        .ok = bound := by
  intro limit targets table fed script node bound
  have hfed : fed.2 = none := by decide +kernel
  have hs : fed.1.finish.2 = .ok script := by decide +kernel
  have hn : node ∈ script.nodes := by decide +kernel
  have hb : bindOnto table.initial table "copy" ⟨script.argsOf node, node.firstArg⟩ .ok =
      bound := by decide +kernel
  refine ⟨hfed, hs, hn, hb, ?_⟩
  rw [← bindOnto_eq_bindInOrder (Prod.ext rfl hfed) hs hn]
  exact hb

end CommandShell.Binding
