import CommandShell.Handler.Library
import CommandShell.Proofs.Binding.Interleaving
import CommandShell.Proofs.Scanner.Redirected
import CommandShell.Session.Dispatch

namespace CommandShell.Session

open Binding (Active Args Binder Field Filling FlagSet Interpolation Slot Table spelling textOf?)
open Script (Cut Token TokenKind decoded joined? spelled?)
open Script.Scanner (Names Starts)

-- The name of the file, which has to be given.
def pathField : Field := ⟨"path", ⟨.one, .path⟩, [{ commands := ["*"], position := some 1 }]⟩

def appendField : Field :=
  ⟨"append", Handler.flagType, [{ commands := ["*"], aliases := ["a", "append"] }]⟩

section Binding

variable {tokens : List Token} {group : Nat}

theorem table_file (context : Context) :
    (Handler.Sink.file.options context).table = ⟨[pathField, appendField]⟩ := by
  show Handler.tableOf _ = _
  decide +kernel

-- Tokens of one group are one word.
theorem takeWhile_belongs (ht : ∀ t ∈ tokens, t.kind.isArgument = true ∧ t.group = group) :
    tokens.takeWhile (Binder.belongs group) = tokens ∧
      tokens.dropWhile (Binder.belongs group) = [] := by
  have hall : ∀ t ∈ tokens, Binder.belongs group t = true := by
    intro t hm
    obtain ⟨hk, hg⟩ := ht t hm
    simp [Binder.belongs, hk, hg]
  exact ⟨List.takeWhile_eq_self_iff.2 hall, List.dropWhile_eq_nil_iff.2 hall⟩

-- One word as the only argument is the name of the file, unless it cannot be interpolated.
theorem bind_file (context : Context) (interpolate : Interpolation) (first : Nat)
    (hn : tokens ≠ []) (hg : 0 < group)
    (ht : ∀ t ∈ tokens, t.kind.isArgument = true ∧ t.group = group) :
    ((Handler.Sink.file.options context).bind "file" ⟨tokens, first⟩ interpolate).toOption =
      (textOf? interpolate (spelling tokens)).map fun path =>
        [.one (.text path), .one (.bool false)] := by
  let a : Active := ⟨0, pathField, { commands := ["*"], position := some 1 }⟩
  have hvalues : (Handler.Sink.file.options context).values =
      [.one (.text ""), .one (.bool false)] := by
    show (Handler.tableOf _).initial = _
    decide +kernel
  have hposition : (Table.mk [pathField, appendField]).byPosition? "file" 1 = some a := by
    decide +kernel
  obtain ⟨t, tail, rfl⟩ := List.exists_cons_of_ne_nil hn
  obtain ⟨hk, rfl⟩ := ht t (List.mem_cons_self ..)
  obtain ⟨htake, hdrop⟩ := takeWhile_belongs fun u hu => ht u (List.mem_cons_of_mem _ hu)
  have hbase : t.group - (t.group - 1) = 1 := by omega
  rw [Handler.Options.bind, table_file, hvalues, Binding.bindFrom, Binding.bindOnto,
    ← Filling.toOption_assemble first]
  simp only [List.head?_cons, Option.map_some, Option.getD_some]
  rw [Binder.run, if_neg (Binding.ne_option_of_isArgument hk)]
  simp only [hbase, hposition, hk, htake, hdrop, not_true, if_false, Filling.take]
  cases Binding.assemble interpolate first (t :: tail) with
  | error e => rfl
  | ok path =>
    have hstore : (Filling.mk [.one (.text ""), .one (.bool false)] []).store a (a.called 1) path
        first = .ok ⟨[.one (.text path), .one (.bool false)], [0]⟩ := rfl
    have homission : (Filling.mk [.one (.text path), .one (.bool false)] [0]).omission?
        ⟨[pathField, appendField]⟩ "file" = none := rfl
    simp only [bind, Except.bind, hstore, Binder.run, Filling.close, homission]
    rfl

end Binding

-- The sink for files goes by its name.
structure Files (library : Handler.Library) : Prop where
  pipe : library.handler? .pipe "file" = none
  formatter : library.handler? .formatter "file" = none
  sink : library.handler? .sink "file" = some .file

-- Where the redirections of a text's first command send its output, if nothing is wrong with them.
def sinkOf (s : Session) (text : String) : Option Handler.Target := do
  let script ← (Script.tokenize text).toOption
  let chain ← (chainOf s script (← script.commands.head?)).toOption
  return (← chain.sink).stage

-- The path that a word stands for as an argument, from its pieces.
def pathOf? (s : Session) (pieces : List (TokenKind × List Char)) : Option String := do
  textOf? s.interpolation (← spelled? pieces)

section Sinks

variable {s : Session} {script : Script} {c : Script.Command} {r : Script.Redirection}
  {kind : TokenKind} {text name : String} {tokens args : List Token} {group : Nat}

theorem toOption_attachSink (hf : Files s.library) (i first : Nat) (hn : tokens ≠ [])
    (hg : 0 < group) (ht : ∀ t ∈ tokens, t.kind.isArgument = true ∧ t.group = group) :
    (attachSink s ⟨"file", i⟩ ⟨tokens, first⟩ {}).toOption =
      (textOf? s.interpolation (spelling tokens)).map fun path =>
        { sink := some ⟨"file", i, .file path false⟩ } := by
  have hbind := bind_file s.context s.interpolation first hn hg ht
  have hattach : attachSink s ⟨"file", i⟩ ⟨tokens, first⟩ {} =
      (bindAt s ⟨"file", i⟩ (Handler.Sink.file.options s.context) ⟨tokens, first⟩).map fun slots =>
        { sink := some ⟨"file", i, Handler.Sink.file.target slots⟩ } := by
    simp only [attachSink, hf.sink]
    rfl
  rw [hattach, bindAt]
  generalize (Handler.Sink.file.options s.context).bind "file" ⟨tokens, first⟩ s.interpolation =
    bound at hbind ⊢
  cases bound with
  | error e =>
    rw [Option.map_eq_none_iff.1 hbind.symm]
    rfl
  | ok slots =>
    obtain ⟨path, hpath, rfl⟩ := Option.map_eq_some_iff.1 hbind.symm
    rw [hpath]
    rfl

-- The chain of a command whose only redirection goes to a file.
theorem sinkOf_of_attach {path : Option String} (ht : Script.tokenize text = .ok script)
    (hd : script.Directs c r kind name args)
    (ha : (attach s script {} r).toOption =
      path.map fun path => { sink := some ⟨"file", r.head, .file path false⟩ }) :
    s.sinkOf text = path.map (.file · false) := by
  have hchain : chainOf s script c = (attach s script {} r).map (attachDefaults s c.head) := by
    rw [chainOf, hd.redirections, List.foldlM_cons]
    cases attach s script {} r <;> rfl
  rw [sinkOf, ht]
  show (script.commands.head?.bind fun c => (chainOf s script c).toOption.bind fun chain =>
    chain.sink.bind fun sink => some sink.stage) = _
  rw [hd.commands, List.head?_cons, Option.bind_some, hchain]
  cases path with
  | none =>
    cases hattach : attach s script {} r with
    | error e => rfl
    | ok chain => simp [hattach, Except.toOption] at ha
  | some path =>
    cases hattach : attach s script {} r with
    | error e => simp [hattach, Except.toOption] at ha
    | ok chain =>
      rw [hattach] at ha
      cases ha
      rfl

theorem sinkOf_of_error {e : Script.LexError} (h : Script.tokenize text = .error e) :
    s.sinkOf text = none := by
  rw [sinkOf, h]
  rfl

end Sinks

section Words

variable {s : Session} {front cs : List Char} {script : Script}
  {pieces : List (TokenKind × List Char)}

theorem sinkOf_file (hf : Files s.library) (hi : Script.Invokes front script) (hc : Cut cs pieces)
    (hn : cs ≠ []) :
    s.sinkOf (String.ofList (front ++ ' ' :: '>' :: ' ' :: cs)) =
      (s.pathOf? [(.bareArgument, cs)]).map (.file · false) := by
  rcases hi.tokenize_file hc hn with ⟨hnone, e, he⟩ | ⟨whole, c, r, path, hw, hpath, hd⟩
  · rw [sinkOf_of_error he, pathOf?, spelled?, hnone]
    rfl
  · have hpathOf : s.pathOf? [(.bareArgument, cs)] =
        textOf? s.interpolation [(.bareArgument, String.ofList path)] := by
      simp [pathOf?, spelled?, hpath]
    rw [hpathOf]
    refine sinkOf_of_attach hw hd ?_
    simp only [attach, hd.kind, ← hd.name]
    let token := whole.token r.head
    have hargument : ∀ t ∈ [{ token with kind := .bareArgument, group := 1, node := none }],
        t.kind.isArgument = true ∧ t.group = 1 := by simp [TokenKind.isArgument]
    exact toOption_attachSink hf r.head r.head (List.cons_ne_nil _ _) Nat.one_pos hargument

theorem sinkOf_named (hf : Files s.library) (hi : Script.Invokes front script) (hc : Cut cs pieces)
    (hn : cs ≠ []) (hs : Starts cs) :
    s.sinkOf (String.ofList
        (front ++ ' ' :: '|' :: ' ' :: (['f', 'i', 'l', 'e'] ++ ' ' :: cs))) =
      (s.pathOf? pieces).map (.file · false) := by
  have hname : Names ['f', 'i', 'l', 'e'] ['f', 'i', 'l', 'e'] :=
    ⟨by simp, by decide +kernel, by decide +kernel, by decide⟩
  rcases hi.tokenize_named hname hc hs with
    ⟨hnone, e, he⟩ | ⟨whole, c, r, args, hw, hspelled, ⟨group, hg, hall⟩, hd⟩
  · rw [sinkOf_of_error he, pathOf?, hnone]
    rfl
  · have hpathOf : s.pathOf? pieces = textOf? s.interpolation (spelling args) := by
      rw [pathOf?, hspelled]
      rfl
    have hargs : args ≠ [] := by
      rintro rfl
      cases pieces with
      | nil =>
        cases hc
        exact hn rfl
      | cons p pieces =>
        obtain ⟨text, more, -, -, hcons⟩ := Script.exists_of_spelled?_cons hspelled
        cases hcons
    rw [hpathOf]
    refine sinkOf_of_attach hw hd ?_
    simp only [attach, hd.kind, hd.blocks, hd.name, hd.args, attachNamed, hf.pipe, hf.formatter,
      hf.sink]
    exact toOption_attachSink hf r.head r.node.firstArg hargs hg hall

theorem expandVariables_of_plain (valueOf : String → Found) (h : '$' ∉ cs) :
    expandVariables valueOf cs = .ok cs := by
  induction cs with
  | nil => rw [expandVariables]
  | cons c cs ih =>
    obtain ⟨hc, hcs⟩ := not_or.1 fun hm => h (List.mem_cons.2 hm)
    rw [expandVariables, if_neg (Ne.symm hc), ih hcs]
    rfl

-- A text without variables and tildes stands for itself.
theorem interpolation_of_plain {text : String} (hd : '$' ∉ text.toList) (ht : '~' ∉ text.toList) :
    s.interpolation text = .ok text := by
  have hhead : text.toList.head? ≠ some '~' := fun h => ht (List.mem_of_head? h)
  simp [interpolation, Context.interpolate, expandVariables_of_plain _ hd, hhead]
  rfl

theorem textOf?_of_literal {interpolate : Interpolation} {texts : List (TokenKind × String)}
    (h : ∀ p ∈ texts, p.1 = .singleQuoted ∨ interpolate p.2 = .ok p.2) :
    textOf? interpolate texts = some (String.ofList (texts.flatMap (·.2.toList))) := by
  induction texts with
  | nil => rfl
  | cons p texts ih =>
    have hp : Binding.pieceText? interpolate p.1 p.2 = some p.2 := by
      rcases h p (List.mem_cons_self ..) with hk | hi
      · simp [Binding.pieceText?, hk]
      · simp [Binding.pieceText?, hi, Except.toOption]
    rw [textOf?, hp, ih fun q hq => h q (List.mem_cons_of_mem _ hq)]
    simp

-- Only single quotes keep a piece from being interpolated.
theorem pathOf?_singleton {kind : TokenKind} (hk : kind ≠ .singleQuoted) (cs : List Char) :
    s.pathOf? [(kind, cs)] = s.pathOf? [(.bareArgument, cs)] := by
  rw [pathOf?, pathOf?, Script.spelled?_singleton, Script.spelled?_singleton]
  cases decoded none cs with
  | none => rfl
  | some text => simp [textOf?, Binding.pieceText?, hk]

-- Where nothing is interpolated the path is what the pieces stand for.
theorem pathOf?_of_literal (h : ∀ texts, spelled? pieces = some texts →
      ∀ p ∈ texts, p.1 = .singleQuoted ∨ s.interpolation p.2 = .ok p.2) :
    s.pathOf? pieces = (joined? pieces).map String.ofList := by
  rw [pathOf?, joined?]
  cases hs : spelled? pieces with
  | none => rfl
  | some texts => exact textOf?_of_literal (h texts hs)

theorem pathOf?_of_none (h : joined? pieces = none) : s.pathOf? pieces = none := by
  rw [pathOf?, Option.map_eq_none_iff.1 h]
  rfl

theorem pathOf?_of_plain {text : List Char} (ht : joined? pieces = some text)
    (hd : '$' ∉ text) (hh : '~' ∉ text) : s.pathOf? pieces = some (String.ofList text) := by
  rw [pathOf?_of_literal, ht]
  · rfl
  · intro texts hs p hp
    rw [joined?, hs] at ht
    have htext : texts.flatMap (·.2.toList) = text := Option.some.inj ht
    have hmem (c : Char) (hc : c ∈ p.2.toList) : c ∈ text :=
      htext ▸ List.mem_flatMap.2 ⟨p, hp, hc⟩
    exact .inr (interpolation_of_plain (fun h => hd (hmem _ h)) (fun h => hh (hmem _ h)))

end Words

-- The path behind a `>` is read as one bare argument, quotes and all; the word behind `| file` is
-- read piece by piece, and what is in single quotes is not interpolated.  For a single piece in no
-- single quotes, and where there is nothing to interpolate, this is the same.
theorem sinkOf_operand {s : Session} {front cs : List Char} {script : Script}
    {pieces : List (TokenKind × List Char)} (hf : Files s.library)
    (hi : Script.Invokes front script) (hc : Cut cs pieces) (hn : cs ≠ []) (hs : Starts cs) :
    let told := s.sinkOf (String.ofList front ++ " > " ++ String.ofList cs)
    let named := s.sinkOf (String.ofList front ++ " | file " ++ String.ofList cs)
    told = (s.pathOf? [(.bareArgument, cs)]).map (.file · false) ∧
      named = (s.pathOf? pieces).map (.file · false) ∧
      (∀ kind, kind ≠ .singleQuoted → pieces = [(kind, cs)] → named = told) ∧
      (∀ text, decoded none cs = some text → '$' ∉ text → '~' ∉ text →
        told = some (.file (String.ofList text) false) ∧ named = told) ∧
      (decoded none cs = none → told = none ∧ named = none) ∧
      ((∀ p ∈ pieces, p.1 = .singleQuoted) →
        named = (decoded none cs).map fun text => .file (String.ofList text) false) := by
  intro told named
  have htold : told = (s.pathOf? [(.bareArgument, cs)]).map (.file · false) := by
    have htext : String.ofList front ++ " > " ++ String.ofList cs =
        String.ofList (front ++ ' ' :: '>' :: ' ' :: cs) := by
      apply String.toList_inj.1
      simp
    rw [← sinkOf_file hf hi hc hn, ← htext]
  have hnamed : named = (s.pathOf? pieces).map (.file · false) := by
    have htext : String.ofList front ++ " | file " ++ String.ofList cs = String.ofList
        (front ++ ' ' :: '|' :: ' ' :: (['f', 'i', 'l', 'e'] ++ ' ' :: cs)) := by
      apply String.toList_inj.1
      simp
    rw [← sinkOf_named hf hi hc hn hs, ← htext]
  have hall : joined? pieces = decoded none cs := (Script.decoded_of_cut hc).symm
  have hone : joined? [(.bareArgument, cs)] = decoded none cs := Script.joined?_singleton _ cs
  refine ⟨htold, hnamed, fun kind hk hp => ?_, fun text ht hd hh => ?_, fun hnone => ?_,
    fun hsingle => ?_⟩
  · rw [htold, hnamed, hp, pathOf?_singleton hk]
  · rw [htold, hnamed, pathOf?_of_plain (hall.trans ht) hd hh,
      pathOf?_of_plain (hone.trans ht) hd hh]
    exact ⟨rfl, rfl⟩
  · rw [htold, hnamed, pathOf?_of_none (hall.trans hnone), pathOf?_of_none (hone.trans hnone)]
    exact ⟨rfl, rfl⟩
  · rw [hnamed, pathOf?_of_literal, hall, Option.map_map]
    · rfl
    · intro texts hs p hp
      have hkinds := Script.kind_of_spelled? hs
      have hmem : p.1 ∈ pieces.map (·.1) := hkinds ▸ List.mem_map_of_mem hp
      obtain ⟨q, hq, hqp⟩ := List.mem_map.1 hmem
      exact .inl (hqp ▸ hsingle q hq)

theorem sinkOf_operand_of_pieces :
    let s : Session := { library := .standard, context := { vars := [("n", "v")] } }
    let front := "echo a".toList
    let cs := "a\\ b\"c d\"'e'".toList
    let pieces : List (TokenKind × List Char) := [(.bareArgument, "a\\ b".toList),
      (.doubleQuoted, "\"c d\"".toList), (.singleQuoted, "'e'".toList)]
    let told := s.sinkOf (String.ofList front ++ " > " ++ String.ofList cs)
    ∃ script, Files s.library ∧ Script.Invokes front script ∧ Cut cs pieces ∧ cs ≠ [] ∧ Starts cs ∧
      told = some (.file "a bc de" false) ∧
      s.sinkOf (String.ofList front ++ " | file " ++ String.ofList cs) = told := by
  intro s front cs pieces told
  have hfiles : Files s.library := ⟨rfl, rfl, rfl⟩
  have htokens : (Script.tokenize (String.ofList (front ++ [' ', '#']))).toOption.any (fun script =>
      script.tokens.toList.head?.any (·.kind = .command) ∧
        (∀ t ∈ script.tokens.toList.tail, t.kind.isPiece = true) ∧
        ∀ t ∈ script.tokens.toList.getLast?, t.span.stop = Text.width front) = true := by
    decide +kernel
  have hcut : Cut cs pieces := by
    refine @Cut.bare 'a' "\\ b".toList "\"c d\"'e'".toList _ rfl (by decide +kernel) ?_
    refine @Cut.quote '"' "c d\"".toList "'e'".toList _ rfl (by decide +kernel) ?_
    exact @Cut.quote '\'' "e'".toList [] _ rfl (by decide +kernel) .nil
  have hstarts : Starts cs := by
    have hhead : cs.head? = some 'a' := by decide +kernel
    constructor
    · intro c hc
      rw [hhead] at hc
      cases hc
      decide
    · intro ds h
      rw [h] at hhead
      cases hhead
  have htext : decoded none cs = some "a bc de".toList := by decide +kernel
  obtain ⟨script, hread, hany⟩ := (Option.any_eq_true ..).1 htokens
  obtain ⟨hhead, hargs, hends⟩ := of_decide_eq_true hany
  have hinvokes : Script.Invokes front script := by
    obtain ⟨name, hname, hcommand⟩ := (Option.any_eq_true ..).1 hhead
    obtain ⟨args, htokens⟩ := List.head?_eq_some_iff.1 hname
    rw [htokens] at hargs
    refine ⟨?_, ⟨name, args, htokens, of_decide_eq_true hcommand, hargs⟩, hends⟩
    generalize Script.tokenize (String.ofList (front ++ [' ', '#'])) = result at hread ⊢
    cases result with
    | error e => cases hread
    | ok script' =>
      cases hread
      rfl
  obtain ⟨-, -, -, hplain, -⟩ := sinkOf_operand hfiles hinvokes hcut (by decide +kernel) hstarts
  obtain ⟨htold, hnamed⟩ := hplain _ htext (by decide +kernel) (by decide +kernel)
  exact ⟨script, hfiles, hinvokes, hcut, by decide +kernel, hstarts, htold, hnamed⟩

-- The path of a file, and whether it is appended to.
def fileOf? : Handler.Target → Option (String × Bool)
  | .file path append => some (path, append)
  | _ => none

theorem eq_file_of_fileOf? {target : Option Handler.Target} {path : String} {append : Bool}
    (h : target.bind fileOf? = some (path, append)) : target = some (.file path append) := by
  obtain ⟨t, rfl, ht⟩ := Option.bind_eq_some_iff.1 h
  cases t with
  | file path' append' =>
    cases ht
    rfl
  | _ => cases ht

-- A name in single quotes is still interpolated behind a `>`.
theorem sinkOf_expands_single_quoted :
    let s : Session := { library := .standard, context := { vars := [("n", "v")] } }
    Cut "'$n'".toList [(.singleQuoted, "'$n'".toList)] ∧
      s.sinkOf "echo a > '$n'" = some (.file "v" false) ∧
      s.sinkOf "echo a | file '$n'" = some (.file "$n" false) :=
  ⟨@Cut.quote '\'' "$n'".toList [] _ rfl (by decide +kernel) .nil,
    eq_file_of_fileOf? (by decide +kernel), eq_file_of_fileOf? (by decide +kernel)⟩

end CommandShell.Session
