import CommandShell.Handler.Library
import CommandShell.Proofs.Grammar.Nesting
import CommandShell.Proofs.Scanner.Carets
import CommandShell.Proofs.Session.Redirecting
import CommandShell.Proofs.Session.Refusal

namespace CommandShell

namespace Text

variable {cs : List Char} {a b c d : Nat}

-- What ends at a later boundary goes on from what ends at an earlier one.
theorem exists_takeBytes_append (ha : floorBoundary cs a = a) (hb : floorBoundary cs b = b)
    (h : a ≤ b) : ∃ more, takeBytes b cs = takeBytes a cs ++ more := by
  have hleft (n : Nat) : takeBytes n cs <+: cs := ⟨_, takeBytes_append_dropBytes n cs⟩
  rcases List.prefix_or_prefix_of_prefix (hleft a) (hleft b) with ⟨more, hm⟩ | ⟨more, hm⟩
  · exact ⟨more, hm.symm⟩
  · have hw := congrArg width hm
    rw [width_append] at hw
    simp only [floorBoundary] at ha hb
    have hn : more = [] := by
      by_contra hn
      have hpos := width_pos hn
      omega
    exact ⟨[], by rw [← hm, hn, List.append_nil, List.append_nil]⟩

-- Four boundaries, one behind the other, cut a text into five parts.
theorem exists_parts (ha : floorBoundary cs a = a) (hb : floorBoundary cs b = b)
    (hc : floorBoundary cs c = c) (hd : floorBoundary cs d = d) (hab : a ≤ b) (hbc : b ≤ c)
    (hcd : c ≤ d) :
    ∃ outer before inside after beyond,
      cs = outer ++ ((before ++ (inside ++ after)) ++ beyond) ∧ a = width outer ∧
        b = a + width before ∧ c = b + width inside ∧ d = c + width after := by
  obtain ⟨before, hbefore⟩ := exists_takeBytes_append ha hb hab
  obtain ⟨inside, hinside⟩ := exists_takeBytes_append hb hc hbc
  obtain ⟨after, hafter⟩ := exists_takeBytes_append hc hd hcd
  have hwhole := takeBytes_append_dropBytes d cs
  rw [hafter, hinside, hbefore] at hwhole
  refine ⟨takeBytes a cs, before, inside, after, dropBytes d cs, ?_, ha.symm, ?_, ?_, ?_⟩
  · simp only [List.append_assoc] at hwhole ⊢
    exact hwhole.symm
  · rw [floorBoundary, hbefore, width_append] at hb
    rw [floorBoundary] at ha
    omega
  · rw [floorBoundary, hinside, width_append] at hc
    rw [floorBoundary] at hb
    omega
  · rw [floorBoundary, hafter, width_append] at hd
    rw [floorBoundary] at hc
    omega

end Text

namespace Script

open Text (width floorBoundary takeBytes)

namespace Derivation

-- Redirections that follow each other reach over their tokens.
theorem bounds_of_mem_redirectedOutline {first : Nat} {list : List Redirected} {r : Redirection}
    (hr : r ∈ redirectedOutline first list) :
    first ≤ r.node.extent.first ∧
      r.node.extent.last < first + (redirectedTokens list).length := by
  induction list generalizing first with
  | nil => cases hr
  | cons redirected rest ih =>
    obtain ⟨name, kind, args, blocks⟩ := redirected
    have hlen : (Redirected.mk name kind args blocks).tokens.length =
        1 + args.length + (blocksTokens blocks).length := by
      simp [Redirected.tokens]
      omega
    rw [redirectedOutline, List.mem_cons] at hr
    rw [redirectedTokens, List.length_append, hlen]
    rcases hr with rfl | hr
    · simp only [Redirected.outline, Redirection.node, redirectedNode, commandNode,
        redirectedTokens, List.length_nil]
      omega
    · have hrest := ih hr
      omega

end Derivation

-- A command of a script has its name, its arguments and its redirections within its extent, which
-- ends before the script does.
structure Command.Holds (c : Command) (size : Nat) : Prop where
  node : c.node.Encloses
  last : c.node.extent.last < size
  redirections : ∀ r ∈ c.redirections, r.node.Encloses ∧
    c.node.extent.first ≤ r.node.extent.first ∧ r.node.extent.last ≤ c.node.extent.last

theorem Built.holds_of_visited {s : Script} (hs : s.Built) {depth : Nat} {c : Command}
    (hc : Visit.command depth c ∈ s.visits) : c.Holds s.tokens.size := by
  obtain ⟨before, after, earlier, later, item, occurs⟩ := hs.exists_occurrence hc
  have hsize := congrArg List.length occurs.tokens
  obtain ⟨⟨name, rest, hname, -⟩, -, hextent⟩ := Derivation.Item.exists_of_outline occurs.outline
  simp only [Array.length_toList, List.length_append, hname, List.length_cons] at hsize
  cases item with
  | separator => cases occurs.outline
  | command name kind args blocks list =>
    obtain rfl := (List.cons.inj occurs.outline).1
    refine ⟨Derivation.encloses_commandNode before.length args blocks list, ?_, fun r hr => ?_⟩
    · rw [hextent, hname, List.length_cons]
      dsimp only
      omega
    · have hbounds := Derivation.bounds_of_mem_redirectedOutline hr
      refine ⟨hs.encloses_of_visited hc hr, ?_, ?_⟩
      · simp only [Command.node, Derivation.commandNode]
        omega
      · simp only [Command.node, Derivation.commandNode]
        omega

section Places

variable {text : String} {script : Script} {i j : Nat} {extent : Range}

theorem placed_of_tokenize (h : tokenize text = .ok script) (hi : i < script.tokens.size) :
    Placed script.source.toList (script.token i) := by
  refine (Session.sound_of_tokenize h).placed _ ?_
  simp [token, hi]

-- A later token starts and ends later.
theorem le_of_tokenize (h : tokenize text = .ok script) (hij : i ≤ j)
    (hj : j < script.tokens.size) :
    (script.token i).span.start ≤ (script.token j).span.start ∧
      (script.token i).span.stop ≤ (script.token j).span.stop := by
  have htaken := (placed_of_tokenize h hj).taken
  rcases Nat.eq_or_lt_of_le hij with rfl | hij
  · exact ⟨Nat.le_refl _, Nat.le_refl _⟩
  obtain ⟨s, hs, hp, rfl⟩ := scan_of_tokenize h
  obtain ⟨read, hread, hl⟩ := laid_of_scan hs rfl hp
  have ht : s.snapshot.tokens.toList = read := hread
  have hpairs := List.pairwise_iff_getElem.1 hl.pairwise i j (by simp [← ht]; omega)
    (by simpa [← ht] using hj) hij
  have hordered : (s.snapshot.token i).span.start < (s.snapshot.token j).span.start ∧
      (s.snapshot.token i).span.stop ≤ (s.snapshot.token j).span.start := by
    simpa [token, ← ht, hj, Nat.lt_trans hij hj] using hpairs
  omega

-- What a run of tokens was read from is a part of the text, and so is each token of what the run
-- was read from.
theorem marks_of_contains (h : tokenize text = .ok script)
    (hlast : extent.last < script.tokens.size) (hi : extent.contains i = true) :
    ∃ outer beyond, script.source.toList = outer ++ ((script.textOf extent).toList ++ beyond) ∧
      script.spanOf extent =
        ⟨width outer, width outer + width (script.textOf extent).toList⟩ ∧
      Marks (width outer) (script.textOf extent).toList (script.token i).span := by
  simp only [Range.contains, Bool.and_eq_true, decide_eq_true_eq] at hi
  have hfirst := placed_of_tokenize h (i := extent.first) (by omega)
  have hhere := placed_of_tokenize h (i := i) (by omega)
  have hends := placed_of_tokenize h hlast
  have htaken := hhere.taken
  have hstarts := le_of_tokenize h hi.1 (by omega)
  have hstops := le_of_tokenize h hi.2 hlast
  obtain ⟨outer, before, inside, after, beyond, hsource, houter, hstart, hstop, hend⟩ :=
    Text.exists_parts hfirst.start hhere.start hhere.stop hends.stop hstarts.1 htaken.le hstops.2
  have hbody : width (before ++ (inside ++ after)) =
      width before + (width inside + width after) := by
    rw [Text.width_append, Text.width_append]
  have hspan : script.spanOf extent =
      ⟨width outer, width outer + width (before ++ (inside ++ after))⟩ := by
    simp only [spanOf, Span.join, Span.mk.injEq]
    omega
  have htext : (script.textOf extent).toList = before ++ (inside ++ after) := by
    rw [textOf, String.toList_ofList, hspan, hsource, Text.slice_append]
  rw [htext]
  refine ⟨outer, beyond, hsource, hspan, before, inside, after, rfl, ?_, ?_, hstop⟩
  · rintro rfl
    rw [Text.width_nil] at hstop
    omega
  · omega

end Places

end Script

namespace Session

open Binding (Args Slot)

variable {s : Session} {script : Script} {c : Script.Command} {r : Script.Redirection}
  {at_ : Site} {args : Args} {chain : Chain} {e : Error}

-- An error that is shown at a redirection or at one of its arguments.
def Error.Sits (at_ : Site) (args : Args) (e : Error) : Prop :=
  ∃ i, e.token? = some i ∧
    (i = at_.token ∨ args.first ≤ i ∧ i < args.first + args.tokens.length)

theorem sits_of_bindAt {options : Handler.Options} {extended : List Slot → Chain}
    (h : (do let slots ← bindAt s at_ options args; return extended slots) = .error e) :
    e.Sits at_ args := by
  unfold bindAt at h
  cases hb : options.bind at_.name args s.interpolation with
  | ok slots =>
    rw [hb] at h
    cases h
  | error fault =>
    rw [hb] at h
    cases h
    cases ht : fault.token with
    | none => exact ⟨at_.token, by simp [Error.token?, ht], .inl rfl⟩
    | some i => exact ⟨i, by simp [Error.token?, ht], .inr (Binding.token_of_bindFrom hb ht)⟩

theorem sits_fault (at_ : Site) (args : Args) (cause : DispatchCause) :
    (at_.fault cause).Sits at_ args :=
  ⟨at_.token, rfl, .inl rfl⟩

theorem sits_of_attachPipe {pipe : Handler.Pipe}
    (h : attachPipe s at_ pipe args chain = .error e) : e.Sits at_ args := by
  rw [attachPipe] at h
  split at h
  · cases h
    exact sits_fault at_ args _
  · exact sits_of_bindAt h

theorem sits_of_attachFormatter {formatter : Handler.Formatter}
    (h : attachFormatter s at_ formatter args chain = .error e) : e.Sits at_ args := by
  rw [attachFormatter] at h
  split at h
  · cases h
    exact sits_fault at_ args _
  · exact sits_of_bindAt h

theorem sits_of_attachSink (h : attachSink s at_ args chain = .error e) : e.Sits at_ args := by
  rw [attachSink] at h
  split at h
  · cases h
    exact sits_fault at_ args _
  · split at h
    · cases h
      exact sits_fault at_ args _
    · exact sits_of_bindAt h

theorem sits_of_attachNamed (h : attachNamed s at_ args chain = .error e) : e.Sits at_ args := by
  rw [attachNamed] at h
  split at h
  · exact sits_of_attachPipe h
  · exact sits_of_attachFormatter h
  · exact sits_of_attachSink h
  · cases h
    exact sits_fault at_ args _

-- Whatever a redirection is attached to, what is wrong is shown within the redirection.
theorem contains_of_attach (hr : r.node.Encloses) (h : attach s script chain r = .error e) :
    ∃ i, e.token? = some i ∧ r.node.extent.contains i = true := by
  have hsits (h : e.Sits (Demand.of script r).site (Demand.of script r).args) :
      ∃ i, e.token? = some i ∧ r.node.extent.contains i = true := by
    obtain ⟨i, hi, hhead | hargs⟩ := h
    · rw [Demand.site_token] at hhead
      exact ⟨i, hi, hhead ▸ contains_head hr⟩
    · exact ⟨i, hi, Demand.contains_of_args hr hargs⟩
  rw [attach_eq] at h
  split at h
  · split at h
    · next block rest hb =>
      cases h
      have hblock := hr.blocks block (by simp [hb])
      exact ⟨block.first, rfl, by simp [Script.Range.contains, hblock]⟩
    · exact hsits (sits_of_attachNamed h)
  · exact hsits (sits_of_attachSink h)

-- A chain breaks at one of the redirections.
theorem exists_attach_of_chainOf (h : chainOf s script c = .error e) :
    ∃ r ∈ c.redirections, ∃ chain, attach s script chain r = .error e := by
  obtain ⟨before, r, after, links, hr, ha, he⟩ := chainOf_eq_error_iff.1 h
  exact ⟨r, by simp [hr], .ofLinks links, attach_of_fault ha.ordered he⟩

-- A refused command is told about at a token of its own, or of one of its redirections.
theorem contains_of_dispatch {inner : TextRun} {block : Option BlockRun} {size : Nat}
    (hc : c.Holds size) (h : (dispatch s inner script c block).2 = some e) (he : e.IsRefusal) :
    ∀ i ∈ e.token?, c.node.extent.contains i = true := by
  have hbind {slots : List Binding.Slot} {table : Binding.Table} {name : String}
      {fault : Binding.BindError}
      (hb : Binding.bindFrom slots table name ⟨script.argsOf c.node, c.node.firstArg⟩
        s.interpolation = .error fault) :
      ∀ i ∈ (Error.bind fault).token?, c.node.extent.contains i = true :=
    fun _ hi => hc.node.contains_of_argsOf (Binding.token_of_bindFrom hb hi)
  simp only [dispatch] at h
  split at h
  · obtain ⟨fault, hb, rfl⟩ := error_bind_of_runBuiltin h he
    exact hbind hb
  · simp only [runRegistered] at h
    split at h
    · next fault hb =>
      cases h
      exact hbind hb
    · split at h
      · next fault hf =>
        cases h
        obtain ⟨r, hr, chain, ha⟩ := exists_attach_of_chainOf hf
        obtain ⟨hencloses, hbounds⟩ := hc.redirections r hr
        obtain ⟨i, hi, hcontains⟩ := contains_of_attach hencloses ha
        simp only [Script.Range.contains, Bool.and_eq_true, decide_eq_true_eq] at hcontains ⊢
        intro j hj
        obtain rfl := Option.some.inj (hi.symm.trans hj)
        omega
      · obtain ⟨failure, -, rfl⟩ := Option.map_eq_some_iff.1 h
        cases he
  · cases h
    intro i hi
    obtain rfl := Option.some.inj hi
    simp [Script.Range.contains, Script.Command.head, hc.node.extent]

-- What is told about a refused command: its text, with carets under the token at fault.
theorem exists_shows_report {text : String} (ht : Script.tokenize text = .ok script)
    (hc : c.Holds script.tokens.size) (he : e.IsRefusal)
    (hi : ∀ i ∈ e.token?, c.node.extent.contains i = true) (teller : Session) :
    ∃ printed, teller.report script c e = teller.diagnose printed ∧
      Script.Shows (script.spanOf c.node.extent).start (script.textOf c.node.extent).toList
        (script.token (e.token?.getD c.head)).span e.message printed := by
  have hcontains : c.node.extent.contains (e.token?.getD c.head) = true := by
    cases hk : e.token? with
    | none => simp [Script.Range.contains, Script.Command.head, hc.node.extent]
    | some i => exact hi i hk
  have hcaret : caret script c e.token? = (script.token (e.token?.getD c.head)).span := by
    have hlast := hc.last
    simp only [Script.Range.contains, Bool.and_eq_true, decide_eq_true_eq] at hcontains
    cases hk : e.token? with
    | none => rfl
    | some i =>
      rw [hk, Option.getD_some] at hcontains
      have hlt : i < script.tokens.size := by omega
      simp [caret, Option.filter, hlt]
  obtain ⟨outer, beyond, hs, hspan, hm⟩ := Script.marks_of_contains ht hc.last hcontains
  have hshows := Script.shows_of_marks hs hm e.message
  rw [← hspan, ← hcaret] at hshows
  rw [← hcaret]
  have hstart : (script.spanOf c.node.extent).start = Text.width outer := by rw [hspan]
  rw [hstart]
  cases e with
  | bind fault => exact ⟨_, rfl, hshows⟩
  | dispatch fault => exact ⟨_, rfl, hshows⟩
  | lex => cases he
  | run => cases he
  | config => cases he

-- Every place that is told about is there.  Whatever was fed to a scanner, an error of the next
-- line or of closing the logical line marks whole characters of all that was fed.  Whatever is
-- registered, an error of a redirection is at a token of it, wherever in a chain it stands; an
-- error of a chain is one of its redirections; and a refused command, however deep it stands in a
-- script, is told about at one of its tokens, which the carets stand under in the command's text.
theorem errors_located :
    (∀ scanner : Script.Scanner, scanner.Met →
      (∀ line e, (scanner.feed line).2 = some e → e.Located (scanner.feed line).1.source) ∧
      ∀ e, scanner.finish.2 = .error e → e.Located scanner.source) ∧
    ∀ text script depth c, Script.tokenize text = .ok script → .command depth c ∈ script.visits →
      (∀ (s : Session) chain, ∀ r ∈ c.redirections, ∀ e, attach s script chain r = .error e →
        ∃ i, e.token? = some i ∧ r.node.extent.contains i = true ∧
          c.node.extent.contains i = true) ∧
      (∀ (s : Session) e, chainOf s script c = .error e →
        ∃ r ∈ c.redirections, ∃ chain, attach s script chain r = .error e) ∧
      ∀ (s : Session) inner block e, (dispatch s inner script c block).2 = some e → e.IsRefusal →
        (∀ i ∈ e.token?, c.node.extent.contains i = true) ∧
        ∀ teller : Session, ∃ printed, teller.report script c e = teller.diagnose printed ∧
          Script.Shows (script.spanOf c.node.extent).start (script.textOf c.node.extent).toList
            (script.token (e.token?.getD c.head)).span e.message printed := by
  refine ⟨fun scanner hmet => ?_, fun text script depth c ht hv => ?_⟩
  · obtain ⟨hfeed, hfinish⟩ := Script.marks_of_met hmet
    exact ⟨fun line e he => .of_marks (hfeed line e he), fun e he => .of_marks (hfinish e he)⟩
  · have hc := (sound_of_tokenize ht).built.holds_of_visited hv
    refine ⟨fun s chain r hr e he => ?_, fun s e he => exists_attach_of_chainOf he,
      fun s inner block e hd he => ?_⟩
    · obtain ⟨hencloses, hfirst, hlast⟩ := hc.redirections r hr
      obtain ⟨i, hi, hcontains⟩ := contains_of_attach hencloses he
      refine ⟨i, hi, hcontains, ?_⟩
      simp only [Script.Range.contains, Bool.and_eq_true, decide_eq_true_eq] at hcontains ⊢
      omega
    · have hcontains := contains_of_dispatch hc hd he
      exact ⟨hcontains, exists_shows_report ht hc he hcontains⟩

-- A brace too many, a quote that is left open, and an argument of a redirection on a second line
-- that is no number.
theorem errors_located_of_chain :
    let s : Session := { library := .standard }
    let fault : Error :=
      .bind ⟨.invalidValue "argument #1" "x" ⟨.malformed, .integer false .word⟩, some 3⟩
    (∃ e, (Script.Scanner.new.feed "ü \x7d").2 = some e ∧
      e.Located (Script.Scanner.new.feed "ü \x7d").1.source) ∧
    (∃ e, (Script.Scanner.new.feed "echo 'ü").1.finish.2 = .error e ∧
      e.Located (Script.Scanner.new.feed "echo 'ü").1.source) ∧
    ∃ script c, Script.tokenize "seq 3 |\n\tlimit x" = .ok script ∧ script.commands = [c] ∧
      (dispatch s s.inner script c none).2 = some fault ∧ fault.IsRefusal ∧
      c.node.extent.contains 3 = true ∧
      (∃ r ∈ c.redirections, ∃ i, fault.token? = some i ∧ r.node.extent.contains i = true) ∧
      ∃ printed, s.report script c fault = s.diagnose printed ∧
        Script.Shows (script.spanOf c.node.extent).start (script.textOf c.node.extent).toList
          (script.token 3).span fault.message printed := by
  intro s fault
  have hfed : ((Script.Scanner.new.feed "ü \x7d").2).isSome = true := by decide +kernel
  have hclosed : (Script.Scanner.new.feed "echo 'ü").1.finish.2.toOption.isNone = true := by
    decide +kernel
  obtain ⟨script, c, ht, hc, hv, hd⟩ := Script.exists_command_of_tokenize
    (show (Script.tokenize "seq 3 |\n\tlimit x").toOption.map (fun script =>
      script.commands.map fun c => ((dispatch s s.inner script c none).2,
        (chainOf { s with requests := 1 } script c).casesOn some fun _ => none)) =
          some [(some fault, some fault)] by decide +kernel)
  simp only [Prod.mk.injEq] at hd
  obtain ⟨hd, hchain⟩ := hd
  obtain ⟨hlexical, hscripts⟩ := errors_located
  have hmet : Script.Scanner.new.Met := .starting .command
  obtain ⟨hattached, hchained, hdispatched⟩ := hscripts _ script 0 c ht hv
  obtain ⟨hcontains, hshown⟩ := hdispatched s s.inner none fault hd trivial
  refine ⟨?_, ?_, script, c, ht, hc, hd, trivial, hcontains 3 rfl, ?_, hshown s⟩
  · obtain ⟨e, he⟩ := Option.isSome_iff_exists.1 hfed
    exact ⟨e, he, (hlexical _ hmet).1 _ e he⟩
  · cases he : (Script.Scanner.new.feed "echo 'ü").1.finish.2 with
    | error e => exact ⟨e, rfl, (hlexical _ (hmet.feed _)).2 e he⟩
    | ok script =>
      rw [he] at hclosed
      cases hclosed
  · have hk : chainOf { s with requests := 1 } script c = .error fault := by
      cases hk : chainOf { s with requests := 1 } script c with
      | error e => simpa [hk] using hchain
      | ok chain => simp [hk] at hchain
    obtain ⟨r, hr, chain, ha⟩ := hchained _ fault hk
    obtain ⟨i, hi, hcontains, -⟩ := hattached _ chain r hr fault ha
    exact ⟨r, hr, i, hi, hcontains⟩

end Session

end CommandShell
