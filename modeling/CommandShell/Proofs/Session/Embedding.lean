import CommandShell.Proofs.Binding.Shifting
import CommandShell.Proofs.Scanner.Excerpt
import CommandShell.Proofs.Session.Frame

namespace CommandShell

namespace Script

open Text (width)

-- A script that stands in a larger one, where its places are further on.
structure Part (d : Shift) (part whole : Script) : Prop where
  source : ∃ before after, d.bytes = width before ∧
    whole.source.toList = before ++ (part.source.toList ++ after)
  size : part.tokens.size + d.tokens ≤ whole.tokens.size
  token : ∀ i < part.tokens.size, whole.token (i + d.tokens) = (part.token i).shift d
  spans : ∀ i < part.tokens.size, (part.token i).span.start ≤ width part.source.toList ∧
    (part.token i).span.stop ≤ width part.source.toList

-- A node with all it has among so many tokens.
structure Node.Within (n : Node) (size : Nat) : Prop where
  first : n.extent.first < size
  last : n.extent.last < size
  args : ∀ range ∈ n.args, range.last < size
  blocks : ∀ range ∈ n.blocks, range.first < size

-- A node of a script and what it is in a larger one.
structure Node.Moved (d : Shift) (part : Script) (n n' : Node) : Prop where
  within : n.Within part.tokens.size
  argued : Argued (part.argsOf n)
  shifted : n' = n.shift d

namespace Part

variable {d : Shift} {part whole : Script} {n n' : Node}

theorem spanOf (h : Part d part whole) (hn : n.Within part.tokens.size) :
    whole.spanOf (n.extent.shift d) = (part.spanOf n.extent).shift d := by
  simp only [Script.spanOf, Range.shift, h.token _ hn.first, h.token _ hn.last, Token.shift,
    Span.shift, Span.join, Nat.add_min_add_right, Nat.add_max_add_right]

theorem argsOf (h : Part d part whole) (hn : n.Within part.tokens.size) :
    whole.argsOf (n.shift d) = (part.argsOf n).map (·.shift d) := by
  cases ha : n.args with
  | none => simp [Script.argsOf, Node.shift, ha]
  | some range =>
    have hlast := hn.args range ha
    have hcount : range.last + d.tokens + 1 - (range.first + d.tokens) =
        range.last + 1 - range.first := by omega
    have hindices : List.range' (range.first + d.tokens) (range.last + 1 - range.first) =
        (List.range' range.first (range.last + 1 - range.first)).map (· + d.tokens) := by
      rw [Nat.add_comm, ← List.map_add_range']
      exact List.map_congr_left fun i _ => Nat.add_comm d.tokens i
    simp only [Script.argsOf, Node.shift, ha, Option.map_some, Range.shift, hcount, hindices,
      List.map_map]
    refine List.map_congr_left fun i hi => h.token i ?_
    rw [List.mem_range'_1] at hi
    omega

-- What is shown of a node, with carets under one of the tokens.
theorem render (h : Part d part whole) (hn : n.Within part.tokens.size) {index : Nat}
    (hi : index < part.tokens.size) (message : String) :
    Script.render whole.source (whole.spanOf (n.extent.shift d))
        (whole.token (index + d.tokens)).span message =
      Script.render part.source (part.spanOf n.extent) (part.token index).span message := by
  obtain ⟨before, after, hb, hs⟩ := h.source
  have hfirst := h.spans _ hn.first
  have hlast := h.spans _ hn.last
  rw [h.spanOf hn, h.token index hi]
  refine render_inside before after hb hs _ message ?_ ?_
  · exact Nat.le_trans (Nat.min_le_left _ _) hfirst.1
  · exact Nat.max_le.2 ⟨hfirst.2, hlast.2⟩

end Part

end Script

namespace Session

open Binding (Args Slot Table)
open Script (Argued Node Part Shift)

variable {d : Shift} {size : Nat} {part whole : Script}

namespace Error

-- The same error in a larger script.
def shift (d : Shift) : Error → Error
  | bind e => .bind (e.shift d)
  | dispatch e => .dispatch { e with token := e.token + d.tokens }
  | lex e => .lex e
  | run e => .run e
  | config e => .config e

-- An error of one command of a script with so many tokens.
def Within (size : Nat) : Error → Prop
  | bind e => ∀ i ∈ e.token, i < size
  | dispatch e => e.token < size
  | lex _ => False
  | run _ | config _ => True

end Error

-- An error in a larger script is shown as it is shown in the part.
theorem report_shift (hp : Part d part whole) {c c' : Script.Command}
    (hc : c.node.Moved d part c'.node) {e : Error} (he : e.Within part.tokens.size)
    (s : Session) : s.report whole c' (e.shift d) = s.report part c e := by
  have hsize := hp.size
  have hfirst : c.head < part.tokens.size := hc.within.first
  have hhead : c'.head = c.head + d.tokens := congrArg (·.extent.first) hc.shifted
  have hname : (whole.token c'.head).text = (part.token c.head).text := by
    rw [hhead, hp.token _ hfirst, Script.Token.text_shift]
  have hextent : c'.node.extent = c.node.extent.shift d := congrArg (·.extent) hc.shifted
  have hshown (i : Nat) (hi : i < part.tokens.size) (message : String) :
      Script.render whole.source (whole.spanOf c'.node.extent)
          (caret whole c' (some (i + d.tokens))) message =
        Script.render part.source (part.spanOf c.node.extent) (caret part c (some i)) message := by
    have hw : i + d.tokens < whole.tokens.size := by omega
    rw [hextent]
    simpa [caret, Option.filter, hi, hw] using hp.render hc.within hi message
  have hunplaced (message : String) :
      Script.render whole.source (whole.spanOf c'.node.extent) (caret whole c' none) message =
        Script.render part.source (part.spanOf c.node.extent) (caret part c none) message := by
    have hr := hp.render hc.within hfirst message
    rw [hextent]
    simpa only [caret, Option.filter_none, Option.getD_none, hhead] using hr
  cases e with
  | lex e => exact he.elim
  | bind e =>
    obtain ⟨cause, token⟩ := e
    cases token with
    | none => exact congrArg s.diagnose (hunplaced _)
    | some i => exact congrArg s.diagnose (hshown i (he i rfl) _)
  | dispatch e => exact congrArg s.diagnose (hshown e.token he _)
  | run e => simp only [report, Error.shift, hname]
  | config e => simp only [report, Error.shift, hname]

-- Related results, or the same error in a part and in a larger script.
inductive Agree {α β : Type} (d : Shift) (size : Nat) (related : α → β → Prop) :
    Except Error α → Except Error β → Prop where
  | ok {a : α} {b : β} (h : related a b) : Agree d size related (.ok a) (.ok b)
  | error {e : Error} (h : e.Within size) : Agree d size related (.error e) (.error (e.shift d))

namespace Agree

variable {α β γ δ : Type} {related : α → β → Prop} {related' : γ → δ → Prop}

theorem bind {x : Except Error α} {y : Except Error β} {f : α → Except Error γ}
    {g : β → Except Error δ} (h : Agree d size related x y)
    (hf : ∀ a b, related a b → Agree d size related' (f a) (g b)) :
    Agree d size related' (x >>= f) (y >>= g) := by
  cases h with
  | ok h => exact hf _ _ h
  | error h => exact .error h

theorem foldlM {f : α → γ → Except Error α} {g : β → δ → Except Error β}
    (hf : ∀ a b x y, related a b → related' x y → Agree d size related (f a x) (g b y))
    {xs : List γ} {ys : List δ} (hxs : List.Forall₂ related' xs ys) {a : α} {b : β}
    (h : related a b) : Agree d size related (xs.foldlM f a) (ys.foldlM g b) := by
  induction hxs generalizing a b with
  | nil => exact .ok h
  | cons hx _ ih =>
    rw [List.foldlM_cons, List.foldlM_cons]
    exact (hf _ _ _ _ h hx).bind fun _ _ hab => ih hab

end Agree

-- Arguments and what they are in a larger script.
structure Placed (d : Shift) (size : Nat) (args args' : Args) : Prop where
  argued : Argued args.tokens
  tokens : ∃ groups, args'.tokens = args.tokens.map (·.shift { d with groups })
  first : args.tokens ≠ [] →
    args'.first = args.first + d.tokens ∧ args.first + args.tokens.length ≤ size

namespace Placed

variable {args args' : Args}

theorem bindFrom (h : Placed d size args args') (slots : List Slot) (table : Table)
    (name : String) (interpolate : Binding.Interpolation) :
    Binding.bindFrom slots table name args' interpolate =
      (Binding.bindFrom slots table name args interpolate).mapError (·.shift d) := by
  obtain ⟨groups, ht⟩ := h.tokens
  exact Binding.bindFrom_shift (d := { d with groups }) slots h.argued ht fun hn => (h.first hn).1

theorem bind (h : Placed d size args args') (table : Table) (name : String)
    (interpolate : Binding.Interpolation) :
    Binding.bind table name args' interpolate =
      (Binding.bind table name args interpolate).mapError (·.shift d) :=
  h.bindFrom table.initial table name interpolate

theorem token_of_bindFrom (h : Placed d size args args') {slots : List Slot} {table : Table}
    {name : String} {interpolate : Binding.Interpolation} {e : Binding.BindError}
    (he : Binding.bindFrom slots table name args interpolate = .error e) :
    ∀ i ∈ e.token, i < size := by
  intro i hi
  have hwithin := Binding.token_of_bindFrom he hi
  have hn : args.tokens ≠ [] := by
    intro hn
    rw [hn, List.length_nil] at hwithin
    omega
  have hfirst := (h.first hn).2
  omega

theorem of_node {n n' : Node} (hp : Part d part whole) (h : n.Moved d part n') :
    Placed d part.tokens.size ⟨part.argsOf n, n.firstArg⟩ ⟨whole.argsOf n', n'.firstArg⟩ := by
  obtain rfl := h.shifted
  refine ⟨h.argued, ⟨d.groups, hp.argsOf h.within⟩, fun hn => ?_⟩
  cases ha : n.args with
  | none => simp [Script.argsOf, ha] at hn
  | some range =>
    have hlast := h.within.args range ha
    have hlt : range.first < range.last + 1 := by
      by_contra hge
      have hz : range.last + 1 - range.first = 0 := by omega
      simp [Script.argsOf, ha, hz] at hn
    simp only [Node.firstArg, Node.shift, ha, Option.map_some, Option.getD_some, Script.Range.shift,
      Script.argsOf, List.length_map, List.length_range', true_and]
    omega

-- A token that is an argument by itself.
theorem of_operand (token : Script.Token) {kind : Script.TokenKind} {index : Nat}
    (hk : kind.isPiece = true) (hi : index < size) :
    Placed d size (operand token kind index) (operand (token.shift d) kind (index + d.tokens)) := by
  refine ⟨⟨by simpa [operand] using hk, by simp [operand], .singleton _⟩, ⟨0, ?_⟩,
    fun _ => ⟨rfl, hi⟩⟩
  simp [operand, Script.Token.shift, Script.Span.shift]

end Placed

def Site.shift (d : Shift) (at_ : Site) : Site := { at_ with token := at_.token + d.tokens }

section Attaching

variable {s : Session} {at_ : Site} {args args' : Args} {c c' : Chain}

theorem Chain.Alike.occupied? (h : c.Alike c') : c'.occupied? = c.occupied? := by
  have hf := congrArg Option.isSome h.formatter
  have hs := congrArg Option.isSome h.sink
  simp only [Option.isSome_map] at hf hs
  rw [Chain.occupied?, hs, hf, Chain.occupied?]

theorem Agree.fault {α β : Type} {related : α → β → Prop} (ht : at_.token < size)
    (cause : DispatchCause) :
    Agree d size related (.error (at_.fault cause)) (.error ((at_.shift d).fault cause)) :=
  .error (e := at_.fault cause) ht

theorem agree_bindAt (at_ : Site) (ht : at_.token < size) (h : Placed d size args args')
    (options : Handler.Options) :
    Agree d size Eq (bindAt s at_ options args) (bindAt s (at_.shift d) options args') := by
  have hname : (at_.shift d).name = at_.name := rfl
  rw [bindAt, bindAt, Handler.Options.bind, Handler.Options.bind, h.bindFrom, hname]
  cases hb : Binding.bindFrom options.values options.table at_.name args s.interpolation with
  | ok slots => exact .ok rfl
  | error e =>
    have hw := h.token_of_bindFrom hb
    obtain ⟨cause, token⟩ := e
    cases token with
    | some i => exact .error (e := .bind ⟨cause, some i⟩) hw
    | none =>
      refine .error (e := .bind ⟨cause, some at_.token⟩) fun i hi => ?_
      obtain rfl := Option.some.inj hi
      exact ht

theorem agree_attachPipe (at_ : Site) (ht : at_.token < size) (h : Placed d size args args')
    (hc : c.Alike c') (pipe : Handler.Pipe) :
    Agree d size Chain.Alike (attachPipe s at_ pipe args c)
      (attachPipe s (at_.shift d) pipe args' c') := by
  rw [attachPipe, attachPipe, hc.occupied?]
  cases c.occupied? with
  | some previous => exact .fault ht _
  | none =>
    refine (agree_bindAt at_ ht h pipe.options).bind ?_
    rintro slots _ rfl
    exact .ok ⟨by simp [hc.pipes], hc.formatter, hc.sink⟩

theorem agree_attachFormatter (at_ : Site) (ht : at_.token < size) (h : Placed d size args args')
    (hc : c.Alike c') (formatter : Handler.Formatter) :
    Agree d size Chain.Alike (attachFormatter s at_ formatter args c)
      (attachFormatter s (at_.shift d) formatter args' c') := by
  rw [attachFormatter, attachFormatter, hc.occupied?]
  cases c.occupied? with
  | some previous => exact .fault ht _
  | none =>
    refine (agree_bindAt at_ ht h formatter.options).bind ?_
    rintro slots _ rfl
    exact .ok ⟨hc.pipes, rfl, hc.sink⟩

theorem agree_attachSink (at_ : Site) (ht : at_.token < size) (h : Placed d size args args')
    (hc : c.Alike c') :
    Agree d size Chain.Alike (attachSink s at_ args c) (attachSink s (at_.shift d) args' c') := by
  have hs := congrArg Option.isSome hc.sink
  simp only [Option.isSome_map] at hs
  have hname : (at_.shift d).name = at_.name := rfl
  rw [attachSink, attachSink, hs, hname]
  split
  · exact .fault ht _
  · cases s.library.handler? .sink at_.name with
    | none => exact .fault ht _
    | some sink =>
      refine (agree_bindAt at_ ht h (sink.options s.context)).bind ?_
      rintro slots _ rfl
      exact .ok ⟨hc.pipes, hc.formatter, rfl⟩

theorem agree_attachNamed (at_ : Site) (ht : at_.token < size) (h : Placed d size args args')
    (hc : c.Alike c') :
    Agree d size Chain.Alike (attachNamed s at_ args c) (attachNamed s (at_.shift d) args' c') := by
  have hname : (at_.shift d).name = at_.name := rfl
  rw [attachNamed, attachNamed, hname]
  cases s.library.handler? .pipe at_.name with
  | some pipe => exact agree_attachPipe at_ ht h hc pipe
  | none =>
    cases s.library.handler? .formatter at_.name with
    | some formatter => exact agree_attachFormatter at_ ht h hc formatter
    | none =>
      cases s.library.handler? .sink at_.name with
      | some sink => exact agree_attachSink at_ ht h hc
      | none => exact .fault ht _

theorem agree_attach (hp : Part d part whole) {r r' : Script.Redirection}
    (hr : r.node.Moved d part r'.node) (hc : c.Alike c') :
    Agree d part.tokens.size Chain.Alike (attach s part c r) (attach s whole c' r') := by
  have hfirst := hr.within.first
  have hhead : r'.head = r.head + d.tokens := congrArg (·.extent.first) hr.shifted
  have htoken : whole.token (r.head + d.tokens) = (part.token r.head).shift d :=
    hp.token _ hfirst
  simp only [attach, hhead, htoken, Script.Token.kind_shift]
  split
  · exact agree_attachSink ⟨"file", r.head⟩ hfirst (.of_operand _ rfl hfirst) hc
  · exact agree_attachSink ⟨"sh", r.head⟩ hfirst (.of_operand _ rfl hfirst) hc
  · have hblocks : r'.node.blocks = r.node.blocks.map (·.shift d) :=
      congrArg (·.blocks) hr.shifted
    rw [hblocks]
    cases hb : r.node.blocks with
    | cons block rest =>
      have hw := hr.within.blocks block (by simp [hb])
      exact .error (e := .dispatch ⟨(part.token r.head).text, .unexpectedBlock, block.first⟩) hw
    | nil =>
      exact agree_attachNamed ⟨(part.token r.head).text, r.head⟩ hfirst
        (.of_node hp hr) hc

theorem Chain.Alike.attachDefaults (h : c.Alike c') (token token' : Nat) :
    (attachDefaults s token c).Alike (Session.attachDefaults s token' c') := by
  have hor {α β : Type} {f : α → β} {a b x y : Option α} (hab : b.map f = a.map f)
      (hxy : y.map f = x.map f) : (b.or y).map f = (a.or x).map f := by
    rw [Option.map_or, Option.map_or, hab, hxy]
  refine ⟨h.pipes, hor h.formatter ?_, hor h.sink ?_⟩
  · simp [Function.comp_def]
  · simp [Function.comp_def]

end Attaching

-- A command and what it is in a larger script.
structure Moved (d : Shift) (part : Script) (c c' : Script.Command) : Prop where
  node : c.node.Moved d part c'.node
  redirections : List.Forall₂ (fun r r' : Script.Redirection => r.node.Moved d part r'.node)
    c.redirections c'.redirections

section Dispatching

variable {s : Session} {inner : TextRun} {c c' : Script.Command} {block block' : Option BlockRun}

theorem agree_chainOf (hp : Part d part whole) (hc : Moved d part c c') :
    Agree d part.tokens.size Chain.Alike (chainOf s part c) (chainOf s whole c') := by
  have hfold := Agree.foldlM (f := attach s part) (g := attach s whole)
    (fun _ _ _ _ hab hr => agree_attach hp hr hab) hc.redirections (.refl {})
  exact hfold.bind fun _ _ hab => .ok (hab.attachDefaults _ _)

-- What comes of a command in a part and in a larger script: the same session, and the same error
-- if any.
structure Matches (d : Shift) (size : Nat) (x y : Session × Option Error) : Prop where
  session : y.1 = x.1
  error : y.2 = x.2.map (·.shift d)
  within : ∀ e ∈ x.2, e.Within size

namespace Matches

theorem none (s : Session) : Matches d size (s, none) (s, none) := ⟨rfl, rfl, nofun⟩

theorem some {e : Error} (s : Session) (h : e.Within size) :
    Matches d size (s, some e) (s, some (e.shift d)) := by
  refine ⟨rfl, rfl, fun e' he => ?_⟩
  obtain rfl := Option.some.inj he
  exact h

theorem run (s : Session) (failure : Option Failure) :
    Matches d size (s, failure.map .run) (s, failure.map .run) := by
  cases failure with
  | none => exact .none s
  | some e => exact .some (e := .run e) s trivial

end Matches

theorem matches_sourceFile (inner : TextRun) (file : String) :
    Matches d size (sourceFile s inner file) (sourceFile s inner file) := by
  have hfail (s : Session) (message : String) :
      Matches d size (s, some (.run (.failed message))) (s, some (.run (.failed message))) :=
    .some (e := .run (.failed message)) s trivial
  simp only [sourceFile]
  split
  · exact hfail _ _
  · split
    · exact hfail _ _
    · split
      · exact .none _
      · next e _ => exact .some (e := .run e) _ trivial
      · exact hfail _ _

theorem matches_runBuiltin {args args' : Args} (ha : Placed d size args args')
    (inner : TextRun) (b : Builtin) :
    Matches d size (runBuiltin s inner b args) (runBuiltin s inner b args') := by
  simp only [runBuiltin, ha.bind]
  cases hb : Binding.bind b.table b.name args s.interpolation with
  | error e => exact .some (e := .bind e) s (ha.token_of_bindFrom hb)
  | ok slots =>
    simp only [Except.mapError]
    cases b with
    | cd => exact .none _
    | exit => exact .none _
    | reload =>
      cases Config.load s.world with
      | error e => exact .some (e := .config e) s trivial
      | ok config => exact .none _
    | source => exact matches_sourceFile inner _

theorem matches_runRegistered (hp : Part d part whole) (hc : Moved d part c c')
    (hb : Block.Twin s block block') {handler : Handler.Command} (hh : handler.body.Unplaced)
    (name : String) {args args' : Args} (ha : Placed d part.tokens.size args args') :
    Matches d part.tokens.size (runRegistered s part c block handler name args)
      (runRegistered s whole c' block' handler name args') := by
  simp only [runRegistered, Handler.Options.bind, ha.bindFrom]
  cases hbind : Binding.bindFrom (handler.options s.context).values
    (handler.options s.context).table name args s.interpolation with
  | error e => exact .some (e := .bind e) s (ha.token_of_bindFrom hbind)
  | ok options =>
    simp only [Except.mapError]
    have hchain := agree_chainOf (s := { s with requests := s.requests + 1 }) hp hc
    generalize chainOf _ part c = x at hchain ⊢
    generalize chainOf _ whole c' = y at hchain ⊢
    cases hchain with
    | error h => exact .some _ h
    | @ok chain chain' h =>
      have hname : (whole.token c'.head).text = (part.token c.head).text := by
        have hhead : c'.head = c.head + d.tokens := congrArg (·.extent.first) hc.node.shifted
        have hfirst : c.head < part.tokens.size := hc.node.within.first
        rw [hhead, hp.token _ hfirst, Script.Token.text_shift]
      have htwin : Activity.Twin s
          ⟨{ s with requests := s.requests + 1 },
            ⟨s.requests + 1, part, c, options, s.context, chain, none⟩⟩
          ⟨{ s with requests := s.requests + 1 },
            ⟨s.requests + 1, whole, c', options, s.context, chain', none⟩⟩ :=
        ⟨⟨rfl, rfl, rfl, rfl⟩, rfl, ⟨rfl, hname, rfl, rfl, rfl, h⟩⟩
      dsimp only
      rw [(htwin.carryOut hb hh).1]
      exact .run _ _

-- No command of these looks at the places of its script.
def Unplaced (library : Handler.Library) : Prop :=
  ∀ name handler, library.handler? .command name = some handler → handler.body.Unplaced

-- A command does in a larger script what it does in the part.
theorem matches_dispatch (hp : Part d part whole) (hc : Moved d part c c')
    (hb : Block.Twin s block block') (hl : Unplaced s.library) (inner : TextRun) :
    Matches d part.tokens.size (dispatch s inner part c block)
      (dispatch s inner whole c' block') := by
  have hfirst := hc.node.within.first
  have hhead : c'.head = c.head + d.tokens := congrArg (·.extent.first) hc.node.shifted
  have htoken : (whole.token (c.head + d.tokens)).text = (part.token c.head).text :=
    congrArg (·.text) (hp.token _ hfirst)
  have hargs := Placed.of_node hp hc.node
  simp only [dispatch, hhead, htoken]
  cases Builtin.ofName? (part.token c.head).text with
  | some b => exact matches_runBuiltin hargs inner b
  | none =>
    cases hh : command? s (part.token c.head).text with
    | none =>
      exact .some (e := .dispatch ⟨(part.token c.head).text, .notFound, c.head⟩) s hfirst
    | some handler =>
      have hbody := hl _ handler (Option.filter_eq_some_iff.1 hh).1
      exact matches_runRegistered hp hc hb hbody _ hargs

end Dispatching

end Session

end CommandShell
