import CommandShell.Handler.Library
import CommandShell.Proofs.Session.Blocks
import CommandShell.Proofs.Session.Chains

namespace CommandShell.Session

open Binding (Slot)
open Handler (Kind)

-- A block belongs to no handler of a redirection.
def Unblocked (script : Script) (r : Script.Redirection) : Prop :=
  (Demand.of script r).named = true → r.node.blocks = []

-- The handler that a redirection asks for is there, takes its arguments and is given no block.
structure Fits (s : Session) (script : Script) (r : Script.Redirection) (link : Link) : Prop where
  free : Unblocked script r
  found : (Demand.of script r).stage? s.library = some link.stage
  site : link.site = (Demand.of script r).site
  bound : (link.stage.options s.context).bind link.site.name (Demand.of script r).args
    s.interpolation = .ok link.slots

-- Redirections that make up these links.
structure Accepts (s : Session) (script : Script) (redirections : List Script.Redirection)
    (links : List Link) : Prop where
  fits : List.Forall₂ (s.Fits script) redirections links
  ordered : Ordered (links.map Link.kind)

-- What is wrong with a redirection behind links of these kinds.
inductive Fault (s : Session) (script : Script) (before : List Kind) (r : Script.Redirection) :
    Error → Prop where
  | block {block : Script.Range} {rest : List Script.Range}
      (named : (Demand.of script r).named = true) (blocks : r.node.blocks = block :: rest) :
      Fault s script before r
        (.dispatch ⟨(Demand.of script r).site.name, .unexpectedBlock, block.first⟩)
  | misplaced {kind previous : Kind}
      (free : Unblocked script r)
      (asked : (Demand.of script r).kind? s.library = some kind)
      (unordered : ¬Ordered (before ++ [kind])) (last : before.getLast? = some previous) :
      Fault s script before r
        (.dispatch ⟨(Demand.of script r).site.name, .misplaced kind previous, r.head⟩)
  | unknown (free : Unblocked script r)
      (placed : ∀ kind ∈ (Demand.of script r).kind? s.library, Ordered (before ++ [kind]))
      (missing : (Demand.of script r).stage? s.library = none) :
      Fault s script before r
        (.dispatch ⟨(Demand.of script r).site.name, .unknownRedirection, r.head⟩)
  | arguments {stage : Stage} {e : Binding.BindError}
      (free : Unblocked script r)
      (found : (Demand.of script r).stage? s.library = some stage)
      (placed : Ordered (before ++ [stage.kind]))
      (unbound : (stage.options s.context).bind (Demand.of script r).site.name
        (Demand.of script r).args s.interpolation = .error e) :
      Fault s script before r (.bind { e with token := e.token.or (some r.head) })

variable {s : Session} {script : Script} {r : Script.Redirection} {links : List Link}

theorem Demand.site_token (script : Script) (r : Script.Redirection) :
    (Demand.of script r).site.token = r.head := by
  simp only [Demand.of]
  split <;> rfl

theorem attach_eq (s : Session) (script : Script) (c : Chain) (r : Script.Redirection) :
    attach s script c r =
      if (Demand.of script r).named then
        match r.node.blocks with
        | block :: _ =>
          .error (.dispatch ⟨(Demand.of script r).site.name, .unexpectedBlock, block.first⟩)
        | [] => attachNamed s (Demand.of script r).site (Demand.of script r).args c
      else attachSink s (Demand.of script r).site (Demand.of script r).args c := by
  cases hk : (script.token r.head).kind <;> simp only [attach, Demand.of, hk] <;> rfl

-- Either the redirection makes up one more link, or something is wrong with it.
def Settles (s : Session) (script : Script) (links : List Link) (r : Script.Redirection) :
    Except Error Chain → Prop
  | .ok c => ∃ link, s.Fits script r link ∧ Ordered ((links ++ [link]).map Link.kind) ∧
      c = .ofLinks (links ++ [link])
  | .error e => s.Fault script (links.map Link.kind) r e

namespace Settles

theorem of_bindAt {stage : Stage} {extended : List Slot → Chain}
    (hfree : Unblocked script r)
    (hfound : (Demand.of script r).stage? s.library = some stage)
    (ho : Ordered (links.map Link.kind ++ [stage.kind]))
    (he : ∀ slots, extended slots =
      .ofLinks (links ++ [⟨(Demand.of script r).site, stage, slots⟩])) :
    Settles s script links r (do
      let slots ← bindAt s (Demand.of script r).site (stage.options s.context)
        (Demand.of script r).args
      return extended slots) := by
  unfold bindAt
  cases hb : (stage.options s.context).bind (Demand.of script r).site.name
      (Demand.of script r).args s.interpolation with
  | error e =>
    have hf := Fault.arguments hfree hfound ho hb
    rwa [← Demand.site_token script r] at hf
  | ok slots => exact ⟨_, ⟨hfree, hfound, rfl, hb⟩, by rwa [List.map_append], he slots⟩

theorem of_misplaced {kind previous : Kind}
    (hfree : Unblocked script r)
    (hasked : (Demand.of script r).kind? s.library = some kind)
    (hu : ¬Ordered (links.map Link.kind ++ [kind]))
    (hl : (links.map Link.kind).getLast? = some previous) :
    Settles s script links r
      (.error ((Demand.of script r).site.fault (.misplaced kind previous))) := by
  have hf := Fault.misplaced hfree hasked hu hl
  rwa [← Demand.site_token script r] at hf

theorem of_unknown
    (hfree : Unblocked script r)
    (hp : ∀ kind ∈ (Demand.of script r).kind? s.library, Ordered (links.map Link.kind ++ [kind]))
    (hm : (Demand.of script r).stage? s.library = none) :
    Settles s script links r (.error ((Demand.of script r).site.fault .unknownRedirection)) := by
  have hf := Fault.unknown hfree hp hm
  rwa [← Demand.site_token script r] at hf

-- Only links that are pipes let a pipe or a formatter follow.
theorem of_occupied? {kind : Kind} (h : Ordered (links.map Link.kind))
    (hfree : Unblocked script r) (hasked : (Demand.of script r).kind? s.library = some kind)
    (hk : kind ≠ .sink) {previous : Kind}
    (ho : (Chain.ofLinks links).occupied? = some previous) :
    Settles s script links r
      (.error ((Demand.of script r).site.fault (.misplaced kind previous))) := by
  obtain ⟨hlast, hnext⟩ := Chain.last_of_occupied? h ho
  refine of_misplaced hfree hasked (fun hordered => ?_) hlast
  have hpairs := (List.pairwise_append.1 hordered.pairwise).2.2
  exact hnext kind hk (hpairs previous (List.mem_of_getLast? hlast) kind (by simp))

theorem attachPipe {pipe : Handler.Pipe} (h : Ordered (links.map Link.kind))
    (hfree : Unblocked script r)
    (hfound : (Demand.of script r).stage? s.library = some (.pipe pipe)) :
    Settles s script links r (Session.attachPipe s (Demand.of script r).site pipe
      (Demand.of script r).args (.ofLinks links)) := by
  unfold Session.attachPipe
  cases ho : (Chain.ofLinks links).occupied? with
  | some previous =>
    exact of_occupied? h hfree (Demand.kind?_of_stage? hfound) (by exact nofun) ho
  | none =>
    refine of_bindAt hfree hfound (Chain.ordered_of_occupied? h nofun ho) fun slots => ?_
    exact (Chain.ofLinks_pipe _ slots pipe).symm

theorem attachFormatter {formatter : Handler.Formatter} (h : Ordered (links.map Link.kind))
    (hfree : Unblocked script r)
    (hfound : (Demand.of script r).stage? s.library = some (.formatter formatter)) :
    Settles s script links r (Session.attachFormatter s (Demand.of script r).site formatter
      (Demand.of script r).args (.ofLinks links)) := by
  unfold Session.attachFormatter
  cases ho : (Chain.ofLinks links).occupied? with
  | some previous =>
    exact of_occupied? h hfree (Demand.kind?_of_stage? hfound) (by exact nofun) ho
  | none =>
    refine of_bindAt hfree hfound (Chain.ordered_of_occupied? h nofun ho) fun slots => ?_
    exact (Chain.ofLinks_formatter _ slots formatter (Chain.eq_none_of_occupied? ho).1).symm

-- A sink is looked up last, by its name or for an operand.
theorem attachSink (h : Ordered (links.map Link.kind)) (hfree : Unblocked script r)
    (hasked : (Demand.of script r).kind? s.library = some .sink)
    (hlooked : (Demand.of script r).stage? s.library =
      (s.library.handler? .sink (Demand.of script r).site.name).map .sink) :
    Settles s script links r (Session.attachSink s (Demand.of script r).site
      (Demand.of script r).args (.ofLinks links)) := by
  unfold Session.attachSink
  split
  · next hs =>
    have hm := Chain.isSome_sink_ofLinks.1 hs
    refine of_misplaced hfree hasked ?_ (h.getLast?_eq hm ?_)
    · simp [Chain.ordered_sink_iff h, hs]
    · simp [Ordered.Precedes]
  · next hs =>
    have ho := (Chain.ordered_sink_iff h).2 (by simpa using hs)
    cases hf : s.library.handler? .sink (Demand.of script r).site.name with
    | none =>
      rw [hf] at hlooked
      refine of_unknown hfree (fun kind hk => ?_) hlooked
      obtain rfl := Option.some.inj (hasked.symm.trans hk)
      exact ho
    | some sink =>
      rw [hf] at hlooked
      refine of_bindAt hfree hlooked ho fun slots => ?_
      exact (Chain.ofLinks_sink _ slots sink (by simpa using hs)).symm

theorem attachNamed (h : Ordered (links.map Link.kind)) (hfree : Unblocked script r)
    (hn : (Demand.of script r).named = true) :
    Settles s script links r (Session.attachNamed s (Demand.of script r).site
      (Demand.of script r).args (.ofLinks links)) := by
  have hstage : (Demand.of script r).stage? s.library = _ := if_pos hn
  unfold Session.attachNamed
  cases hp : s.library.handler? .pipe (Demand.of script r).site.name with
  | some pipe =>
    rw [hp] at hstage
    exact attachPipe h hfree hstage
  | none =>
    cases hf : s.library.handler? .formatter (Demand.of script r).site.name with
    | some formatter =>
      rw [hp, hf] at hstage
      exact attachFormatter h hfree hstage
    | none =>
      rw [hp, hf] at hstage
      cases hs : s.library.handler? .sink (Demand.of script r).site.name with
      | some sink =>
        refine attachSink h hfree ?_ hstage
        rw [hs] at hstage
        exact Demand.kind?_of_stage? hstage
      | none =>
        rw [hs] at hstage
        refine of_unknown hfree (fun kind hk => ?_) hstage
        simp [Demand.kind?, hn, hstage] at hk

theorem attach (s : Session) (script : Script) (r : Script.Redirection)
    (h : Ordered (links.map Link.kind)) :
    Settles s script links r (Session.attach s script (.ofLinks links) r) := by
  rw [attach_eq]
  split
  · next hn =>
    cases hb : r.node.blocks with
    | nil => exact attachNamed h (fun _ => hb) hn
    | cons block rest => exact .block hn hb
  · next hn =>
    refine attachSink h (fun h => absurd h hn) ?_ ?_
    · simp [Demand.kind?, hn]
    · simp [Demand.stage?, hn]

end Settles

-- Either the redirections make up more links, or there is a first one that something is wrong
-- with.
def SettlesAll (s : Session) (script : Script) (links : List Link)
    (redirections : List Script.Redirection) : Except Error Chain → Prop
  | .ok c => ∃ more, List.Forall₂ (s.Fits script) redirections more ∧
      Ordered ((links ++ more).map Link.kind) ∧ c = .ofLinks (links ++ more)
  | .error e => ∃ before r after more, redirections = before ++ r :: after ∧
      List.Forall₂ (s.Fits script) before more ∧ Ordered ((links ++ more).map Link.kind) ∧
      s.Fault script ((links ++ more).map Link.kind) r e

theorem settlesAll_foldlM (h : Ordered (links.map Link.kind))
    (redirections : List Script.Redirection) :
    SettlesAll s script links redirections
      (redirections.foldlM (attach s script) (.ofLinks links)) := by
  induction redirections generalizing links with
  | nil => exact ⟨[], .nil, by simpa using h, by simp⟩
  | cons r rest ih =>
    have hr := Settles.attach s script r h
    rw [List.foldlM_cons]
    generalize attach s script _ r = attached at hr
    cases attached with
    | error e => exact ⟨[], r, rest, [], rfl, .nil, by simpa using h, by
      rw [List.append_nil]
      exact hr⟩
    | ok c =>
      obtain ⟨link, hf, ho, rfl⟩ := hr
      have hrest := ih ho
      show SettlesAll s script links (r :: rest)
        (rest.foldlM (attach s script) (.ofLinks (links ++ [link])))
      generalize rest.foldlM (attach s script) (.ofLinks (links ++ [link])) = attached at hrest ⊢
      cases attached with
      | error e =>
        obtain ⟨before, r', after, more, rfl, hb, hm, he⟩ := hrest
        exact ⟨r :: before, r', after, link :: more, rfl, .cons hf hb, by simpa using hm,
          by simpa using he⟩
      | ok c =>
        obtain ⟨more, hb, hm, rfl⟩ := hrest
        exact ⟨link :: more, .cons hf hb, by simpa using hm, by simp⟩

theorem settlesAll (s : Session) (script : Script) (redirections : List Script.Redirection) :
    SettlesAll s script [] redirections (redirections.foldlM (attach s script) {}) :=
  settlesAll_foldlM ⟨0, 0, 0, by simp⟩ redirections

theorem Fits.unique {a b : Link} (ha : s.Fits script r a) (hb : s.Fits script r b) : a = b := by
  obtain ⟨at_, stage, slots⟩ := a
  obtain ⟨at', stage', slots'⟩ := b
  obtain rfl : at_ = at' := ha.site.trans hb.site.symm
  obtain rfl : stage = stage' := Option.some.inj (ha.found.symm.trans hb.found)
  obtain rfl : slots = slots' := Except.ok.inj (ha.bound.symm.trans hb.bound)
  rfl

-- Where something is wrong there is no further link.
theorem Fault.not_fits {before : List Kind} {e : Error} (h : s.Fault script before r e)
    {link : Link} (hf : s.Fits script r link) : ¬Ordered (before ++ [link.kind]) := by
  have hkind := Demand.kind?_of_stage? hf.found
  intro ho
  cases h with
  | block named blocks => simp [hf.free named] at blocks
  | misplaced free asked unordered last =>
    obtain rfl := Option.some.inj (asked.symm.trans hkind)
    exact unordered ho
  | unknown free placed missing => cases missing.symm.trans hf.found
  | arguments free found placed unbound =>
    obtain rfl := Option.some.inj (found.symm.trans hf.found)
    have hb := hf.bound
    rw [hf.site, unbound] at hb
    cases hb

-- Only one thing is told about a redirection.
theorem Fault.unique {before : List Kind} {e e' : Error} (h : s.Fault script before r e)
    (h' : s.Fault script before r e') : e = e' := by
  cases h with
  | block named blocks =>
    have hblocked (hfree : Unblocked script r) : False := by simp [hfree named] at blocks
    cases h' with
    | block named' blocks' =>
      obtain ⟨rfl, -⟩ := List.cons.inj (blocks.symm.trans blocks')
      rfl
    | misplaced free => exact (hblocked free).elim
    | unknown free => exact (hblocked free).elim
    | arguments free => exact (hblocked free).elim
  | misplaced free asked unordered last =>
    cases h' with
    | block named' blocks' => simp [free named'] at blocks'
    | misplaced _ asked' _ last' =>
      obtain rfl := Option.some.inj (asked.symm.trans asked')
      obtain rfl := Option.some.inj (last.symm.trans last')
      rfl
    | unknown _ placed => exact absurd (placed _ asked) unordered
    | arguments _ found placed =>
      obtain rfl := Option.some.inj (asked.symm.trans (Demand.kind?_of_stage? found))
      exact absurd placed unordered
  | unknown free placed missing =>
    cases h' with
    | block named' blocks' => simp [free named'] at blocks'
    | misplaced _ asked unordered => exact absurd (placed _ asked) unordered
    | unknown => rfl
    | arguments _ found => cases missing.symm.trans found
  | arguments free found placed unbound =>
    cases h' with
    | block named' blocks' => simp [free named'] at blocks'
    | misplaced _ asked unordered =>
      obtain rfl := Option.some.inj (asked.symm.trans (Demand.kind?_of_stage? found))
      exact absurd placed unordered
    | unknown _ _ missing => cases missing.symm.trans found
    | arguments _ found' _ unbound' =>
      obtain rfl := Option.some.inj (found.symm.trans found')
      obtain rfl := Except.error.inj (unbound.symm.trans unbound')
      rfl

theorem attach_of_fits {link : Link} (hf : s.Fits script r link)
    (ho : Ordered ((links ++ [link]).map Link.kind)) :
    attach s script (.ofLinks links) r = .ok (.ofLinks (links ++ [link])) := by
  rw [List.map_append] at ho
  have hr := Settles.attach s script r
    (ho.left (Link.command_notMem links))
  generalize attach s script (.ofLinks links) r = attached at hr ⊢
  cases attached with
  | error e => exact absurd ho (Fault.not_fits hr hf)
  | ok c =>
    obtain ⟨link', hf', -, rfl⟩ := hr
    rw [hf.unique hf']

theorem attach_of_fault {e : Error} (h : Ordered (links.map Link.kind))
    (he : s.Fault script (links.map Link.kind) r e) :
    attach s script (.ofLinks links) r = .error e := by
  have hr := Settles.attach s script r h
  generalize attach s script (.ofLinks links) r = attached at hr ⊢
  cases attached with
  | error e' => rw [he.unique hr]
  | ok c =>
    obtain ⟨link, hf, ho, -⟩ := hr
    rw [List.map_append] at ho
    exact absurd ho (he.not_fits hf)

theorem foldlM_of_fits (links : List Link) {redirections : List Script.Redirection}
    {more : List Link}
    (hf : List.Forall₂ (s.Fits script) redirections more)
    (ho : Ordered ((links ++ more).map Link.kind)) :
    redirections.foldlM (attach s script) (.ofLinks links) = .ok (.ofLinks (links ++ more)) := by
  induction hf generalizing links with
  | nil => simp [pure, Except.pure]
  | @cons r link rest more hr hrest ih =>
    have hsplit : links ++ link :: more = links ++ [link] ++ more := by simp
    rw [hsplit] at ho ⊢
    have hone : Ordered ((links ++ [link]).map Link.kind) := by
      rw [List.map_append] at ho
      exact ho.left (Link.command_notMem _)
    rw [List.foldlM_cons, attach_of_fits hr hone]
    exact ih _ ho

-- The token that an error is about.
def Error.token? : Error → Option Nat
  | .bind e => e.token
  | .dispatch e => some e.token
  | .lex _ | .run _ | .config _ => none

theorem contains_head (hr : r.node.Encloses) : r.node.extent.contains r.head = true := by
  simp [Script.Range.contains, Script.Redirection.head, hr.extent]

-- The arguments of a redirection are within its extent, and an operand is at its head.
theorem Demand.contains_of_args (hr : r.node.Encloses) {i : Nat}
    (h : (Demand.of script r).args.first ≤ i ∧
      i < (Demand.of script r).args.first + (Demand.of script r).args.tokens.length) :
    r.node.extent.contains i = true := by
  have hhead : i = r.head → r.node.extent.contains i = true := by
    rintro rfl
    exact contains_head hr
  simp only [Demand.of] at h
  split at h
  · simp only [operand, List.length_singleton] at h
    exact hhead (by omega)
  · simp only [operand, List.length_singleton] at h
    exact hhead (by omega)
  · exact hr.contains_of_argsOf h

-- What is wrong is shown within the redirection.
theorem Fault.exists_token {before : List Kind} {e : Error} (h : s.Fault script before r e)
    (hr : r.node.Encloses) : ∃ i, e.token? = some i ∧ r.node.extent.contains i = true := by
  cases h with
  | block named blocks =>
    have hb := hr.blocks _ (by rw [blocks]; exact List.mem_cons_self ..)
    exact ⟨_, rfl, by simp [Script.Range.contains, hb]⟩
  | misplaced => exact ⟨r.head, rfl, contains_head hr⟩
  | unknown => exact ⟨r.head, rfl, contains_head hr⟩
  | @arguments stage e _ _ _ unbound =>
    cases he : e.token with
    | none => exact ⟨r.head, rfl, contains_head hr⟩
    | some i => exact ⟨i, rfl, Demand.contains_of_args hr (Binding.token_of_bindFrom unbound he)⟩

-- What a chain holds that is made up of these links: a formatter and a sink that are not among them
-- are those of the settings, if they are registered.
structure Holds (s : Session) (token : Nat) (links : List Link) (chain : Chain) : Prop where
  pipes : chain.pipes = links.filterMap (·.pipe?)
  formatter : chain.formatter = (links.findSome? (·.formatter?)).or
    ((s.library.handler? .formatter s.config.settings.defaultFormatter).map fun f =>
      ⟨s.config.settings.defaultFormatter, token, f.format f.options.values⟩)
  sink : chain.sink = (links.findSome? (·.sink?)).or
    ((s.library.handler? .sink s.config.settings.defaultSink).map fun k =>
      ⟨s.config.settings.defaultSink, token, k.target (k.options s.context).values⟩)

theorem holds_iff {token : Nat} {chain : Chain} :
    s.Holds token links chain ↔ chain = attachDefaults s token (.ofLinks links) := by
  constructor
  · rintro ⟨hp, hf, hk⟩
    obtain ⟨pipes, formatter, sink⟩ := chain
    dsimp only at hp hf hk
    rw [hp, hf, hk]
    rfl
  · rintro rfl
    exact ⟨rfl, rfl, rfl⟩

theorem Accepts.foldlM {redirections : List Script.Redirection}
    (h : s.Accepts script redirections links) :
    redirections.foldlM (attach s script) {} = .ok (.ofLinks links) :=
  foldlM_of_fits [] h.fits h.ordered

-- What comes behind a redirection that something is wrong with does not matter.
theorem Fault.foldlM {before : List Script.Redirection} {e : Error}
    (h : s.Fault script (links.map Link.kind) r e) (ha : s.Accepts script before links)
    (after : List Script.Redirection) :
    (before ++ r :: after).foldlM (attach s script) {} = .error e := by
  rw [List.foldlM_append, ha.foldlM]
  show (r :: after).foldlM (attach s script) (.ofLinks links) = _
  rw [List.foldlM_cons, attach_of_fault ha.ordered h]
  rfl

theorem Fault.not_accepts {before : List Script.Redirection} {e : Error} {more : List Link}
    (h : s.Fault script (links.map Link.kind) r e) (ha : s.Accepts script before links) :
    ¬s.Accepts script (before ++ [r]) more := by
  intro hm
  cases (h.foldlM ha []).symm.trans hm.foldlM

variable {c : Script.Command}

theorem chainOf_eq_ok_iff {chain : Chain} : chainOf s script c = .ok chain ↔
    ∃ links, s.Accepts script c.redirections links ∧ s.Holds c.head links chain := by
  have hall := settlesAll s script c.redirections
  unfold chainOf
  constructor
  · intro h
    generalize c.redirections.foldlM (attach s script) {} = attached at hall h
    cases attached with
    | error e => cases h
    | ok made =>
      obtain ⟨links, hf, ho, rfl⟩ := hall
      exact ⟨links, ⟨hf, ho⟩, holds_iff.2 (Except.ok.inj h).symm⟩
  · rintro ⟨links, ha, hh⟩
    rw [holds_iff.1 hh, ha.foldlM]
    rfl

theorem chainOf_eq_error_iff {e : Error} : chainOf s script c = .error e ↔
    ∃ before r after links, c.redirections = before ++ r :: after ∧
      s.Accepts script before links ∧ s.Fault script (links.map Link.kind) r e := by
  have hall := settlesAll s script c.redirections
  unfold chainOf
  constructor
  · intro h
    generalize c.redirections.foldlM (attach s script) {} = attached at hall h
    cases attached with
    | error e' =>
      obtain rfl := Except.error.inj h
      obtain ⟨before, r, after, links, hr, hf, ho, he⟩ := hall
      exact ⟨before, r, after, links, hr, ⟨hf, ho⟩, he⟩
    | ok made => cases h
  · rintro ⟨before, r, after, links, hr, ha, he⟩
    rw [hr, he.foldlM ha]
    rfl

-- Whatever is registered, the chain of a command is accepted exactly if each redirection finds its
-- handler, binds its arguments and has no block, in an order of pipes, a formatter and a sink.  Then
-- the request holds these, and what is missing comes from the settings.  Otherwise the command fails
-- with what is wrong with the first redirection that cannot be accepted anymore, at a token of it.
theorem chain_accepted_iff (s : Session) {script : Script} {c : Script.Command} {depth : Nat}
    (hs : script.Built) (hc : .command depth c ∈ script.visits) :
    ((∃ chain, chainOf s script c = .ok chain) ↔ ∃ links, s.Accepts script c.redirections links) ∧
    (∀ chain, chainOf s script c = .ok chain ↔
      ∃ links, s.Accepts script c.redirections links ∧ s.Holds c.head links chain) ∧
    (∀ e, chainOf s script c = .error e ↔ ∃ before r after links,
      c.redirections = before ++ r :: after ∧ s.Accepts script before links ∧
      (¬∃ more, s.Accepts script (before ++ [r]) more) ∧
      s.Fault script (links.map Link.kind) r e ∧
      ∃ i, e.token? = some i ∧ r.node.extent.contains i = true) ∧
    ∀ inner block handler options,
      Builtin.ofName? (script.token c.head).text = none →
      command? s (script.token c.head).text = some handler →
      (handler.options s.context).bind (script.token c.head).text
        ⟨script.argsOf c.node, c.node.firstArg⟩ s.interpolation = .ok options →
      let counted := { s with requests := s.requests + 1 }
      dispatch s inner script c block = match chainOf s script c with
        | .error e => (counted, some e)
        | .ok chain =>
          let request := ⟨counted.requests, script, c, options, s.context, chain, none⟩
          let (ended, failure) := Activity.carryOut ⟨counted, request⟩ handler block
          (ended, failure.map .run) := by
  refine ⟨?_, fun chain => chainOf_eq_ok_iff, fun e => ?_, ?_⟩
  · constructor
    · rintro ⟨chain, h⟩
      obtain ⟨links, ha, -⟩ := chainOf_eq_ok_iff.1 h
      exact ⟨links, ha⟩
    · rintro ⟨links, ha⟩
      exact ⟨_, chainOf_eq_ok_iff.2 ⟨links, ha, holds_iff.2 rfl⟩⟩
  · rw [chainOf_eq_error_iff]
    constructor
    · rintro ⟨before, r, after, links, hr, ha, he⟩
      have hmem : r ∈ c.redirections := by simp [hr]
      exact ⟨before, r, after, links, hr, ha, fun ⟨more, hm⟩ => he.not_accepts ha hm, he,
        he.exists_token (hs.encloses_of_visited hc hmem)⟩
    · rintro ⟨before, r, after, links, hr, ha, -, he, -⟩
      exact ⟨before, r, after, links, hr, ha, he⟩
  · intro inner block handler options hn hh ho
    simp only [dispatch, hn, hh, runRegistered, ho]
    rfl

-- Pipes and a formatter before a file, and a pipe that comes too late.
theorem chain_accepted_iff_of_standard :
    let s : Session := { library := .standard }
    let late : Error := .dispatch ⟨"limit", .misplaced .pipe .sink, 4⟩
    (∃ script c chain, Script.tokenize "seq 3 | grep 2 | json > f" = .ok script ∧
      script.commands = [c] ∧ chainOf s script c = .ok chain ∧
      ∃ links, s.Accepts script c.redirections links ∧ s.Holds c.head links chain) ∧
    ∃ script c, Script.tokenize "seq 3 | file f | limit 1 | nope" = .ok script ∧
      script.commands = [c] ∧
      (∃ before r after, c.redirections = before ++ r :: after ∧
        (∃ links, s.Accepts script before links) ∧
        (¬∃ more, s.Accepts script (before ++ [r]) more) ∧
        ∃ i, late.token? = some i ∧ r.node.extent.contains i = true) ∧
      dispatch s s.inner script c none = ({ s with requests := 1 }, some late) := by
  intro s late
  constructor
  · obtain ⟨script, c, ht, hc, hv, hok⟩ := Script.exists_command_of_tokenize
      (show (Script.tokenize "seq 3 | grep 2 | json > f").toOption.map (fun script =>
        script.commands.map fun c => (chainOf s script c).toOption.isSome) = some [true] by
          decide +kernel)
    obtain ⟨chain, hk⟩ : ∃ chain, chainOf s script c = .ok chain := by
      cases hk : chainOf s script c with
      | error e => simp [hk, Except.toOption] at hok
      | ok chain => exact ⟨chain, rfl⟩
    have hmain := chain_accepted_iff s (sound_of_tokenize ht).built hv
    exact ⟨script, c, chain, ht, hc, hk, (hmain.2.1 chain).1 hk⟩
  · obtain ⟨script, c, ht, hc, hv, hd⟩ := Script.exists_command_of_tokenize
      (show (Script.tokenize "seq 3 | file f | limit 1 | nope").toOption.map (fun script =>
        script.commands.map fun c =>
          ((script.token c.head).text,
            ((Handler.Command.seq.options s.context).bind (script.token c.head).text
              ⟨script.argsOf c.node, c.node.firstArg⟩ s.interpolation).toOption.isSome,
            match chainOf s script c with
            | .ok _ => none
            | .error e => some e)) = some [("seq", true, some late)] by decide +kernel)
    simp only [Prod.mk.injEq] at hd
    obtain ⟨hn, hb, he⟩ := hd
    have hk : chainOf s script c = .error late := by
      cases hk : chainOf s script c with
      | error e => simpa [hk] using he
      | ok chain => simp [hk] at he
    obtain ⟨options, ho⟩ : ∃ options, (Handler.Command.seq.options s.context).bind
        (script.token c.head).text ⟨script.argsOf c.node, c.node.firstArg⟩ s.interpolation =
          .ok options := by
      generalize Handler.Options.bind _ _ _ _ = bound at hb
      cases bound with
      | error e => cases hb
      | ok options => exact ⟨options, rfl⟩
    have hmain := chain_accepted_iff s (sound_of_tokenize ht).built hv
    obtain ⟨before, r, after, links, hr, ha, hu, -, hi⟩ := (hmain.2.2.1 late).1 hk
    have hdispatch := hmain.2.2.2 s.inner none .seq options (by rw [hn]; rfl) (by rw [hn]; rfl) ho
    rw [hk] at hdispatch
    exact ⟨script, c, ht, hc, ⟨before, r, after, hr, ⟨links, ha⟩, hu, hi⟩, hdispatch⟩

end CommandShell.Session
