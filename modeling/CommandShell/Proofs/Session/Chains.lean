import CommandShell.Session.Dispatch

namespace CommandShell.Session

open Binding (Args Slot)
open Handler (Kind Options)

-- Kinds of a chain: some pipes, at most one formatter behind them, at most one sink behind that.
def Ordered (kinds : List Kind) : Prop :=
  ∃ pipes formatters sinks, formatters ≤ 1 ∧ sinks ≤ 1 ∧
    kinds = .replicate pipes .pipe ++ .replicate formatters .formatter ++ .replicate sinks .sink

namespace Ordered

variable {kinds : List Kind} {kind : Kind}

-- What may stand before what, with anything in between.
def Precedes (a b : Kind) : Prop := a = .pipe ∨ (a = .formatter ∧ b = .sink)

theorem pairwise (h : Ordered kinds) : kinds.Pairwise Precedes := by
  obtain ⟨pipes, formatters, sinks, hf, hs, rfl⟩ := h
  simp only [List.pairwise_append, List.pairwise_replicate, List.mem_append, List.mem_replicate,
    Precedes]
  grind

theorem of_pairwise (hc : .command ∉ kinds) (h : kinds.Pairwise Precedes) : Ordered kinds := by
  induction kinds with
  | nil => exact ⟨0, 0, 0, by simp⟩
  | cons kind rest ih =>
    rw [List.mem_cons, not_or] at hc
    obtain ⟨hfirst, hrest⟩ := List.pairwise_cons.1 h
    obtain ⟨pipes, formatters, sinks, hf, hs, rfl⟩ := ih hc.2 hrest
    cases kind with
    | command => exact absurd rfl hc.1
    | pipe => exact ⟨pipes + 1, formatters, sinks, hf, hs, by simp [List.replicate_succ]⟩
    | formatter =>
      have hp : pipes = 0 := by
        cases pipes with
        | zero => rfl
        | succ => simpa [Precedes] using hfirst .pipe (by simp)
      have hf : formatters = 0 := by
        cases formatters with
        | zero => rfl
        | succ => simpa [Precedes] using hfirst .formatter (by simp)
      exact ⟨0, 1, sinks, Nat.le_refl _, hs, by simp [hp, hf]⟩
    | sink =>
      have hnil := List.eq_nil_iff_forall_not_mem.2 fun kind hm => by
        have hb := hfirst kind hm
        simp [Precedes] at hb
      exact ⟨0, 0, 1, by simp [hnil]⟩

theorem left {more : List Kind} (hc : .command ∉ kinds) (h : Ordered (kinds ++ more)) :
    Ordered kinds :=
  of_pairwise hc (List.pairwise_append.1 h.pairwise).1

theorem concat_iff (hc : .command ∉ kinds) (hk : kind ≠ .command) (h : Ordered kinds) :
    Ordered (kinds ++ [kind]) ↔ ∀ earlier ∈ kinds, Precedes earlier kind := by
  constructor
  · intro ho earlier hm
    exact (List.pairwise_append.1 ho.pairwise).2.2 earlier hm kind (List.mem_singleton_self kind)
  · intro hp
    refine of_pairwise (by simp [hc, Ne.symm hk]) (List.pairwise_append.2 ⟨h.pairwise, ?_, ?_⟩)
    · exact List.pairwise_singleton _ _
    · intro earlier hm later hl
      obtain rfl := List.mem_singleton.1 hl
      exact hp earlier hm

-- A kind that nothing else may follow comes last.
theorem getLast?_eq (h : Ordered kinds) (hm : kind ∈ kinds)
    (hn : ∀ later ∈ kinds, ¬Precedes kind later) : kinds.getLast? = some kind := by
  obtain ⟨before, after, rfl⟩ := List.append_of_mem hm
  have hpairs := (List.pairwise_append.1 h.pairwise).2.1
  obtain rfl : after = [] := List.eq_nil_iff_forall_not_mem.2 fun later hl =>
    hn later (by simp [hl]) ((List.pairwise_cons.1 hpairs).1 later hl)
  simp

end Ordered

-- A handler that a redirection can ask for.
inductive Stage where
  | pipe (handler : Handler.Pipe)
  | formatter (handler : Handler.Formatter)
  | sink (handler : Handler.Sink)

namespace Stage

def kind : Stage → Kind
  | pipe _ => .pipe
  | formatter _ => .formatter
  | sink _ => .sink

-- The options of the handler; those of a sink may depend on the context.
def options (context : Context) : Stage → Options
  | pipe handler => handler.options
  | formatter handler => handler.options
  | sink handler => handler.options context

theorem kind_ne (stage : Stage) : stage.kind ≠ .command := by
  cases stage <;> exact nofun

end Stage

-- What a redirection asks for: the handler of a name, or one of two sinks for the operand that the
-- redirection has itself.
structure Demand where
  named : Bool
  site : Site
  args : Args

namespace Demand

def of (script : Script) (r : Script.Redirection) : Demand :=
  let token := script.token r.head
  match token.kind with
  | .fileRedirection => ⟨false, ⟨"file", r.head⟩, operand token .bareArgument r.head⟩
  | .shellRedirection => ⟨false, ⟨"sh", r.head⟩, operand token .singleQuoted r.head⟩
  | _ => ⟨true, ⟨token.text, r.head⟩, ⟨script.argsOf r.node, r.node.firstArg⟩⟩

-- A name is that of a pipe, or else of a formatter, or else of a sink.
def stage? (d : Demand) (library : Handler.Library) : Option Stage :=
  let sink := (library.handler? .sink d.site.name).map Stage.sink
  if d.named then
    ((library.handler? .pipe d.site.name).map Stage.pipe).or <|
      ((library.handler? .formatter d.site.name).map Stage.formatter).or sink
  else sink

-- The kind that is asked for, which is a sink for an operand even if there is none.
def kind? (d : Demand) (library : Handler.Library) : Option Kind :=
  if d.named then (d.stage? library).map (·.kind) else some .sink

theorem kind?_of_stage? {d : Demand} {library : Handler.Library} {stage : Stage}
    (h : d.stage? library = some stage) : d.kind? library = some stage.kind := by
  unfold kind?
  split
  · rw [h]
    rfl
  · next hn =>
    simp only [stage?, hn, if_false, Bool.false_eq_true] at h
    obtain ⟨handler, -, rfl⟩ := Option.map_eq_some_iff.1 h
    rfl

end Demand

-- A bound handler in a chain.
structure Link where
  site : Site
  stage : Stage
  slots : List Slot

namespace Link

def kind (link : Link) : Kind := link.stage.kind

def pipe? : Link → Option (Attached Output.Filter)
  | ⟨at_, .pipe handler, slots⟩ => some ⟨at_.name, at_.token, handler.filter slots⟩
  | _ => none

def formatter? : Link → Option (Attached Output.Format)
  | ⟨at_, .formatter handler, slots⟩ => some ⟨at_.name, at_.token, handler.format slots⟩
  | _ => none

def sink? : Link → Option (Attached Handler.Target)
  | ⟨at_, .sink handler, slots⟩ => some ⟨at_.name, at_.token, handler.target slots⟩
  | _ => none

theorem isSome_formatter? (link : Link) : link.formatter?.isSome ↔ link.kind = .formatter := by
  obtain ⟨at_, stage, slots⟩ := link
  cases stage <;> simp [formatter?, kind, Stage.kind]

theorem isSome_sink? (link : Link) : link.sink?.isSome ↔ link.kind = .sink := by
  obtain ⟨at_, stage, slots⟩ := link
  cases stage <;> simp [sink?, kind, Stage.kind]

theorem command_notMem (links : List Link) : .command ∉ links.map kind := by
  intro h
  obtain ⟨link, -, hk⟩ := List.mem_map.1 h
  exact link.stage.kind_ne hk

end Link

-- The pipes in the order of the links, with the formatter and the sink among these.
def Chain.ofLinks (links : List Link) : Chain where
  pipes := links.filterMap (·.pipe?)
  formatter := links.findSome? (·.formatter?)
  sink := links.findSome? (·.sink?)

namespace Chain

variable {links : List Link}

theorem isSome_formatter_ofLinks :
    (ofLinks links).formatter.isSome ↔ .formatter ∈ links.map Link.kind := by
  simp [ofLinks, List.findSome?_isSome_iff, Link.isSome_formatter?]

theorem isSome_sink_ofLinks : (ofLinks links).sink.isSome ↔ .sink ∈ links.map Link.kind := by
  simp [ofLinks, List.findSome?_isSome_iff, Link.isSome_sink?]

section Concat

variable (at_ : Site) (slots : List Slot)

theorem ofLinks_pipe (pipe : Handler.Pipe) : ofLinks (links ++ [⟨at_, .pipe pipe, slots⟩]) =
    { ofLinks links with
      pipes := (ofLinks links).pipes ++ [⟨at_.name, at_.token, pipe.filter slots⟩] } := by
  simp [ofLinks, Link.pipe?, Link.formatter?, Link.sink?]

theorem ofLinks_formatter (formatter : Handler.Formatter) (h : (ofLinks links).formatter = none) :
    ofLinks (links ++ [⟨at_, .formatter formatter, slots⟩]) =
      { ofLinks links with
        formatter := some ⟨at_.name, at_.token, formatter.format slots⟩ } := by
  have hn : links.findSome? (·.formatter?) = none := h
  simp only [ofLinks, List.filterMap_append, List.findSome?_append, hn, Option.none_or]
  simp [Link.pipe?, Link.formatter?, Link.sink?]

theorem ofLinks_sink (sink : Handler.Sink) (h : (ofLinks links).sink = none) :
    ofLinks (links ++ [⟨at_, .sink sink, slots⟩]) =
      { ofLinks links with sink := some ⟨at_.name, at_.token, sink.target slots⟩ } := by
  have hn : links.findSome? (·.sink?) = none := h
  simp only [ofLinks, List.filterMap_append, List.findSome?_append, hn, Option.none_or]
  simp [Link.pipe?, Link.formatter?, Link.sink?]

end Concat

theorem eq_none_of_occupied? {c : Chain} (h : c.occupied? = none) :
    c.formatter = none ∧ c.sink = none := by
  unfold occupied? at h
  cases hs : c.sink <;> cases hf : c.formatter <;> simp_all

-- What ends a chain already is its last kind, which only a sink may follow if at all.
theorem last_of_occupied? {kind : Kind} (h : Ordered (links.map Link.kind))
    (ho : (ofLinks links).occupied? = some kind) :
    (links.map Link.kind).getLast? = some kind ∧
      ∀ later, later ≠ .sink → ¬Ordered.Precedes kind later := by
  unfold occupied? at ho
  split at ho
  · next hs =>
    obtain rfl := Option.some.inj ho
    refine ⟨h.getLast?_eq (isSome_sink_ofLinks.1 hs) ?_, ?_⟩ <;> simp [Ordered.Precedes]
  · next hs =>
    split at ho
    · next hf =>
      obtain rfl := Option.some.inj ho
      rw [isSome_sink_ofLinks] at hs
      refine ⟨h.getLast?_eq (isSome_formatter_ofLinks.1 hf) fun later hl => ?_, ?_⟩
      · rintro (hp | ⟨-, rfl⟩)
        · cases hp
        · exact hs hl
      · simp [Ordered.Precedes]
    · cases ho

-- Behind pipes anything may follow.
theorem ordered_of_occupied? {kind : Kind} (h : Ordered (links.map Link.kind))
    (hk : kind ≠ .command) (ho : (ofLinks links).occupied? = none) :
    Ordered (links.map Link.kind ++ [kind]) := by
  obtain ⟨hf, hs⟩ := eq_none_of_occupied? ho
  refine (Ordered.concat_iff (Link.command_notMem links) hk h).2 fun earlier hm => .inl ?_
  have hc := Link.command_notMem links
  cases earlier with
  | pipe => rfl
  | command => exact absurd hm hc
  | formatter =>
    have hsome := isSome_formatter_ofLinks.2 hm
    simp [hf] at hsome
  | sink =>
    have hsome := isSome_sink_ofLinks.2 hm
    simp [hs] at hsome

theorem ordered_sink_iff (h : Ordered (links.map Link.kind)) :
    Ordered (links.map Link.kind ++ [.sink]) ↔ (ofLinks links).sink.isSome = false := by
  rw [Ordered.concat_iff (Link.command_notMem links) (by decide) h, Bool.eq_false_iff, ne_eq,
    isSome_sink_ofLinks]
  constructor
  · intro hp hm
    simpa [Ordered.Precedes] using hp .sink hm
  · intro hn earlier hm
    have hc := Link.command_notMem links
    cases earlier with
    | pipe => exact .inl rfl
    | formatter => exact .inr ⟨rfl, rfl⟩
    | command => exact absurd hm hc
    | sink => exact absurd hm hn

end Chain

end CommandShell.Session
