import CommandShell.Output.Pipeline
import CommandShell.Proofs.Threads.Boundary

namespace CommandShell.Output

namespace Reaction

variable {ω σ : Type}

-- A reaction that never waits, among those that may.
def closing : Reaction ω Empty → Reaction ω σ
  | .emit output next => .emit output fun refusal => (next refusal).closing
  | .await state => nomatch state
  | .stop failure => .stop failure

end Reaction

-- What a stage does with what it reads: a token, or nothing at the end of its input.
def Behaviour.react {ω σ : Type} (b : Behaviour ω σ) (state : σ) : Option Token → Reaction ω σ
  | some t => b.onToken state t
  | none => (b.onEnd state).closing

-- The stages of an output run in threads of their own: the producer writes into the queue of the
-- first stage, every filter into the queue of the next, and the formatter into the writer.  A
-- step is what one thread does without another one getting in between.  What a filter is and how
-- far it got are both in its state.  A body that breaks down stops with that as its failure.
namespace Threads

section Filter

variable {σ : Type}

-- Where the thread of a filter is.  Behind its body it records a failure if there was one, tells
-- the writer before it that nothing is looked at any more, reads what is left of its input, ends
-- the stream for the next stage, and gives up both of its queues.
inductive FilterPhase (σ : Type) where
  | running (r : Reaction Token σ)
  | asking (t : Token) (next : Option Failure → Reaction Token σ)
  | sending (t : Token) (next : Option Failure → Reaction Token σ)
  | failing (e : Failure)
  | recording (e : Failure)
  | leaving
  | draining
  | ending
  | hangingUp
  | dropping
  | exited

namespace FilterPhase

def isExited : FilterPhase σ → Bool
  | exited => true
  | _ => false

-- How the end of a body is taken.  That nothing it sends is read any more is no failure, unless
-- the pipeline has failed.
def stopped (status : Status) : Option Failure → FilterPhase σ
  | none => leaving
  | some .outputClosed => if status.failed then failing .outputClosed else leaving
  | some e => failing e

end FilterPhase

-- All that the thread of a filter can see and change.
structure FilterView (σ : Type) where
  phase : FilterPhase σ
  inlet : Boundary
  outlet : Boundary
  status : Status

variable (filter : Behaviour Token σ) (capacity : Nat)

-- The steps of a filter's thread.  A token is sent in three: is the pipeline still sound, is the
-- next stage still there, and into the queue.
inductive FilterStep : FilterView σ → FilterView σ → Prop where
  | receive {state got outlet status} {inlet inlet' : Boundary}
      (h : inlet.receive? = some (got, inlet')) :
      FilterStep ⟨.running (.await state), inlet, outlet, status⟩
        ⟨.running (filter.react state got), inlet', outlet, status⟩
  | refuse {t next inlet outlet} {status : Status} (h : status.failed = true) :
      FilterStep ⟨.running (.emit t next), inlet, outlet, status⟩
        ⟨.running (next (some .outputClosed)), inlet, outlet, status⟩
  | ask {t next inlet outlet} {status : Status} (h : status.failed = false) :
      FilterStep ⟨.running (.emit t next), inlet, outlet, status⟩
        ⟨.asking t next, inlet, outlet, status⟩
  | turnBack {t next inlet status} {outlet : Boundary} (h : outlet.gone = true) :
      FilterStep ⟨.asking t next, inlet, outlet, status⟩
        ⟨.running (next (some .outputClosed)), inlet, outlet, status⟩
  | proceed {t next inlet status} {outlet : Boundary} (h : outlet.gone = false) :
      FilterStep ⟨.asking t next, inlet, outlet, status⟩ ⟨.sending t next, inlet, outlet, status⟩
  | send {t next refusal inlet status} {outlet outlet' : Boundary}
      (h : outlet.send? capacity t = some (refusal, outlet')) :
      FilterStep ⟨.sending t next, inlet, outlet, status⟩
        ⟨.running (next refusal), inlet, outlet', status⟩
  | stop {failure inlet outlet status} :
      FilterStep ⟨.running (.stop failure), inlet, outlet, status⟩
        ⟨.stopped status failure, inlet, outlet, status⟩
  | failLate {e inlet outlet} {status : Status} (h : status.failed = true) :
      FilterStep ⟨.failing e, inlet, outlet, status⟩ ⟨.leaving, inlet, outlet, status⟩
  | fail {e inlet outlet} {status : Status} (h : status.failed = false) :
      FilterStep ⟨.failing e, inlet, outlet, status⟩
        ⟨.recording e, inlet, outlet, { status with failed := true }⟩
  | record {e inlet outlet} {status : Status} :
      FilterStep ⟨.recording e, inlet, outlet, status⟩
        ⟨.leaving, inlet, outlet, { status with failure := some e }⟩
  | leave {outlet status} {inlet : Boundary} :
      FilterStep ⟨.leaving, inlet, outlet, status⟩ ⟨.draining, inlet.leave, outlet, status⟩
  | discard {t outlet status} {inlet inlet' : Boundary}
      (h : inlet.receive? = some (some t, inlet')) :
      FilterStep ⟨.draining, inlet, outlet, status⟩ ⟨.draining, inlet', outlet, status⟩
  | drained {outlet status} {inlet inlet' : Boundary} (h : inlet.receive? = some (none, inlet')) :
      FilterStep ⟨.draining, inlet, outlet, status⟩ ⟨.ending, inlet', outlet, status⟩
  | finish {refusal inlet status} {outlet outlet' : Boundary}
      (h : outlet.send? capacity .endOfStream = some (refusal, outlet')) :
      FilterStep ⟨.ending, inlet, outlet, status⟩ ⟨.hangingUp, inlet, outlet', status⟩
  | hangUp {inlet status} {outlet : Boundary} :
      FilterStep ⟨.hangingUp, inlet, outlet, status⟩ ⟨.dropping, inlet, outlet.hangUp, status⟩
  | drop {outlet status} {inlet : Boundary} :
      FilterStep ⟨.dropping, inlet, outlet, status⟩ ⟨.exited, inlet.drop, outlet, status⟩

end Filter

section Formatter

variable {φ : Type}

inductive FormatPhase (φ : Type) where
  | running (r : Reaction String φ)
  | failing (e : Failure)
  | recording (e : Failure)
  | draining
  | dropping
  | exited

namespace FormatPhase

def isExited : FormatPhase φ → Bool
  | exited => true
  | _ => false

-- How the end of a body is taken.  When it ends well, the writer is flushed.
def stopped (writer : Writer) (failure : Option Failure) : FormatPhase φ :=
  match failure.or writer.flush with
  | some e => failing e
  | none => draining

end FormatPhase

-- All that the thread of the formatter can see and change.
structure FormatView (φ : Type) where
  phase : FormatPhase φ
  inlet : Boundary
  writer : Writer
  status : Status

variable (format : Behaviour String φ)

inductive FormatStep : FormatView φ → FormatView φ → Prop where
  | receive {state got writer status} {inlet inlet' : Boundary}
      (h : inlet.receive? = some (got, inlet')) :
      FormatStep ⟨.running (.await state), inlet, writer, status⟩
        ⟨.running (format.react state got), inlet', writer, status⟩
  | write {text next inlet status} {writer : Writer} :
      FormatStep ⟨.running (.emit text next), inlet, writer, status⟩
        ⟨.running (next (writer.write text).2), inlet, (writer.write text).1, status⟩
  | stop {failure inlet writer status} :
      FormatStep ⟨.running (.stop failure), inlet, writer, status⟩
        ⟨.stopped writer failure, inlet, writer, status⟩
  | failLate {e inlet writer} {status : Status} (h : status.failed = true) :
      FormatStep ⟨.failing e, inlet, writer, status⟩ ⟨.draining, inlet, writer, status⟩
  | fail {e inlet writer} {status : Status} (h : status.failed = false) :
      FormatStep ⟨.failing e, inlet, writer, status⟩
        ⟨.recording e, inlet, writer, { status with failed := true }⟩
  | record {e inlet writer} {status : Status} :
      FormatStep ⟨.recording e, inlet, writer, status⟩
        ⟨.draining, inlet, writer, { status with failure := some e }⟩
  | discard {t writer status} {inlet inlet' : Boundary}
      (h : inlet.receive? = some (some t, inlet')) :
      FormatStep ⟨.draining, inlet, writer, status⟩ ⟨.draining, inlet', writer, status⟩
  | drained {writer status} {inlet inlet' : Boundary} (h : inlet.receive? = some (none, inlet')) :
      FormatStep ⟨.draining, inlet, writer, status⟩ ⟨.dropping, inlet', writer, status⟩
  | drop {writer status} {inlet : Boundary} :
      FormatStep ⟨.dropping, inlet, writer, status⟩ ⟨.exited, inlet.drop, writer, status⟩

end Formatter

-- The threads from one stage on, each with the queue that it reads.
inductive Chain (σ φ : Type) where
  | formatter (inlet : Boundary) (phase : FormatPhase φ) (writer : Writer)
  | filter (inlet : Boundary) (phase : FilterPhase σ) (rest : Chain σ φ)

section System

variable {σ φ : Type}

namespace Chain

def inlet : Chain σ φ → Boundary
  | formatter inlet _ _ => inlet
  | filter inlet _ _ => inlet

def withInlet (inlet : Boundary) : Chain σ φ → Chain σ φ
  | formatter _ phase writer => .formatter inlet phase writer
  | filter _ phase rest => .filter inlet phase rest

def writer : Chain σ φ → Writer
  | formatter _ _ writer => writer
  | filter _ _ rest => rest.writer

-- All threads have exited.
def isExited : Chain σ φ → Bool
  | formatter _ phase _ => phase.isExited
  | filter _ phase rest => phase.isExited && rest.isExited

-- All stages before their first step.
def start (writer : Writer) (last : Reaction String φ) : List (Reaction Token σ) → Chain σ φ
  | [] => .formatter {} (.running last) writer
  | first :: filters => .filter {} (.running first) (start writer last filters)

end Chain

variable (filter : Behaviour Token σ) (format : Behaviour String φ) (capacity : Nat)

-- A step of one of the stages.
inductive ChainStep : Chain σ φ → Status → Chain σ φ → Status → Prop where
  | formatter {inlet inlet' phase phase' writer writer' status status'}
      (h : FormatStep format ⟨phase, inlet, writer, status⟩ ⟨phase', inlet', writer', status'⟩) :
      ChainStep (.formatter inlet phase writer) status (.formatter inlet' phase' writer') status'
  | filter {inlet inlet' outlet' phase phase' status status'} {rest : Chain σ φ}
      (h : FilterStep filter capacity ⟨phase, inlet, rest.inlet, status⟩
        ⟨phase', inlet', outlet', status'⟩) :
      ChainStep (.filter inlet phase rest) status (.filter inlet' phase' (rest.withInlet outlet'))
        status'
  | rest {inlet phase status status'} {rest rest' : Chain σ φ}
      (h : ChainStep rest status rest' status') :
      ChainStep (.filter inlet phase rest) status (.filter inlet phase rest') status'

-- What a producer does before it closes the output.
inductive Call where
  | write (t : Token)
  | fail (e : Failure)

-- Where the producer is: between two calls, in one, or closing the output.  Then it ends the
-- stream, gives up its queue, and waits for all threads before it reports the first failure.
inductive Producer where
  | ready (calls : List Call)
  | asking (t : Token) (calls : List Call)
  | sending (t : Token) (calls : List Call)
  | failing (e : Failure) (calls : List Call)
  | recording (e : Failure) (calls : List Call)
  | ending
  | hangingUp
  | joining
  | returned (failure : Option Failure)

-- All that the producer can see and change while the stages run.
structure ProducerView where
  producer : Producer
  outlet : Boundary
  status : Status

inductive ProducerStep : ProducerView → ProducerView → Prop where
  | skip {t calls outlet} {status : Status} (h : status.failed = true) :
      ProducerStep ⟨.ready (.write t :: calls), outlet, status⟩ ⟨.ready calls, outlet, status⟩
  | ask {t calls outlet} {status : Status} (h : status.failed = false) :
      ProducerStep ⟨.ready (.write t :: calls), outlet, status⟩ ⟨.asking t calls, outlet, status⟩
  | turnBack {t calls status} {outlet : Boundary} (h : outlet.gone = true) :
      ProducerStep ⟨.asking t calls, outlet, status⟩ ⟨.ready calls, outlet, status⟩
  | proceed {t calls status} {outlet : Boundary} (h : outlet.gone = false) :
      ProducerStep ⟨.asking t calls, outlet, status⟩ ⟨.sending t calls, outlet, status⟩
  | send {t calls status} {outlet outlet' : Boundary}
      (h : outlet.send? capacity t = some (none, outlet')) :
      ProducerStep ⟨.sending t calls, outlet, status⟩ ⟨.ready calls, outlet', status⟩
  | refused {t e calls status} {outlet outlet' : Boundary}
      (h : outlet.send? capacity t = some (some e, outlet')) :
      ProducerStep ⟨.sending t calls, outlet, status⟩ ⟨.failing e calls, outlet', status⟩
  | giveUp {e calls outlet status} :
      ProducerStep ⟨.ready (.fail e :: calls), outlet, status⟩ ⟨.failing e calls, outlet, status⟩
  | failLate {e calls outlet} {status : Status} (h : status.failed = true) :
      ProducerStep ⟨.failing e calls, outlet, status⟩ ⟨.ready calls, outlet, status⟩
  | fail {e calls outlet} {status : Status} (h : status.failed = false) :
      ProducerStep ⟨.failing e calls, outlet, status⟩
        ⟨.recording e calls, outlet, { status with failed := true }⟩
  | record {e calls outlet} {status : Status} :
      ProducerStep ⟨.recording e calls, outlet, status⟩
        ⟨.ready calls, outlet, { status with failure := some e }⟩
  | close {outlet status} :
      ProducerStep ⟨.ready [], outlet, status⟩ ⟨.ending, outlet, status⟩
  | finish {refusal status} {outlet outlet' : Boundary}
      (h : outlet.send? capacity .endOfStream = some (refusal, outlet')) :
      ProducerStep ⟨.ending, outlet, status⟩ ⟨.hangingUp, outlet', status⟩
  | hangUp {status} {outlet : Boundary} :
      ProducerStep ⟨.hangingUp, outlet, status⟩ ⟨.joining, outlet.hangUp, status⟩

structure System (σ φ : Type) where
  producer : Producer
  chain : Chain σ φ
  status : Status

-- Before any thread has taken a step.
def System.start (writer : Writer) (last : Reaction String φ) (filters : List (Reaction Token σ))
    (calls : List Call) : System σ φ :=
  ⟨.ready calls, .start writer last filters, {}⟩

-- The producer or a stage takes a step, whichever comes first.
inductive Step : System σ φ → System σ φ → Prop where
  | produce {producer producer' outlet' status status'} {chain : Chain σ φ}
      (h : ProducerStep capacity ⟨producer, chain.inlet, status⟩ ⟨producer', outlet', status'⟩) :
      Step ⟨producer, chain, status⟩ ⟨producer', chain.withInlet outlet', status'⟩
  | report {status : Status} {chain : Chain σ φ} (h : chain.isExited = true) :
      Step ⟨.joining, chain, status⟩
        ⟨.returned status.failure, chain, { status with failure := none }⟩
  | stage {producer status status'} {chain chain' : Chain σ φ}
      (h : ChainStep filter format capacity chain status chain' status') :
      Step ⟨producer, chain, status⟩ ⟨producer, chain', status'⟩

end System

end Threads

end CommandShell.Output
