import CommandShell.Failure
import CommandShell.Output.Token

namespace CommandShell.Output

-- What a stage does until it asks for its next token: it emits, learning each time whether that
-- was refused, and then waits in some state or stops.
inductive Reaction (ω σ : Type) where
  | emit (output : ω) (next : Option Failure → Reaction ω σ)
  | await (state : σ)
  | stop (failure : Option Failure)

namespace Reaction

variable {ω σ τ : Type}

-- The same, with other names for the states.
def map (f : σ → τ) : Reaction ω σ → Reaction ω τ
  | .emit output next => .emit output fun refusal => (next refusal).map f
  | .await state => .await (f state)
  | .stop failure => .stop failure

-- Emit everything, but stop at the first refusal.
def emitAll (outputs : List ω) (last : Reaction ω σ) : Reaction ω σ :=
  match outputs with
  | [] => last
  | output :: rest => .emit output fun
    | none => emitAll rest last
    | some refusal => .stop (some refusal)

-- Carry a reaction out, putting what it emits somewhere.
def run (put : ω → τ → τ × Option Failure) (r : Reaction ω σ) (t : τ) :
    τ × (σ ⊕ Option Failure) :=
  match r with
  | .emit output next =>
    let (t, refusal) := put output t
    (next refusal).run put t
  | .await state => (t, .inl state)
  | .stop failure => (t, .inr failure)

end Reaction

-- A stage by its reactions.  Nothing is left to wait for after the end of the input.
structure Behaviour (ω σ : Type) where
  onToken : σ → Token → Reaction ω σ
  onEnd : σ → Reaction ω Empty

-- What a stage keeps in mind between two tokens, if nothing else is known about it: the tokens that
-- it read, or what it makes of them.
abbrev Memory := List Token

-- A stage of which nothing else is known.
structure Stage (ω : Type) where
  start : Reaction ω Memory
  behaviour : Behaviour ω Memory

end CommandShell.Output
