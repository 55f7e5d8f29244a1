import CommandShell.Output.Filter
import CommandShell.Output.Format
import CommandShell.Text.Utf8

namespace CommandShell.Output

variable {ω σ : Type}

namespace Reaction

-- What is emitted when nothing is refused.
def emitted : Reaction ω σ → List ω
  | .emit output next => output :: (next none).emitted
  | .await _ | .stop _ => []

-- Where that ends.
def ended : Reaction ω σ → σ ⊕ Option Failure
  | .emit _ next => (next none).ended
  | .await state => .inl state
  | .stop failure => .inr failure

-- It does not fail on its own, and stops when it is told that its output is closed.  Everything it
-- emits is `Fit`, and it waits in `Calm` states only.
inductive Meek (Fit : ω → Prop) (Calm : σ → Prop) : Reaction ω σ → Prop where
  | emit {output : ω} {next : Option Failure → Reaction ω σ} (fit : Fit output)
      (goesOn : Meek Fit Calm (next none))
      (stops : next (some .outputClosed) = .stop (some .outputClosed)) :
      Meek Fit Calm (.emit output next)
  | await {state : σ} (calm : Calm state) : Meek Fit Calm (.await state)
  | stop : Meek Fit Calm (.stop none)

theorem meek_emitAll {Fit : ω → Prop} {Calm : σ → Prop} {outputs : List ω} {last : Reaction ω σ}
    (hf : ∀ output ∈ outputs, Fit output) (hl : last.Meek Fit Calm) :
    (emitAll outputs last).Meek Fit Calm := by
  induction outputs with
  | nil => exact hl
  | cons output rest ih =>
    exact .emit (hf output List.mem_cons_self)
      (ih fun output h => hf output (List.mem_cons_of_mem _ h)) rfl

end Reaction

namespace Behaviour

-- What a stage emits for an input, from where it is, when nothing is refused.
def outputs (b : Behaviour ω σ) : List Token → Reaction ω σ → List ω
  | [], r =>
    r.emitted ++ match r.ended with
      | .inl state => (b.onEnd state).emitted
      | .inr _ => []
  | t :: rest, r =>
    r.emitted ++ match r.ended with
      | .inl state => b.outputs rest (b.onToken state t)
      | .inr _ => []

variable {b : Behaviour ω σ} {input : List Token}

@[simp] theorem outputs_emit (output : ω) (next : Option Failure → Reaction ω σ) :
    b.outputs input (.emit output next) = output :: b.outputs input (next none) := by
  cases input <;> rfl

@[simp] theorem outputs_stop (failure : Option Failure) :
    b.outputs input (.stop failure) = [] := by
  cases input <;> rfl

@[simp] theorem outputs_await_nil (state : σ) :
    b.outputs [] (.await state) = (b.onEnd state).emitted := rfl

@[simp] theorem outputs_await_cons (state : σ) (t : Token) :
    b.outputs (t :: input) (.await state) = b.outputs input (b.onToken state t) := rfl

theorem outputs_eq_emitted_append (r : Reaction ω σ) :
    b.outputs input r = r.emitted ++ match r.ended with
      | .inl state => b.outputs input (.await state)
      | .inr _ => [] := by
  cases input <;> rfl

-- A stage all of whose reactions are meek as long as it reads no marker.
structure Meek (b : Behaviour ω σ) (Fit : ω → Prop) (Calm : σ → Prop) : Prop where
  onToken : ∀ {state t}, Calm state → t ≠ .endOfStream → (b.onToken state t).Meek Fit Calm
  onEnd : ∀ {state}, Calm state → (b.onEnd state).Meek Fit fun _ => True

end Behaviour

mutual

theorem ne_endOfStream_of_mem_tokensOf {name : Option String} {v : Json.Value} {t : Token}
    (h : t ∈ tokensOf name v) : t ≠ .endOfStream := by
  match v with
  | .object entries =>
    rw [tokensOf, List.mem_cons, List.mem_append, List.mem_singleton] at h
    rcases h with rfl | h | rfl
    · nofun
    · exact ne_endOfStream_of_mem_tokensOfEntries h
    · nofun
  | .array items =>
    rw [tokensOf, List.mem_cons, List.mem_append, List.mem_singleton] at h
    rcases h with rfl | h | rfl
    · nofun
    · exact ne_endOfStream_of_mem_tokensOfItems h
    · nofun
  | .null | .bool _ | .number _ | .string _ =>
    rw [tokensOf, List.mem_singleton] at h
    subst h
    nofun

theorem ne_endOfStream_of_mem_tokensOfItems {items : List Json.Value} {t : Token}
    (h : t ∈ tokensOfItems items) : t ≠ .endOfStream := by
  match items with
  | [] => cases h
  | v :: rest =>
    rw [tokensOfItems, List.mem_append] at h
    exact h.elim ne_endOfStream_of_mem_tokensOf ne_endOfStream_of_mem_tokensOfItems

theorem ne_endOfStream_of_mem_tokensOfEntries {entries : List (String × Json.Value)} {t : Token}
    (h : t ∈ tokensOfEntries entries) : t ≠ .endOfStream := by
  match entries with
  | [] => cases h
  | (key, v) :: rest =>
    rw [tokensOfEntries, List.mem_append] at h
    exact h.elim ne_endOfStream_of_mem_tokensOf ne_endOfStream_of_mem_tokensOfEntries

end

-- The filters of which all is known.
def Filter.isStandard : Filter → Bool
  | limit _ | grep _ _ _ => true
  | other _ => false

def FilterState.isStandard : FilterState → Bool
  | limit _ _ | grep _ _ _ _ => true
  | other _ _ => false

-- The formatters of which all is known.
def Format.isStandard : Format → Bool
  | text | json _ => true
  | other _ => false

def FormatState.isStandard : FormatState → Bool
  | text _ | json _ _ => true
  | other _ _ => false

theorem FilterState.meek_ready {s : FilterState} {Fit : Token → Prop} (h : s.isStandard = true) :
    s.ready.Meek Fit (·.isStandard = true) := by
  unfold ready
  split
  · exact .stop
  · exact .await h

theorem FilterState.meek_behaviour :
    FilterState.behaviour.Meek (· ≠ .endOfStream) (·.isStandard = true) where
  onToken {state t} hs ht := by
    cases state with
    | limit left assembler =>
      exact Reaction.meek_emitAll (by simpa using ht) (meek_ready rfl)
    | grep pattern ignoreCase invert assembler =>
      refine Reaction.meek_emitAll ?_ (.await rfl)
      intro output h
      split at h
      · split at h
        · exact ne_endOfStream_of_mem_tokensOf h
        · cases h
      · cases h
    | other memory behaviour => cases hs
  onEnd {state} hs := by
    cases state with
    | limit left assembler => exact .stop
    | grep pattern ignoreCase invert assembler => exact .stop
    | other memory behaviour => cases hs

theorem Filter.meek_start {f : Filter} {Fit : Token → Prop} (h : f.isStandard = true) :
    f.start.Meek Fit (·.isStandard = true) := by
  cases f with
  | limit count => exact FilterState.meek_ready rfl
  | grep pattern ignoreCase invert => exact .await rfl
  | other stage => cases h

theorem meek_emitDocument {Calm : σ → Prop} (compact : Bool) (r : Record)
    {last : Reaction String σ} (h : last.Meek (fun _ => True) Calm) :
    (emitDocument compact r last).Meek (fun _ => True) Calm :=
  .emit trivial (Reaction.meek_emitAll (fun _ _ => trivial) h) rfl

theorem FormatState.meek_behaviour :
    FormatState.behaviour.Meek (fun _ => True) (·.isStandard = true) where
  onToken {state t} hs _ := by
    cases state with
    | text margin => exact Reaction.meek_emitAll (fun _ _ => trivial) (.await rfl)
    | json compact assembler =>
      simp only [behaviour, onToken]
      split
      · exact meek_emitDocument compact _ (.await rfl)
      · exact .await rfl
    | other memory behaviour => cases hs
  onEnd {state} hs := by
    cases state with
    | text margin => exact .stop
    | json compact assembler =>
      simp only [behaviour, onEnd]
      split
      · exact meek_emitDocument compact _ .stop
      · exact .stop
    | other memory behaviour => cases hs

theorem Format.meek_start {f : Format} (h : f.isStandard = true) :
    f.start.Meek (fun _ => True) (·.isStandard = true) := by
  cases f with
  | text => exact .await rfl
  | json compact => exact .await rfl
  | other stage => cases h

-- What a filter makes of a stream.
def Filter.apply (f : Filter) (stream : List Token) : List Token :=
  FilterState.behaviour.outputs stream f.start

-- What a formatter makes of a stream.
def Format.render (f : Format) (stream : List Token) : List UInt8 :=
  (FormatState.behaviour.outputs stream f.start).flatMap Text.encodeUtf8

-- One stage after the other, each on all that the one before it gives.
def rendered (filters : List Filter) (format : Format) (stream : List Token) : List UInt8 :=
  format.render (filters.foldl (fun stream f => f.apply stream) stream)

end CommandShell.Output
