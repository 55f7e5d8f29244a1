import CommandShell.Failure
import CommandShell.Output.Token

namespace CommandShell.Output.Threads

-- A bounded queue between two threads with what is known about its ends.
structure Boundary where
  queue : List Token := []
  -- The writing end was given up.
  cut : Bool := false
  -- The reader has met the end of the stream.
  done : Bool := false
  -- The reader will not look at anything that comes.
  gone : Bool := false
  -- The reading end was given up.
  dropped : Bool := false
deriving Repr

namespace Boundary

-- Read a token, or nothing at the end.  Without a result the reader has to wait.
def receive? (b : Boundary) : Option (Option Token × Boundary) :=
  if b.done then some (none, b)
  else
    match b.queue with
    | [] => if b.cut then some (none, { b with done := true }) else none
    | .endOfStream :: rest => some (none, { b with queue := rest, done := true })
    | t :: rest => some (some t, { b with queue := rest })

-- Write a token and learn whether it was refused.  Without a result the writer has to wait.  There
-- is always room for one token.
def send? (capacity : Nat) (t : Token) (b : Boundary) : Option (Option Failure × Boundary) :=
  if b.dropped then some (some .outputClosed, b)
  else if b.queue.length < max capacity 1 then some (none, { b with queue := b.queue ++ [t] })
  else none

-- The reader stops here; whoever writes need not go on unless it is the end that was met.
def leave (b : Boundary) : Boundary := { b with gone := b.gone || !b.done }

def hangUp (b : Boundary) : Boundary := { b with cut := true }

def drop (b : Boundary) : Boundary := { b with dropped := true }

-- What a reader can do to its queue.
inductive Takes : Boundary → Boundary → Prop where
  | nothing {b : Boundary} : Takes b b
  | receive {b b' : Boundary} {got : Option Token} (h : b.receive? = some (got, b')) : Takes b b'
  | leave {b : Boundary} : Takes b b.leave
  | drop {b : Boundary} : Takes b b.drop

-- What a writer can do to its queue.
inductive Puts : Boundary → Boundary → Prop where
  | nothing {b : Boundary} : Puts b b
  | send {b b' : Boundary} {capacity : Nat} {t : Token} {refusal : Option Failure}
      (h : b.send? capacity t = some (refusal, b')) : Puts b b'
  | hangUp {b : Boundary} : Puts b b.hangUp

variable {b b' : Boundary} {capacity : Nat} {t : Token} {got : Option Token}
  {refusal : Option Failure}

-- A token that was read was at the front of the queue.
theorem of_receive?_some (h : b.receive? = some (some t, b')) :
    b.done = false ∧ t ≠ .endOfStream ∧ ∃ rest, b.queue = t :: rest ∧
      b' = { b with queue := rest } := by
  unfold receive? at h
  split at h
  · cases h
  · next hd =>
    have hf : b.done = false := by simpa using hd
    split at h
    · split at h <;> cases h
    · cases h
    · next t rest ht hq =>
      cases h
      exact ⟨hf, ht, rest, hq, rfl⟩

-- Where the end was read it was known, or the marker was next, or the writer had hung up.
theorem of_receive?_none (h : b.receive? = some (none, b')) :
    (b.done = true ∧ b' = b) ∨
    (b.done = false ∧ ∃ rest, b.queue = .endOfStream :: rest ∧
      b' = { b with queue := rest, done := true }) ∨
    (b.done = false ∧ b.queue = [] ∧ b.cut = true ∧ b' = { b with done := true }) := by
  unfold receive? at h
  split at h
  · next hd =>
    cases h
    exact .inl ⟨hd, rfl⟩
  · next hd =>
    have hf : b.done = false := by simpa using hd
    refine .inr ?_
    split at h
    · next hq =>
      split at h
      · next hc =>
        cases h
        exact .inr ⟨hf, hq, hc, rfl⟩
      · cases h
    · next rest hq =>
      cases h
      exact .inl ⟨hf, rest, hq, rfl⟩
    · cases h

-- The cases of a write: nobody will ever read it, or there is room.
theorem send?_cases (h : b.send? capacity t = some (refusal, b')) :
    (b.dropped = true ∧ refusal = some .outputClosed ∧ b' = b) ∨
    (b.dropped = false ∧ refusal = none ∧ b' = { b with queue := b.queue ++ [t] }) := by
  unfold send? at h
  split at h
  · next hd =>
    cases h
    exact .inl ⟨hd, rfl, rfl⟩
  · next hd =>
    split at h
    · cases h
      exact .inr ⟨by simpa using hd, rfl, rfl⟩
    · cases h

-- A reader that waits has an open end and nothing to read.
theorem of_receive?_eq_none (h : b.receive? = none) :
    b.queue = [] ∧ b.done = false ∧ b.cut = false := by
  unfold receive? at h
  split at h
  · cases h
  · next hd =>
    split at h
    · next hq =>
      split at h
      · cases h
      · next hc => exact ⟨hq, by simpa using hd, by simpa using hc⟩
    · cases h
    · cases h

-- A writer that waits has a reader, which has something to read.
theorem of_send?_eq_none (h : b.send? capacity t = none) : b.queue ≠ [] ∧ b.dropped = false := by
  unfold send? at h
  split at h
  · cases h
  · next hd =>
    split at h
    · cases h
    · next hl =>
      refine ⟨?_, by simpa using hd⟩
      intro hq
      rw [hq, List.length_nil] at hl
      omega

-- Reading leaves alone what the writer has noted, and what the reader notes on leaving.
theorem flags_of_receive? (h : b.receive? = some (got, b')) :
    b'.cut = b.cut ∧ b'.gone = b.gone ∧ b'.dropped = b.dropped := by
  cases got with
  | some t =>
    obtain ⟨-, -, rest, -, rfl⟩ := of_receive?_some h
    exact ⟨rfl, rfl, rfl⟩
  | none =>
    rcases of_receive?_none h with ⟨-, rfl⟩ | ⟨-, rest, -, rfl⟩ | ⟨-, -, -, rfl⟩ <;>
      exact ⟨rfl, rfl, rfl⟩

-- A reader leaves alone whether the writer has hung up.
theorem Takes.cut_eq (h : b.Takes b') : b'.cut = b.cut := by
  cases h with
  | nothing => rfl
  | receive h => exact (flags_of_receive? h).1
  | leave => rfl
  | drop => rfl

-- A writer leaves alone what the reader has noted.
theorem Puts.reader_eq (h : b.Puts b') :
    b'.done = b.done ∧ b'.gone = b.gone ∧ b'.dropped = b.dropped := by
  cases h with
  | nothing => exact ⟨rfl, rfl, rfl⟩
  | send h =>
    rcases send?_cases h with ⟨-, -, rfl⟩ | ⟨-, -, rfl⟩ <;> exact ⟨rfl, rfl, rfl⟩
  | hangUp => exact ⟨rfl, rfl, rfl⟩

-- What is still to be read: every token and the end.
def unread (b : Boundary) : Nat := b.queue.length + if b.done then 0 else 1

-- Reading gets on, unless the end was known before.
theorem unread_of_receive? (h : b.receive? = some (got, b')) :
    b'.unread < b.unread ∨ got = none ∧ b' = b := by
  cases got with
  | some t =>
    obtain ⟨hd, -, rest, hq, rfl⟩ := of_receive?_some h
    refine .inl ?_
    simp only [unread, hd, hq, List.length_cons]
    omega
  | none =>
    rcases of_receive?_none h with ⟨-, rfl⟩ | ⟨hd, rest, hq, rfl⟩ | ⟨hd, hq, -, rfl⟩
    · exact .inr ⟨rfl, rfl⟩
    · simp only [unread, hd, hq, List.length_cons, reduceIte, Bool.false_eq_true]
      omega
    · simp only [unread, hd, hq, List.length_nil, reduceIte, Bool.false_eq_true]
      omega

end Boundary

end CommandShell.Output.Threads
