import CommandShell.Proofs.Threads.Boundary

namespace CommandShell.Output.Threads

namespace Boundary

variable {b b' : Boundary} {t : Token} {coming : List Token}

-- What will be read of a queue when this comes after it.
def ahead (cut : Bool) (coming : List Token) : List Token → List Token
  | [] => if cut then [] else coming
  | .endOfStream :: _ => []
  | t :: rest => t :: ahead cut coming rest

def future (b : Boundary) (coming : List Token) : List Token :=
  if b.done then [] else ahead b.cut coming b.queue

-- The stream has not ended.
structure Open (b : Boundary) : Prop where
  clean : ∀ t ∈ b.queue, t ≠ .endOfStream
  uncut : b.cut = false
  undone : b.done = false

theorem ahead_cons (ht : t ≠ .endOfStream) (cut : Bool) (queue : List Token) :
    ahead cut coming (t :: queue) = t :: ahead cut coming queue := by
  cases t <;> first | rfl | exact absurd rfl ht

theorem ahead_append {cut : Bool} {queue : List Token} (hq : ∀ t ∈ queue, t ≠ .endOfStream)
    (more : List Token) : ahead cut coming (queue ++ more) = queue ++ ahead cut coming more := by
  induction queue with
  | nil => rfl
  | cons t rest ih =>
    rw [List.cons_append, ahead_cons (hq t List.mem_cons_self),
      ih fun t h => hq t (List.mem_cons_of_mem _ h), List.cons_append]

theorem future_of_open (h : b.Open) : b.future coming = b.queue ++ coming := by
  rw [future, h.undone, if_neg nofun, ← List.append_nil b.queue, ahead_append h.clean, h.uncut]
  simp [ahead]

theorem future_of_receive?_some (h : b.receive? = some (some t, b')) :
    b.future coming = t :: b'.future coming := by
  obtain ⟨hd, ht, rest, hq, rfl⟩ := of_receive?_some h
  simp [future, hd, hq, ahead_cons ht]

theorem future_of_receive?_none (coming : List Token) (h : b.receive? = some (none, b')) :
    b.future coming = [] ∧ b'.future coming = [] := by
  rcases of_receive?_none h with ⟨hd, rfl⟩ | ⟨hd, rest, hq, rfl⟩ | ⟨hd, hq, hc, rfl⟩
  · simp [future, hd]
  · simp [future, hd, hq, ahead]
  · simp [future, hd, hq, hc, ahead]

theorem done_of_receive? (h : b.receive? = some (none, b')) : b'.done = true := by
  rcases of_receive?_none h with ⟨hd, rfl⟩ | ⟨-, rest, -, rfl⟩ | ⟨-, -, -, rfl⟩
  · exact hd
  · rfl
  · rfl

theorem done_mono_of_receive? {got : Option Token} (h : b.receive? = some (got, b'))
    (hd : b.done = true) : b'.done = true := by
  cases got with
  | some t =>
    obtain ⟨hn, -⟩ := of_receive?_some h
    rw [hd] at hn
    cases hn
  | none => exact done_of_receive? h

-- Whatever its reader does, the stream does not end by that.
theorem Open.of_takes (h : b.Open) (ht : b.Takes b') : b'.Open := by
  cases ht with
  | nothing => exact h
  | receive hr =>
    rename_i got
    cases got with
    | some t =>
      obtain ⟨hd, -, rest, hq, rfl⟩ := of_receive?_some hr
      exact ⟨fun t' h' => h.clean t' (hq ▸ List.mem_cons_of_mem _ h'), h.uncut, hd⟩
    | none =>
      rcases of_receive?_none hr with ⟨hd, -⟩ | ⟨-, rest, hq, -⟩ | ⟨-, -, hc, -⟩
      · rw [h.undone] at hd
        cases hd
      · exact absurd rfl (h.clean .endOfStream (hq ▸ List.mem_cons_self))
      · rw [h.uncut] at hc
        cases hc
  | leave => exact ⟨h.clean, h.uncut, h.undone⟩
  | drop => exact ⟨h.clean, h.uncut, h.undone⟩

-- While the stream goes on nothing is refused, as the reader stays for its end.
theorem Open.send?_cases {refusal : Option Failure} (h : b.Open)
    (hb : b.dropped = true → b.done = true) (hs : b.send? capacity t = some (refusal, b')) :
    refusal = none ∧ b' = { b with queue := b.queue ++ [t] } := by
  rcases Boundary.send?_cases hs with ⟨hd, -⟩ | ⟨-, hr, hb'⟩
  · have hu := h.undone
    rw [hb hd] at hu
    cases hu
  · exact ⟨hr, hb'⟩

theorem Open.push (h : b.Open) (ht : t ≠ .endOfStream) :
    ({ b with queue := b.queue ++ [t] } : Boundary).Open := by
  refine ⟨?_, h.uncut, h.undone⟩
  intro t' h'
  rcases List.mem_append.1 h' with h' | h'
  · exact h.clean t' h'
  · rwa [List.mem_singleton.1 h']

theorem future_push (h : b.Open) (ht : t ≠ .endOfStream) :
    ({ b with queue := b.queue ++ [t] } : Boundary).future coming = b.future (t :: coming) := by
  rw [future_of_open (h.push ht), future_of_open h, List.append_assoc]
  rfl

theorem future_push_endOfStream (h : b.Open) :
    ({ b with queue := b.queue ++ [.endOfStream] } : Boundary).future coming = b.future [] := by
  rw [future_of_open h, future]
  simp [h.undone, ahead_append h.clean, ahead]

theorem future_hangUp (b : Boundary) : b.hangUp.future [] = b.future [] := by
  have ha : ∀ cut, ahead cut [] b.queue = ahead true [] b.queue := by
    intro cut
    induction b.queue with
    | nil => cases cut <;> rfl
    | cons t rest ih => cases t <;> simp [ahead, ih]
  unfold future hangUp
  dsimp only
  rw [ha b.cut]

end Boundary

end CommandShell.Output.Threads
