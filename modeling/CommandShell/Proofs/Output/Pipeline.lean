import CommandShell.Output.Pipeline
import CommandShell.Proofs.Output.Sequential

namespace CommandShell.Output

namespace Reaction

variable {ω σ τ : Type} {Fit : ω → Prop} {Calm : σ → Prop} {r : Reaction ω σ}

theorem Meek.ended_cases (h : r.Meek Fit Calm) :
    (∃ state, r.ended = .inl state ∧ Calm state) ∨ r.ended = .inr none := by
  induction h with
  | emit _ _ _ ih => exact ih
  | await calm => exact .inl ⟨_, rfl, calm⟩
  | stop => exact .inr rfl

end Reaction

namespace Writer

variable {w : Writer}

theorem write_of_room (hw : w.room = none) (text : String) :
    w.write text = ({ w with pieces := Text.encodeUtf8 text :: w.pieces }, none) := by
  simp [write, hw]

theorem bytes_write (hw : w.room = none) (text : String) :
    (w.write text).1.bytes = w.bytes ++ Text.encodeUtf8 text := by
  simp [write_of_room hw, bytes]

theorem flush_of_room (hw : w.room = none) : w.flush = none := by
  simp [flush, hw]

end Writer

-- A formatter's reaction on a writer that has room for everything.
theorem run_write_of_meek {φ : Type} {Calm : φ → Prop} {r : Reaction String φ}
    (hr : r.Meek (fun _ => True) Calm) {w : Writer} (hw : w.room = none) :
    ∃ w', r.run Writer.write w = (w', r.ended) ∧ w'.room = none ∧
      w'.bytes = w.bytes ++ r.emitted.flatMap Text.encodeUtf8 := by
  induction hr generalizing w with
  | @emit text next _ _ _ ih =>
    have hw' : (w.write text).1.room = none := by simp [Writer.write_of_room hw, hw]
    obtain ⟨w', hrun, hroom, hbytes⟩ := ih hw'
    refine ⟨w', ?_, hroom, ?_⟩
    · rw [Reaction.run, Writer.write_of_room hw] at *
      exact hrun
    · rw [hbytes, Writer.bytes_write hw, Reaction.emitted, List.flatMap_cons, List.append_assoc]
  | await => exact ⟨w, rfl, hw, by simp [Reaction.emitted]⟩
  | stop => exact ⟨w, rfl, hw, by simp [Reaction.emitted]⟩

namespace Stages

variable {σ φ : Type} (filter : Behaviour Token σ) (format : Behaviour String φ)

-- The bytes that the writer has in the end, when this is what still comes.
def due : {depth : Nat} → Stages σ φ depth → List Token → List UInt8
  | 0, (some state, writer), coming =>
    writer.bytes ++ (format.outputs coming (.await state)).flatMap Text.encodeUtf8
  | 0, (none, writer), _ => writer.bytes
  | _ + 1, (some state, rest), coming => rest.due (filter.outputs coming (.await state))
  | _ + 1, (none, rest), _ => rest.due []

-- All stages wait in such states, and the writer has room for everything.
def Calm (A : σ → Prop) (B : φ → Prop) : {depth : Nat} → Stages σ φ depth → Prop
  | 0, (state, writer) => (∀ s ∈ state, B s) ∧ writer.room = none
  | _ + 1, (state, rest) => (∀ s ∈ state, A s) ∧ rest.Calm A B

-- Stages that wait take every token in, and it no longer comes then.
def Accepts (A : σ → Prop) (B : φ → Prop) (depth : Nat) : Prop :=
  ∀ (t : Token) (st : Stages σ φ depth), t ≠ .endOfStream → st.Calm A B →
    ∃ st', accept filter format t (st, {}) = (st', {}) ∧ st'.Calm A B ∧
      ∀ coming, st'.due filter format coming = st.due filter format (t :: coming)

variable {filter format} {A : σ → Prop} {B : φ → Prop} {depth : Nat}

theorem due_of_isGone {st : Stages σ φ depth} (h : st.isGone = true) (coming coming' : List Token) :
    st.due filter format coming = st.due filter format coming' := by
  match depth, st with
  | 0, _ => cases h
  | _ + 1, (none, rest) => rfl
  | _ + 1, (some _, _) => cases h

-- A filter's reaction in front of other stages.  At the first refusal nothing is read any more.
theorem run_put_of_meek {ψ : Type} {C : ψ → Prop} {r : Reaction Token ψ}
    (hr : r.Meek (· ≠ .endOfStream) C) {rest : Stages σ φ depth} (hc : rest.Calm A B)
    (haccept : Accepts filter format A B depth) :
    ∃ st' ended, r.run (fun t below =>
        if below.2.failed || below.1.isGone then (below, some Failure.outputClosed)
        else (accept filter format t below, none)) (rest, {}) = ((st', {}), ended) ∧
      st'.Calm A B ∧
      (∀ coming, st'.due filter format coming = rest.due filter format (r.emitted ++ coming)) ∧
      (ended = r.ended ∨ ended = .inr (some .outputClosed) ∧ st'.isGone = true) := by
  induction hr generalizing rest with
  | @emit t next fit _ stops ih =>
    rw [Reaction.run]
    cases hg : rest.isGone with
    | true =>
      refine ⟨rest, .inr (some .outputClosed), ?_, hc, fun _ => due_of_isGone hg _ _,
        .inr ⟨rfl, hg⟩⟩
      simp [stops, Reaction.run]
    | false =>
      obtain ⟨mid, ha, hm, hd⟩ := haccept t rest fit hc
      obtain ⟨st', ended, hrun, hst, hdue, hended⟩ := ih hm
      refine ⟨st', ended, ?_, hst, ?_, hended⟩
      · simpa [hg, ha] using hrun
      · intro coming
        rw [hdue, hd, Reaction.emitted, List.cons_append]
  | await => exact ⟨rest, _, rfl, hc, fun _ => rfl, .inl rfl⟩
  | stop => exact ⟨rest, _, rfl, hc, fun _ => rfl, .inl rfl⟩

theorem runFormat_of_meek {ψ : Type} {C : ψ → Prop} {r : Reaction String ψ}
    (hr : r.Meek (fun _ => True) C) {w : Writer} (hw : w.room = none) :
    ∃ state w', runFormat r w {} = ((state, w'), {}) ∧ state = r.ended.getLeft? ∧
      (∀ s ∈ state, C s) ∧ w'.room = none ∧
      w'.bytes = w.bytes ++ r.emitted.flatMap Text.encodeUtf8 := by
  obtain ⟨w', hrun, hroom, hbytes⟩ := run_write_of_meek hr hw
  rcases hr.ended_cases with ⟨s, he, hs⟩ | he
  · refine ⟨some s, w', ?_, by rw [he]; rfl, by simpa using hs, hroom, hbytes⟩
    rw [runFormat, hrun, he]
  · refine ⟨none, w', ?_, by rw [he]; rfl, nofun, hroom, hbytes⟩
    rw [runFormat, hrun, he]
    simp [formatEnded, Writer.flush_of_room hroom]

theorem runFormat_due {r : Reaction String φ} (hr : r.Meek (fun _ => True) B) {w : Writer}
    (hw : w.room = none) :
    ∃ st : Stages σ φ 0, runFormat r w {} = (st, {}) ∧ st.Calm A B ∧
      ∀ coming, st.due filter format coming =
        w.bytes ++ (format.outputs coming r).flatMap Text.encodeUtf8 := by
  obtain ⟨state, w', hrun, rfl, hs, hroom, hbytes⟩ := runFormat_of_meek hr hw
  refine ⟨_, hrun, ⟨hs, hroom⟩, fun coming => ?_⟩
  rw [Behaviour.outputs_eq_emitted_append, List.flatMap_append, ← List.append_assoc, ← hbytes]
  cases r.ended with
  | inl s => rfl
  | inr failure => simp [due]

-- What a filter does in front of other stages.
theorem runFilter_of_meek {ψ : Type} {C : ψ → Prop} {r : Reaction Token ψ}
    (hr : r.Meek (· ≠ .endOfStream) C) {rest : Stages σ φ depth} (hc : rest.Calm A B)
    (haccept : Accepts filter format A B depth) :
    ∃ state st', runFilter (accept filter format) r rest {} = ((state, st'), {}) ∧
      st'.Calm A B ∧ (∀ s ∈ state, C s) ∧
      (∀ coming, st'.due filter format coming = rest.due filter format (r.emitted ++ coming)) ∧
      (state = r.ended.getLeft? ∨ state = none ∧ st'.isGone = true) := by
  obtain ⟨st', ended, hrun, hst, hdue, hended⟩ := run_put_of_meek hr hc haccept
  rw [runFilter, hrun]
  rcases hended with rfl | ⟨rfl, hg⟩
  · rcases hr.ended_cases with ⟨s, he, hs⟩ | he
    · rw [he]
      exact ⟨some s, st', rfl, hst, by simpa using hs, hdue, .inl rfl⟩
    · rw [he]
      exact ⟨none, st', rfl, hst, nofun, hdue, .inl rfl⟩
  · exact ⟨none, st', rfl, hst, nofun, hdue, .inr ⟨rfl, hg⟩⟩

theorem runFilter_due {r : Reaction Token σ} (hr : r.Meek (· ≠ .endOfStream) A)
    {rest : Stages σ φ depth} (hc : rest.Calm A B)
    (haccept : Accepts filter format A B depth) :
    ∃ st : Stages σ φ (depth + 1), runFilter (accept filter format) r rest {} = (st, {}) ∧
      st.Calm A B ∧
      ∀ coming, st.due filter format coming = rest.due filter format (filter.outputs coming r) := by
  obtain ⟨state, st', hrun, hst, hs, hdue, he⟩ := runFilter_of_meek hr hc haccept
  refine ⟨_, hrun, ⟨hs, hst⟩, fun coming => ?_⟩
  rw [Behaviour.outputs_eq_emitted_append]
  rcases he with rfl | ⟨rfl, hg⟩
  · cases r.ended with
    | inl s => exact hdue _
    | inr failure => exact hdue []
  · exact (due_of_isGone hg _ _).trans (hdue _)

theorem accepts_of_meek (hf : filter.Meek (· ≠ .endOfStream) A)
    (hg : format.Meek (fun _ => True) B) : Accepts filter format A B depth := by
  induction depth with
  | zero =>
    intro t st ht hc
    obtain ⟨state, w⟩ := st
    cases state with
    | none => exact ⟨(none, w), rfl, hc, fun _ => rfl⟩
    | some state => exact runFormat_due (hg.onToken (hc.1 state rfl) ht) hc.2
  | succ depth ih =>
    intro t st ht hc
    obtain ⟨state, rest⟩ := st
    cases state with
    | none => exact ⟨(none, rest), rfl, hc, fun _ => rfl⟩
    | some state => exact runFilter_due (hf.onToken (hc.1 state rfl) ht) hc.2 ih

theorem finish_of_calm (hf : filter.Meek (· ≠ .endOfStream) A)
    (hg : format.Meek (fun _ => True) B) {st : Stages σ φ depth} (hc : st.Calm A B) :
    ∃ st', finish filter format (st, {}) = (st', {}) ∧
      st'.writer.bytes = st.due filter format [] := by
  induction depth with
  | zero =>
    obtain ⟨state, w⟩ := st
    cases state with
    | none => exact ⟨(none, w), rfl, rfl⟩
    | some state =>
      obtain ⟨ended, w', hrun, -, -, -, hbytes⟩ :=
        runFormat_of_meek (hg.onEnd (hc.1 state rfl)) hc.2
      exact ⟨(none, w'), by rw [finish, hrun], hbytes⟩
  | succ depth ih =>
    obtain ⟨state, rest⟩ := st
    cases state with
    | none =>
      obtain ⟨st', hfin, hbytes⟩ := ih hc.2
      exact ⟨(none, st'), by rw [finish, hfin], hbytes⟩
    | some state =>
      obtain ⟨ended, mid, hrun, hm, -, hdue, -⟩ := runFilter_of_meek (hf.onEnd (hc.1 state rfl))
        hc.2 (accepts_of_meek hf hg)
      obtain ⟨st', hfin, hbytes⟩ := ih hm
      refine ⟨(none, st'), by rw [finish, hrun]; dsimp only; rw [hfin], ?_⟩
      rw [writer, hbytes, hdue, List.append_nil]
      rfl

theorem start_of_meek (hf : filter.Meek (· ≠ .endOfStream) A)
    (hg : format.Meek (fun _ => True) B) {last : Reaction String φ}
    (hl : last.Meek (fun _ => True) B) {w : Writer} (hw : w.room = none)
    (filters : List (Reaction Token σ))
    (hr : ∀ r ∈ filters, r.Meek (· ≠ .endOfStream) A) :
    ∃ st, start filter format last w filters = (st, {}) ∧ st.Calm A B ∧
      ∀ coming, st.due filter format coming = w.bytes ++ (format.outputs
        (filters.foldl (fun coming r => filter.outputs coming r) coming) last).flatMap
          Text.encodeUtf8 := by
  induction filters with
  | nil => exact runFormat_due hl hw
  | cons first filters ih =>
    obtain ⟨rest, hstart, hc, hdue⟩ := ih fun r h => hr r (List.mem_cons_of_mem _ h)
    obtain ⟨st, hrun, hst, hd⟩ := runFilter_due (hr first List.mem_cons_self) hc
      (accepts_of_meek hf hg)
    exact ⟨st, by rw [start, hstart]; exact hrun, hst, fun coming => (hd coming).trans (hdue _)⟩

end Stages

namespace Pipeline

abbrev due (p : Pipeline) (coming : List Token) : List UInt8 :=
  p.stages.due FilterState.behaviour FormatState.behaviour coming

-- No stage has failed or is able to, and the output was not closed.
structure Sound (p : Pipeline) : Prop where
  status : p.status = {}
  ended : p.ended = false
  calm : p.stages.Calm (·.isStandard = true) (·.isStandard = true)

theorem start_sound {filters : List Filter} {format : Format}
    (hf : ∀ f ∈ filters, f.isStandard = true) (hg : format.isStandard = true) :
    (start filters format .unlimited).Sound ∧
      ∀ coming, (start filters format .unlimited).due coming = rendered filters format coming := by
  obtain ⟨st, hs, hc, hd⟩ := Stages.start_of_meek FilterState.meek_behaviour
    FormatState.meek_behaviour (Format.meek_start hg) (w := .unlimited) rfl
    (filters.map Filter.start) (by
      intro r hr
      obtain ⟨f, h, rfl⟩ := List.mem_map.1 hr
      exact Filter.meek_start (hf f h))
  have hp : start filters format .unlimited = ⟨_, st, {}, false⟩ := by rw [start, hs]
  rw [hp]
  refine ⟨⟨rfl, rfl, hc⟩, fun coming => ?_⟩
  rw [due, hd, List.foldl_map]
  rfl

theorem write_sound {p : Pipeline} {t : Token} (hp : p.Sound) (ht : t ≠ .endOfStream) :
    (p.write t).Sound ∧ ∀ coming, (p.write t).due coming = p.due (t :: coming) := by
  obtain ⟨depth, st, status, ended⟩ := p
  obtain ⟨rfl, rfl, hc⟩ := hp
  obtain ⟨st', ha, hc', hd⟩ := Stages.accepts_of_meek FilterState.meek_behaviour
    FormatState.meek_behaviour t st ht hc
  cases hg : st.isGone with
  | true =>
    have hw : write ⟨depth, st, {}, false⟩ t = ⟨depth, st, {}, false⟩ := by
      simp [write, isClosed, isFailed, hg]
    rw [hw]
    exact ⟨⟨rfl, rfl, hc⟩, fun coming => Stages.due_of_isGone hg _ _⟩
  | false =>
    have hw : write ⟨depth, st, {}, false⟩ t = ⟨depth, st', {}, false⟩ := by
      simp [write, isClosed, isFailed, hg, ha]
    rw [hw]
    exact ⟨⟨rfl, rfl, hc'⟩, hd⟩

theorem foldl_write_sound {p : Pipeline} {tokens : List Token} (hp : p.Sound)
    (ht : ∀ t ∈ tokens, t ≠ .endOfStream) :
    (tokens.foldl write p).Sound ∧
      ∀ coming, (tokens.foldl write p).due coming = p.due (tokens ++ coming) := by
  induction tokens generalizing p with
  | nil => exact ⟨hp, fun _ => rfl⟩
  | cons t rest ih =>
    obtain ⟨hw, hd⟩ := write_sound hp (ht t List.mem_cons_self)
    obtain ⟨hs, hr⟩ := ih hw fun t h => ht t (List.mem_cons_of_mem _ h)
    exact ⟨hs, fun coming => (hr coming).trans (hd _)⟩

theorem close_sound {p : Pipeline} (hp : p.Sound) :
    p.close.2 = none ∧ p.close.1.bytes = p.due [] := by
  obtain ⟨depth, st, status, ended⟩ := p
  obtain ⟨rfl, rfl, hc⟩ := hp
  obtain ⟨st', hfin, hbytes⟩ := Stages.finish_of_calm FilterState.meek_behaviour
    FormatState.meek_behaviour hc
  have hclose : close ⟨depth, st, {}, false⟩ = (⟨depth, st', {}, true⟩, none) := by
    simp [close, hfin]
  rw [hclose]
  exact ⟨rfl, hbytes⟩

-- Closing reports no failure, and the writer then holds what the stages give one after the other.
theorem close_foldl_write {filters : List Filter} {format : Format} {tokens : List Token}
    (hf : ∀ f ∈ filters, f.isStandard = true) (hg : format.isStandard = true)
    (ht : ∀ t ∈ tokens, t ≠ .endOfStream) :
    (tokens.foldl write (start filters format .unlimited)).close.2 = none ∧
      (tokens.foldl write (start filters format .unlimited)).close.1.bytes =
        rendered filters format tokens := by
  obtain ⟨hs, hd⟩ := start_sound hf hg
  obtain ⟨hw, hr⟩ := foldl_write_sound hs ht
  obtain ⟨hn, hb⟩ := close_sound hw
  exact ⟨hn, by rw [hb, hr, hd, List.append_nil]⟩

end Pipeline

end CommandShell.Output
