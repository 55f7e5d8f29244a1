import CommandShell.Proofs.Output.Filtering
import CommandShell.Proofs.Output.Pipeline

namespace CommandShell.Output

namespace Assembler

-- Everything that was put into an open container is ordered.
def IsOrdered (a : Assembler) : Prop := ∀ c ∈ a.containers, c.contents.toValue.IsOrdered

end Assembler

-- A value that is written as one token is ordered.
def Token.IsOrdered : Token → Prop
  | .value _ v => v.IsOrdered
  | .object _ | .array _ | .close | .endOfStream => True

-- What can be written until the output is closed: any tokens but the mark of the end.
structure TokenStream where
  tokens : List Token
  ordered : ∀ t ∈ tokens, t.IsOrdered
  unmarked : ∀ t ∈ tokens, t ≠ .endOfStream

theorem Container.isOrdered_add {c : Container} (hc : c.contents.toValue.IsOrdered) {r : Record}
    (hr : r.value.IsOrdered) : (c.add r).contents.toValue.IsOrdered := by
  obtain ⟨name, contents⟩ := c
  cases contents with
  | object entries => exact Json.Value.isOrdered_insert hc hr _
  | array items =>
    cases hc with
    | array values =>
      refine .array fun v hv => ?_
      rcases List.mem_append.mp hv with hv | hv
      · exact values v hv
      · exact List.mem_singleton.mp hv ▸ hr

namespace Assembler

variable {a : Assembler}

theorem isOrdered_empty : empty.IsOrdered := nofun

theorem IsOrdered.attach (h : a.IsOrdered) {r : Record} (hr : r.value.IsOrdered) :
    (a.attach r).1.IsOrdered ∧ ∀ done ∈ (a.attach r).2, done.value.IsOrdered := by
  obtain ⟨containers⟩ := a
  cases containers with
  | nil => exact ⟨h, fun done hd => Option.mem_some_iff.mp hd ▸ hr⟩
  | cons c rest =>
    obtain ⟨hc, ho⟩ := List.forall_mem_cons.mp h
    exact ⟨List.forall_mem_cons.mpr ⟨Container.isOrdered_add hc hr, ho⟩, nofun⟩

-- One token keeps it, and the record that it completes is ordered.
theorem IsOrdered.push (h : a.IsOrdered) {t : Token} (ht : t.IsOrdered) :
    (a.push t).1.IsOrdered ∧ ∀ done ∈ (a.push t).2, done.value.IsOrdered := by
  cases t with
  | object name =>
    exact ⟨List.forall_mem_cons.mpr ⟨.object Dictionary.isOrdered_nil nofun, h⟩, nofun⟩
  | array name => exact ⟨List.forall_mem_cons.mpr ⟨.array nofun, h⟩, nofun⟩
  | value name v => exact h.attach ht
  | endOfStream => exact ⟨h, nofun⟩
  | close =>
    obtain ⟨containers⟩ := a
    cases containers with
    | nil => exact ⟨h, nofun⟩
    | cons c rest =>
      obtain ⟨hc, ho⟩ := List.forall_mem_cons.mp h
      exact IsOrdered.attach (a := ⟨rest⟩) ho hc

theorem finish_eq_none_iff : a.finish.2 = none ↔ a.containers = [] := by
  obtain ⟨containers⟩ := a
  cases containers with
  | nil => simp [finish]
  | cons c rest => simp [finish]

end Assembler

-- What is printed for a record: its document, and a line end.
def Record.printed (r : Record) (compact : Bool) : List String :=
  [if compact then r.document.compact else r.document.pretty, "\n"]

theorem Behaviour.outputs_emitDocument {σ : Type} (b : Behaviour String σ) (input : List Token)
    (compact : Bool) (r : Record) (last : Reaction String σ) :
    b.outputs input (emitDocument compact r last) = r.printed compact ++ b.outputs input last := by
  simp [emitDocument, Record.printed, Behaviour.outputs_emitAll]

namespace FormatState

variable (compact : Bool)

-- What is printed at the end, for the record that is not finished then.
def unfinished (a : Assembler) : List String :=
  a.finish.2.elim [] (Record.printed · compact)

theorem echoes_json : behaviour.Echoes (json compact) fun _ => [] := by
  intro a a' t h
  simp only [behaviour, onToken, h]
  rfl

theorem onToken_json {a a' : Assembler} {t : Token} {r : Record} (h : a.push t = (a', some r)) :
    onToken (json compact a) t = emitDocument compact r (.await (json compact a')) := by
  simp only [onToken, h]

theorem outputs_json_nil (a : Assembler) :
    behaviour.outputs [] (.await (json compact a)) = unfinished compact a := by
  simp only [Behaviour.outputs_await_nil, behaviour, onEnd, unfinished]
  cases a.finish.2 <;> rfl

-- Something is printed exactly if a container is open at the end.
theorem unfinished_bytes_eq_nil_iff (a : Assembler) :
    (unfinished compact a).flatMap Text.encodeUtf8 = [] ↔ a.containers = [] := by
  rw [← Assembler.finish_eq_none_iff, unfinished]
  cases a.finish.2 with
  | none => simp
  | some r =>
    have line : Text.encodeUtf8 "\n" ≠ [] := by decide +kernel
    simp [Record.printed, line]

theorem outputs_json_completes {tokens : List Token} {r : Record}
    (h : Assembler.Completes tokens r) (rest : List Token) :
    behaviour.outputs (tokens ++ rest) (.await (json compact .empty)) =
      r.printed compact ++ behaviour.outputs rest (.await (json compact .empty)) := by
  obtain ⟨front, t, a, rfl, ht, ho⟩ := (echoes_json compact).outputs_completes h rest
  refine ho.trans ?_
  have last : behaviour.onToken (json compact a) t = _ := onToken_json compact ht
  rw [last, Behaviour.outputs_emitDocument]
  simp

end FormatState

-- Every text contains the empty one.
theorem Record.contains_empty (r : Record) (ignoreCase : Bool) :
    r.contains "" ignoreCase = true := by
  rw [contains_eq_decide, decide_eq_true_iff, Matches]
  cases ignoreCase <;> exact List.nil_infix

namespace FilterState

variable (ignoreCase : Bool)

-- A record that is completed passes the search for the empty text.
theorem outputs_grep_of_push {a a' : Assembler} {t : Token} {r : Record}
    (h : a.push t = (a', some r)) (rest : List Token) :
    behaviour.outputs (t :: rest) (.await (grep "" ignoreCase false a)) =
      tokensOf r.name r.value ++
        behaviour.outputs rest (.await (grep "" ignoreCase false a')) := by
  rw [Behaviour.outputs_await_cons]
  simp [behaviour, onToken, h, Record.contains_empty, Behaviour.outputs_emitAll]

-- Two stages that have the same containers open: what the formatter prints for a stream it also
-- prints for what the search passes on, up to the record that is not finished at the end.
-- Induction on the stream.
theorem outputs_json_eq_append (compact : Bool) {a : Assembler} (ha : a.IsOrdered)
    {stream : List Token} (hs : ∀ t ∈ stream, t.IsOrdered) :
    FormatState.behaviour.outputs stream (.await (.json compact a)) =
      FormatState.behaviour.outputs
          (behaviour.outputs stream (.await (grep "" ignoreCase false a)))
          (.await (.json compact .empty)) ++
        FormatState.unfinished compact (a.pushAll stream).1 := by
  induction stream generalizing a with
  | nil =>
    rw [FormatState.outputs_json_nil]
    rfl
  | cons t rest ih =>
    obtain ⟨ht, hr⟩ := List.forall_mem_cons.mp hs
    obtain ⟨still, done⟩ := ha.push ht
    rw [Assembler.pushAll_cons]
    cases hp : a.push t with
    | mk a' record =>
      rw [hp] at still done
      cases record with
      | none =>
        rw [Behaviour.outputs_await_cons, FormatState.echoes_json compact a a' t hp,
          Behaviour.outputs_await_cons, echoes_grep "" ignoreCase false a a' t hp]
        exact ih still hr
      | some r =>
        have ordered : r.value.IsOrdered := done r rfl
        have again := FormatState.outputs_json_completes compact
          (Assembler.completes_tokensOf r.name ⟨r.value, ordered⟩)
        rw [Behaviour.outputs_await_cons]
        have first : FormatState.behaviour.onToken (.json compact a) t = _ :=
          FormatState.onToken_json compact hp
        rw [first, Behaviour.outputs_emitDocument, outputs_grep_of_push ignoreCase hp, again,
          ih still hr, List.append_assoc]

end FilterState

namespace Pipeline

-- A search for the empty text in front of the JSON formatter: without it there are the same bytes
-- and, behind them, those of the record that the stream does not finish, which is lost in the
-- search.  So it changes nothing exactly if the stream leaves no container open.
theorem bytes_of_grep_empty (compact ignoreCase : Bool) (stream : TokenStream) :
    let closed (filters : List Filter) :=
      (stream.tokens.foldl write (start filters (.json compact) .unlimited)).close
    let left := (Assembler.empty.pushAll stream.tokens).1
    (closed []).2 = none ∧ (closed [.grep "" ignoreCase false]).2 = none ∧
      (closed []).1.bytes = (closed [.grep "" ignoreCase false]).1.bytes ++
        (FormatState.unfinished compact left).flatMap Text.encodeUtf8 ∧
      ((closed [.grep "" ignoreCase false]).1.bytes = (closed []).1.bytes ↔
        left.containers = []) := by
  intro closed left
  have alone : (closed []).2 = none ∧ (closed []).1.bytes = _ :=
    close_foldl_write nofun rfl stream.unmarked
  have behind : (closed [.grep "" ignoreCase false]).2 = none ∧
      (closed [.grep "" ignoreCase false]).1.bytes = _ :=
    close_foldl_write (by simp [Filter.isStandard]) rfl stream.unmarked
  have bytes : (closed []).1.bytes = (closed [.grep "" ignoreCase false]).1.bytes ++
      (FormatState.unfinished compact left).flatMap Text.encodeUtf8 := by
    have printed := FilterState.outputs_json_eq_append ignoreCase compact
      Assembler.isOrdered_empty stream.ordered
    rw [alone.2, behind.2]
    exact (congrArg (List.flatMap Text.encodeUtf8) printed).trans List.flatMap_append
  refine ⟨alone.1, behind.1, bytes, ?_⟩
  rw [bytes, List.self_eq_append_right, FormatState.unfinished_bytes_eq_nil_iff]

-- A stray end, a name that comes twice and a child without one: all of that is printed alike, as
-- nothing is open at the end.
theorem bytes_of_grep_empty_of_closed :
    let one : Json.Value := .int 1
    let stream : List Token := [.close, .object (some "host"), .value (some "a") one,
      .value (some "a") .null, .array none, .value none one, .close, .close]
    let closed (filters : List Filter) :=
      (stream.foldl write (start filters (.json false) .unlimited)).close
    (∀ t ∈ stream, t ≠ .endOfStream) ∧ (∀ t ∈ stream, t.IsOrdered) ∧
      (Assembler.empty.pushAll stream).1.containers = [] ∧
      (closed [.grep "" true false]).1.bytes = (closed []).1.bytes := by
  intro one stream closed
  have hs : ∀ t ∈ stream, t ≠ .endOfStream := by simp [stream]
  have ordered : ∀ t ∈ stream, t.IsOrdered := by
    simp [stream, Token.IsOrdered, one, Json.Value.int, Json.Value.IsOrdered.null,
      Json.Value.IsOrdered.number]
  have done : (Assembler.empty.pushAll stream).1.containers = [] := rfl
  obtain ⟨-, -, -, same⟩ := bytes_of_grep_empty false true ⟨stream, ordered, hs⟩
  exact ⟨hs, ordered, done, same.mpr done⟩

-- Of a record and an array that is not closed the search passes on the record only.
theorem grep_empty_loses_unclosed :
    let stream : List Token := [.value none (.int 0), .array none, .value none (.int 1)]
    let closed (filters : List Filter) :=
      (stream.foldl write (start filters (.json true) .unlimited)).close
    (closed []).1.bytes = Text.encodeUtf8 "0\n[1]\n" ∧
      (closed [.grep "" false false]).1.bytes = Text.encodeUtf8 "0\n" := by
  decide +kernel

end Pipeline

end CommandShell.Output
