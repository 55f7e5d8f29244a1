import CommandShell.Proofs.Output.Filtering
import CommandShell.Proofs.Output.Pipeline

namespace CommandShell.Output

-- A line inside of some containers that have a line of their own.
structure Line where
  depth : Nat
  text : String
deriving DecidableEq, Repr

namespace Line

def deeper (l : Line) : Line := { l with depth := l.depth + 1 }

-- Two spaces for each of the containers, behind those that stand in front of every line.
def printAt (spaces : Nat) (l : Line) : String :=
  String.ofList (List.replicate (spaces + 2 * l.depth) ' ') ++ l.text ++ "\n"

def print (l : Line) : String := l.printAt 0

theorem printAt_deeper (spaces : Nat) (l : Line) :
    l.deeper.printAt spaces = l.printAt (spaces + 2) := by
  have hs : spaces + 2 * (l.depth + 1) = spaces + 2 + 2 * l.depth := by omega
  simp only [deeper, printAt, hs]

end Line

-- A container is called by its name.  One without a name has a dash, unless it stands alone.
def heading (nested : Bool) : Option String → Option String
  | some name => some (name ++ ":")
  | none => if nested then some "-" else none

-- The lines inside of a container stand deeper than its own line.
def under : Option String → List Line → List Line
  | some label, lines => ⟨0, label⟩ :: lines.map Line.deeper
  | none, lines => lines

-- The text of a string stands there as it is.
def scalar (name : Option String) (v : Json.Value) : Line :=
  match name with
  | some name => ⟨0, name ++ ": " ++ v.plain⟩
  | none => ⟨0, v.plain⟩

mutual

-- The lines of a value that stands alone, or inside of a container.
def layout (nested : Bool) (name : Option String) : Json.Value → List Line
  | .object entries => under (heading nested name) (layoutEntries entries)
  | .array items => under (heading nested name) (layoutItems items)
  | .null => [scalar name .null]
  | .bool b => [scalar name (.bool b)]
  | .number n => [scalar name (.number n)]
  | .string s => [scalar name (.string s)]

def layoutItems : List Json.Value → List Line
  | [] => []
  | v :: rest => layout true none v ++ layoutItems rest

def layoutEntries : List (String × Json.Value) → List Line
  | [] => []
  | (key, v) :: rest => layout true (some key) v ++ layoutEntries rest

end

namespace Margin

variable (m : Margin)

-- What tokens add to the text one after the other.
def lines : Margin → List Token → List String
  | _, [] => []
  | m, t :: rest => (textLine m t).1 ++ lines (textLine m t).2 rest

-- The margin behind them.
def after (m : Margin) (stream : List Token) : Margin :=
  stream.foldl (fun m t => (textLine m t).2) m

theorem lines_append (front back : List Token) :
    m.lines (front ++ back) = m.lines front ++ (m.after front).lines back := by
  induction front generalizing m with
  | nil => rfl
  | cons t rest ih => rw [List.cons_append, lines, lines, ih, List.append_assoc]; rfl

theorem after_append (front back : List Token) :
    m.after (front ++ back) = (m.after front).after back := List.foldl_append

theorem close_enter (label : Option String) : (m.enter label).2.close = m := by
  cases label <;> rfl

theorem isEmpty_enter (label : Option String) :
    (m.enter label).2.opened.isEmpty = false := by
  cases label <;> rfl

theorem lines_under (label : Option String) (ls : List Line) :
    (under label ls).map (Line.printAt m.spaces) =
      (m.enter label).1 ++ ls.map (Line.printAt (m.enter label).2.spaces) := by
  cases label with
  | none => rfl
  | some label =>
    simp only [under, enter, List.map_cons, List.map_map, List.singleton_append]
    congr 1
    exact List.map_congr_left fun l _ => l.printAt_deeper m.spaces

end Margin

theorem heading_eq_containerLabel (nested : Bool) (name : Option String) :
    heading nested name = containerLabel name nested := by
  cases name <;> rfl

-- Tokens that are printed as some lines, alone or inside of a container, and that leave the margin
-- where it was.
structure Prints (nested : Bool) (stream : List Token) (ls : List Line) : Prop where
  lines : ∀ m : Margin, (!m.opened.isEmpty) = nested →
    m.lines stream = ls.map (Line.printAt m.spaces)
  after : ∀ m : Margin, (!m.opened.isEmpty) = nested → m.after stream = m

namespace Prints

variable {nested : Bool} {front back children : List Token} {ls ls' : List Line}

theorem nil : Prints nested [] [] := ⟨fun _ _ => rfl, fun _ _ => rfl⟩

theorem append (h : Prints nested front ls) (h' : Prints nested back ls') :
    Prints nested (front ++ back) (ls ++ ls') where
  lines m hm := by
    rw [m.lines_append, h.lines m hm, h.after m hm, h'.lines m hm, List.map_append]
  after m hm := by rw [m.after_append, h.after m hm, h'.after m hm]

theorem value (name : Option String) (v : Json.Value) :
    Prints nested [.value name v] [scalar name v] where
  lines m _ := by cases name <;> rfl
  after _ _ := rfl

theorem container (bracket : Bracket) (name : Option String) (h : Prints true children ls) :
    Prints nested (bracket.opening name :: (children ++ [.close]))
      (under (heading nested name) ls) := by
  have opens (m : Margin) (hm : (!m.opened.isEmpty) = nested) :
      textLine m (bracket.opening name) = m.enter (heading nested name) := by
    rw [heading_eq_containerLabel, ← hm]
    cases bracket <;> rfl
  have inside (m : Margin) : (!(m.enter (heading nested name)).2.opened.isEmpty) = true := by
    rw [m.isEmpty_enter]
    rfl
  constructor
  · intro m hm
    rw [Margin.lines, opens m hm, Margin.lines_append, h.lines _ (inside m), Margin.lines_under]
    simp [Margin.lines, textLine]
  · intro m hm
    have closes : m.after (bracket.opening name :: (children ++ [.close])) =
        (((textLine m (bracket.opening name)).2.after children).after [.close]) := by
      rw [← Margin.after_append]
      rfl
    rw [closes, opens m hm, h.after _ (inside m)]
    exact m.close_enter _

end Prints

mutual

theorem prints_tokensOf (nested : Bool) (name : Option String) (v : Json.Value) :
    Prints nested (tokensOf name v) (layout nested name v) := by
  match v with
  | .object entries =>
    rw [tokensOf, layout]
    exact .container .object name (prints_tokensOfEntries entries)
  | .array items =>
    rw [tokensOf, layout]
    exact .container .array name (prints_tokensOfItems items)
  | .null | .bool _ | .number _ | .string _ =>
    rw [tokensOf, layout]
    exact .value name _

theorem prints_tokensOfItems (items : List Json.Value) :
    Prints true (tokensOfItems items) (layoutItems items) := by
  match items with
  | [] =>
    rw [tokensOfItems, layoutItems]
    exact .nil
  | v :: rest =>
    rw [tokensOfItems, layoutItems]
    exact (prints_tokensOf true none v).append (prints_tokensOfItems rest)

theorem prints_tokensOfEntries (entries : List (String × Json.Value)) :
    Prints true (tokensOfEntries entries) (layoutEntries entries) := by
  match entries with
  | [] =>
    rw [tokensOfEntries, layoutEntries]
    exact .nil
  | (key, v) :: rest =>
    rw [tokensOfEntries, layoutEntries]
    exact (prints_tokensOf true (some key) v).append (prints_tokensOfEntries rest)

end

-- Whatever is written is printed as some lines.
theorem exists_prints_flatMap {nested : Bool} {records : List Written}
    (h : ∀ w ∈ records, ∃ ls, Prints nested w.tokens ls) :
    ∃ ls, Prints nested (records.flatMap Written.tokens) ls := by
  induction records with
  | nil => exact ⟨[], .nil⟩
  | cons w rest ih =>
    obtain ⟨⟨first, hf⟩, hr⟩ := List.forall_mem_cons.mp h
    obtain ⟨others, ho⟩ := ih hr
    exact ⟨_, hf.append ho⟩

theorem exists_prints_tokens (nested : Bool) (w : Written) :
    ∃ ls, Prints nested w.tokens ls := by
  induction w generalizing nested with
  | value name v =>
    rw [Written.tokens]
    exact ⟨_, .value name v⟩
  | container bracket name children ih =>
    obtain ⟨ls, hls⟩ := exists_prints_flatMap fun w hw => ih w hw true
    rw [Written.tokens, Written.tokensAll_eq_flatMap]
    exact ⟨_, .container bracket name hls⟩

theorem ne_endOfStream_of_mem_tokens {w : Written} {t : Token} (h : t ∈ w.tokens) :
    t ≠ .endOfStream := by
  rintro rfl
  induction w with
  | value name v =>
    rw [Written.tokens, List.mem_singleton] at h
    cases h
  | container bracket name children ih =>
    rw [Written.tokens, Written.tokensAll_eq_flatMap, List.mem_cons, List.mem_append,
      List.mem_singleton] at h
    rcases h with h | h | h
    · cases bracket <;> cases h
    · obtain ⟨w, hw, ht⟩ := List.mem_flatMap.mp h
      exact ih w hw ht
    · cases h

namespace Margin

-- There are as many spaces as the open containers account for.
def Sound (m : Margin) : Prop := m.spaces = 2 * m.opened.count true

variable {m : Margin}

theorem Sound.enter (h : m.Sound) (label : Option String) : (m.enter label).2.Sound := by
  rw [Sound] at h
  cases label with
  | none => simpa [Margin.enter, Sound] using h
  | some label =>
    simp only [Margin.enter, Sound, List.count_cons_self]
    omega

theorem Sound.two_le (h : m.Sound) {rest : List Bool} (ho : m.opened = true :: rest) :
    2 ≤ m.spaces := by
  rw [Sound, ho, List.count_cons_self] at h
  omega

theorem Sound.close (h : m.Sound) : m.close.Sound := by
  rw [Margin.close]
  split
  · next rest ho =>
    rw [Sound, ho, List.count_cons_self] at h
    simp only [Sound]
    omega
  · next rest ho =>
    rw [Sound, ho] at h
    simpa [Sound] using h
  · exact h

theorem Sound.step (h : m.Sound) (t : Token) : (textLine m t).2.Sound := by
  cases t with
  | object name | array name => exact h.enter _
  | close => exact h.close
  | value name v => exact h
  | endOfStream => exact h

theorem Sound.after (h : m.Sound) (stream : List Token) : (m.after stream).Sound := by
  induction stream generalizing m with
  | nil => exact h
  | cons t rest ih => exact ih (h.step t)

end Margin

theorem FormatState.outputs_text (m : Margin) (stream : List Token) :
    behaviour.outputs stream (.await (.text m)) = m.lines stream := by
  induction stream generalizing m with
  | nil => rfl
  | cons t rest ih =>
    rw [Behaviour.outputs_await_cons, Margin.lines, ← ih]
    exact behaviour.outputs_emitAll rest _ _

namespace Pipeline

-- Behind complete records the text of a value is its layout, and the margin is as it was in the
-- beginning.  Whatever comes, an end finds the two spaces that it takes away.
theorem bytes_of_text (records : List Written) (name : Option String) (v : Json.Value) :
    let printed (stream : List Token) :=
      (stream.foldl write (start [] .text .unlimited)).close.1.bytes
    let before := records.flatMap Written.tokens
    printed (before ++ tokensOf name v) =
        printed before ++ (layout false name v).flatMap (Text.encodeUtf8 ·.print) ∧
      Margin.after {} (before ++ tokensOf name v) = {} ∧
      ∀ stream, let m := Margin.after {} stream
        m.spaces = 2 * m.opened.count true ∧ (m.opened.head? = some true → 2 ≤ m.spaces) := by
  intro printed before
  have content : ∀ t ∈ before, t ≠ .endOfStream := by
    intro t ht
    obtain ⟨w, -, hw⟩ := List.mem_flatMap.mp ht
    exact ne_endOfStream_of_mem_tokens hw
  have written {stream : List Token} (hs : ∀ t ∈ stream, t ≠ .endOfStream) :
      printed stream = (Margin.lines {} stream).flatMap Text.encodeUtf8 := by
    have closed : _ ∧ printed stream = rendered [] .text stream :=
      close_foldl_write nofun rfl hs
    exact closed.2.trans (congrArg _ (FormatState.outputs_text {} stream))
  obtain ⟨ls, hls⟩ := exists_prints_flatMap fun w (_ : w ∈ records) => exists_prints_tokens false w
  have hv := prints_tokensOf false name v
  have hboth : ∀ t ∈ before ++ tokensOf name v, t ≠ .endOfStream := by
    intro t ht
    exact (List.mem_append.mp ht).elim (content t) ne_endOfStream_of_mem_tokensOf
  refine ⟨?_, ?_, fun stream => ?_⟩
  · rw [written hboth, written content, Margin.lines_append, hls.after {} rfl, hv.lines {} rfl,
      List.flatMap_append, List.flatMap_map]
    rfl
  · rw [Margin.after_append, hls.after {} rfl, hv.after {} rfl]
  · have sound := Margin.Sound.after (m := {}) rfl stream
    refine ⟨sound, fun ho => ?_⟩
    obtain ⟨rest, hr⟩ := List.head?_eq_some_iff.mp ho
    exact sound.two_le hr

example :
    (layout false none (.object [("a", .array [.array [.bool true], .null])])).map Line.print =
      ["a:\n", "  -\n", "    true\n", "  null\n"] := by cbv

end Pipeline

end CommandShell.Output
