import CommandShell.Proofs.Output.Assembly
import Mathlib.Data.List.Induction

namespace CommandShell.Output

-- The two kinds of containers.
inductive Bracket where
  | object
  | array
deriving DecidableEq, Repr

namespace Bracket

def opening (name : Option String) : Bracket → Token
  | object => .object name
  | array => .array name

-- What a container has in it when it was opened.
def empty : Bracket → Contents
  | object => .object []
  | array => .array []

end Bracket

-- What is written into a stream as one record, or as one child of a container: a value, or a
-- container around what is written into it.
inductive Written where
  | value (name : Option String) (v : Json.Value)
  | container (bracket : Bracket) (name : Option String) (children : List Written)

namespace Written

-- What holds of a container if it holds of all its children holds of everything that is written.
@[induction_eliminator]
theorem induction {P : Written → Prop} (value : ∀ name v, P (.value name v))
    (container : ∀ bracket name children, (∀ w ∈ children, P w) →
      P (.container bracket name children)) (w : Written) : P w :=
  @Written.rec P (fun children => ∀ w ∈ children, P w) value container nofun
    (fun _ _ first rest => List.forall_mem_cons.mpr ⟨first, rest⟩) w

def name : Written → Option String
  | value name _ | container _ name _ => name

mutual

def tokens : Written → List Token
  | .value name v => [.value name v]
  | .container bracket name children => bracket.opening name :: (tokensAll children ++ [.close])

def tokensAll : List Written → List Token
  | [] => []
  | w :: rest => tokens w ++ tokensAll rest

end

mutual

-- The record that the tokens stand for.
def record : Written → Record
  | .value name v => ⟨name, v⟩
  | .container bracket name children => ⟨name, (fill bracket.empty children).toValue⟩

-- Children that are put into a container one after the other.
def fill (contents : Contents) : List Written → Contents
  | [] => contents
  | w :: rest => fill (contents.add (record w)) rest

end

theorem name_record (w : Written) : w.record.name = w.name := by
  cases w <;> simp [record, name]

theorem tokens_ne_nil (w : Written) : w.tokens ≠ [] := by
  cases w <;> simp [tokens]

theorem tokensAll_eq_flatMap (children : List Written) :
    tokensAll children = children.flatMap tokens := by
  induction children with
  | nil => rfl
  | cons w rest ih => rw [tokensAll, ih, List.flatMap_cons]

-- Children go into an array one behind the other.
theorem fill_array (items : List Json.Value) (children : List Written) :
    fill (.array items) children = .array (items ++ children.map (·.record.value)) := by
  induction children generalizing items with
  | nil => simp [fill]
  | cons w rest ih => simp [fill, Contents.add, ih]

end Written

namespace Assembler

open Written (tokensAll fill)

-- The tokens of what is written do what its record does as one token, whatever is open.
mutual

theorem amounts_tokens (w : Written) : Amounts w.tokens (.value w.record.name w.record.value) := by
  match w with
  | .value name v =>
    rw [Written.tokens, Written.record]
    exact fun a => rfl
  | .container bracket name children =>
    rw [Written.tokens, Written.record]
    refine amounts_of_filled (fun a => ?_) (pushAll_tokensAll children name bracket.empty)
    cases bracket <;> rfl

theorem pushAll_tokensAll (children : List Written) (name : Option String) (contents : Contents)
    (rest : List Container) :
    pushAll ⟨⟨name, contents⟩ :: rest⟩ (tokensAll children) =
      (⟨⟨name, fill contents children⟩ :: rest⟩,
        List.replicate (tokensAll children).length none) := by
  match children with
  | [] =>
    rw [tokensAll, fill]
    rfl
  | w :: children =>
    have first := (amounts_tokens w).inside w.tokens_ne_nil ⟨name, contents⟩ rest
    have added : Container.add ⟨name, contents⟩ ⟨w.record.name, w.record.value⟩ =
      ⟨name, contents.add w.record⟩ := rfl
    rw [tokensAll, pushAll_append, first, added, pushAll_tokensAll children, fill,
      List.length_append, List.replicate_add]

end

-- Some tokens complete a record with the last of them, and none with those before it.
structure Completes (tokens : List Token) (r : Record) : Prop where
  exists_last : ∃ front t a, tokens = front ++ [t] ∧
    pushAll empty front = (a, List.replicate front.length none) ∧ a.push t = (empty, some r)

theorem completes_of_amounts {tokens : List Token} {r : Record} (ne : tokens ≠ [])
    (h : Amounts tokens (.value r.name r.value)) : Completes tokens r := by
  obtain ⟨front, t, rfl⟩ := (List.eq_nil_or_concat' tokens).resolve_left ne
  have all := h empty
  have count : (front ++ [t]).length - 1 = front.length := by simp
  have single : push empty (.value r.name r.value) = (empty, some r) := rfl
  rw [single, count, pushAll_append, pushAll_singleton] at all
  obtain ⟨states, records⟩ := Prod.mk.inj all
  obtain ⟨before, last⟩ := List.append_inj' records rfl
  exact ⟨front, t, (pushAll empty front).1, rfl, Prod.ext rfl before,
    Prod.ext states (List.singleton_inj.mp last)⟩

theorem completes_tokens (w : Written) : Completes w.tokens w.record :=
  completes_of_amounts w.tokens_ne_nil (amounts_tokens w)

theorem completes_tokensOf (name : Option String) (v : Json.OrderedValue) :
    Completes (tokensOf name v.value) ⟨name, v.value⟩ :=
  completes_of_amounts (tokensOf_ne_nil name v.value) (amounts_tokensOf name v)

end Assembler

mutual

-- A value as it is written with one token for each of its brackets and scalars.
def Written.ofValue (name : Option String) : Json.Value → Written
  | .object entries => .container .object name (ofEntries entries)
  | .array items => .container .array name (ofItems items)
  | .null => .value name .null
  | .bool b => .value name (.bool b)
  | .number n => .value name (.number n)
  | .string s => .value name (.string s)

def Written.ofItems : List Json.Value → List Written
  | [] => []
  | v :: rest => ofValue none v :: ofItems rest

def Written.ofEntries : List (String × Json.Value) → List Written
  | [] => []
  | (key, v) :: rest => ofValue (some key) v :: ofEntries rest

end

mutual

theorem Written.tokens_ofValue (name : Option String) (v : Json.Value) :
    (ofValue name v).tokens = tokensOf name v := by
  match v with
  | .object entries =>
    rw [ofValue, tokens, tokensOf, tokensAll_ofEntries entries]
    rfl
  | .array items =>
    rw [ofValue, tokens, tokensOf, tokensAll_ofItems items]
    rfl
  | .null | .bool _ | .number _ | .string _ => rw [ofValue, tokens, tokensOf]

theorem Written.tokensAll_ofItems (items : List Json.Value) :
    tokensAll (ofItems items) = tokensOfItems items := by
  match items with
  | [] => rw [ofItems, tokensAll, tokensOfItems]
  | v :: rest => rw [ofItems, tokensAll, tokensOfItems, tokens_ofValue none v,
      tokensAll_ofItems rest]

theorem Written.tokensAll_ofEntries (entries : List (String × Json.Value)) :
    tokensAll (ofEntries entries) = tokensOfEntries entries := by
  match entries with
  | [] => rw [ofEntries, tokensAll, tokensOfEntries]
  | (key, v) :: rest => rw [ofEntries, tokensAll, tokensOfEntries, tokens_ofValue (some key) v,
      tokensAll_ofEntries rest]

end

-- A container that is open, with what was written into it so far.
structure Draft where
  bracket : Bracket
  name : Option String
  children : List Written

namespace Draft

def container (d : Draft) : Container := ⟨d.name, Written.fill d.bracket.empty d.children⟩

def tokens (d : Draft) : List Token := d.bracket.opening d.name :: Written.tokensAll d.children

def add (d : Draft) (w : Written) : Draft := { d with children := d.children ++ [w] }

def closed (d : Draft) : Written := .container d.bracket d.name d.children

variable (d : Draft) (w : Written)

theorem tokens_add : (d.add w).tokens = d.tokens ++ w.tokens := by
  simp [tokens, add, Written.tokensAll_eq_flatMap]

theorem tokens_closed : d.closed.tokens = d.tokens ++ [.close] := by
  simp [tokens, closed, Written.tokens]

theorem record_closed : d.closed.record = d.container.toRecord := by
  rw [closed, Written.record]
  rfl

end Draft

-- It is no marker, which an assembler passes over.
def Token.isContent : Token → Bool
  | .endOfStream => false
  | .object _ | .array _ | .close | .value _ _ => true

namespace Assembler

theorem pushAll_filter_isContent (a : Assembler) (s : List Token) :
    (a.pushAll (s.filter Token.isContent)).1 = (a.pushAll s).1 := by
  induction s generalizing a with
  | nil => rfl
  | cons t rest ih => cases t <;> exact ih _

-- The containers that a stream leaves open, the innermost one first: each was opened when those
-- around it were open, and its children were written into it.
inductive Leaves : List Token → List Draft → Prop where
  | outside {s : List Token} (closed : (pushAll empty s).1 = empty) : Leaves s []
  | inside {s : List Token} {around : List Draft} (d : Draft) (before : Leaves s around) :
      Leaves (s ++ d.tokens) (d :: around)

variable {s : List Token} {drafts : List Draft}

theorem Leaves.containers (h : Leaves s drafts) :
    (pushAll empty s).1 = ⟨drafts.map Draft.container⟩ := by
  induction h with
  | outside closed => exact closed
  | @inside s around d before ih =>
    have opened : push ⟨around.map Draft.container⟩ (d.bracket.opening d.name) =
        (⟨⟨d.name, d.bracket.empty⟩ :: around.map Draft.container⟩, none) := by
      cases d.bracket <;> rfl
    rw [pushAll_append, ih, Draft.tokens, pushAll_cons, opened, pushAll_tokensAll]
    rfl

-- What is written goes into the innermost container, or stands outside of all.
theorem Leaves.write (h : Leaves s drafts) (w : Written) :
    ∃ drafts', Leaves (s ++ w.tokens) drafts' := by
  cases h with
  | outside closed =>
    refine ⟨[], .outside ?_⟩
    rw [pushAll_append, closed, amounts_tokens w empty]
    rfl
  | @inside s around d before =>
    refine ⟨d.add w :: around, ?_⟩
    rw [List.append_assoc, ← Draft.tokens_add]
    exact .inside _ before

theorem Leaves.push (h : Leaves s drafts) {t : Token} (ht : t.isContent = true) :
    ∃ drafts', Leaves (s ++ [t]) drafts' := by
  cases t with
  | object name => exact ⟨_, .inside ⟨.object, name, []⟩ h⟩
  | array name => exact ⟨_, .inside ⟨.array, name, []⟩ h⟩
  | value name v => exact h.write (.value name v)
  | endOfStream => cases ht
  | close =>
    cases h with
    | outside closed =>
      refine ⟨[], .outside ?_⟩
      rw [pushAll_append, closed]
      rfl
    | @inside s around d before =>
      rw [List.append_assoc, ← Draft.tokens_closed]
      exact before.write d.closed

-- Induction on the stream from its end.
theorem exists_leaves (s : List Token) (hs : ∀ t ∈ s, t.isContent = true) :
    ∃ drafts, Leaves s drafts := by
  induction s using List.reverseRecOn with
  | nil => exact ⟨[], .outside rfl⟩
  | append_singleton s t ih =>
    obtain ⟨drafts, h⟩ := ih fun t ht => hs t (List.mem_append_left _ ht)
    exact h.push (hs t (List.mem_append_right _ (List.mem_singleton_self t)))

-- A record that is completed is the one that was written last, in front of which nothing was open.
theorem Leaves.exists_written (h : Leaves s drafts) {t : Token} {a : Assembler} {r : Record}
    (ht : Assembler.push ⟨drafts.map Draft.container⟩ t = (a, some r)) :
    ∃ before, ∃ w : Written, s ++ [t] = before ++ w.tokens ∧ (pushAll empty before).1 = empty ∧
      w.record = r := by
  cases t with
  | object name | array name | endOfStream => cases ht
  | value name v =>
    cases h with
    | outside closed =>
      cases ht
      exact ⟨s, .value name v, rfl, closed, by rw [Written.record]⟩
    | inside d before => cases ht
  | close =>
    cases h with
    | outside closed => cases ht
    | @inside s around d before =>
      cases before with
      | outside closed =>
        cases ht
        refine ⟨s, d.closed, ?_, closed, d.record_closed⟩
        rw [List.append_assoc, ← Draft.tokens_closed]
      | inside parent before => cases ht

-- Only contents complete a record.
theorem filter_of_push {s : List Token} {t : Token} {a a' : Assembler} {r : Record}
    (h : a.push t = (a', some r)) :
    (s ++ [t]).filter Token.isContent = s.filter Token.isContent ++ [t] := by
  have ht : t.isContent = true := by
    cases t with
    | endOfStream => cases h
    | _ => rfl
  rw [List.filter_append, List.filter_singleton, ht, cond_true]

theorem exists_written {s : List Token} {t : Token} {a : Assembler} {r : Record}
    (h : (pushAll empty s).1.push t = (a, some r)) :
    ∃ before, ∃ w : Written, (s ++ [t]).filter Token.isContent = before ++ w.tokens ∧
      (pushAll empty before).1 = empty ∧ w.record = r := by
  obtain ⟨drafts, hl⟩ := exists_leaves (s.filter Token.isContent) fun t ht =>
    (List.mem_filter.mp ht).2
  rw [filter_of_push h]
  rw [← pushAll_filter_isContent, hl.containers] at h
  exact hl.exists_written h

end Assembler

end CommandShell.Output
