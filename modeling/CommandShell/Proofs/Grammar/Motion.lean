import CommandShell.Proofs.Grammar.Recognition
import Mathlib.Data.List.Forall2

namespace CommandShell.Script

-- By how much the places of a script are further on: its bytes, its lines, the groups of its
-- arguments, and the indices of its tokens and nodes.
structure Shift where
  bytes : Nat := 0
  lines : Nat := 0
  groups : Nat := 0
  tokens : Nat := 0
  nodes : Nat := 0

def Span.shift (d : Shift) (s : Span) : Span := ⟨s.start + d.bytes, s.stop + d.bytes⟩

def Token.shift (d : Shift) (t : Token) : Token :=
  { t with
    span := t.span.shift d
    line := t.line + d.lines
    group := if t.kind.isStructural then t.group else t.group + d.groups
    node := t.node.map (· + d.nodes) }

@[simp] theorem Token.kind_shift (d : Shift) (t : Token) : (t.shift d).kind = t.kind := rfl

@[simp] theorem Token.text_shift (d : Shift) (t : Token) : (t.shift d).text = t.text := rfl

theorem Token.shift_zero (t : Token) : t.shift {} = t := by
  simp [shift, Span.shift]

def Range.shift (d : Shift) (r : Range) : Range := ⟨r.first + d.tokens, r.last + d.tokens⟩

def Node.shift (d : Shift) (n : Node) : Node where
  extent := n.extent.shift d
  args := n.args.map (·.shift d)
  redirections := n.redirections.map (·.shift d)
  blocks := n.blocks.map (·.shift d)

def Head.shift (d : Shift) : Head → Head
  | none => none
  | command id => .command (id + d.nodes)
  | redirection owner id => .redirection (owner + d.nodes) (id + d.nodes)

def Enclosing.shift (d : Shift) (e : Enclosing) : Enclosing :=
  ⟨e.opened + d.tokens, e.head.shift d⟩

section Unmoved

variable {d : Shift}

-- What has no other tokens and nodes in front of it keeps its indices.
theorem Node.shift_eq_self (h : d.tokens = 0) (n : Node) : n.shift d = n := by
  have hrange (r : Range) : r.shift d = r := by simp [Range.shift, h]
  obtain ⟨extent, args, redirections, blocks⟩ := n
  simp [Node.shift, hrange]

theorem Head.shift_eq_self (h : d.nodes = 0) (head : Head) : head.shift d = head := by
  cases head <;> simp [Head.shift, h]

theorem Enclosing.shift_eq_self (ht : d.tokens = 0) (hn : d.nodes = 0) (e : Enclosing) :
    e.shift d = e := by
  simp [Enclosing.shift, ht, Head.shift_eq_self hn]

end Unmoved

-- The same error at a place that is further on.
def LexError.shift (d : Shift) (e : LexError) : LexError := { e with span := e.span.shift d }

theorem mapLast_map {α β : Type} {f : α → α} {g : β → β} {h : α → β}
    (hc : ∀ x, g (h x) = h (f x)) (xs : List α) :
    mapLast g (xs.map h) = (mapLast f xs).map h := by
  cases List.eq_nil_or_concat xs with
  | inl he => simp [he, mapLast]
  | inr he =>
    obtain ⟨ys, y, rfl⟩ := he
    simp [mapLast_append_singleton, hc]

theorem Range.mapLast_extendTo_shift (d : Shift) (i : Nat) (rs : List Range) :
    mapLast (·.extendTo (i + d.tokens)) (rs.map (·.shift d)) =
      (mapLast (·.extendTo i) rs).map (·.shift d) := by
  refine mapLast_map (fun r => ?_) rs
  rfl

namespace Node

variable (d : Shift) (n : Node) (i : Nat)

theorem reach_shift : (n.shift d).reach (i + d.tokens) = (n.reach i).shift d := rfl

theorem addArg_shift : (n.shift d).addArg (i + d.tokens) = (n.addArg i).shift d := by
  cases h : n.args <;> simp [addArg, shift, h, Range.shift, Range.extendTo, Range.single]

theorem addRedirection_shift :
    (n.shift d).addRedirection (i + d.tokens) = (n.addRedirection i).shift d := by
  simp [addRedirection, shift, Range.shift, Range.single]

theorem openBlock_shift : (n.shift d).openBlock (i + d.tokens) = (n.openBlock i).shift d := by
  simp [openBlock, shift, Range.shift, Range.single]

theorem closeBlock_shift : (n.shift d).closeBlock (i + d.tokens) = (n.closeBlock i).shift d := by
  simp [closeBlock, shift, Range.mapLast_extendTo_shift]

theorem reachRedirection_shift :
    (n.shift d).reachRedirection (i + d.tokens) = (n.reachRedirection i).shift d := by
  simp [reachRedirection, shift, Range.mapLast_extendTo_shift]

end Node

theorem Tree.insert_of_command {t : Tree} {token : Token} (h : token.kind = .command) :
    t.insert token = .ok { t with
      tokens := t.tokens.push { token with node := some t.nodes.size }
      nodes := t.nodes.push (.opened t.tokens.size)
      head := .command t.nodes.size } := by
  unfold insert
  rw [h]

-- How what is read of a text goes over to where the text stands behind another one: by how much
-- its places are further on, the tokens and nodes there were before, and how the tokens are
-- related.
structure Motion where
  bytes : Nat := 0
  lines : Nat := 0
  groups : Nat := 0
  front : List Token := []
  nodes : List Node := []
  related : Token → Token → Prop
  shifted : ∀ t, related t
    (t.shift ⟨bytes, lines, groups, front.length, nodes.length⟩)
  kind : ∀ {t u}, related t u → u.kind = t.kind
  numbered : ∀ {t u} (id : Nat), related t u →
    related { t with node := some id } { u with node := some (id + nodes.length) }

namespace Motion

def shift (m : Motion) : Shift := ⟨m.bytes, m.lines, m.groups, m.front.length, m.nodes.length⟩

-- A tree and what it goes over to.
structure Carries (m : Motion) (t u : Tree) : Prop where
  tokens : ∃ later, u.tokens.toList = m.front ++ later ∧
    List.Forall₂ m.related t.tokens.toList later
  nodes : u.nodes.toList = m.nodes ++ t.nodes.toList.map (·.shift m.shift)
  head : u.head = t.head.shift m.shift
  enclosing : u.enclosing = t.enclosing.map (·.shift m.shift)

-- Both come out well, with related results, or both fail with the same error, which is further on
-- in the second one.
inductive Both {α β : Type} (d : Shift) (related : α → β → Prop) :
    Except LexError α → Except LexError β → Prop where
  | ok {a : α} {b : β} (h : related a b) : Both d related (.ok a) (.ok b)
  | error (e : LexError) : Both d related (.error e) (.error (e.shift d))

variable {m : Motion} {t u : Tree} {a b : Token} {f g : Node → Node}

-- What is wrong at a place is wrong at the place that is further on.
theorem Both.refused {α β : Type} {d : Shift} {related : α → β → Prop} (cause : LexCause)
    {place place' : Span} (hs : place' = place.shift d) :
    Both d related (.error ⟨cause, place⟩) (.error ⟨cause, place'⟩) :=
  hs ▸ .error ⟨cause, place⟩

theorem modify_append_map {α β : Type} (xs : List β) (ys : List α) {h : α → β} {f : α → α}
    {g : β → β} (hc : ∀ x, g (h x) = h (f x)) (i : Nat) :
    (xs ++ ys.map h).modify (i + xs.length) g = xs ++ (ys.modify i f).map h := by
  induction xs with
  | nil =>
    simp only [List.nil_append, List.length_nil, Nat.add_zero]
    induction ys generalizing i with
    | nil => simp
    | cons y ys ih => cases i <;> simp [hc, ih]
  | cons x xs ih => simpa [← Nat.add_assoc] using ih

theorem rel_getElem? {α β : Type} {r : α → β → Prop} {xs : List α} {ys : List β}
    (h : List.Forall₂ r xs ys) (i : Nat) : Option.Rel r xs[i]? ys[i]? := by
  induction h generalizing i with
  | nil => exact .none
  | cons hx _ ih =>
    cases i with
    | zero => exact .some hx
    | succ i => exact ih i

namespace Carries

theorem size_tokens (h : m.Carries t u) : u.tokens.size = t.tokens.size + m.front.length := by
  obtain ⟨later, hu, hl⟩ := h.tokens
  have hlen := congrArg List.length hu
  rw [List.length_append, ← hl.length_eq] at hlen
  simp only [Array.length_toList] at hlen
  omega

theorem size_nodes (h : m.Carries t u) : u.nodes.size = t.nodes.size + m.nodes.length := by
  have hlen := congrArg List.length h.nodes
  simp only [Array.length_toList, List.length_append, List.length_map] at hlen
  omega

theorem getElem?_nodes (h : m.Carries t u) (id : Nat) :
    u.nodes[id + m.nodes.length]? = t.nodes[id]?.map (·.shift m.shift) := by
  rw [← Array.getElem?_toList, h.nodes, List.getElem?_append_right (by omega)]
  simp

-- Without anything in front of them, two trees only differ in their tokens.
theorem of_unmoved (hf : m.front = []) (hm : m.nodes = [])
    (hr : List.Forall₂ m.related t.tokens.toList u.tokens.toList) (hn : u.nodes = t.nodes)
    (hh : u.head = t.head) (he : u.enclosing = t.enclosing) : m.Carries t u := by
  have ht : m.shift.tokens = 0 := by simp [shift, hf]
  have hi : m.shift.nodes = 0 := by simp [shift, hm]
  refine ⟨⟨u.tokens.toList, by rw [hf, List.nil_append], hr⟩, ?_, ?_, ?_⟩
  · simp only [Node.shift_eq_self ht, List.map_id', hm, hn, List.nil_append]
  · rw [hh, Head.shift_eq_self hi]
  · simp only [Enclosing.shift_eq_self ht hi, List.map_id', he]

theorem nodes_eq (h : m.Carries t u) (hf : m.front = []) (hm : m.nodes = []) :
    u.nodes = t.nodes := by
  have ht : m.shift.tokens = 0 := by simp [shift, hf]
  have hn := h.nodes
  simp only [Node.shift_eq_self ht, List.map_id', hm, List.nil_append] at hn
  exact Array.toList_inj.1 hn

theorem update (h : m.Carries t u) (hc : ∀ n, g (n.shift m.shift) = (f n).shift m.shift)
    (id : Nat) : m.Carries (t.update id f) (u.update (id + m.nodes.length) g) := by
  refine ⟨h.tokens, ?_, h.head, h.enclosing⟩
  simp only [Tree.update, Array.toList_modify, h.nodes]
  exact modify_append_map _ _ hc id

theorem push (h : m.Carries t u) (hr : m.related a b) : m.Carries (t.push a) (u.push b) := by
  refine ⟨?_, h.nodes, h.head, h.enclosing⟩
  obtain ⟨later, hu, hl⟩ := h.tokens
  refine ⟨later ++ [b], by simp [Tree.push, hu], ?_⟩
  simpa [Tree.push] using List.rel_append hl (.cons hr .nil)

theorem reach (h : m.Carries t u) (i : Nat) :
    m.Carries (t.reach i) (u.reach (i + m.front.length)) := by
  have hreach := fun n : Node => n.reach_shift m.shift i
  simp only [Tree.reach, h.head]
  cases t.head with
  | none => exact h
  | command id => exact h.update hreach id
  | redirection owner id =>
    refine (h.update (fun n => ?_) owner).update hreach id
    exact Node.reachRedirection_shift m.shift (n.reach i) i

theorem pushNode (h : m.Carries t u) (i : Nat) :
    m.Carries { t with nodes := t.nodes.push (.opened i) }
      { u with nodes := u.nodes.push (.opened (i + m.front.length)) } := by
  refine ⟨h.tokens, ?_, h.head, h.enclosing⟩
  simp only [Array.toList_push, h.nodes, List.map_append, List.append_assoc]
  rfl

theorem setHead {head head' : Head} (h : m.Carries t u) (hh : head' = head.shift m.shift) :
    m.Carries { t with head := head } { u with head := head' } :=
  ⟨h.tokens, h.nodes, hh, h.enclosing⟩

theorem setEnclosing {levels levels' : List Enclosing} (h : m.Carries t u)
    (he : levels' = levels.map (·.shift m.shift)) :
    m.Carries { t with enclosing := levels } { u with enclosing := levels' } :=
  ⟨h.tokens, h.nodes, h.head, he⟩

theorem owner? (h : m.Carries t u) :
    u.head.owner? = t.head.owner?.map (· + m.nodes.length) := by
  rw [h.head]
  cases t.head <;> rfl

theorem target? (h : m.Carries t u) :
    u.head.target? = t.head.target?.map (· + m.nodes.length) := by
  rw [h.head]
  cases t.head <;> rfl

theorem depth (h : m.Carries t u) : u.depth = t.depth := by
  simp [Tree.depth, h.enclosing]

-- The brace that was opened last goes over to the one that was opened last.
theorem innermostOpen? (h : m.Carries t u) :
    Option.Rel m.related t.innermostOpen? u.innermostOpen? := by
  obtain ⟨later, hu, hl⟩ := h.tokens
  cases ht : t.enclosing with
  | nil =>
    have he : u.enclosing = [] := by simp [h.enclosing, ht]
    simp only [Tree.innermostOpen?, ht, he]
    exact .none
  | cons frame outer =>
    have he : u.enclosing = frame.shift m.shift :: outer.map (·.shift m.shift) := by
      simp [h.enclosing, ht]
    have hget : u.tokens[frame.opened + m.front.length]? = later[frame.opened]? := by
      rw [← Array.getElem?_toList, hu, List.getElem?_append_right (Nat.le_add_left _ _),
        Nat.add_sub_cancel]
    have hrel := rel_getElem? hl frame.opened
    rw [← hget, Array.getElem?_toList] at hrel
    simpa [Tree.innermostOpen?, ht, he, Enclosing.shift, shift] using hrel

section Insert

variable (h : m.Carries t u) (hr : m.related a b)

include h hr

theorem related_numbered :
    m.related { a with node := some t.nodes.size } { b with node := some u.nodes.size } := by
  rw [h.size_nodes]
  exact m.numbered _ hr

theorem insert_command (ha : a.kind = .command) :
    Both m.shift m.Carries (t.insert a) (u.insert b) := by
  have hhead : Head.command u.nodes.size = (Head.command t.nodes.size).shift m.shift :=
    congrArg Head.command h.size_nodes
  rw [Tree.insert_of_command ha, Tree.insert_of_command ((m.kind hr).trans ha), h.size_tokens]
  exact .ok (((h.push (h.related_numbered hr)).pushNode t.tokens.size).setHead hhead)

variable (hs : b.span = a.span.shift m.shift)

include hs

theorem insert_redirection (ha : a.kind.isRedirection = true) :
    Both m.shift m.Carries (t.insert a) (u.insert b) := by
  rw [Tree.insert_of_isRedirection ha, Tree.insert_of_isRedirection (m.kind hr ▸ ha), h.owner?,
    h.size_tokens]
  cases t.head.owner? with
  | none => exact .refused _ hs
  | some owner =>
    have hnode := (h.pushNode t.tokens.size).update
      (f := fun n => (n.reach t.tokens.size).addRedirection t.tokens.size)
      (g := fun n => (n.reach (t.tokens.size + m.front.length)).addRedirection
        (t.tokens.size + m.front.length))
      (fun n => (n.reach t.tokens.size).addRedirection_shift m.shift t.tokens.size) owner
    have hhead : Head.redirection (owner + m.nodes.length) u.nodes.size =
        (Head.redirection owner t.nodes.size).shift m.shift :=
      congrArg (Head.redirection _) h.size_nodes
    exact .ok ((hnode.push (h.related_numbered hr)).setHead hhead)

theorem insert_piece (ha : a.kind.isPiece = true) :
    Both m.shift m.Carries (t.insert a) (u.insert b) := by
  rw [Tree.insert_of_isPiece ha, Tree.insert_of_isPiece (m.kind hr ▸ ha), h.target?, h.size_tokens]
  cases t.head.target? with
  | none => exact .refused _ hs
  | some target =>
    have hb : (u.nodes[target + m.nodes.length]?.map (·.blocks.isEmpty)).getD true =
        (t.nodes[target]?.map (·.blocks.isEmpty)).getD true := by
      rw [h.getElem?_nodes]
      cases t.nodes[target]? <;> simp [Node.shift]
    have hadd (n : Node) := Node.addArg_shift m.shift n t.tokens.size
    dsimp only [Option.map_some]
    rw [hb]
    split
    · exact .ok (((h.update hadd target).reach t.tokens.size).push hr)
    · exact .refused _ hs

theorem insert_blockBegin (ha : a.kind = .blockBegin) :
    Both m.shift m.Carries (t.insert a) (u.insert b) := by
  simp only [Tree.insert, ha, (m.kind hr).trans ha, h.target?, h.size_tokens]
  cases t.head.target? with
  | none => exact .refused _ hs
  | some target =>
    have hopen := h.update (f := (·.openBlock t.tokens.size))
      (g := (·.openBlock (t.tokens.size + m.front.length)))
      (fun n => n.openBlock_shift m.shift t.tokens.size) target
    have hlevels : ⟨t.tokens.size + m.front.length, u.head⟩ :: u.enclosing =
        (⟨t.tokens.size, t.head⟩ :: t.enclosing : List Enclosing).map (·.shift m.shift) := by
      rw [List.map_cons, ← h.enclosing, Enclosing.shift, ← h.head]
      rfl
    have hhead : Head.none = Head.none.shift m.shift := rfl
    exact .ok ((((hopen.reach t.tokens.size).push hr).setHead hhead).setEnclosing hlevels)

theorem insert_blockEnd (ha : a.kind = .blockEnd) :
    Both m.shift m.Carries (t.insert a) (u.insert b) := by
  simp only [Tree.insert, ha, (m.kind hr).trans ha, h.enclosing, h.size_tokens]
  cases t.enclosing with
  | nil => exact .refused _ hs
  | cons frame outer =>
    obtain ⟨opened, head⟩ := frame
    have hparent : m.Carries { t with head := head, enclosing := outer }
        { u with head := head.shift m.shift, enclosing := outer.map (·.shift m.shift) } :=
      ⟨h.tokens, h.nodes, rfl, rfl⟩
    have hclose := hparent.update (f := (·.closeBlock t.tokens.size))
      (g := (·.closeBlock (t.tokens.size + m.front.length)))
      fun n => n.closeBlock_shift m.shift t.tokens.size
    dsimp only [List.map_cons, Enclosing.shift]
    cases head with
    | none => exact .ok ((hparent.reach t.tokens.size).push hr)
    | command id => exact .ok (((hclose id).reach t.tokens.size).push hr)
    | redirection owner id => exact .ok (((hclose id).reach t.tokens.size).push hr)

-- Related tokens are both taken in or both refused.
theorem insert : Both m.shift m.Carries (t.insert a) (u.insert b) := by
  rcases a.kind.insert_cases with ha | ha | ha | ha | ha | ha
  · rw [Derivation.insert_separator ha, Derivation.insert_separator ((m.kind hr).trans ha)]
    exact .ok ((h.push hr).setHead rfl)
  · exact h.insert_command hr ha
  · exact h.insert_redirection hr hs ha
  · exact h.insert_piece hr hs ha
  · exact h.insert_blockBegin hr hs ha
  · exact h.insert_blockEnd hr hs ha

end Insert

end Carries

end Motion

end CommandShell.Script
