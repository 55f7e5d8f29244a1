import CommandShell.Script.Outline

namespace CommandShell.Script

-- What a token is to the commands of its script: its kind, and the node that it opens.
def Token.role (t : Token) : TokenKind × Option Nat := (t.kind, t.node)

-- Two scripts with the same nodes, and tokens that stand for the same in them.
structure SameOutline (s s' : Script) : Prop where
  tokens : s'.tokens.toList.map Token.role = s.tokens.toList.map Token.role
  nodes : s'.nodes = s.nodes

namespace SameOutline

variable {s s' : Script}

theorem size (h : SameOutline s s') : s'.tokens.size = s.tokens.size := by
  simpa using congrArg List.length h.tokens

theorem getElem? (h : SameOutline s s') (i : Nat) :
    s'.tokens[i]?.map Token.role = s.tokens[i]?.map Token.role := by
  simpa using congrArg (·[i]?) h.tokens

theorem token (h : SameOutline s s') (i : Nat) : (s'.token i).role = (s.token i).role := by
  have hgetD := congrArg (·.getD (default : Token).role) (h.getElem? i)
  simpa only [Script.token, Option.getD_map] using hgetD

theorem kind (h : SameOutline s s') (i : Nat) : (s'.token i).kind = (s.token i).kind :=
  congrArg (·.1) (h.token i)

theorem opening (h : SameOutline s s') (i : Nat) : (s'.token i).node = (s.token i).node :=
  congrArg (·.2) (h.token i)

theorem node (h : SameOutline s s') (id : Nat) : s'.node id = s.node id := by
  rw [Script.node, h.nodes, Script.node]

theorem opens? (h : SameOutline s s') (i : Nat) : s'.opens? i = s.opens? i := by
  have hi := h.getElem? i
  unfold Script.opens?
  cases hs' : s'.tokens[i]? <;> cases hs : s.tokens[i]? <;> rw [hs', hs] at hi
  · cases hi
  · cases hi
  · next t u =>
    obtain ⟨kind, _, _, _, _, node⟩ := t
    obtain ⟨kind', _, _, _, _, node'⟩ := u
    simp only [Option.map_some, Option.some.injEq, Token.role, Prod.mk.injEq] at hi
    obtain ⟨rfl, rfl⟩ := hi
    cases kind <;> cases node <;> rfl

theorem opened (h : SameOutline s s') (next : Nat) (indices : List Nat) :
    s'.opened next indices = s.opened next indices := by
  induction indices generalizing next with
  | nil => rfl
  | cons i rest ih => simp only [Script.opened, h.opens?, h.node, ih]

theorem blockStop (h : SameOutline s s') (block : Range) :
    s'.blockStop block = s.blockStop block := by
  simp only [Script.blockStop, h.kind, h.size]

theorem attached (h : SameOutline s s') (inside : Range → List Command) (id : Nat) :
    s'.attached inside id = s.attached inside id := by
  simp only [Script.attached, h.node, h.opening]

theorem between (h : SameOutline s s') (levels first stop : Nat) :
    s'.between levels first stop = s.between levels first stop := by
  induction levels generalizing first stop with
  | zero => rfl
  | succ levels ih =>
    have hattached := funext (h.attached fun block =>
      s'.between levels (block.first + 1) (s'.blockStop block))
    simp only [ih, h.blockStop] at hattached
    simp only [Script.between, h.opened, ih, h.blockStop, hattached]

-- The way through a script does not depend on the places and texts of its tokens.
theorem commands (h : SameOutline s s') : s'.commands = s.commands := by
  rw [Script.commands, h.between, h.size, Script.commands]

end SameOutline

-- A script that begins with the name of a command has a first command.
theorem commands_of_head {s : Script} {t : Token} {id : Nat} (ht : s.tokens[0]? = some t)
    (hk : t.kind = .command) (hn : t.node = some id) :
    ∃ first rest, s.commands = first :: rest ∧ first.node = s.node id := by
  have hopens : s.opens? 0 = some id := by
    obtain ⟨kind, _, _, _, _, node⟩ := t
    obtain rfl : kind = .command := hk
    obtain rfl : node = some id := hn
    rw [Script.opens?, ht]
  have hpos : 0 < s.tokens.size := (Array.getElem?_eq_some_iff.1 ht).1
  obtain ⟨n, hsize⟩ := Nat.exists_eq_succ_of_ne_zero (Nat.ne_of_gt hpos)
  rw [Script.commands, hsize, Script.between, Nat.sub_zero, List.range'_succ, Script.opened,
    if_neg (Nat.lt_irrefl 0), hopens, List.map_cons]
  exact ⟨_, _, rfl, rfl⟩

end CommandShell.Script
