import CommandShell.Proofs.Grammar.Outlines
import CommandShell.Proofs.Scanner.Behind
import CommandShell.Proofs.Scanner.Rereading

namespace CommandShell.Script

open Text (width slice)

-- What a token is, wherever it stands.
def Token.content (t : Token) : TokenKind × String × Nat × Option Nat :=
  (t.kind, t.text, t.group, t.node)

theorem map_eq_of_forall₂ {α β : Type} {f : α → β} {xs ys : List α}
    (h : List.Forall₂ (fun x y => f y = f x) xs ys) : ys.map f = xs.map f := by
  induction h with
  | nil => rfl
  | cons hx _ ih => rw [List.map_cons, List.map_cons, hx, ih]

-- Two scripts with the same nodes and, but for their places, the same tokens.
structure SameContent (s s' : Script) : Prop where
  tokens : s'.tokens.toList.map Token.content = s.tokens.toList.map Token.content
  nodes : s'.nodes = s.nodes

theorem SameContent.outline {s s' : Script} (h : SameContent s s') : SameOutline s s' := by
  have hroles (tokens : List Token) :
      tokens.map Token.role = (tokens.map Token.content).map fun c => (c.1, c.2.2.2) := by
    rw [List.map_map]
    rfl
  exact ⟨by rw [hroles, h.tokens, ← hroles], h.nodes⟩

-- A redirection has come to its end in the text behind it, so that nothing further on is looked
-- at for it.
structure Token.Ended (t : Token) (between : List Char) : Prop where
  shell : t.kind = .shellRedirection → ∃ c ∈ between, c = ';' ∨ c = '\n'
  file : t.kind = .fileRedirection → ∃ c ∈ between, isBlank c = false

instance (t : Token) (between : List Char) : Decidable (t.Ended between) :=
  decidable_of_iff
    ((t.kind = .shellRedirection → (between.any fun c => c = ';' || c = '\n') = true) ∧
      (t.kind = .fileRedirection → (between.any fun c => !isBlank c) = true))
    ⟨fun h => ⟨by simpa using h.1, by simpa using h.2⟩,
      fun h => ⟨by simpa using h.shell, by simpa using h.file⟩⟩

theorem Token.Ended.sameBehind {t : Token} {between : List Char} (h : t.Ended between)
    (rest rest' : List Char) : t.SameBehind (between ++ rest) (between ++ rest') := by
  have hne {test : Char → Bool} (he : ∃ c ∈ between, test c = false) :
      between.dropWhile test ≠ [] := by
    obtain ⟨c, hc, ht⟩ := he
    intro hn
    rw [List.dropWhile_eq_nil_iff] at hn
    simp [hn c hc] at ht
  refine ⟨fun hk => ?_, fun hk => ?_⟩
  · have hends : ∃ c ∈ between, (c ≠ ';' && c ≠ '\n') = false := by
      simpa [or_iff_not_imp_left] using h.shell hk
    have hd := hne hends
    rw [takeWhile_append_of_ne_nil rest' hd, takeWhile_append_of_ne_nil rest hd]
  · have hd := hne (h.file hk)
    rw [dropWhile_append_of_ne_nil rest' hd, dropWhile_append_of_ne_nil rest hd,
      List.head?_append_of_ne_nil _ hd, List.head?_append_of_ne_nil _ hd]

namespace Scanner

variable {s s' next : Scanner} {c : Char} {cs front rest rest' : List Char} {n : Nat}
  {source : String}

-- In front of a place where another text looks the same, that text is read up to there alike.
theorem behind_inside {text : List Char} (before front : List Char) (h : behind n s = some s')
    (hr : Resembles s'.rest rest') (hsplit : text = before ++ s.rest)
    (ho : s.offset = width before)
    (he : ∀ t ∈ s'.tree.tokens.toList, t.Ended (slice text t.span.stop s'.offset))
    (hf : s.rest = front ++ s'.rest) (source : String) :
    behind n (s.inside source (front ++ rest')) = some (s'.inside source rest') := by
  induction n generalizing s before front with
  | zero =>
    cases h
    obtain rfl : front = [] := by simpa using hf
    rfl
  | succ n ih =>
    obtain ⟨c, cs, next, hrest, hs, hn⟩ := exists_of_behind h
    obtain ⟨taken, hcs, hno⟩ := split_of_step hs
    obtain ⟨more, hm, hmo⟩ := split_of_behind hn
    have hnext : next.offset = width (before ++ taken) := by rw [hno, ho, Text.width_append]
    have htext : text = (before ++ taken) ++ (more ++ s'.rest) := by
      rw [hsplit, hrest, hcs, hm, List.append_assoc]
    have hbehind : ∀ t ∈ next.tree.tokens.toList, t.span.stop = next.offset →
        t.SameBehind next.rest (more ++ rest') := by
      intro t ht hstop
      have hended := he t ((tokens_of_behind hn).subset ht)
      rw [hstop, hmo, hnext, htext, Text.slice_append] at hended
      rw [hm]
      exact hended.sameBehind s'.rest rest'
    have hlook : Resembles next.rest (more ++ rest') := hm ▸ hr.append more
    obtain ⟨read, hread, hinside⟩ := step_inside hs hlook hbehind source (front ++ rest')
    have hfront : front = c :: (read ++ more) := by
      have hall : front ++ s'.rest = c :: (read ++ more) ++ s'.rest := by
        rw [← hf, hrest, hread, hm]
        simp
      exact List.append_cancel_right hall
    have hinside' : (s.inside source (front ++ rest')).rest = c :: (read ++ (more ++ rest')) := by
      simp [inside, hfront]
    rw [behind_of_step hinside' hinside]
    exact ih _ more hn (by rw [htext, hm]) hnext hm

-- How what is read behind a blank goes over to behind joined lines.
def behindJoin : Motion where
  bytes := 3
  lines := 1
  related t u := u.content = t.content
  shifted t := by
    simp [Token.content, Token.shift]
  kind h := congrArg (·.1) h
  numbered id h := by
    simp only [Token.content, Prod.mk.injEq] at h ⊢
    exact ⟨h.1, h.2.1, h.2.2.1, rfl⟩

theorem carries_behindJoin (t : Tree) : behindJoin.Carries t t :=
  .of_unmoved rfl rfl (List.forall₂_same.2 fun _ _ => rfl) rfl rfl rfl

theorem sameContent_of_follows (h : Follows behindJoin s s') :
    SameContent s.snapshot s'.snapshot := by
  obtain ⟨later, hlater, hrelated⟩ := h.tree.tokens
  have hlater' : s'.tree.tokens.toList = later := hlater
  refine ⟨?_, h.tree.nodes_eq rfl rfl⟩
  show s'.tree.tokens.toList.map _ = s.tree.tokens.toList.map _
  rw [hlater']
  exact map_eq_of_forall₂ hrelated

theorem step_of_join (hg : s.isGlued = false) (cs : List Char) :
    s.step '\\' ('\n' :: cs) = .done (s.advance ['\\', '\n'] cs) := by
  have hj : join ('\n' :: cs) = .joined ['\n'] cs :=
    join_of_blanks (List.forall_mem_nil _) cs
  simp [step, isBlank, hg, hj]

theorem width_of_isBlank (hc : isBlank c = true) : width [c] = 1 := by
  simp only [isBlank, Bool.or_eq_true, decide_eq_true_eq] at hc
  obtain (rfl | rfl) | rfl := hc <;> rfl

theorem countLines_of_isBlank (hc : isBlank c = true) : Text.countLines [c] = 0 := by
  simp only [isBlank, Bool.or_eq_true, decide_eq_true_eq] at hc
  obtain (rfl | rfl) | rfl := hc <;> rfl

-- A blank, joined lines and a blank are passed over as the first blank is.
theorem scan_of_join {b d : Char} (hb : isBlank b = true) (hd : isBlank d = true)
    (hp : ∀ stop ∈ s.pieceEnd, stop ≤ s.offset) (hw : s.pending = none) (hr : s.rest = b :: cs)
    (source : String) :
    Scanned behindJoin s.scan (s.inside source (b :: '\\' :: '\n' :: d :: cs)).scan := by
  let first := (s.inside source (b :: '\\' :: '\n' :: d :: cs)).advance [b] ('\\' :: '\n' :: d :: cs)
  let second := first.advance ['\\', '\n'] (d :: cs)
  have hfirst : first.offset = s.offset + 1 := by
    show s.offset + width [b] = _
    rw [width_of_isBlank hb]
  have hsecond : second.offset = s.offset + 3 := by
    show first.offset + 2 = _
    rw [hfirst]
  have hg : first.isGlued = false := by
    by_contra hn
    have hle := hp first.offset (by simpa [isGlued, first, advance, inside] using hn)
    omega
  have hs : s.scan = (s.advance [b] cs).scan := by
    rw [scan_of_cons hr, step_of_blank hb]
  have hs' : (s.inside source (b :: '\\' :: '\n' :: d :: cs)).scan = (second.advance [d] cs).scan := by
    rw [scan_of_cons rfl, step_of_blank hb]
    show first.scan = _
    rw [scan_of_cons rfl, step_of_join hg]
    show second.scan = _
    rw [scan_of_cons rfl, step_of_blank hd]
  have hbefore : (s.advance [b] cs).offset = s.offset + 1 := hfirst
  have hbehind : (second.advance [d] cs).offset = s.offset + 4 := by
    show second.offset + width [d] = _
    rw [hsecond, width_of_isBlank hd]
  rw [hs, hs']
  refine Follows.scan ⟨rfl, rfl, ?_, ?_, rfl, fun m => ?_, ?_, carries_behindJoin _⟩
  · rw [hbehind, hbefore]
    rfl
  · show s.line + Text.countLines [b] + 1 + Text.countLines [d] = s.line + Text.countLines [b] + 1
    rw [countLines_of_isBlank hd]
  · have hno (k : Nat) : s.pieceEnd ≠ some (s.offset + 1 + k) := by
      intro hk
      have hle := hp _ hk
      omega
    rw [hbehind, hbefore]
    refine iff_of_false ?_ (hno m)
    have hk := hno (m + 3)
    rwa [show s.offset + 1 + (m + 3) = s.offset + 4 + m by omega] at hk
  · show s.pending = s.pending.map _
    rw [hw, Option.map_none]

end Scanner

open Scanner (loaded)

-- Between two words of a text, where a blank may stand: the scanner comes there from the start of
-- the text, and no redirection looks ahead to there.
structure Between (text : List Char) (s : Scanner) : Prop where
  reached : ∃ n, (loaded .command (String.ofList text)).behind n = some s
  ended : ∀ t ∈ s.tree.tokens.toList, t.Ended (slice text t.span.stop s.offset)

-- In front of a blank and of joined lines behind a blank, constructs end alike.
theorem resembles_join {b : Char} (hb : isBlank b = true) (d : Char) (rest : List Char) :
    Resembles (b :: rest) (b :: '\\' :: '\n' :: d :: rest) := by
  refine ⟨rfl, fun _ => ?_⟩
  have hdrop : (b :: '\\' :: '\n' :: d :: rest).dropWhile isBlank = '\\' :: '\n' :: d :: rest := by
    rw [List.dropWhile_cons_of_pos hb]
    rfl
  simp [join, hdrop]

-- Joined lines between two words are as good as a blank.
theorem tokenize_join {before after : List Char} {b d : Char} {s : Scanner} {script : Script}
    (ht : tokenize (String.ofList (before ++ b :: after)) = .ok script)
    (hs : Between (before ++ b :: after) s) (hr : s.rest = b :: after)
    (hb : isBlank b = true) (hd : isBlank d = true) :
    ∃ joined, tokenize (String.ofList (before ++ b :: '\\' :: '\n' :: d :: after)) = .ok joined ∧
      joined.tokens.toList.map Token.content = script.tokens.toList.map Token.content ∧
      joined.nodes = script.nodes ∧ joined.commands = script.commands := by
  obtain ⟨n, hn⟩ := hs.reached
  obtain ⟨u, hu, hm, rfl⟩ := scan_complete_of_tokenize ht
  have hpiece := Scanner.pieceEnd_le_of_behind (by simp [loaded, Scanner.starting]) hn
  have hlook : Resembles s.rest (b :: '\\' :: '\n' :: d :: after) := hr ▸ resembles_join hb d after
  have hinside := Scanner.behind_inside [] before hn hlook
    (by simp [loaded]) rfl hs.ended (by simp [loaded, hr])
    (String.ofList (before ++ b :: '\\' :: '\n' :: d :: after))
  have hloaded : (loaded .command (String.ofList (before ++ b :: after))).inside
      (String.ofList (before ++ b :: '\\' :: '\n' :: d :: after))
      (before ++ b :: '\\' :: '\n' :: d :: after) =
        loaded .command (String.ofList (before ++ b :: '\\' :: '\n' :: d :: after)) := by
    simp [Scanner.inside, loaded]
  rw [hloaded] at hinside
  have hpending : s.pending = none := (Scanner.pending_of_behind hn).trans rfl
  have hscanned := Scanner.scan_of_join hb hd hpiece hpending hr
    (String.ofList (before ++ b :: '\\' :: '\n' :: d :: after))
  rw [← Scanner.scan_of_behind hn, hu, ← Scanner.scan_of_behind hinside] at hscanned
  generalize hj : (loaded .command (String.ofList (before ++ b :: '\\' :: '\n' :: d :: after))).scan
    = y at hscanned
  cases hscanned with
  | @ok _ joined hf =>
    have hcomplete : joined.expectMore = false := hf.expectMore.trans hm
    have hsame := Scanner.sameContent_of_follows hf
    exact ⟨joined.snapshot, tokenize_of_scan hj hcomplete, hsame.tokens, hsame.nodes,
      hsame.outline.commands⟩

-- Behind a shell command, the name of a file and the word that ends the options.
theorem tokenize_join_of_marker :
    let before := "a | sh x; b > f; c --".toList
    let after := "-d".toList
    ∃ s script joined, Between (before ++ ' ' :: after) s ∧ s.rest = ' ' :: after ∧
      tokenize (String.ofList (before ++ ' ' :: after)) = .ok script ∧
      tokenize (String.ofList (before ++ ' ' :: '\\' :: '\n' :: '\t' :: after)) = .ok joined ∧
      joined.tokens.toList.map Token.content = script.tokens.toList.map Token.content ∧
      joined.nodes = script.nodes ∧ joined.commands = script.commands := by
  intro before after
  have hk : (tokenize (String.ofList (before ++ ' ' :: after))).toOption.isSome = true := by
    decide +kernel
  have hn : ((loaded .command (String.ofList (before ++ ' ' :: after))).behind 13).any (fun s =>
      s.rest = ' ' :: after ∧ ∀ t ∈ s.tree.tokens.toList,
        t.Ended (slice (before ++ ' ' :: after) t.span.stop s.offset)) = true := by
    decide +kernel
  obtain ⟨s, hs, hse⟩ := (Option.any_eq_true ..).1 hn
  obtain ⟨hr, he⟩ := of_decide_eq_true hse
  have hbetween : Between (before ++ ' ' :: after) s := ⟨⟨13, hs⟩, he⟩
  cases h : tokenize (String.ofList (before ++ ' ' :: after)) with
  | error e =>
    rw [h] at hk
    cases hk
  | ok script =>
    obtain ⟨joined, hj, hsame⟩ := tokenize_join (d := '\t') h hbetween hr rfl rfl
    exact ⟨s, script, joined, hbetween, hr, rfl, hj, hsame⟩

-- The name behind a pipe is looked for without joining lines: the join itself is taken for an empty
-- name, and the redirection becomes one to the shell.  The name of a file is looked for in the same
-- way, and is missed then.
theorem pipe_takes_join :
    (tokenize "a | b").toOption.map (·.tokens.toList.map (·.kind)) =
        some [.command, .redirection] ∧
      (tokenize "a | \\\n b").toOption.map (·.tokens.toList.map (·.kind)) =
        some [.command, .shellRedirection] ∧
      (tokenize "a > f").toOption.isSome = true ∧ tokenize "a > \\\n f" = .error
        ⟨.strayAfterFile, ⟨7, 8⟩⟩ := by
  refine ⟨?_, ?_, ?_, ?_⟩
  · decide +kernel
  · decide +kernel
  · decide +kernel
  · decide +kernel

end CommandShell.Script
