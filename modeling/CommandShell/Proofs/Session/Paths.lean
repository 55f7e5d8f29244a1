import CommandShell.Handler.Library
import CommandShell.Proofs.Grammar.Extents
import CommandShell.Proofs.Session.Stability
import CommandShell.Proofs.Text.Splitting

namespace CommandShell.Session

open Text (splitAtChar splitString)

namespace Context

-- A name that a path leads down to: nothing in it is read in another way.
structure IsPlain (part : String) : Prop where
  ne_empty : part ≠ ""
  ne_dot : part ≠ "."
  ne_dots : part ≠ ".."
  slash : '/' ∉ part.toList

variable {c : Context} {parts segments : List String} {part : String}

theorem enter_plain (h : IsPlain part) (segments : List String) :
    enter segments part = segments ++ [part] := by
  have hstay : ¬(part = "" ∨ part = ".") := not_or.mpr ⟨h.ne_empty, h.ne_dot⟩
  rw [enter, if_neg hstay, if_neg h.ne_dots]

theorem foldl_enter_plain (h : ∀ part ∈ parts, IsPlain part) (segments : List String) :
    parts.foldl enter segments = segments ++ parts := by
  induction parts generalizing segments with
  | nil => rw [List.foldl_nil, List.append_nil]
  | cons part rest ih =>
    obtain ⟨hp, hr⟩ := List.forall_mem_cons.mp h
    rw [List.foldl_cons, enter_plain hp, ih hr, List.append_assoc, List.singleton_append]

-- One part more: it is dropped, it takes a segment away, or it is a plain one.
theorem plain_enter (h : ∀ segment ∈ segments, IsPlain segment) (hs : '/' ∉ part.toList) :
    ∀ segment ∈ enter segments part, IsPlain segment := by
  by_cases hstay : part = "" ∨ part = "."
  · rwa [enter, if_pos hstay]
  by_cases hup : part = ".."
  · rw [enter, if_neg hstay, if_pos hup]
    exact fun segment hm => h segment (List.dropLast_subset segments hm)
  · rw [enter, if_neg hstay, if_neg hup]
    obtain ⟨he, hd⟩ := not_or.mp hstay
    exact List.forall_mem_append.mpr ⟨h, List.forall_mem_singleton.mpr ⟨he, hd, hup, hs⟩⟩

theorem plain_foldl_enter (h : ∀ segment ∈ segments, IsPlain segment)
    (hp : ∀ part ∈ parts, '/' ∉ part.toList) :
    ∀ segment ∈ parts.foldl enter segments, IsPlain segment := by
  induction parts generalizing segments with
  | nil => exact h
  | cons part rest ih =>
    obtain ⟨hs, hr⟩ := List.forall_mem_cons.mp hp
    exact ih (plain_enter h hs) hr

-- Every segment of the path is plain.
def Plain (c : Context) : Prop := ∀ segment ∈ c.segments, IsPlain segment

theorem plain_root (vars : Dictionary String) : Plain ⟨[], vars⟩ := List.forall_mem_nil _

theorem not_slash_of_mem_splitString {text : String} (h : part ∈ splitString '/' text) :
    '/' ∉ part.toList := by
  obtain ⟨cs, hcs, rfl⟩ := List.mem_map.mp h
  rw [String.toList_ofList]
  exact Text.not_mem_of_mem_splitAtChar hcs

theorem Plain.cd (h : c.Plain) (target : String) : (c.cd target).Plain := by
  refine plain_foldl_enter ?_ fun part hm => not_slash_of_mem_splitString hm
  split
  · exact List.forall_mem_nil _
  · exact h

theorem Plain.foldl_cd (h : c.Plain) (targets : List String) :
    (targets.foldl Context.cd c).Plain := by
  induction targets generalizing c with
  | nil => exact h
  | cons target rest ih => exact ih (h.cd target)

theorem toList_path (c : Context) :
    c.path.toList = '/' :: ['/'].intercalate (c.segments.map String.toList) := by
  rw [path, String.toList_append, String.toList_intercalate]
  rfl

-- The text of a path splits into an empty part, in front of the slash, and the segments.  At the
-- root there is nothing behind the slash.
theorem splitString_path (h : c.Plain) :
    splitString '/' c.path = "" :: if c.segments = [] then [""] else c.segments := by
  have front (cs : List Char) : splitAtChar '/' ([] ++ '/' :: cs) = [] :: splitAtChar '/' cs :=
    Text.splitAtChar_append_cons List.not_mem_nil cs
  rw [splitString, toList_path, ← List.nil_append ('/' :: _), front]
  by_cases he : c.segments = []
  · rw [he, if_pos rfl]
    rfl
  · have parts : ∀ part ∈ c.segments.map String.toList, '/' ∉ part := by
      intro part hm
      obtain ⟨segment, hs, rfl⟩ := List.mem_map.mp hm
      exact (h segment hs).slash
    have ne : c.segments.map String.toList ≠ [] := mt List.map_eq_nil_iff.mp he
    rw [Text.splitAtChar_intercalate ne parts, if_neg he, List.map_cons, List.map_map]
    simp [Function.comp_def]

-- Following the text of a path leads there, wherever one is.
theorem segments_cd_path (h : c.Plain) (c' : Context) : (c'.cd c.path).segments = c.segments := by
  have absolute : c.path.toList.head? = some '/' := by rw [toList_path, List.head?_cons]
  have empty (segments : List String) : enter segments "" = segments := if_pos (.inl rfl)
  rw [cd, if_pos absolute, splitString_path h, List.foldl_cons, empty]
  by_cases he : c.segments = []
  · rw [he, if_pos rfl, List.foldl_cons, empty, List.foldl_nil]
  · rw [if_neg he, foldl_enter_plain h, List.nil_append]

theorem cd_path (h : c.Plain) (c' : Context) : c'.cd c.path = ⟨c.segments, c'.vars⟩ := by
  have hs := segments_cd_path h c'
  rw [← hs]
  rfl

-- Some paths that were followed one after the other from the root lead here.
def Reached (c : Context) : Prop :=
  ∃ targets : List String, c.segments = (targets.foldl cd {}).segments

theorem reached_root (vars : Dictionary String) : Reached ⟨[], vars⟩ := ⟨[], rfl⟩

theorem Reached.plain (h : c.Reached) : c.Plain := by
  obtain ⟨targets, hs⟩ := h
  unfold Plain
  rw [hs]
  exact (plain_root []).foldl_cd targets

theorem Reached.cd (h : c.Reached) (target : String) : (c.cd target).Reached := by
  obtain ⟨targets, hs⟩ := h
  refine ⟨targets ++ [target], ?_⟩
  rw [List.foldl_append, List.foldl_cons, List.foldl_nil, Context.cd, Context.cd, hs]

end Context

open Context

-- Whatever a session runs, its place is one that paths lead to.
theorem stable_reached : Stable fun s => s.context.Reached where
  world _ h := h
  cancellation _ h := h
  scanner _ h := h
  requests _ h := h
  config _ h := h
  exit h := h
  cd target h := h.cd target
  vars _ h := h
  enter h _ := h
  leave h := h

variable {s : Session} {script : Script} {c : Script.Command} {inner : TextRun}

-- Where the block of a command that goes down a path begins to run, if it comes to that: the path
-- can be bound, the output can be set up, and there is a block.
def blockStart (s : Session) (script : Script) (c : Script.Command) : Option Session :=
  let args : Binding.Args := ⟨script.argsOf c.node, c.node.firstArg⟩
  let counted := { s with requests := s.requests + 1 }
  match (Handler.Command.within.options s.context).bind (script.token c.head).text args
      s.interpolation,
    chainOf counted script c, c.blocks with
  | .ok slots, .ok _, _ :: _ =>
    some (Session.cd { counted with cancellation := s.cancellation.start (s.requests + 1) }
      (Handler.valueAt slots 0).text)
  | _, _, _ => none

-- The place and the variables after going down a path: those of the block, at the old place.
def contextAfter (s : Session) (script : Script) (c : Script.Command) (block : BlockRun) :
    Context :=
  match s.blockStart script c with
  | none => s.context
  | some start => ⟨s.context.segments, (block start).1.context.vars⟩

-- Nothing but the block and the way back changes the context.
theorem context_dispatch_within {block : Option BlockRun} (hs : s.context.Plain)
    (hb : block.isSome = !c.blocks.isEmpty) (hn : (script.token c.head).text = "in")
    (hc : s.library.handler? .command "in" = some .within) :
    (dispatch s inner script c block).1.context = s.contextAfter script c (runOf block) := by
  have found : command? s (script.token c.head).text = some .within := by
    rw [hn, command?, hc]
    rfl
  have other : Builtin.ofName? (script.token c.head).text = none := by
    rw [hn]
    decide
  simp only [dispatch, other, found, runRegistered, contextAfter, blockStart]
  cases (Handler.Command.within.options s.context).bind _ _ s.interpolation with
  | error e => rfl
  | ok slots =>
    cases chainOf { s with requests := s.requests + 1 } script c with
    | error e => rfl
    | ok chain =>
      cases hbs : c.blocks with
      | nil =>
        obtain rfl : block = none := by simpa [hbs] using hb
        rfl
      | cons commands rest =>
        obtain ⟨run, rfl⟩ : ∃ run, block = some run :=
          Option.isSome_iff_exists.mp (by simpa [hbs] using hb)
        exact cd_path hs _

theorem context_runCommand_within (hs : s.context.Plain)
    (hn : (script.token c.head).text = "in")
    (hc : s.library.handler? .command "in" = some .within) :
    (runCommand inner script c s).1.context =
      s.contextAfter script c (runOf (firstBlock inner script c.blocks)) := by
  obtain ⟨node, blocks, redirections⟩ := c
  have blocked := isSome_firstBlock inner script blocks
  have done : (dispatch s inner script (.mk node blocks redirections) _).1.context = _ :=
    context_dispatch_within hs blocked hn hc
  rw [runCommand]
  generalize dispatch s inner script _ _ = ran at done ⊢
  obtain ⟨s', e | e⟩ := ran
  · exact done
  · exact done

-- Any paths that are followed from the root lead to plain segments, and following the text of such
-- a path leads back to it from anywhere.  So a session never loses its place to a command that goes
-- down a path, whatever its block does and at any depth of sourced files: afterwards the segments
-- are those from before, and the variables those that the block left.
theorem place_restored (hs : s.context.Reached)
    (hc : s.library.handler? .command "in" = some .within) :
    (∀ targets : List String,
      (∀ segment ∈ (targets.foldl Context.cd {}).segments, IsPlain segment) ∧
        ∀ c : Context, (c.cd (targets.foldl Context.cd {}).path).segments =
          (targets.foldl Context.cd {}).segments) ∧
      (∀ text, (∀ event ∈ s.sourceEvents text, event.session.context.Reached) ∧
        (s.runSource text).1.context.Reached) ∧
      (∀ inputs, (s.read inputs).session.context.Reached) ∧
      ∀ (levels : Nat) (script : Script) (c : Script.Command),
        (script.token c.head).text = "in" →
          let after := (runCommand (runWithin levels) script c s).1.context
          after.segments = s.context.segments ∧
            after.vars = match s.blockStart script c with
              | none => s.context.vars
              | some start =>
                (runOf (firstBlock (runWithin levels) script c.blocks) start).1.context.vars := by
  refine ⟨fun targets => ?_, fun text => ?_, fun inputs => stable_reached.read inputs hs,
    fun levels script c hn => ?_⟩
  · have plain : (targets.foldl Context.cd {}).Plain := (plain_root []).foldl_cd targets
    exact ⟨plain, segments_cd_path plain⟩
  · exact (stable_reached.runSource text hs).symm
  · have whole : (runCommand (runWithin levels) script c s).1.context = _ :=
      context_runCommand_within hs.plain hn hc
    dsimp only
    rw [whole, contextAfter]
    split
    · exact ⟨rfl, rfl⟩
    · exact ⟨rfl, rfl⟩

-- A block that goes to another place, sets a variable and exits.
theorem place_restored_after_exit :
    let s : Session := { library := .standard, context := ⟨["p", "q"], []⟩ }
    let text := "in ../r \x7b cd /; set v 1; exit; set v 2 \x7d"
    s.context.Reached ∧ s.library.handler? .command "in" = some .within ∧
      ∃ script c, Script.tokenize text = .ok script ∧ (script.token c.head).text = "in" ∧
        (s.blockStart script c).isSome ∧
        (runCommand (runWithin 16) script c s).1.context = ⟨["p", "q"], [("v", "1")]⟩ := by
  intro s text
  have reached : s.context.Reached := ⟨["p/q"], by decide⟩
  have known : s.library.handler? .command "in" = some .within := rfl
  refine ⟨reached, known, ?_⟩
  obtain ⟨script, c, ht, -, -, hc⟩ := Script.exists_command_of_tokenize
    (show (Script.tokenize text).toOption.map (fun script => script.commands.map fun c =>
      ((script.token c.head).text, (s.blockStart script c).map fun start =>
        (runOf (firstBlock (runWithin 16) script c.blocks) start).1.context.vars)) =
      some [("in", some [("v", "1")])] by decide +kernel)
  obtain ⟨hn, hv⟩ := Prod.mk.inj hc
  obtain ⟨start, hstart, hvars⟩ := Option.map_eq_some_iff.mp hv
  obtain ⟨same, kept⟩ := (place_restored reached known).2.2.2 16 script c hn
  rw [hstart] at kept
  refine ⟨script, c, ht, hn, by rw [hstart]; rfl, ?_⟩
  have vars := kept.trans hvars
  generalize (runCommand (runWithin 16) script c s).1.context = after at same vars
  obtain ⟨segments, vars⟩ := after
  cases same
  cases vars
  rfl

end CommandShell.Session
