import CommandShell.Handler.Body
import CommandShell.Session.Terms

namespace CommandShell.Handler

open Binding (FieldType)
open Output (Pipeline)
open Session (Context isWithin writeTerms)

-- What can be registered as a command: its options in a context, where it can be used, what it
-- offers for a word, the milliseconds that the offers take, and what it does.
structure Command where
  options : Context → Options := fun _ => .declared []
  isApplicable : Context → Bool := fun _ => true
  offers : Context → CompletionRequest → List String := fun _ _ => []
  delay : Nat := 0
  body : Body

def optionalText : FieldType := ⟨.optional, .text⟩

def optionalInteger : FieldType := ⟨.optional, .integer true .bits64⟩

namespace Command

def echo : Command where
  options _ := .declared
    [⟨"words", ⟨.many, .text⟩, "*=#1,opt"⟩, ⟨"name", optionalText, "*=n|name,opt"⟩]
  body := .look fun v =>
    .write (v.option 1).text? (.string (" ".intercalate (v.option 0).texts))

-- Write the numbers from `first` to `last` in steps.
def countTo (first last step : Int) (cancelled : Bool) : Body :=
  if step = 0 then .fail "step must not be zero"
  else if !isWithin last step first then .ends none
  else if cancelled then .ends (some .cancelled)
  else .output (writeTerms last step first) .ends

def seq : Command where
  options _ := .declared
    [⟨"first", ⟨.one, .integer true .bits64⟩, "*=#1"⟩, ⟨"last", optionalInteger, "*=#2,opt"⟩,
      ⟨"step", optionalInteger, "*=s|step,opt"⟩]
  body := .look fun v =>
    let bound := ((v.option 0).integer?).getD 0
    let (first, last) := match (v.option 1).integer? with
      | some last => (bound, last)
      | none => (1, bound)
    let step := ((v.option 2).integer?).getD (if first ≤ last then 1 else -1)
    countTo first last step v.cancelled

-- List, show, assign or remove variables.
def set : Command where
  options _ := .declared
    [⟨"unset", flagType, "*=u|unset"⟩, ⟨"name", optionalText, "*=#1,opt"⟩,
      ⟨"value", optionalText, "*=#2,opt"⟩]
  offers context r := if r.args.isEmpty then context.vars.keys else []
  body := .look fun v =>
    match (v.option 0).flag, (v.option 1).text?, (v.option 2).text? with
    | true, none, _ => .fail "-unset needs a name"
    | true, some name, _ =>
      if (v.context.var? name).isSome then .change (.unsetVar name) (.ends none)
      else .fail (name ++ " is not set")
    | false, some name, some value => .change (.setVar name value) (.ends none)
    | false, some name, none =>
      match v.context.var? name with
      | some value => .write (some name) (.string value)
      | none => .fail (name ++ " is not set")
    | false, none, _ =>
      let put (p : Pipeline) (x : String × String) : Pipeline :=
        p.write (.value (some x.1) (.string x.2))
      .output (v.context.vars.foldl put) .ends

-- Run the block further down the path and come back.
def within : Command where
  options _ := .declared [⟨"path", textType, "*=#1"⟩]
  body := .look fun v =>
    if v.hasBlock then
      .change (.cd (v.option 0).text) <| .block fun failure =>
        .change (.cd v.context.path) (.ends failure)
    else .fail "missing \x7b … \x7d block"

def pwd : Command where
  body := .look fun v => .write none (.string v.request.context.path)

end Command

end CommandShell.Handler
