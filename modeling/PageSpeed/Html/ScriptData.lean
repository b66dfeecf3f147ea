import PageSpeed.Base.Ascii

/-!
How the tokenizer of the HTML standard reads a script. A state that collects a name carries
it in lower case. What follows the end tag of the script is no state here: the step that
leads there gives nothing.
-/

namespace PageSpeed.ScriptData

inductive State
  | scriptData
  | scriptDataLessThanSign
  | scriptDataEndTagOpen
  | scriptDataEndTagName (name : GoogleString)
  | scriptDataEscapeStart
  | scriptDataEscapeStartDash
  | scriptDataEscaped
  | scriptDataEscapedDash
  | scriptDataEscapedDashDash
  | scriptDataEscapedLessThanSign
  | scriptDataEscapedEndTagOpen
  | scriptDataEscapedEndTagName (name : GoogleString)
  | scriptDataDoubleEscapeStart (buffer : GoogleString)
  | scriptDataDoubleEscaped
  | scriptDataDoubleEscapedDash
  | scriptDataDoubleEscapedDashDash
  | scriptDataDoubleEscapedLessThanSign
  | scriptDataDoubleEscapeEnd (buffer : GoogleString)
  deriving DecidableEq

def script : GoogleString := ascii "script"

/-- White space, `/` or `>`. -/
def endsName (c : UInt8) : Bool := c = 9 || c = 10 || c = 12 || c = 13 || c = 32 || c = 47 || c = 62

/-! The three states that others read their byte again in. -/

def stepScriptData (c : UInt8) : State := if c = 60 then .scriptDataLessThanSign else .scriptData

def stepEscaped (c : UInt8) : State :=
  if c = 45 then .scriptDataEscapedDash
  else if c = 60 then .scriptDataEscapedLessThanSign
  else .scriptDataEscaped

def stepDoubleEscaped (c : UInt8) : State :=
  if c = 45 then .scriptDataDoubleEscapedDash
  else if c = 60 then .scriptDataDoubleEscapedLessThanSign
  else .scriptDataDoubleEscaped

def stepEndTagName (name : GoogleString) (c : UInt8) (collect : GoogleString → State) (otherwise : State) :
    Option State :=
  if endsName c && name = script then none
  else if isAlpha c then some (collect (name ++ [lowerChar c]))
  else some otherwise

def step : State → UInt8 → Option State
  | .scriptData, c => some (stepScriptData c)
  | .scriptDataLessThanSign, c =>
    if c = 47 then some .scriptDataEndTagOpen
    else if c = 33 then some .scriptDataEscapeStart
    else some (stepScriptData c)
  | .scriptDataEndTagOpen, c =>
    if isAlpha c then some (.scriptDataEndTagName [lowerChar c]) else some (stepScriptData c)
  | .scriptDataEndTagName name, c => stepEndTagName name c .scriptDataEndTagName (stepScriptData c)
  | .scriptDataEscapeStart, c => if c = 45 then some .scriptDataEscapeStartDash else some (stepScriptData c)
  | .scriptDataEscapeStartDash, c => if c = 45 then some .scriptDataEscapedDashDash else some (stepScriptData c)
  | .scriptDataEscaped, c => some (stepEscaped c)
  | .scriptDataEscapedDash, c =>
    if c = 45 then some .scriptDataEscapedDashDash
    else if c = 60 then some .scriptDataEscapedLessThanSign
    else some .scriptDataEscaped
  | .scriptDataEscapedDashDash, c =>
    if c = 45 then some .scriptDataEscapedDashDash
    else if c = 60 then some .scriptDataEscapedLessThanSign
    else if c = 62 then some .scriptData
    else some .scriptDataEscaped
  | .scriptDataEscapedLessThanSign, c =>
    if c = 47 then some .scriptDataEscapedEndTagOpen
    else if isAlpha c then some (.scriptDataDoubleEscapeStart [lowerChar c])
    else some (stepEscaped c)
  | .scriptDataEscapedEndTagOpen, c =>
    if isAlpha c then some (.scriptDataEscapedEndTagName [lowerChar c]) else some (stepEscaped c)
  | .scriptDataEscapedEndTagName name, c => stepEndTagName name c .scriptDataEscapedEndTagName (stepEscaped c)
  | .scriptDataDoubleEscapeStart buffer, c =>
    if endsName c then some (if buffer = script then .scriptDataDoubleEscaped else .scriptDataEscaped)
    else if isAlpha c then some (.scriptDataDoubleEscapeStart (buffer ++ [lowerChar c]))
    else some (stepEscaped c)
  | .scriptDataDoubleEscaped, c => some (stepDoubleEscaped c)
  | .scriptDataDoubleEscapedDash, c =>
    if c = 45 then some .scriptDataDoubleEscapedDashDash
    else if c = 60 then some .scriptDataDoubleEscapedLessThanSign
    else some .scriptDataDoubleEscaped
  | .scriptDataDoubleEscapedDashDash, c =>
    if c = 45 then some .scriptDataDoubleEscapedDashDash
    else if c = 60 then some .scriptDataDoubleEscapedLessThanSign
    else if c = 62 then some .scriptData
    else some .scriptDataDoubleEscaped
  | .scriptDataDoubleEscapedLessThanSign, c =>
    if c = 47 then some (.scriptDataDoubleEscapeEnd []) else some (stepDoubleEscaped c)
  | .scriptDataDoubleEscapeEnd buffer, c =>
    if endsName c then some (if buffer = script then .scriptDataEscaped else .scriptDataDoubleEscaped)
    else if isAlpha c then some (.scriptDataDoubleEscapeEnd (buffer ++ [lowerChar c]))
    else some (stepDoubleEscaped c)

/-- The state after `text`, unless `text` has the end tag of the script. -/
def run (text : GoogleString) : Option State := text.foldlM step .scriptData

theorem run_snoc (text : GoogleString) (c : UInt8) : run (text ++ [c]) = (run text).bind (step · c) := by
  rw [run, List.foldlM_append, ← run]
  cases run text with
  | none => rfl
  | some s => simp [List.foldlM_cons]

theorem run_ne_none_of_snoc {text : GoogleString} {c : UInt8} (h : run (text ++ [c]) ≠ none) : run text ≠ none := by
  intro hnone
  rw [run_snoc, hnone] at h
  exact h rfl

end PageSpeed.ScriptData
