/-! What checks find. -/

namespace RdfXmlMapping.Conformance

/-- How a check ends. A warning does not count against the artifact. -/
inductive Severity where
  | pass
  | warning
  | failure
  deriving DecidableEq, Repr

/-- The outcome of a check. The details name what the message is about, one thing each. -/
structure Finding where
  severity : Severity
  check : String
  message : String
  details : List String := []
  deriving DecidableEq, Repr

/-- The findings in the order of the checks. -/
abbrev Report := List Finding

def Severity.label : Severity → String
  | pass => "PASS"
  | warning => "WARN"
  | failure => "FAIL"

namespace Finding

def passed (check message : String) : Finding := ⟨.pass, check, message, []⟩

def warned (check message : String) (details : List String) : Finding :=
  ⟨.warning, check, message, details⟩

/-- The check is not passed. -/
def failed (check message : String) (details : List String) : Finding :=
  ⟨.failure, check, message, details⟩

/-- A finding as text, each detail on a line of its own. -/
def text (f : Finding) : String :=
  "[" ++ f.severity.label ++ "] " ++ f.check ++ ": " ++ f.message ++
    String.join (f.details.map ("\n       " ++ ·))

end Finding

namespace Report

def count (r : Report) (severity : Severity) : Nat := (r.filter (·.severity = severity)).length

def isConforming (r : Report) : Bool := count r .failure = 0

def ofChecks (r : Report) (start : String) : List Finding :=
  r.filter fun f => start.toList.isPrefixOf f.check.toList

end Report

end RdfXmlMapping.Conformance
