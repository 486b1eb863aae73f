import RequestTrail.Analysis

/-!
# The analysis in place

The phases of an analysis as programs on a report that changes under them. What such a program has
written by the time it fails stays written. So each phase asks for everything that can fail before
it changes anything, and the run of both phases works on a copy.
-/

namespace RequestTrail

/-- A program that changes a report in place and may fail on the way. -/
abbrev InPlace (α : Type) := EStateM Error Report α

namespace InPlace

/-- Adds a finding, unless the report has one with its key, and tells whether it was added. -/
def push (finding : Finding) : InPlace Bool := do
  if (← get).findings.any fun other => other.sameKey finding then return false
  modify fun report => { report with findings := report.findings ++ [finding] }
  return true

/-- Adds findings in turn to those already `added`, and tells how many there are then. -/
def pushAll (findings : List Finding) (added : Nat) : InPlace Nat :=
  findings.foldlM (fun added finding => return if ← push finding then added + 1 else added) added

/-- Runs a program on a copy of the report, which takes the place of the report if the program
succeeds. -/
def staged {α : Type} (program : InPlace α) : InPlace α := do
  match program.run (← get) with
  | .ok a copy =>
    set copy
    return a
  | .error e _ => throw e

end InPlace

/-- The finding with other explanations, if there are any to put in. -/
def Finding.explainedBy (finding : Finding) : Option (List String) → Finding
  | some explanation => { finding with explanation }
  | none => finding

namespace Analysis

/-- Adds the findings on all callers to the report, and counts those that were new. -/
def analyzeRequestsInPlace (analysis : Analysis) (entry : String) : InPlace Nat := do
  let report ← get
  let found ← MonadExcept.ofExcept <| analysis.pairs.mapM fun (request, caller) =>
    analysis.analyzeCaller request caller report.permissions report.package entry
  InPlace.pushAll found.flatten 0

/-- The explanations of a finding, unless it names no permission. -/
def explanations? (analysis : Analysis) (package : String) (finding : Finding) :
    Except Error (Option (List String)) :=
  if finding.isUnknown then return none else some <$> analysis.explanations package finding

/-- Gives every finding of the report its explanations. -/
def analyzeExplanationsInPlace (analysis : Analysis) : InPlace Unit := do
  let report ← get
  let found ← MonadExcept.ofExcept <|
    report.findings.mapM (analysis.explanations? report.package)
  set { report with findings := report.findings.zipWith Finding.explainedBy found }

/-- Both phases, on a copy of the report. -/
def runInPlace (analysis : Analysis) (entry : String) : InPlace Unit :=
  InPlace.staged do
    let _ ← analysis.analyzeRequestsInPlace entry
    analysis.analyzeExplanationsInPlace

end Analysis

end RequestTrail
