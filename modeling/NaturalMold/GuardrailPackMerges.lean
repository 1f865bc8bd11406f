import NaturalMold.GuardrailCoverage

/-! # Packs that report the same span -/

namespace NaturalMold.Guardrails

namespace Detector

variable (detector : Detector)

variable {detector} {texts : List Text} {packs : List String} {index : ℕ} {text : Text}

end Detector

def decisionsOf (findings : List Finding) (rules : RuleSet) (stage : Stage) :
    Except SortError (List Decision) :=
  (spans findings rules stage).map fun merged => merged.map Span.decision

end NaturalMold.Guardrails
