import RecordSynth.Template

/-! Template libraries: where the source texts of templates come from. -/

namespace RecordSynth

/-- The source texts of templates by behavior and number of fields. -/
abbrev TemplateLibrary : Type := Behavior → Nat → String

/-- A template text that stands in for the standard one, at one number of fields or at all. -/
structure TemplateOverride where
  behavior : Behavior
  arity : Option Nat
  source : String
  deriving DecidableEq, Inhabited

/-- Whether a template is overridden. -/
def TemplateOverride.matches (o : TemplateOverride) (behavior : Behavior) (arity : Nat)
    : Bool :=
  o.behavior == behavior && (o.arity.isNone || o.arity == some arity)

/-- The standard templates with exceptions: the first override that matches, or else the standard
template, for `fixed` fields if there is such a number.
-/
def TemplateLibrary.overriding (overrides : List TemplateOverride) (fixed : Option Nat)
    : TemplateLibrary := fun behavior arity =>
  match overrides.find? (·.matches behavior arity) with
  | some o => o.source
  | none => Template.standard behavior (fixed.getD arity)

end RecordSynth
