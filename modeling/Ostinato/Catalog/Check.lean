import Ostinato.Catalog.Basic

/-!
# Catalog checks

What is wrong with the references of a catalog: doubled rule ids, rich rules without a riff, and walks
without what they need.
-/

namespace Ostinato.Catalog

inductive Problem where
  | doubledRule (id : String)
  | noRiff (rule : String)
  | unknownRiff (rule riff : String)
  | noTemplate (rule : String)
  | noCustomProfile (rule : String)
  | undefinedProfile (rule profile : String)
deriving DecidableEq, Repr

def Problem.message : Problem → String
  | doubledRule id => s!"Duplicate rule id '{id}'"
  | noRiff rule => s!"Rule '{rule}' has no riff"
  | unknownRiff rule riff => s!"Rule '{rule}' references unknown riff '{riff}'"
  | noTemplate rule => s!"Walk rule '{rule}' has no timeline template"
  | noCustomProfile rule => s!"Walk rule '{rule}' has no 'custom' genre profile"
  | undefinedProfile rule profile =>
    s!"Walk rule '{rule}' offers genre profile '{profile}' with no definition"

/-- A doubled id is told again for each further rule with it. -/
def doubledRules (seen : List String) : List Rule → List Problem
  | [] => []
  | r :: rest =>
    (if seen.contains r.id then [.doubledRule r.id] else []) ++ doubledRules (r.id :: seen) rest

/-- The genre profiles that a walk offers as choices. -/
def offeredProfiles (r : RichRule) : List String :=
  match r.parameters.find? fun p => p.1 == "genreProfile" with
  | some (_, spec) => spec.values.getD []
  | none => []

def walkProblems (r : RichRule) : List Problem :=
  (if r.template.isNone then [.noTemplate r.id] else [])
    ++ (if (r.profile? "custom").isNone then [.noCustomProfile r.id] else [])
    ++ ((offeredProfiles r).filter fun p => (r.profile? p).isNone).map (.undefinedProfile r.id)

def riffProblems (c : Catalog) (r : RichRule) : List Problem :=
  match r.riffId with
  | none => [.noRiff r.id]
  | some riff =>
    if riff = "" then [.noRiff r.id]
    else if (c.riff? riff).isNone then [.unknownRiff r.id riff] else []

def problems (c : Catalog) : List Problem :=
  doubledRules [] c.rules
    ++ c.richRules.flatMap fun r => if r.isWalk then walkProblems r else riffProblems c r

end Ostinato.Catalog
