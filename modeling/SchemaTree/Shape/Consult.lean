import SchemaTree.Shape.Validate

/-!
# Validation that keeps what it finds

References are looked up while data is validated, and what was found for an id is kept in the
registry, also for later validations. So validation against a reference is a step on the registry:
every reference that it meets on its way is resolved in the registry as the step before left it.
-/

namespace SchemaTree

/-- A validation that may keep in a registry what it finds there. -/
abbrev Consulting (α : Type) := OptionT (StateT (Registry Shape) Logged) α

namespace Consulting

/-- Runs a validation on a registry. -/
def run (step : Consulting α) (r : Registry Shape) : Logged (Option α × Registry Shape) := step r

/-- Resolves an id. -/
def resolve (id : String) : Consulting (Option Shape) := OptionT.lift fun r => r.resolve id

/-- Reports an event. -/
def report (event : Event) : Consulting Unit := OptionT.lift (monadLift (Logged.report event))

/-- Validates data against what an id leads to. What a reference leads to has no bearing on the
choice among options around the reference. -/
def follow : Nat → String → Json → Consulting Verdict
  | 0, _, _ => failure
  | bound + 1, id, value => do
    let target ← resolve id
    match target with
    | none =>
      report (.referenceUnresolved id)
      return .take value
    | some shape =>
      let verdict ← shape.validate (follow bound) value
      return verdict.map fun a => { a with fit := .perfect }

end Consulting

end SchemaTree
