import SchemaTree.Shape.Validate

/-!
# Validation does not depend on how references are looked up

`Shape.validate` is handed the function that looks references up, together with the monad in which
it does so, and it knows nothing else about either. Whatever relation between the steps of two
monads goes along with `pure` and `bind` therefore carries over from the two ways of looking up to
the two validations (`Simulation.validate`). This is the one induction over shapes behind every
comparison of two validations.

The data that a validation looks up is the data that it is given or is in it. So the two ways of
looking up only have to be related for data with some property that what is in the data inherits
(`Simulation.validate_of_hereditary`).
-/

namespace SchemaTree

open Json

/-- What is in data with the property has it, too. -/
structure Json.Hereditary (P : Json → Prop) : Prop where
  element {elements : List Json} {e : Json} (h : P (.arr elements)) (he : e ∈ elements) : P e
  member {members : List (String × Json)} {key : String} {w : Json} (h : P (.obj members))
    (hw : Members.find? key members = some w) : P w

theorem Json.hereditary_true : Hereditary fun _ ↦ True := ⟨fun _ _ ↦ trivial, fun _ _ ↦ trivial⟩

variable {m n : Type → Type} [Monad m] [Monad n]

/-- A relation between the steps of two monads that goes along with `pure` and `bind`. -/
structure Simulation (R : ∀ α : Type, m α → n α → Prop) : Prop where
  pure {α : Type} (a : α) : R α (pure a) (pure a)
  bind {α β : Type} {x : m α} {y : n α} {f : α → m β} {g : α → n β} (hxy : R α x y)
    (hfg : ∀ a, R β (f a) (g a)) : R β (x >>= f) (y >>= g)

namespace Simulation

variable {R : ∀ α : Type, m α → n α → Prop} {look : String → Json → m Verdict}
  {look' : String → Json → n Verdict} {P : Json → Prop}

theorem map [LawfulMonad m] [LawfulMonad n] (hR : Simulation R) {α β : Type} {x : m α} {y : n α}
    (hxy : R α x y) (f : α → β) : R β (f <$> x) (f <$> y) := by
  rw [map_eq_pure_bind, map_eq_pure_bind]
  exact hR.bind hxy fun _ ↦ hR.pure _

theorem checkElements (hR : Simulation R) {check : Json → m Verdict} {check' : Json → n Verdict}
    {elements : List Json} (h : ∀ e ∈ elements, R _ (check e) (check' e)) (index : Nat) :
    R _ (SchemaTree.checkElements check index elements)
      (SchemaTree.checkElements check' index elements) := by
  induction elements generalizing index with
  | nil => exact hR.pure _
  | cons e rest ih =>
    obtain ⟨he, hrest⟩ := List.forall_mem_cons.mp h
    exact hR.bind he fun _ ↦ hR.bind (ih hrest (index + 1)) fun _ ↦ hR.pure _

mutual

/-- **Related look-ups make related validations**, where they are related for the data and for what
is in it. -/
theorem validate_of_hereditary [LawfulMonad m] [LawfulMonad n] (hR : Simulation R)
    (hP : Hereditary P) (h : ∀ id v, P v → R _ (look id v) (look' id v)) :
    ∀ (s : Shape) (v : Json), P v → R _ (s.validate look v) (s.validate look' v)
  | .scalar _, _, _ | .literal _, _, _ | .anything, _, _ => hR.pure _
  | .reference id, v, hv => h id v hv
  | .described s _, v, hv => hR.validate_of_hereditary hP h s v hv
  | .record _ _ fields, .obj _, hv =>
    hR.bind (hR.validateFields hP h (fun _ _ hw ↦ hP.member hv hw) fields) fun _ ↦ hR.pure _
  | .record .., .null, _ | .record .., .bool _, _ | .record .., .int _, _
  | .record .., .float _, _ | .record .., .str _, _ | .record .., .arr _, _ => hR.pure _
  | .union options, _, hv =>
    hR.bind (hR.validateOptions hP h hv options (.undecided [])) fun _ ↦ hR.pure _
  | .list s, .arr _, hv =>
    hR.bind (hR.checkElements
      (fun e he ↦ hR.validate_of_hereditary hP h s e (hP.element hv he)) 0) fun _ ↦ hR.pure _
  | .list _, .null, _ | .list _, .bool _, _ | .list _, .int _, _ | .list _, .float _, _
  | .list _, .str _, _ | .list _, .obj _, _ => hR.pure _
  | .optional _, .null, _ => hR.pure _
  | .optional s, .bool _, hv | .optional s, .int _, hv | .optional s, .float _, hv
  | .optional s, .str _, hv | .optional s, .arr _, hv | .optional s, .obj _, hv =>
    hR.validate_of_hereditary hP h s _ hv

theorem validateFields [LawfulMonad m] [LawfulMonad n] (hR : Simulation R) (hP : Hereditary P)
    (h : ∀ id v, P v → R _ (look id v) (look' id v)) {members : List (String × Json)}
    (hmembers : ∀ key w, Members.find? key members = some w → P w) :
    ∀ fields : List (FieldHead × Shape), R _ (Shape.validateFields look members fields)
      (Shape.validateFields look' members fields)
  | [] => hR.pure _
  | (head, s) :: rest => by
    rw [Shape.validateFields, Shape.validateFields]
    have hrest := hR.validateFields hP h hmembers rest
    match hw : Members.find? head.name members with
    | none => exact hR.bind (hR.pure _) fun _ ↦ hR.bind hrest fun _ ↦ hR.pure _
    | some w =>
      have hmember := hR.validate_of_hereditary hP h s w (hmembers _ w hw)
      exact hR.bind (hR.map hmember some) fun _ ↦ hR.bind hrest fun _ ↦ hR.pure _

theorem validateOptions [LawfulMonad m] [LawfulMonad n] (hR : Simulation R) (hP : Hereditary P)
    (h : ∀ id v, P v → R _ (look id v) (look' id v)) {v : Json} (hv : P v) :
    ∀ (options : List Shape) (choice : Choice),
      R _ (Shape.validateOptions look v choice options)
        (Shape.validateOptions look' v choice options)
  | [], _ => hR.pure _
  | s :: rest, choice => by
    rw [Shape.validateOptions, Shape.validateOptions]
    refine hR.bind (hR.validate_of_hereditary hP h s v hv) fun verdict ↦ ?_
    dsimp only
    split
    · exact hR.pure _
    · exact hR.validateOptions hP h hv rest _

end

/-- **Related look-ups make related validations.** -/
theorem validate [LawfulMonad m] [LawfulMonad n] (hR : Simulation R)
    (h : ∀ id v, R _ (look id v) (look' id v)) (s : Shape) (v : Json) :
    R _ (s.validate look v) (s.validate look' v) :=
  hR.validate_of_hereditary hereditary_true (fun id v _ ↦ h id v) s v trivial

end Simulation

end SchemaTree
