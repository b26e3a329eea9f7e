import SchemaTree.Document.Decode
import SchemaTree.Emission.Emit
import SchemaTree.Proofs.ModuleClosure
import SchemaTree.Proofs.ZodItems

/-!
# When emission fails

Whether a document can be emitted depends on what is written of its items. Each language writes some
of them, and of these some values: literals, descriptions and the defaults of fields. A value cannot
be written if a whole number in it has too many digits, and in a class module the description of an
object cannot if it is neither a text nor a value that counts as false. With default settings
nothing else makes emission fail, and then the first of these faults, in the order of writing, is
the error (`Document.emit_default`): references that lead nowhere become `unknown` or `Any`, and the
search for a free name always ends.

Reading a document does not look at descriptions, so a document that is read can fail to be emitted
(`Document.exists_unwritable`).
-/

namespace SchemaTree

open Json

/-! ## Zod modules -/

/-- Whatever is written of an item at a position has no number that is too long. -/
structure ZodPosition.Writable (position : ZodPosition) (x : Item) : Prop where
  literal : x.IsOf .literal → x.attributes.scalar.toJson.excess? = none
  description : x.attributes.description.truthy → x.attributes.description.excess? = none
  default : position = .field → x.attributes.hasDefault →
    x.attributes.defaultValue.excess? = none

/-- Whatever a zod module has of a document can be written. -/
def Document.ZodWritable (d : Document) : Prop :=
  ∀ position depth x, d.Writes position depth x → position.Writable x

/-- With a text for indentation, only numbers keep an item from being written. -/
theorem ZodPosition.hasFault_str_iff {position : ZodPosition} {unit : String} {depth : ℕ} {x : Item}
    {fault : WriteFault} :
    position.HasFault (.str unit) depth x fault ↔ fault = .tooLong ∧ ¬ position.Writable x := by
  constructor
  · intro h
    cases h with
    | literal hliteral hlong =>
      refine ⟨rfl, fun h ↦ ?_⟩
      rw [h.literal hliteral] at hlong
      cases hlong
    | description htruthy hlong =>
      refine ⟨rfl, fun h ↦ ?_⟩
      rw [h.description htruthy] at hlong
      cases hlong
    | default hfield hdefault hlong =>
      refine ⟨rfl, fun h ↦ ?_⟩
      rw [h.default hfield hdefault] at hlong
      cases hlong
    | indent _ _ h =>
      rcases h with h | h
      · cases h
      · cases h
  · rintro ⟨rfl, h⟩
    by_contra hnone
    refine h ⟨fun hliteral ↦ ?_, fun htruthy ↦ ?_, fun hfield hdefault ↦ ?_⟩
    · exact Option.not_isSome_iff_eq_none.mp fun hlong ↦ hnone (.literal hliteral hlong)
    · exact Option.not_isSome_iff_eq_none.mp fun hlong ↦ hnone (.description htruthy hlong)
    · exact Option.not_isSome_iff_eq_none.mp fun hlong ↦ hnone (.default hfield hdefault hlong)

namespace EmitterSettings

variable {settings : EmitterSettings} {d : Document} {fault : WriteFault} {e : EmitError}

theorem zodCode_eq_error_iff : settings.zodCode d = .error e ↔
    ∃ fault ∈ (settings.zodFaults d).head?, e = .fault fault := by
  rw [zodCode]
  cases settings.zodFaults d with
  | nil => exact iff_of_false (by rintro ⟨⟩) (by rintro ⟨fault, ⟨⟩, -⟩)
  | cons fault rest => simp [eq_comm]

theorem zodCode_isOk_iff : (settings.zodCode d).isOk ↔ settings.zodFaults d = [] := by
  rw [zodCode]
  cases settings.zodFaults d with
  | nil => exact iff_of_true rfl rfl
  | cons fault rest => exact iff_of_false Bool.false_ne_true (List.cons_ne_nil _ _)

theorem zodCode_eq_ok_iff {code : String} : settings.zodCode d = .ok code ↔
    settings.zodFaults d = [] ∧
      code = String.ofList ((settings.zodModule d).write settings.zodIndent) := by
  rw [zodCode]
  cases settings.zodFaults d with
  | nil => simp [eq_comm]
  | cons fault rest => simp

/-- What keeps a zod module from being written: the indentation, an item, or a name that it
exports. -/
theorem mem_zodFaults_iff : fault ∈ settings.zodFaults d ↔
    (d.fields ≠ [] ∧ fault ∈ WriteFault.ofValue settings.indent ∨
      ∃ position depth x, d.Writes position depth x ∧
        position.HasFault settings.indent depth x fault) ∨
    fault ∈ WriteFault.ofValue settings.exportName ∨
    fault ∈ WriteFault.ofValue settings.typeName := by
  rw [zodFaults, List.mem_append, List.mem_append, zodModule, Document.mem_faults_iff, or_assoc]

/-- With default settings only items keep a module from being written. -/
theorem mem_zodFaults_default_iff : fault ∈ ({} : EmitterSettings).zodFaults d ↔
    fault = .tooLong ∧ ¬ d.ZodWritable := by
  have hname (s : String) : fault ∉ WriteFault.ofValue (.str s) := List.not_mem_nil
  have hindent : ({} : EmitterSettings).indent = .str "  " := rfl
  have hexport : ({} : EmitterSettings).exportName = .str "schema" := rfl
  have htype : ({} : EmitterSettings).typeName = .str "Schema" := rfl
  rw [mem_zodFaults_iff, hindent, hexport, htype, or_iff_left (not_or_intro (hname _) (hname _)),
    or_iff_right fun h ↦ hname _ h.2]
  simp only [ZodPosition.hasFault_str_iff, Document.ZodWritable, not_forall]
  constructor
  · rintro ⟨position, depth, x, hwrites, rfl, h⟩
    exact ⟨rfl, position, depth, x, hwrites, h⟩
  · rintro ⟨rfl, position, depth, x, hwrites, h⟩
    exact ⟨position, depth, x, hwrites, rfl, h⟩

theorem zodFaults_default_eq_nil_iff : ({} : EmitterSettings).zodFaults d = [] ↔ d.ZodWritable := by
  rw [List.eq_nil_iff_forall_not_mem]
  simp only [mem_zodFaults_default_iff, not_and, forall_eq, Classical.not_not]

end EmitterSettings

/-! ## Class modules -/

/-- If the item becomes a class, its description can be written: it is a text or counts as false. -/
def Item.Documentable (x : Item) : Prop :=
  x.DefinesClass → x.attributes.description.truthy → x.attributes.description.isText

instance (x : Item) : Decidable x.Documentable := by
  unfold Item.Documentable
  infer_instance

/-- The item that an item with a reference is rendered as: the one that it leads to, if that has no
name in the module. -/
def RenderContext.copied? (context : RenderContext) (a : Attributes) : Option Item :=
  (context.table.resolve a).filter fun target ↦
    (Members.find? target.id context.names.classes).isNone ∧
      (Members.find? target.id context.names.aliases).isNone

/-- Whatever a class module has of a rendered item itself can be written. -/
structure RenderContext.Writable (context : RenderContext) (x : Item) : Prop where
  documentation : x.Documentable
  literal : x.IsOf .literal → x.attributes.scalar.toJson.excess? = none
  description : x.target? = none → x.kind ≠ .object → x.attributes.description.truthy →
    x.attributes.description.excess? = none
  copy : x.target?.isSome → ∀ target ∈ context.copied? x.attributes, target.kind = .literal →
    target.attributes.scalar.toJson.excess? = none

/-- The default of a field, if it has one, can be written. -/
def Item.DefaultWritable (x : Item) : Prop :=
  x.attributes.hasDefault → x.attributes.defaultValue.excess? = none

theorem ite_ofValue_eq_nil_iff {condition : Prop} [Decidable condition] {value : Json} :
    (if condition then WriteFault.ofValue value else []) = [] ↔
      (condition → value.excess? = none) := by
  split
  · next h => rw [WriteFault.ofValue_eq_nil_iff, forall_prop_of_true h]
  · next h => exact iff_of_true rfl fun hcondition ↦ absurd hcondition h

theorem WriteFault.ofDocumentation_eq_nil_iff {description : Json} :
    ofDocumentation description = [] ↔ (description.truthy → description.isText) := by
  have htext : description.asString?.isNone = !description.isText := by cases description <;> rfl
  rw [ofDocumentation, htext, ite_eq_right_iff]
  simp

namespace RenderContext

variable {context : RenderContext} {x : Item}

theorem referenceFaults_eq (a : Attributes) : context.referenceFaults a =
    (context.copied? a).elim [] fun target ↦ target.attributes.literalFaults := by
  rw [referenceFaults, copied?]
  cases context.table.resolve a with
  | none => rfl
  | some target =>
    rw [Option.filter_some]
    dsimp only
    cases Members.find? target.id context.names.classes with
    | some name => rfl
    | none => cases Members.find? target.id context.names.aliases <;> rfl

theorem writable_iff_of_target {id : String} (ht : x.target? = some id) :
    context.Writable x ↔ context.referenceFaults x.attributes = [] := by
  have hnone : x.target? ≠ none := by
    rw [ht]
    exact Option.some_ne_none id
  have hcopy : context.referenceFaults x.attributes = [] ↔
      ∀ target ∈ context.copied? x.attributes, target.kind = .literal →
        target.attributes.scalar.toJson.excess? = none := by
    rw [referenceFaults_eq]
    cases context.copied? x.attributes with
    | none => simp
    | some target =>
      rw [Option.elim_some, Attributes.literalFaults, ite_ofValue_eq_nil_iff]
      simp [Item.kind]
  rw [hcopy]
  refine ⟨fun h ↦ h.copy (by rw [ht]; rfl), fun h ↦ ⟨?_, ?_, ?_, fun _ ↦ h⟩⟩
  · exact fun hclass ↦ absurd hclass.1 hnone
  · exact fun hliteral ↦ absurd hliteral.1 hnone
  · exact fun h ↦ absurd h hnone

/-- An item that is no reference is copied from nowhere. -/
theorem not_isSome_target (ht : x.target? = none) : ¬ x.target?.isSome := by
  rw [ht]
  exact Bool.false_ne_true

theorem writable_iff_of_object (ht : x.target? = none) (hk : x.kind = .object) :
    context.Writable x ↔ WriteFault.ofDocumentation x.attributes.description = [] := by
  rw [WriteFault.ofDocumentation_eq_nil_iff]
  refine ⟨fun h ↦ h.documentation ⟨ht, hk⟩, fun h ↦ ⟨fun _ ↦ h, fun hliteral ↦ ?_, ?_, ?_⟩⟩
  · exact absurd (hliteral.2.symm.trans hk) nofun
  · exact fun _ hobject ↦ absurd hk hobject
  · exact fun hx ↦ absurd hx (not_isSome_target ht)

theorem writable_iff_of_other (ht : x.target? = none) (ho : x.kind ≠ .object) :
    context.Writable x ↔
      x.attributes.literalFaults = [] ∧ x.attributes.descriptionFaults = [] := by
  rw [Attributes.literalFaults, Attributes.descriptionFaults, ite_ofValue_eq_nil_iff,
    ite_ofValue_eq_nil_iff]
  constructor
  · exact fun h ↦ ⟨fun hk ↦ h.literal ⟨ht, hk⟩, h.description ht ho⟩
  · rintro ⟨hliteral, hdescription⟩
    refine ⟨fun hclass ↦ absurd hclass.2 ho, fun h ↦ hliteral h.2, fun _ _ ↦ hdescription, ?_⟩
    exact fun hx ↦ absurd hx (not_isSome_target ht)

end RenderContext

/-- An item has no faults exactly if all items that are rendered for it, and the defaults of their
fields, can be written. -/
theorem Item.classFaults_eq_nil_iff (context : RenderContext) (x : Item) :
    x.classFaults context = [] ↔ ∀ y ∈ x.rendered, context.Writable y ∧
      (y.DefinesClass → ∀ z ∈ lastFields (y.fields.getD []), z.DefaultWritable) := by
  have hdefault (z : Item) : z.attributes.defaultFaults = [] ↔ z.DefaultWritable := by
    rw [Attributes.defaultFaults, ite_ofValue_eq_nil_iff, DefaultWritable]
  induction x using renderedInduction with
  | step x ih =>
    rw [rendered_eq, List.forall_mem_append, List.forall_mem_singleton, List.forall_mem_flatMap,
      ← forall₂_congr ih]
    cases x.role with
    | reference ht =>
      have hclass : ¬ x.DefinesClass := fun h ↦ absurd (h.1.symm.trans ht) nofun
      rw [classFaults_of_target context ht, RenderContext.writable_iff_of_target ht,
        renderedParts_of_target ht]
      simp [hclass]
    | object ht hk =>
      have hfields : (lastFields (x.fields.getD [])).flatMap (fun y ↦
            y.classFaults context ++ y.attributes.defaultFaults) = [] ↔
          (∀ y ∈ lastFields (x.fields.getD []), y.classFaults context = []) ∧
            ∀ y ∈ lastFields (x.fields.getD []), y.DefaultWritable := by
        simp only [List.flatMap_eq_nil_iff, List.append_eq_nil_iff, hdefault, imp_and, forall_and]
      rw [classFaults_of_object context ht hk, RenderContext.writable_iff_of_object ht hk,
        renderedParts_of_object ht hk, List.append_eq_nil_iff, hfields, and_assoc,
        forall_prop_of_true ⟨ht, hk⟩, and_comm (a := WriteFault.ofDocumentation _ = [])]
    | union ht hk =>
      have hclass : ¬ x.DefinesClass := fun h ↦ absurd (h.2.symm.trans hk) nofun
      have hliteral : x.attributes.literalFaults = [] := by
        rw [Attributes.literalFaults, show x.attributes.kind = .union from hk]
        rfl
      have hoptions : (if (x.options.getD []).length < 2 then []
          else (x.options.getD []).flatMap fun y ↦ y.classFaults context) =
            x.renderedParts.flatMap fun y ↦ y.classFaults context := by
        rw [renderedParts_of_union ht hk]
        split <;> rfl
      rw [classFaults_of_union context ht hk, hoptions,
        RenderContext.writable_iff_of_other ht fun ho ↦ hclass ⟨ht, ho⟩, List.append_eq_nil_iff,
        List.flatMap_eq_nil_iff]
      simp [hclass, hliteral]
    | leaf ht ho hu =>
      have hclass : ¬ x.DefinesClass := fun h ↦ ho h.2
      rw [classFaults_of_leaf context ht ho hu, RenderContext.writable_iff_of_other ht ho,
        renderedParts_of_leaf ho hu, List.append_eq_nil_iff]
      simp [hclass]

/-! ## Documents -/

/-- The settings that differ from the default ones in the language. -/
def EmitterSettings.classModules : EmitterSettings :=
  EmitterSettings.set {} "language" (.value (.str Language.pydantic.name))

namespace Document

variable {d : Document} {e : EmitError}

/-- The fields that become attributes of classes: those of the root and of rendered objects. -/
def renderedFields (d : Document) : List Item :=
  lastFields d.fields ++
    (d.rendered.filter (·.DefinesClass)).flatMap fun x ↦ lastFields (x.fields.getD [])

theorem forall_mem_renderedFields_iff {P : Item → Prop} : (∀ x ∈ d.renderedFields, P x) ↔
    (∀ x ∈ lastFields d.fields, P x) ∧
      ∀ x ∈ d.rendered, x.DefinesClass → ∀ y ∈ lastFields (x.fields.getD []), P y := by
  rw [renderedFields, List.forall_mem_append, List.forall_mem_flatMap, List.forall_mem_filter]
  simp only [decide_eq_true_eq]

/-- A document has no faults exactly if all that is rendered can be written. -/
theorem classFaults_eq_nil_iff (d : Document) : d.classFaults = [] ↔
    (∀ x ∈ d.rendered, d.renderContext.Writable x) ∧ ∀ x ∈ d.renderedFields, x.DefaultWritable := by
  have hfields : d.classFaults = [] ↔
      (∀ x ∈ lastFields d.fields, x.classFaults d.renderContext = []) ∧
        ∀ x ∈ lastFields d.fields, x.DefaultWritable := by
    simp only [classFaults, List.flatMap_eq_nil_iff, List.append_eq_nil_iff, imp_and, forall_and,
      Attributes.defaultFaults, ite_ofValue_eq_nil_iff, Item.DefaultWritable]
  have hitems : (∀ x ∈ lastFields d.fields, x.classFaults d.renderContext = []) ↔
      ∀ x ∈ d.rendered, d.renderContext.Writable x ∧
        (x.DefinesClass → ∀ y ∈ lastFields (x.fields.getD []), y.DefaultWritable) := by
    rw [rendered, List.forall_mem_flatMap]
    exact forall₂_congr fun x _ ↦ x.classFaults_eq_nil_iff d.renderContext
  rw [hfields, hitems, forall_mem_renderedFields_iff]
  simp only [imp_and, forall_and]
  exact and_right_comm.trans and_assoc

theorem classCode_eq_error_iff {settings : EmitterSettings} {typeName : String}
    (h : settings.typeNameText = .ok typeName) :
    settings.classCode d = .error e ↔ ∃ fault ∈ d.classFaults.head?, e = .fault fault := by
  rw [EmitterSettings.classCode, h]
  dsimp only [bind, Except.bind]
  rw [ClassModule.write, faults_classModule]
  cases d.classFaults with
  | nil => exact iff_of_false (by rintro ⟨⟩) (by rintro ⟨fault, ⟨⟩, -⟩)
  | cons fault rest =>
    constructor
    · intro he
      exact ⟨fault, rfl, (Except.error.inj he).symm⟩
    · rintro ⟨_, ⟨⟩, rfl⟩
      rfl

theorem classCode_isOk_iff {settings : EmitterSettings} {typeName : String}
    (h : settings.typeNameText = .ok typeName) :
    (settings.classCode d).isOk ↔ d.classFaults = [] := by
  rw [EmitterSettings.classCode, h]
  dsimp only [bind, Except.bind]
  rw [ClassModule.write, faults_classModule]
  cases d.classFaults with
  | nil => exact iff_of_true rfl rfl
  | cons fault rest => exact iff_of_false Bool.false_ne_true (List.cons_ne_nil _ _)

theorem value_emitIn (settings : EmitterSettings) (tools : Tools) (language : Language) :
    (settings.emitIn tools language d).value = (settings.codeIn tools language d).value := by
  rw [EmitterSettings.emitIn, Logged.value_bind]
  split <;> rfl

/-- Without a formatter the class module is the output. -/
theorem value_emit_classModules (tools : Tools) :
    (EmitterSettings.classModules.emit tools d).value =
      EmitterSettings.classModules.classCode d := by
  have hlanguage : EmitterSettings.classModules.language? = .ok .pydantic := rfl
  rw [EmitterSettings.emit, hlanguage, value_emitIn, EmitterSettings.codeIn]
  match EmitterSettings.classModules.classCode d with
  | .error e => rfl
  | .ok code => rfl

/-- With default settings the zod module is the output. -/
theorem value_emit_zod (tools : Tools) :
    (({} : EmitterSettings).emit tools d).value = ({} : EmitterSettings).zodCode d := by
  have hlanguage : ({} : EmitterSettings).language? = .ok .zod := rfl
  rw [EmitterSettings.emit, hlanguage, value_emitIn]
  rfl

/-- **What default emission takes.** A document has a zod module exactly if no written item has a
number that is too long. It has a class module exactly if this is so for all that is rendered, and
if every object that becomes a class has a description that is a text or counts as false. If not,
the first fault is the error. -/
theorem emit_default (tools : Tools) (d : Document) :
    ((({} : EmitterSettings).emit tools d).value.isOk ↔ d.ZodWritable) ∧
      (∀ e, (({} : EmitterSettings).emit tools d).value = .error e → e = .fault .tooLong) ∧
      ((EmitterSettings.classModules.emit tools d).value.isOk ↔
        (∀ x ∈ d.rendered, d.renderContext.Writable x) ∧
          ∀ x ∈ d.renderedFields, x.DefaultWritable) ∧
      ∀ e, (EmitterSettings.classModules.emit tools d).value = .error e ↔
        ∃ fault ∈ d.classFaults.head?, e = .fault fault := by
  have hname : EmitterSettings.classModules.typeNameText = .ok "Schema" := rfl
  rw [value_emit_zod, value_emit_classModules]
  refine ⟨?_, fun e he ↦ ?_, ?_, fun e ↦ classCode_eq_error_iff hname⟩
  · rw [EmitterSettings.zodCode_isOk_iff, EmitterSettings.zodFaults_default_eq_nil_iff]
  · obtain ⟨fault, hfault, rfl⟩ := EmitterSettings.zodCode_eq_error_iff.mp he
    have hmem := EmitterSettings.mem_zodFaults_default_iff.mp (List.mem_of_mem_head? hfault)
    rw [hmem.1]
  · rw [classCode_isOk_iff hname, classFaults_eq_nil_iff]

/-- An object that has a number as its description. -/
def numbered : Item :=
  .mk { (Item.new "a" .object "x").attributes with description := .int 5 } (some []) none

/-- **A document that is read and cannot be emitted.** -/
theorem exists_unwritable :
    Yields (readDocument (.obj [("fields", .arr [.obj [("id", .str "a"), ("name", .str "x"),
      ("type", .str "object"), ("description", .int 5), ("fields", .arr [])]])]))
        { stem := "" } ⟨[numbered]⟩ { stem := "" } ∧
      (EmitterSettings.classModules.emit {} ⟨[numbered]⟩).value =
        .error (.fault (.descriptionNotText "int")) := by
  refine ⟨rfl, ?_⟩
  rw [value_emit_classModules]
  exact (classCode_eq_error_iff rfl).mpr ⟨.descriptionNotText "int", rfl, rfl⟩

end Document

end SchemaTree
