import SchemaTree.Proofs.FieldKeys
import SchemaTree.Proofs.GivenNames
import SchemaTree.Proofs.ModuleClosure
import SchemaTree.Proofs.Words

/-!
# Attributes that hide types

In the body of a class an attribute with a value is bound to the value before its annotation is
looked at, and before all that comes further down. If its key is an identifier there, the identifier
means the value and no longer a type: the attribute shadows (`FieldLine.Shadows`).

Keys that begin like positional ones never do, since no word in a type begins like that: the words
in types are names of definitions, which are capitalized, and a few others. So an attribute that
shadows has the name of its field as its key, and it can be told from the fields alone whether a
class has one (`Document.class_shadows_iff`). Nothing keeps a field from being called like a type,
however, and so some classes do (`Document.exists_shadow`). -/

namespace SchemaTree

open Json Text

/-! ## Attributes -/

namespace FieldLine

variable {f : FieldLine} {after : List FieldLine}

/-- An attribute that is bound to a value in the body of its class. -/
def IsAssigned (f : FieldLine) : Prop := f.value ≠ []

/-- The call that an attribute with an external name is bound to. -/
def call (f : FieldLine) : List Char := if f.external.isSome then f.value else []

/-- The words in the call of an attribute. -/
def callWords (f : FieldLine) : List String :=
  if f.external.isSome then "Field" :: (f.default.map (Json.wordsIn .displayed)).getD [] else []

/-- An attribute hides what its annotation means, or what the annotation or the call of an attribute
behind it does. -/
def Shadows (f : FieldLine) (after : List FieldLine) : Prop :=
  f.IsAssigned ∧ (f.key ∈ identifiersIn f.type.write ∨
    ∃ g ∈ after, f.key ∈ identifiersIn g.type.write ∨ f.key ∈ identifiersIn g.call)

theorem isAssigned_iff : f.IsAssigned ↔ f.external.isSome ∨ f.default.isSome := by
  rw [IsAssigned, value]
  cases f.external with
  | some external =>
    refine iff_of_true ?_ (.inl rfl)
    cases f.default <;> simp
  | none =>
    cases f.default with
    | some value => exact iff_of_true (by simp) (.inr rfl)
    | none => simp

/-- The call of an attribute uses its words, keywords apart. -/
theorem uses_call (f : FieldLine) : Uses f.call (spoken f.callWords) := by
  rw [call, callWords]
  cases h : f.external with
  | none => exact Uses.nil
  | some external => exact uses_value_of_external h

/-- Whether an attribute shadows can be told from the words of types and calls. -/
theorem shadows_iff (hkey : f.key ∉ Naming.keywords)
    (hnames : ∀ g ∈ f :: after, ∀ name ∈ g.type.identifiers, isWord name.toList) :
    f.Shadows after ↔ f.IsAssigned ∧ (f.key ∈ f.type.words ∨
      ∃ g ∈ after, f.key ∈ g.type.words ∨ f.key ∈ g.callWords) := by
  have hspoken {text : List Char} {words : List String} (h : Uses text (spoken words)) :
      f.key ∈ identifiersIn text ↔ f.key ∈ words := by
    rw [h.perm.mem_iff, mem_spoken_iff, and_iff_left hkey]
  have htype {g : FieldLine} (hg : g ∈ f :: after) :
      f.key ∈ identifiersIn g.type.write ↔ f.key ∈ g.type.words :=
    hspoken (TypeExpr.uses_words g.type (hnames g hg))
  have hcall (g : FieldLine) : f.key ∈ identifiersIn g.call ↔ f.key ∈ g.callWords :=
    hspoken g.uses_call
  rw [Shadows, htype List.mem_cons_self]
  refine and_congr_right fun _ ↦ or_congr_right (exists_congr fun g ↦ and_congr_right fun hg ↦ ?_)
  rw [htype (List.mem_cons_of_mem f hg), hcall]

end FieldLine

/-- Some attribute shadows, with the attributes behind it. -/
def HasShadow (lines : List FieldLine) : Prop :=
  ∃ before f after, lines = before ++ f :: after ∧ f.Shadows after

/-! ## Words that are no keys -/

section Words

variable {name : String}

theorem isWord_of_isCapitalized (h : IsCapitalized name) : isWord name.toList := by
  obtain ⟨c, rest, hname, hc, hrest⟩ := h
  have hparts : ∀ b ∈ rest, isWordPart b := fun b hb ↦ isWordPart_of_isAlphanum (hrest b hb)
  have hhead : ¬ c.isDigit ∧ isWordPart c := by
    rcases hc with hupper | rfl
    · have halphanum : c.isAlphanum := by
        change (c.isUpper || c.isLower) || c.isDigit
        rw [hupper, Bool.true_or, Bool.true_or]
      refine ⟨fun hdigit ↦ ?_, isWordPart_of_isAlphanum halphanum⟩
      have hle : c.val ≤ '9'.val := of_decide_eq_true ((Bool.and_eq_true _ _).mp hdigit).2
      have hge : 'A'.val ≤ c.val := (of_decide_eq_true hupper).1
      exact absurd (UInt32.le_trans hge hle) (by decide)
    · decide
  rw [hname, isWord, Bool.and_eq_true]
  exact ⟨by simpa using hhead.1, List.all_eq_true.mpr (List.forall_mem_cons.mpr ⟨hhead.2, hparts⟩)⟩

/-- A capitalized name does not begin like a positional key. -/
theorem not_isPositional_of_isCapitalized (h : IsCapitalized name) :
    ¬ Naming.IsPositional name := by
  obtain ⟨c, rest, hname, hc, -⟩ := h
  have hfield : "field_".toList = 'f' :: ['i', 'e', 'l', 'd', '_'] := by decide
  rw [Naming.IsPositional, hname, hfield, List.cons_prefix_cons]
  rintro ⟨rfl, -⟩
  exact absurd hc (by decide)

/-- No word that is no name of a definition begins like a positional key. -/
theorem not_isPositional_of_vocabulary
    (h : name ∈ typeVocabulary ++ (ValueWords.displayed.all ++ ValueWords.document.all)) :
    ¬ Naming.IsPositional name := by
  have hall : ∀ word ∈ typeVocabulary ++ (ValueWords.displayed.all ++ ValueWords.document.all),
      ¬ Naming.IsPositional word := by decide
  exact hall name h

end Words

/-! ## Classes -/

/-- The attributes of the class that a block defines. -/
def Block.lines? : Block → Option (List FieldLine)
  | cls _ _ fields => some fields
  | typeAlias .. => none

/-- A field that is given a value where it is absent. -/
def Item.HasValue (x : Item) : Prop := ¬ x.attributes.required ∨ x.attributes.hasDefault

theorem isSome_default_line (context : RenderContext) (key : String) (x : Item) :
    (context.line key x).default.isSome ↔ x.HasValue := by
  change (if x.attributes.hasDefault then some x.attributes.defaultValue
    else if x.attributes.required then none else some Json.null).isSome ↔ _
  rw [Item.HasValue]
  split
  · rename_i hdefault
    exact iff_of_true rfl (.inr hdefault)
  · rename_i hdefault
    split
    · rename_i hrequired
      simp [hrequired, hdefault]
    · rename_i hrequired
      exact iff_of_true rfl (.inl hrequired)

namespace Document

variable {d : Document} {typeName word : String}

/-- The fields of the classes of a document, in the order of the classes: those of the rendered
objects, and those of the root. -/
def classFields (d : Document) : List (List Item) :=
  ((d.rendered.filter fun x ↦ x.DefinesClass).map fun x ↦ x.fields.getD []) ++ [d.fields]

/-- **The attributes of the classes** are made of the fields of the classes. -/
theorem filterMap_lines?_blocks (d : Document) (typeName : String) :
    (d.classModule typeName).blocks.filterMap Block.lines? =
      d.classFields.map d.renderContext.lines := by
  have hlines : (d.rendered.filterMap d.renderContext.block?).filterMap Block.lines? =
      (d.rendered.filter fun x ↦ x.DefinesClass).map fun x ↦
        d.renderContext.lines (x.fields.getD []) :=
    filterMap_block? d.renderContext Block.lines? (fun _ _ ↦ rfl) (fun _ ↦ rfl) d.rendered
  rw [blocks_classModule, List.filterMap_append, hlines, classFields, List.map_append, List.map_map]
  rfl

/-- Blocks define names that are given out. -/
theorem definition_mem_givenNames {b : Block} (hb : b ∈ (d.classModule typeName).blocks) :
    b.definition ∈ d.givenNames typeName := by
  have hgives {id name : String} (h : d.definitionNames.Gives id name) :
      name ∈ d.givenNames typeName :=
    List.mem_append_left _ (List.mem_reverse.mpr (d.fits_definitionNames.taken h))
  rcases mem_blocks_iff.mp hb with ⟨x, hx, hblock⟩ | rfl
  · obtain ⟨ht, ⟨ho, rfl⟩ | ⟨-, name, hname, rfl⟩⟩ := block?_cases _ hblock
    · have hsome := (d.fits_definitionNames.class_iff x.id).mpr
        ⟨x, mem_items_of_mem_rendered hx, rfl, ht, ho⟩
      obtain ⟨name, hname⟩ := Option.isSome_iff_exists.mp hsome
      rw [renderContext, hname]
      exact hgives (.inl hname)
    · exact hgives (.inr hname)
  · exact List.mem_append_right _ (List.mem_singleton_self _)

section Fields

variable {xs : List Item} (hxs : xs ∈ d.classFields) {f : FieldLine}
  (hf : f ∈ d.renderContext.lines xs)
include hxs hf

/-- A type in a class has common identifiers and capitalized names. -/
theorem mem_identifiers_cases (h : word ∈ f.type.identifiers) :
    word ∈ typeVocabulary ∨ IsCapitalized word := by
  have hlines : d.renderContext.lines xs ∈ (d.classModule "").blocks.filterMap Block.lines? := by
    rw [filterMap_lines?_blocks]
    exact List.mem_map_of_mem hxs
  obtain ⟨b, hb, hblock⟩ := List.mem_filterMap.mp hlines
  have hword : word ∈ b.identifiers := by
    cases b with
    | typeAlias => cases hblock
    | cls name description fields =>
      obtain rfl := Option.some.inj hblock
      have hfield : word ∈ f.identifiers := List.mem_append_left _ h
      exact List.mem_cons_of_mem _ (List.mem_flatMap.mpr ⟨f, hf, hfield⟩)
  obtain ⟨before, after, hblocks⟩ := List.append_of_mem hb
  refine (d.ordered_classModule "" before b after hblocks word hword).imp_right fun hdefined ↦ ?_
  obtain ⟨c, hc, rfl⟩ := List.mem_map.mp hdefined
  have hmem : c ∈ (d.classModule "").blocks := hblocks ▸ List.mem_append_left _ hc
  exact (isCapitalized_of_mem_givenNames (definition_mem_givenNames hmem)).1

theorem isWord_of_mem_identifiers (h : word ∈ f.type.identifiers) : isWord word.toList := by
  have hall : ∀ word ∈ typeVocabulary, isWord word.toList := by decide
  exact (mem_identifiers_cases hxs hf h).elim (hall word) isWord_of_isCapitalized

/-- No word in a type or a call begins like a positional key. -/
theorem not_isPositional_of_mem_words (h : word ∈ f.type.words ∨ word ∈ f.callWords) :
    ¬ Naming.IsPositional word := by
  have hvalue {words : List String}
      (hsubset : words ⊆ ValueWords.displayed.all ++ ValueWords.document.all)
      (hword : word ∈ words) : ¬ Naming.IsPositional word :=
    not_isPositional_of_vocabulary (List.mem_append_right _ (hsubset hword))
  rcases h with h | h
  · rcases List.mem_append.mp h with h | h
    · rcases mem_identifiers_cases hxs hf h with h | h
      · exact not_isPositional_of_vocabulary (List.mem_append_left _ h)
      · exact not_isPositional_of_isCapitalized h
    · exact hvalue f.type.valueWords_subset h
  · rw [FieldLine.callWords] at h
    split at h
    · rcases List.mem_cons.mp h with rfl | h
      · decide
      · refine hvalue ?_ h
        cases f.default with
        | none => exact List.nil_subset _
        | some value => exact List.subset_append_of_subset_left _ (Json.wordsIn_subset value)
    · cases h

end Fields

/-- **Which field shadows**: one whose key is its name, that has a value, and whose name is a word
in its own type or in the type or the call of a field behind it. -/
theorem shadows_line_iff {xs : List Item} (hxs : xs ∈ d.classFields)
    {before after : List (String × Item)} {m : String × Item}
    (h : keyedFields xs = before ++ m :: after) :
    (d.renderContext.line m.1 m.2).Shadows (after.map fun n ↦ d.renderContext.line n.1 n.2) ↔
      m.1 = m.2.name ∧ m.2.HasValue ∧ (m.1 ∈ (d.renderContext.line m.1 m.2).type.words ∨
        ∃ n ∈ after, m.1 ∈ (d.renderContext.line n.1 n.2).type.words ∨
          m.1 ∈ (d.renderContext.line n.1 n.2).callWords) := by
  have hmem : ∀ n ∈ m :: after, d.renderContext.line n.1 n.2 ∈ d.renderContext.lines xs := by
    intro n hn
    rw [RenderContext.lines, h]
    exact List.mem_map_of_mem (List.mem_append_right before hn)
  have hkey : Naming.IsKeyOf m.2.name m.1 :=
    isKeyOf_of_mem_keyedFields (h ▸ List.mem_append_right before List.mem_cons_self)
  rw [FieldLine.shadows_iff hkey.notMem_keywords, ← and_assoc]
  · simp only [List.mem_map, exists_exists_and_eq_and]
    refine and_congr_left fun hword ↦ ?_
    have hname : m.1 = m.2.name := by
      have hpositional : ¬ Naming.IsPositional m.1 := by
        rcases hword with hown | ⟨n, hn, hlater⟩
        · exact not_isPositional_of_mem_words hxs (hmem m List.mem_cons_self) (.inl hown)
        · exact not_isPositional_of_mem_words hxs (hmem n (List.mem_cons_of_mem m hn)) hlater
      exact (hkey.resolve_right hpositional).1
    have hexternal : (d.renderContext.line m.1 m.2).external = none := if_pos hname
    rw [FieldLine.isAssigned_iff, hexternal, isSome_default_line]
    simp [hname]
  · intro g hg name
    have hline : g ∈ d.renderContext.lines xs := by
      rcases List.mem_cons.mp hg with rfl | hg
      · exact hmem m List.mem_cons_self
      · obtain ⟨n, hn, rfl⟩ := List.mem_map.mp hg
        exact hmem n (List.mem_cons_of_mem m hn)
    exact isWord_of_mem_identifiers hxs hline

/-- **When a class hides a type**, in any document. The attributes of the classes are made of the
fields of the classes. Among those of a class there is one that shadows if and only if some field
has its name as its key and a value where it is absent, and its name is a word in its own type or in
the type or the call of a field behind it. -/
theorem class_shadows_iff (d : Document) (typeName : String) :
    (d.classModule typeName).blocks.filterMap Block.lines? =
        d.classFields.map d.renderContext.lines ∧
      ∀ xs ∈ d.classFields, HasShadow (d.renderContext.lines xs) ↔
        ∃ before x after, keyedFields xs = before ++ (x.name, x) :: after ∧ x.HasValue ∧
          (x.name ∈ (d.renderContext.line x.name x).type.words ∨
            ∃ m ∈ after, x.name ∈ (d.renderContext.line m.1 m.2).type.words ∨
              x.name ∈ (d.renderContext.line m.1 m.2).callWords) := by
  refine ⟨filterMap_lines?_blocks d typeName, fun xs hxs ↦ ?_⟩
  constructor
  · rintro ⟨lines, f, linesAfter, hlines, hshadows⟩
    obtain ⟨before, rest, hkeyed, -, hrest⟩ := List.map_eq_append_iff.mp hlines
    obtain ⟨⟨key, x⟩, after, rfl, rfl, rfl⟩ := List.map_eq_cons_iff.mp hrest
    obtain ⟨hname, hvalue, hword⟩ := (shadows_line_iff hxs hkeyed).mp hshadows
    obtain rfl : key = x.name := hname
    exact ⟨before, x, after, hkeyed, hvalue, hword⟩
  · rintro ⟨before, x, after, hkeyed, hvalue, hword⟩
    refine ⟨before.map fun n ↦ d.renderContext.line n.1 n.2, _, _, ?_,
      (shadows_line_iff hxs hkeyed).mpr ⟨rfl, hvalue, hword⟩⟩
    rw [RenderContext.lines, hkeyed, List.map_append, List.map_cons]

/-- A field that is called like the class of its type, and that need not be there. -/
def eponymous : Document where
  fields := [
    .mk { (Item.new "a" .object "Address").attributes with required := false } (some []) none]

/-- **A field can shadow its own type**: its class is named by it, and so is its key. -/
theorem exists_shadow :
    (eponymous.items.map Item.id).Nodup ∧
      ∃ name description lines,
        .cls name description lines ∈ (eponymous.classModule "Schema").blocks ∧
        HasShadow lines := by
  refine ⟨by decide, "Schema", .null,
    [⟨"Address", .optional (.name "Address"), some .null, none⟩], ?_, [], _, [], rfl, ?_, .inl ?_⟩
  · exact List.mem_append_right _ (List.mem_singleton_self _)
  · exact FieldLine.isAssigned_iff.mpr (.inr rfl)
  · decide

end Document

end SchemaTree
