import SchemaTree.Proofs.Comparison

/-!
# Where descriptions stand

A zod module writes an item as a field of an object or as an option of a union, wherever it comes to
it (`Document.Writes`). The text of an expression is a chain of calls, and a chain of calls can be
read in one way only. So it makes sense to ask which calls are made for an item, and in which order:
first the one for its own shape, then directly behind it the one for its description, if that
counts, and only then what concerns its position, namely the array around both, and in a field the
marks for a value that may be absent and for a default (`Document.descriptions_attached`).

Objects get their descriptions in another place than other items do. That makes no difference to the
expressions, not even for a reference that is called an object (`Item.zodExpr_eq`). That this also
holds of the text of the whole module takes that the text of an item stands in it as an expression:
what is before it is not within quotes, and what is behind it is not another call (`StandsIn`).
-/

namespace SchemaTree

open Text

/-! ## Texts within texts -/

/-- A text that a reader of brackets does not end within quotes. -/
def EndsOutside (t : List Char) : Prop :=
  ∀ depth, ∃ depth', (Nesting.outside depth).read t = some (.outside depth')

/-- A text stands in another one with something behind it that is no call; if the other one is
`readable`, what is before it does not end within quotes. -/
def StandsIn (readable : Prop) (t whole : List Char) : Prop :=
  ∃ before c after, c ≠ '.' ∧ (readable → EndsOutside before) ∧ whole = before ++ (t ++ c :: after)

section StandsIn

variable {readable : Prop} {t u v before piece : List Char} {pieces : List (List Char)} {c : Char}

theorem Text.Balanced.endsOutside (h : Balanced t) : EndsOutside t := fun depth ↦ ⟨depth, h depth⟩

theorem EndsOutside.append (ht : EndsOutside t) (hu : EndsOutside u) : EndsOutside (t ++ u) := by
  intro depth
  obtain ⟨depth', ht⟩ := ht depth
  obtain ⟨depth'', hu⟩ := hu depth'
  exact ⟨depth'', by rw [Nesting.read_append, ht, Option.bind_some, hu]⟩

theorem endsOutside_opening (h : isOpening c) : EndsOutside [c] :=
  fun depth ↦ ⟨depth + 1, by rw [Nesting.read_cons, Nesting.step_of_isOpening h]; rfl⟩

namespace StandsIn

theorem mk (hbefore : readable → EndsOutside before) (hc : c ≠ '.') (after : List Char) :
    StandsIn readable t (before ++ (t ++ c :: after)) :=
  ⟨before, c, after, hc, hbefore, rfl⟩

theorem trans (h : StandsIn readable t u) (h' : StandsIn readable u v) : StandsIn readable t v := by
  obtain ⟨before, c, after, hc, hbefore, rfl⟩ := h
  obtain ⟨before', c', after', -, hbefore', rfl⟩ := h'
  refine ⟨before' ++ before, c, after ++ c' :: after', hc,
    fun hr ↦ (hbefore' hr).append (hbefore hr), ?_⟩
  simp only [List.append_assoc, List.cons_append]

theorem prepend (h : StandsIn readable t u) (hbefore : readable → EndsOutside before) :
    StandsIn readable t (before ++ u) := by
  obtain ⟨before', c, after, hc, hbefore', rfl⟩ := h
  refine ⟨before ++ before', c, after, hc, fun hr ↦ (hbefore hr).append (hbefore' hr), ?_⟩
  rw [List.append_assoc]

/-- The end of a text stands where the text does. -/
theorem of_append (h : StandsIn readable (before ++ t) u)
    (hbefore : readable → EndsOutside before) :
    StandsIn readable t u := by
  obtain ⟨before', c, after, hc, hbefore', rfl⟩ := h
  refine ⟨before' ++ before, c, after, hc, fun hr ↦ (hbefore' hr).append (hbefore hr), ?_⟩
  simp only [List.append_assoc]

end StandsIn

theorem balanced_flatMap {α : Type} {text : α → List Char} {xs : List α}
    (h : ∀ x ∈ xs, Balanced (text x)) : Balanced (xs.flatMap text) := by
  induction xs with
  | nil => exact .nil
  | cons x xs ih =>
    obtain ⟨hx, hxs⟩ := List.forall_mem_cons.mp h
    rw [List.flatMap_cons]
    exact hx.append (ih hxs)

/-- A piece stands among the ones that it is joined with, if the separator begins with a comma. -/
theorem standsIn_joinWith (separator : List Char) (hseparator : Balanced (',' :: separator))
    (hpiece : piece ∈ pieces) (h : readable → ∀ q ∈ pieces, Balanced q) (hc : c ≠ '.')
    (rest : List Char) :
    StandsIn readable piece (Json.joinWith (',' :: separator) pieces ++ c :: rest) := by
  have hbehind (before : List Char) (later : List (List Char))
      (hbefore : readable → EndsOutside before) : StandsIn readable piece
        (before ++ (piece ++ (later.flatMap ((',' :: separator) ++ ·) ++ c :: rest))) := by
    cases later with
    | nil => exact .mk hbefore hc _
    | cons next later => exact .mk hbefore (c := ',') (by decide) _
  obtain ⟨first, others, rfl⟩ := List.exists_cons_of_ne_nil (List.ne_nil_of_mem hpiece)
  rw [joinWith_cons, List.append_assoc]
  rcases List.mem_cons.mp hpiece with rfl | hpiece
  · exact hbehind [] others fun _ ↦ Balanced.nil.endsOutside
  · obtain ⟨earlier, later, rfl⟩ := List.append_of_mem hpiece
    have hbefore (hr : readable) : Balanced
        (first ++ (earlier.flatMap ((',' :: separator) ++ ·) ++ (',' :: separator))) := by
      obtain ⟨hfirst, hothers⟩ := List.forall_mem_cons.mp (h hr)
      have hearlier : Balanced (earlier.flatMap ((',' :: separator) ++ ·)) :=
        balanced_flatMap fun q hq ↦ hseparator.append (hothers q (List.mem_append_left _ hq))
      exact hfirst.append (hearlier.append hseparator)
    have hpieces := hbehind _ later fun hr ↦ (hbefore hr).endsOutside
    simpa only [List.flatMap_append, List.flatMap_cons, List.append_assoc] using hpieces

/-- What a call is made with stands in the chain that begins with the call. -/
theorem Call.standsIn_chain (call : Call) (cs : List Call) :
    StandsIn readable call.argument (Call.chain (call :: cs)) := by
  have hopening : EndsOutside (('z' :: '.' :: call.method.name) ++ ['(']) := by
    have hname : Balanced ('z' :: '.' :: call.method.name) :=
      .cons (by decide) (.cons (by decide) (.of_all call.method.isPlain_name))
    exact hname.endsOutside.append (endsOutside_opening rfl)
  have hcall : Call.chain (call :: cs) =
      (('z' :: '.' :: call.method.name) ++ ['(']) ++
        (call.argument ++ ')' :: cs.flatMap Call.write) := by
    rw [Call.chain, List.flatMap_cons, Call.write]
    simp only [List.append_assoc, List.cons_append, List.nil_append]
  rw [hcall]
  exact .mk (fun _ ↦ hopening) (by decide) _

end StandsIn

/-! ## The calls of an item -/

/-- A text is the chain of the given calls, each of which ends where its bracket closes. -/
def Call.Reads (text : List Char) (cs : List Call) : Prop :=
  (∀ c ∈ cs, Balanced c.argument) ∧ Call.chain cs = text

/-- The call for the shape of an item with the one for its description behind it, if that counts. -/
def Call.described (a : Attributes) (own : Call) : List Call :=
  own :: if a.description.truthy then [⟨.describe, ZodExpr.valueText a.description⟩] else []

/-- The calls that are made for an item at a position, with a given call for its shape. -/
def ZodPosition.calls (position : ZodPosition) (a : Attributes) (own : Call) : List Call :=
  (if a.isArray then [⟨.array, Call.chain (Call.described a own)⟩] else Call.described a own) ++
    match position with
    | .field =>
      (if a.required then [] else [⟨.optional, []⟩]) ++
        if a.hasDefault then [⟨.default, ZodExpr.valueText a.defaultValue⟩] else []
    | .option => []

/-- The method that is called for the shape of an item. -/
def Item.ownMethod (x : Item) : Method :=
  if x.target?.isSome then .lazy
  else
    match x.kind with
    | .string => .string
    | .number => .number
    | .boolean => .boolean
    | .datetime => .datetime
    | .literal => .literal
    | .object => .object
    | .union => if 2 ≤ (x.options.getD []).length then .union else .unknown
    | .other .. => .unknown

section Calls

variable {indent : Indent} {depth : ℕ} {a : Attributes} {own : Call} {cs cs' : List Call}
  {e : ZodExpr} {x : Item}

/-- **A chain of calls is read in one way.** -/
theorem Call.reads_chain_iff (h : ∀ c ∈ cs, Balanced c.argument) :
    Call.Reads (Call.chain cs) cs' ↔ cs' = cs := by
  constructor
  · rintro ⟨h', htext⟩
    exact (Call.chain_cancel h' h (r := []) (s := []) nofun nofun (congrArg (· ++ []) htext)).1
  · rintro rfl
    exact ⟨h, rfl⟩

theorem method_zodShape (table : ItemTable) (x : Item) :
    (x.zodShape table).method = x.ownMethod := by
  have hview := x.hasZodShape table
  generalize x.zodShape table = e at hview ⊢
  have hkind {kind : Kind} (h : x.IsOf kind) : x.target?.isSome = false ∧ x.kind = kind := by
    rw [h.1]
    exact ⟨rfl, h.2⟩
  rw [Item.ownMethod]
  cases hview with
  | @scalar type h =>
    simp only [hkind h, Bool.false_eq_true, if_false]
    cases type <;> rfl
  | literal h | object h =>
    simp only [hkind h, Bool.false_eq_true, if_false]
    rfl
  | union h htwo =>
    simp only [hkind h, Bool.false_eq_true, if_false, if_pos htwo]
    rfl
  | anything h =>
    obtain ⟨ht, hunknown | ⟨hunion, hfew⟩⟩ := h
    · rw [ht]
      cases hk : x.kind with
      | other => rfl
      | _ =>
        rw [hk] at hunknown
        exact absurd hunknown nofun
    · simp only [hkind ⟨ht, hunion⟩, Bool.false_eq_true, if_false, if_neg (Nat.not_le.mpr hfew)]
      rfl
  | reference h => rw [if_pos h]; rfl

/-- An expression that is no suffix is a single call. -/
theorem calls_of_rank (h : e.method.rank = 0) :
    e.calls indent depth = [e.lastCall indent depth] := by
  cases e with
  | describe | optional | default => cases h
  | _ => rfl

theorem calls_described (h : e.method.rank = 0) :
    (ZodExpr.described a e).calls indent depth = Call.described a (e.lastCall indent depth) := by
  rw [ZodExpr.described, Call.described]
  split
  · rw [ZodExpr.calls, calls_of_rank h]
    rfl
  · exact calls_of_rank h

theorem calls_arrayed (a : Attributes) (e : ZodExpr) :
    (ZodExpr.arrayed a e).calls indent depth =
      if a.isArray then [⟨.array, Call.chain (e.calls indent depth)⟩]
        else e.calls indent depth := by
  rw [ZodExpr.arrayed]
  split
  · rw [← ZodExpr.write_eq_chain]
    rfl
  · rfl

theorem calls_asField (a : Attributes) (e : ZodExpr) :
    (e.asField a).calls indent depth = (ZodExpr.arrayed a e).calls indent depth ++
      ((if a.required then [] else [⟨.optional, []⟩]) ++
        if a.hasDefault then [⟨.default, ZodExpr.valueText a.defaultValue⟩] else []) := by
  rw [ZodExpr.asField, ← List.append_assoc]
  cases a.required <;> cases a.hasDefault <;>
    simp only [Bool.false_eq_true, if_false, if_true, List.append_nil] <;> rfl

theorem calls_zodExpr (table : ItemTable) (x : Item) :
    (x.zodExpr table).calls indent depth =
      Call.described x.attributes ((x.zodShape table).lastCall indent depth) := by
  rw [Item.zodExpr_eq]
  exact calls_described (x.rank_zodShape table)

/-- **The calls that are made for an item.** -/
theorem calls_expr (position : ZodPosition) (table : ItemTable) (x : Item) :
    (position.expr table x).calls indent depth =
      position.calls x.attributes ((x.zodShape table).lastCall indent depth) := by
  cases position with
  | field =>
    rw [ZodPosition.expr, Item.zodField, calls_asField, calls_arrayed, calls_zodExpr]
    rfl
  | option =>
    rw [ZodPosition.expr, Item.zodOption, calls_arrayed, calls_zodExpr, ZodPosition.calls,
      List.append_nil]

theorem hasPlainBindings_expr (position : ZodPosition) (table : ItemTable) (x : Item) :
    (position.expr table x).HasPlainBindings := by
  cases position with
  | field => exact ZodExpr.hasPlainBindings_asField (x.hasPlainBindings_zodExpr table)
  | option => exact ZodExpr.hasPlainBindings_arrayed (x.hasPlainBindings_zodExpr table)

/-- The method of a shape is no suffix, so a description among the calls is the attached one. -/
theorem filter_described (x : Item) (h : own.method = x.ownMethod) :
    (Call.described a own).filter (·.method = .describe) =
      if a.description.truthy then [⟨.describe, ZodExpr.valueText a.description⟩] else [] := by
  have hown : own.method ≠ .describe := by
    intro hdescribe
    have hrank := x.rank_zodShape []
    rw [method_zodShape, ← h, hdescribe] at hrank
    exact absurd hrank (by decide)
  rw [Call.described, List.filter_cons_of_neg (by simpa using hown)]
  split <;> rfl

end Calls

/-! ## Where items are written -/

section Writing

variable {readable : Prop} {indent : Indent} {depth : ℕ} {table : ItemTable} {x y : Item}

/-- The text of a property ends with the one of its expression. -/
theorem standsIn_of_propertyText {whole before : List Char} {p : String × ZodExpr}
    (h : StandsIn readable (before ++ ZodExpr.propertyText indent depth p) whole)
    (hbefore : readable → Balanced before) :
    StandsIn readable (p.2.write indent depth) whole := by
  have htext : before ++ ZodExpr.propertyText indent depth p =
      (before ++ (ZodExpr.propertyKey p.1 ++ [':', ' '])) ++ p.2.write indent depth := by
    rw [ZodExpr.propertyText]
    simp only [List.append_assoc, List.cons_append, List.nil_append]
  rw [htext] at h
  have hkey : Balanced (ZodExpr.propertyKey p.1 ++ [':', ' ']) :=
    (ZodExpr.balanced_propertyKey p.1).append (.of_all (by decide))
  exact h.of_append fun hr ↦ ((hbefore hr).append hkey).endsOutside

/-- Within the brackets of an object stand its fields. -/
theorem standsIn_object (hindent : readable → indent.IsPlain) (hobject : x.IsOf .object)
    (hy : y ∈ x.fields.getD []) :
    StandsIn readable ((ZodPosition.field.expr table y).write indent (depth + 1))
      ((x.zodShape table).argument indent depth) := by
  set properties := (x.fields.getD []).map (Item.zodField table) with hproperties
  have hmem : y.zodField table ∈ properties := List.mem_map_of_mem hy
  have hpad (hr : readable) : Balanced (indent.pad depth ++ indent.unit) :=
    (Balanced.of_all ((hindent hr).pad depth)).append (.of_all (hindent hr).unit)
  have hpieces (hr : readable) :
      ∀ piece ∈ ZodExpr.writeProperties indent depth properties, Balanced piece := by
    rw [ZodExpr.writeProperties_eq_map, List.forall_mem_map, hproperties, List.forall_mem_map]
    exact fun z _ ↦ (hpad hr).append (ZodExpr.balanced_propertyText
      (ZodExpr.balanced_write (hindent hr) (hasPlainBindings_expr .field table z) _))
  have hpiece : indent.pad depth ++ indent.unit ++
      ZodExpr.propertyText indent (depth + 1) (y.zodField table) ∈
        ZodExpr.writeProperties indent depth properties := by
    rw [ZodExpr.writeProperties_eq_map]
    exact List.mem_map_of_mem hmem
  have hopening : EndsOutside (['\x7b'] ++ ['\n']) :=
    (endsOutside_opening rfl).append (Balanced.of_all (by decide)).endsOutside
  have hjoined := (standsIn_joinWith ['\n'] (.of_all (by decide)) hpiece hpieces (c := '\n')
    (by decide) (indent.pad depth ++ ['\x7d'])).prepend fun _ ↦ hopening
  have hargument : (x.zodShape table).argument indent depth = ['\x7b'] ++ ['\n'] ++
      (Json.joinWith [',', '\n'] (ZodExpr.writeProperties indent depth properties) ++
        '\n' :: (indent.pad depth ++ ['\x7d'])) := by
    rw [Item.zodShape_of_object hobject, ZodExpr.argument_object, ← hproperties]
    obtain ⟨p, rest, hcons⟩ := List.exists_cons_of_ne_nil (List.ne_nil_of_mem hmem)
    rw [hcons, ZodExpr.objectText]
    simp only [List.append_assoc, List.cons_append, List.nil_append]
  rw [hargument]
  exact standsIn_of_propertyText hjoined hpad

/-- Within the brackets of a union stand its options. -/
theorem standsIn_union (hindent : readable → indent.IsPlain) (hunion : x.IsOf .union)
    (htwo : 2 ≤ (x.options.getD []).length) (hy : y ∈ x.options.getD []) :
    StandsIn readable ((ZodPosition.option.expr table y).write indent depth)
      ((x.zodShape table).argument indent depth) := by
  rw [Item.zodShape_of_union hunion htwo, ZodExpr.argument_union, ZodExpr.writeOptions_eq_map]
  have hpieces (hr : readable) : ∀ piece ∈ ((x.options.getD []).map (Item.zodOption table)).map
      fun e ↦ e.write indent depth, Balanced piece := by
    rw [List.forall_mem_map, List.forall_mem_map]
    exact fun z _ ↦
      ZodExpr.balanced_write (hindent hr) (hasPlainBindings_expr .option table z) depth
  exact (standsIn_joinWith [' '] (.of_all (by decide))
    (List.mem_map_of_mem (List.mem_map_of_mem hy))
    hpieces (by decide) []).prepend fun _ ↦ endsOutside_opening rfl

/-- What stands within the brackets of a shape stands in the text of the item. -/
theorem standsIn_expr (position : ZodPosition) (table : ItemTable) (x : Item) :
    StandsIn readable ((x.zodShape table).argument indent depth)
      ((position.expr table x).write indent depth) := by
  rw [ZodExpr.write_eq_chain, calls_expr, ZodPosition.calls.eq_def]
  have hdescribed : StandsIn readable ((x.zodShape table).argument indent depth) (Call.chain
      (Call.described x.attributes ((x.zodShape table).lastCall indent depth))) :=
    Call.standsIn_chain _ _
  split
  · exact hdescribed.trans (Call.standsIn_chain _ _)
  · exact Call.standsIn_chain _ _

/-- The text of a module before the name that it exports. -/
theorem ZodModule.balanced_opening :
    Balanced "import \x7b z \x7d from \"zod\";\n\nexport const ".toList := by
  have hpieces : "import \x7b z \x7d from \"zod\";\n\nexport const ".toList =
      "import ".toList ++ ('\x7b' :: (" z ".toList ++ ['\x7d']) ++
        (" from ".toList ++ (doubleQuoted "zod".toList ++ ";\n\nexport const ".toList))) := rfl
  have hbrackets : Balanced ('\x7b' :: (" z ".toList ++ ['\x7d'])) :=
    .enclosed rfl rfl (.of_all (by decide))
  rw [hpieces]
  exact Balanced.append (.of_all (by decide)) (hbrackets.append (.append (.of_all (by decide))
    ((balanced_doubleQuoted _).append (.of_all (by decide)))))

/-- The text of a module between the name that it exports and its first line. -/
theorem ZodModule.endsOutside_object : EndsOutside " = z.object(\x7b\n".toList := by
  have hpieces : " = z.object(\x7b\n".toList =
      " = z.object".toList ++ (['('] ++ (['\x7b'] ++ ['\n'])) := rfl
  rw [hpieces]
  exact (Balanced.of_all (by decide)).endsOutside.append ((endsOutside_opening rfl).append
    ((endsOutside_opening rfl).append (Balanced.of_all (by decide)).endsOutside))

/-- The lines of a module hold its fields. -/
theorem standsIn_module (hindent : readable → indent.IsPlain) {m : ZodModule}
    (hname : readable → m.exportName.toList.all isPlain)
    (hbindings : ∀ p ∈ m.properties, p.2.HasPlainBindings) {p : String × ZodExpr}
    (hp : p ∈ m.properties) : StandsIn readable (p.2.write indent 1) (m.write indent) := by
  obtain ⟨earlier, later, hsplit⟩ := List.append_of_mem hp
  have hheader (hr : readable) : EndsOutside
      ("import \x7b z \x7d from \"zod\";\n\nexport const ".toList ++ m.exportName.toList ++
        " = z.object(\x7b\n".toList) :=
    (ZodModule.balanced_opening.append (.of_all (hname hr))).endsOutside.append
      ZodModule.endsOutside_object
  have hearlier (hr : readable) : Balanced (earlier.flatMap (ZodModule.writeProperty indent)) := by
    refine balanced_flatMap fun q hq ↦ ?_
    have htext : Balanced (ZodExpr.propertyText indent 1 q) := ZodExpr.balanced_propertyText
      (ZodExpr.balanced_write (hindent hr)
        (hbindings q (hsplit ▸ List.mem_append_left _ hq)) 1)
    rw [ZodModule.writeProperty_eq]
    exact (Balanced.of_all (hindent hr).unit).append (htext.append (.of_all (by decide)))
  have hwrite : ∃ rest, m.write indent =
      ("import \x7b z \x7d from \"zod\";\n\nexport const ".toList ++ m.exportName.toList ++
        " = z.object(\x7b\n".toList ++ earlier.flatMap (ZodModule.writeProperty indent)) ++
          ((indent.unit ++ ZodExpr.propertyText indent 1 p) ++ ',' :: rest) := by
    unfold ZodModule.write
    rw [hsplit, List.flatMap_append, List.flatMap_cons, ZodModule.writeProperty_eq]
    simp only [List.append_assoc, List.cons_append, List.nil_append]
    exact ⟨_, rfl⟩
  obtain ⟨rest, hwrite⟩ := hwrite
  have hline :
      StandsIn readable (indent.unit ++ ZodExpr.propertyText indent 1 p) (m.write indent) := by
    rw [hwrite]
    exact .mk (fun hr ↦ (hheader hr).append (hearlier hr).endsOutside) (by decide) rest
  exact standsIn_of_propertyText hline fun hr ↦ .of_all (hindent hr).unit

/-- **Every item that is written stands in the module.** -/
theorem Document.Writes.standsIn {d : Document} {position : ZodPosition}
    {exportName typeName : String} (hindent : readable → indent.IsPlain)
    (hname : readable → exportName.toList.all isPlain) (h : d.Writes position depth x) :
    StandsIn readable ((position.expr d.index x).write indent depth)
      ((d.zodModule exportName typeName).write indent) := by
  induction h with
  | @root x hx =>
    have hproperties : (d.zodModule exportName typeName).properties =
        d.fields.map (Item.zodField d.index) := Item.zodFieldList_eq_map d.index d.fields
    refine standsIn_module (p := x.zodField d.index) hindent hname ?_ ?_
    · rw [hproperties, List.forall_mem_map]
      exact fun z _ ↦ hasPlainBindings_expr .field d.index z
    · rw [hproperties]
      exact List.mem_map_of_mem hx
  | field _ hobject hy ih =>
    exact ((standsIn_object hindent hobject hy).trans (standsIn_expr _ _ _)).trans ih
  | option _ hunion htwo hy ih =>
    exact ((standsIn_union hindent hunion htwo hy).trans (standsIn_expr _ _ _)).trans ih

end Writing

/-! ## Settings -/

/-- Settings that put no bracket and no quote where the items of a module are written. -/
structure EmitterSettings.IsPlain (settings : EmitterSettings) : Prop where
  indent : settings.zodIndent.IsPlain
  exportName : settings.exportName.plain.toList.all isPlain

/-- How the module `code` writes an item at a position: with the call `own` for its shape, with its
description behind that and with what concerns the position behind both. -/
structure ZodPosition.Attaches (position : ZodPosition) (settings : EmitterSettings)
    (table : ItemTable) (depth : ℕ) (x : Item) (own : Call) (code : List Char) : Prop where
  method : own.method = x.ownMethod
  text : (position.expr table x).write settings.zodIndent depth =
    Call.chain (position.calls x.attributes own)
  stands : StandsIn settings.IsPlain (Call.chain (position.calls x.attributes own)) code
  once : (Call.described x.attributes own).filter (·.method = .describe) =
    if x.attributes.description.truthy then
      [⟨.describe, ZodExpr.valueText x.attributes.description⟩] else []
  /-- The text cannot be taken for other calls, nor can the part that an array is around. -/
  unique : settings.IsPlain → ∀ cs,
    (Call.Reads (Call.chain (position.calls x.attributes own)) cs ↔
      cs = position.calls x.attributes own) ∧
    (Call.Reads (Call.chain (Call.described x.attributes own)) cs ↔
      cs = Call.described x.attributes own)

namespace Document

/-- **Descriptions are attached once and in the right place.** A document has a module unless
something keeps it from being written, and whenever there is one, it writes its items like this. -/
theorem descriptions_attached (settings : EmitterSettings) (tools : Tools) (d : Document) :
    ((settings.emitIn tools .zod d).value.isOk ↔ settings.zodFaults d = []) ∧
      ∀ code, (settings.emitIn tools .zod d).value = .ok code →
        ∀ position depth x, d.Writes position depth x →
          ∃ own, position.Attaches settings d.index depth x own code.toList := by
  rw [value_emitIn]
  change ((settings.zodCode d).isOk ↔ _) ∧ ∀ code, settings.zodCode d = .ok code → _
  refine ⟨EmitterSettings.zodCode_isOk_iff, fun code hcode position depth x hx ↦ ?_⟩
  have htext : (position.expr d.index x).write settings.zodIndent depth = _ :=
    ZodExpr.write_eq_chain _
  rw [calls_expr] at htext
  have hmethod := method_zodShape d.index x
  refine ⟨_, hmethod, htext, ?_, filter_described x hmethod, fun hplain cs ↦ ⟨?_, ?_⟩⟩
  · rw [← htext, (EmitterSettings.zodCode_eq_ok_iff.mp hcode).2, String.toList_ofList]
    exact hx.standsIn (fun h ↦ h.indent) fun h ↦ h.exportName
  · refine Call.reads_chain_iff ?_
    rw [← calls_expr]
    exact ZodExpr.balanced_calls hplain.indent (hasPlainBindings_expr position d.index x) depth
  · refine Call.reads_chain_iff ?_
    rw [← calls_zodExpr]
    exact ZodExpr.balanced_calls hplain.indent (x.hasPlainBindings_zodExpr d.index) depth

/-- Several references that are called objects and have a description. -/
def followers : Item :=
  .mk { (Item.new "followers" .object "followers").attributes with
    reference := some "gone", isArray := true, description := .str "those behind" } none none

/-- An object with a description that has a union for a field, which may be such references. -/
def queue : Item :=
  .mk { (Item.new "queue" .object "queue").attributes with
      description := .str "one behind another" }
    (some [.mk (Item.new "rest" .union "rest").attributes none
      (some [followers, Item.new "nobody" .string "nobody"])]) none

/-- The description of a reference stands behind it and within the array, once. -/
theorem descriptions_attached_queue :
    ({} : EmitterSettings).IsPlain ∧ ∃ code own,
      (({} : EmitterSettings).emitIn {} .zod ⟨[queue]⟩).value = .ok code ∧ own.method = .lazy ∧
        StandsIn ({} : EmitterSettings).IsPlain (Call.chain [⟨.array, Call.chain
          [own, ⟨.describe, doubleQuoted "those behind".toList⟩]⟩]) code.toList := by
  refine ⟨⟨Indent.isPlain_ofText (by decide), by decide⟩, ?_⟩
  have hattached := (descriptions_attached {} {} ⟨[queue]⟩).2
  obtain ⟨code, hcode⟩ : ∃ code,
      (({} : EmitterSettings).emitIn {} .zod ⟨[queue]⟩).value = .ok code := ⟨_, rfl⟩
  have hwrites : Document.Writes ⟨[queue]⟩ .option 2 followers := by
    have hqueue : Document.Writes ⟨[queue]⟩ .field 1 queue := .root List.mem_cons_self
    exact .option (.field hqueue ⟨rfl, rfl⟩ List.mem_cons_self) ⟨rfl, rfl⟩ (by decide)
      List.mem_cons_self
  obtain ⟨own, hown⟩ := hattached code hcode .option 2 followers hwrites
  exact ⟨code, own, hcode, hown.method, hown.stands⟩

end Document

end SchemaTree
