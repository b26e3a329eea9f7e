import SchemaTree.Emission.ZodModule
import SchemaTree.Proofs.Brackets
import SchemaTree.Proofs.Variants

/-!
# Reading schema expressions back

No two expressions have the same text, unless they differ in nothing but values of the same JSON
text (`ZodExpr.write_eq_iff`). Three facts about texts that something follows carry this:

* the text of an expression is the letter `z` with calls behind it, one for its shape and one for
  each suffix. The arguments of a call are balanced, so the call ends where its bracket closes, and
  a text that does not go on with another call ends the expression (`ZodExpr.write_cancel`);
* a property key ends at the first colon behind it, or at the quote that ends it
  (`ZodExpr.propertyKey_cancel`);
* in a sequence of pieces that begin with a character of their own, a piece ends where the next one
  begins (`flatMap_cancel`).

What strings hold never matters, since a string cannot end before its last quote.
-/

namespace SchemaTree

open Text

/-! ## Texts told apart from what follows -/

section Cancel

/-- What stands before the first occurrence of a character is determined. -/
theorem append_cons_cancel {c : Char} {t u r s : List Char} (ht : c ∉ t) (hu : c ∉ u)
    (h : t ++ c :: r = u ++ c :: s) : t = u ∧ r = s := by
  induction t generalizing u with
  | nil =>
    cases u with
    | nil => exact ⟨rfl, (List.cons.inj h).2⟩
    | cons d u => exact absurd (List.cons.inj h).1 (List.ne_of_not_mem_cons hu)
  | cons b t ih =>
    cases u with
    | nil => exact absurd (List.cons.inj h).1.symm (List.ne_of_not_mem_cons ht)
    | cons d u =>
      obtain ⟨rfl, htail⟩ := List.cons.inj h
      obtain ⟨rfl, hrest⟩ :=
        ih (List.not_mem_of_not_mem_cons ht) (List.not_mem_of_not_mem_cons hu) htail
      exact ⟨rfl, hrest⟩

/-- **Sequences of pieces are told apart** if single pieces are, by a relation `R` and before the
texts of `Follows`. Every piece begins with the character `c`, and what follows the last one does
not. -/
theorem flatMap_cancel {α : Type} {piece : α → List Char} {R : α → α → Prop}
    (Follows : List Char → Prop) {c : Char} (hstart : ∀ x, (piece x).head? = some c)
    (hfollows : ∀ t, t.head? = some c → Follows t) {xs ys : List α} {r s : List Char}
    (hpiece : ∀ x ∈ xs, ∀ y ∈ ys, ∀ r s, Follows r → Follows s → piece x ++ r = piece y ++ s →
      R x y ∧ r = s)
    (hr : Follows r ∧ r.head? ≠ some c) (hs : Follows s ∧ s.head? ≠ some c)
    (h : xs.flatMap piece ++ r = ys.flatMap piece ++ s) : List.Forall₂ R xs ys ∧ r = s := by
  have hcons (x : α) (xs : List α) (r : List Char) :
      ((x :: xs).flatMap piece ++ r).head? = some c := by
    rw [List.flatMap_cons, List.append_assoc]
    rw [List.head?_append, hstart x]
    rfl
  have hrest {r : List Char} (hr : Follows r ∧ r.head? ≠ some c) (xs : List α) :
      Follows (xs.flatMap piece ++ r) := by
    cases xs with
    | nil => exact hr.1
    | cons x xs => exact hfollows _ (hcons x xs r)
  induction xs generalizing ys with
  | nil =>
    cases ys with
    | nil => exact ⟨.nil, h⟩
    | cons y ys => exact absurd ((congrArg List.head? h).trans (hcons y ys s)) hr.2
  | cons x xs ih =>
    cases ys with
    | nil => exact absurd ((congrArg List.head? h.symm).trans (hcons x xs r)) hs.2
    | cons y ys =>
      rw [List.flatMap_cons, List.flatMap_cons, List.append_assoc, List.append_assoc] at h
      obtain ⟨hxy, htail⟩ := hpiece x List.mem_cons_self y List.mem_cons_self _ _ (hrest hr xs)
        (hrest hs ys) h
      obtain ⟨hall, hend⟩ := ih (fun x' hx' y' hy' ↦
        hpiece x' (List.mem_cons_of_mem x hx') y' (List.mem_cons_of_mem y hy')) htail
      exact ⟨.cons hxy hall, hend⟩

theorem joinWith_cons (separator piece : List Char) (pieces : List (List Char)) :
    Json.joinWith separator (piece :: pieces) = piece ++ pieces.flatMap (separator ++ ·) := by
  induction pieces generalizing piece with
  | nil => rw [Json.joinWith, List.flatMap_nil, List.append_nil]
  | cons next pieces ih =>
    rw [Json.joinWith, ih, List.flatMap_cons, List.append_assoc, List.append_assoc]
    exact List.cons_ne_nil next pieces

/-- **Joined pieces are told apart** if single pieces are. The separator begins with the character
`c`, and what follows the last piece does not. -/
theorem joinWith_cancel {α : Type} {text : α → List Char} {R : α → α → Prop}
    {Follows : List Char → Prop} {c : Char} {separator : List Char}
    (hfollows : ∀ t, t.head? = some c → Follows t) {xs ys : List α} {r s : List Char}
    (hpiece : ∀ x ∈ xs, ∀ y ∈ ys, ∀ r s, Follows r → Follows s → text x ++ r = text y ++ s →
      R x y ∧ r = s)
    (hr : Follows r ∧ r.head? ≠ some c) (hs : Follows s ∧ s.head? ≠ some c) (hxs : xs ≠ [])
    (hys : ys ≠ [])
    (h : Json.joinWith (c :: separator) (xs.map text) ++ r =
      Json.joinWith (c :: separator) (ys.map text) ++ s) : List.Forall₂ R xs ys ∧ r = s := by
  -- with one more separator in front, every piece has one
  have hpieces {zs : List α} (hzs : zs ≠ []) :
      c :: separator ++ Json.joinWith (c :: separator) (zs.map text) =
        zs.flatMap fun z ↦ c :: separator ++ text z := by
    obtain ⟨z, zs, rfl⟩ := List.exists_cons_of_ne_nil hzs
    rw [List.map_cons, joinWith_cons, List.flatMap_cons, List.flatMap_map, List.append_assoc]
  have hstart (z : α) : (c :: separator ++ text z).head? = some c := rfl
  refine flatMap_cancel Follows hstart hfollows (fun x hx y hy r s hr hs hxy ↦ ?_) hr hs ?_
  · rw [List.append_assoc, List.append_assoc] at hxy
    exact hpiece x hx y hy r s hr hs (List.append_cancel_left hxy)
  · rw [← hpieces hxs, ← hpieces hys, List.append_assoc, List.append_assoc, h]

end Cancel

/-! ## Calls -/

/-- The methods that expressions call. -/
inductive Method where
  | string
  | number
  | boolean
  | datetime
  | unknown
  | literal
  | object
  | union
  | lazy
  | describe
  | array
  | optional
  | default
deriving DecidableEq

/-- The name of a method. -/
def Method.name : Method → List Char
  | string => "string".toList
  | number => "number".toList
  | boolean => "boolean".toList
  | datetime => "iso.datetime".toList
  | unknown => "unknown".toList
  | literal => "literal".toList
  | object => "object".toList
  | union => "union".toList
  | lazy => "lazy".toList
  | describe => "describe".toList
  | array => "array".toList
  | optional => "optional".toList
  | default => "default".toList

theorem Method.isPlain_name (m : Method) : m.name.all isPlain := by
  cases m <;> decide

theorem Method.name_injective {m m' : Method} (h : m.name = m'.name) : m = m' := by
  cases m <;> cases m' <;> first | rfl | exact absurd h (by decide)

/-- The call of a method. -/
structure Call where
  method : Method
  argument : List Char

namespace Call

variable {c c' : Call} {cs cs' : List Call} {r s : List Char}

/-- The text of a call. -/
def write (c : Call) : List Char := '.' :: (c.method.name ++ '(' :: (c.argument ++ [')']))

theorem balanced_write (h : Balanced c.argument) : Balanced c.write :=
  .cons (by decide) ((Balanced.of_all c.method.isPlain_name).append (.enclosed rfl rfl h))

theorem write_cancel (hc : Balanced c.argument) (hc' : Balanced c'.argument)
    (h : c.write ++ r = c'.write ++ s) : c = c' ∧ r = s := by
  obtain ⟨method, argument⟩ := c
  obtain ⟨method', argument'⟩ := c'
  have hwrite : method.name ++ '(' :: (argument ++ ')' :: r) =
      method'.name ++ '(' :: (argument' ++ ')' :: s) := by
    simpa [write] using h
  have hnotMem (m : Method) : '(' ∉ m.name := fun hmem ↦
    absurd (List.all_eq_true.mp m.isPlain_name _ hmem) (by decide)
  obtain ⟨hname, hargument⟩ := append_cons_cancel (hnotMem _) (hnotMem _) hwrite
  obtain rfl := Method.name_injective hname
  obtain ⟨rfl, hrest⟩ := Balanced.cancel hc hc' rfl rfl hargument
  exact ⟨rfl, (List.cons.inj hrest).2⟩

/-- The text of an expression with the given calls. -/
def chain (cs : List Call) : List Char := 'z' :: cs.flatMap write

theorem chain_append (cs : List Call) (c : Call) : chain (cs ++ [c]) = chain cs ++ c.write := by
  rw [chain, chain, List.flatMap_append, List.flatMap_singleton, List.cons_append]

theorem balanced_chain (h : ∀ c ∈ cs, Balanced c.argument) : Balanced (chain cs) := by
  refine .cons (by decide) ?_
  induction cs with
  | nil => exact .nil
  | cons c cs ih =>
    obtain ⟨hc, hcs⟩ := List.forall_mem_cons.mp h
    exact (balanced_write hc).append (ih hcs)

/-- A text that does not go on with a call. -/
def EndsChain (r : List Char) : Prop := r.head? ≠ some '.'

theorem chain_cancel (h : ∀ c ∈ cs, Balanced c.argument) (h' : ∀ c ∈ cs', Balanced c.argument)
    (hr : EndsChain r) (hs : EndsChain s) (heq : chain cs ++ r = chain cs' ++ s) :
    cs = cs' ∧ r = s := by
  have hcalls : cs.flatMap write ++ r = cs'.flatMap write ++ s := (List.cons.inj heq).2
  obtain ⟨hall, hrest⟩ := flatMap_cancel (fun _ ↦ True) (fun _ ↦ rfl) (fun _ _ ↦ trivial)
    (fun c hc c' hc' r s _ _ ↦ write_cancel (h c hc) (h' c' hc')) ⟨trivial, hr⟩ ⟨trivial, hs⟩ hcalls
  exact ⟨List.forall₂_eq_eq_eq ▸ hall, hrest⟩

end Call

/-- Indentation without brackets and quotes. -/
structure Indent.IsPlain (indent : Indent) : Prop where
  unit : indent.unit.all isPlain
  pad (depth : ℕ) : (indent.pad depth).all isPlain

namespace ZodExpr

variable {indent : Indent} {depth : ℕ} {e e' : ZodExpr}

/-! ## The calls of an expression -/

/-- The method that an expression calls last. -/
def method : ZodExpr → Method
  | .string => .string
  | .number => .number
  | .boolean => .boolean
  | .datetime => .datetime
  | .unknown => .unknown
  | .literal _ => .literal
  | .object _ => .object
  | .union _ => .union
  | .reference _ => .lazy
  | .describe .. => .describe
  | .array _ => .array
  | .optional _ => .optional
  | .default .. => .default

/-- What stands between the brackets of an object. -/
def objectText (indent : Indent) (depth : ℕ) : List (String × ZodExpr) → List Char
  | [] => []
  | p :: rest =>
    '\n' :: (Json.joinWith [',', '\n'] (writeProperties indent depth (p :: rest)) ++
      '\n' :: indent.pad depth)

/-- The text of a reference. -/
def referenceText : Option String → List Char
  | some binding => binding.toList
  | none => "z.unknown()".toList

/-- The text between the brackets of the last call. -/
def argument (indent : Indent) (depth : ℕ) : ZodExpr → List Char
  | .literal value => valueText value.toJson
  | .object properties => '\x7b' :: (objectText indent depth properties ++ ['\x7d'])
  | .union options =>
    '[' :: (Json.joinWith [',', ' '] (writeOptions indent depth options) ++ [']'])
  | .reference binding => "() => ".toList ++ referenceText binding
  | .describe _ description => valueText description
  | .array inner => inner.write indent depth
  | .default _ value => valueText value
  | _ => []

theorem argument_object (properties : List (String × ZodExpr)) :
    argument indent depth (.object properties) =
      '\x7b' :: (objectText indent depth properties ++ ['\x7d']) := rfl

theorem argument_union (options : List ZodExpr) :
    argument indent depth (.union options) =
      '[' :: (Json.joinWith [',', ' '] (writeOptions indent depth options) ++ [']']) := rfl

/-- The expression that a suffix follows. -/
def receiver? : ZodExpr → Option ZodExpr
  | .describe inner _ | .optional inner | .default inner _ => some inner
  | _ => none

/-- The last call of an expression. -/
def lastCall (indent : Indent) (depth : ℕ) (e : ZodExpr) : Call :=
  ⟨e.method, e.argument indent depth⟩

theorem append_closing (opening inner : List Char) (c d : Char) :
    opening ++ inner ++ [c, d] = opening ++ ((inner ++ [c]) ++ [d]) := by
  rw [List.append_assoc, List.append_assoc]
  rfl

/-- An expression is written behind the one that its last call is made on, which is `z` itself at
the beginning. -/
theorem write_eq (e : ZodExpr) :
    e.write indent depth =
      (e.receiver?.elim ['z'] fun inner ↦ inner.write indent depth) ++
        (e.lastCall indent depth).write := by
  cases e with
  | describe inner description =>
    change _ ++ _ ++ _ ++ _ = _
    simp only [List.append_assoc]
    rfl
  | default inner value =>
    change _ ++ _ ++ _ ++ _ = _
    simp only [List.append_assoc]
    rfl
  | object properties =>
    cases properties with
    | nil => rfl
    | cons p rest =>
      have hbody := List.append_assoc "z.object(\x7b\n".toList
        (Json.joinWith [',', '\n'] (writeProperties indent depth (p :: rest)))
        ('\n' :: indent.pad depth)
      exact (congrArg (· ++ ['\x7d', ')']) hbody).trans (append_closing _ _ _ _)
  | union options => exact append_closing _ _ _ _
  | reference binding => cases binding <;> rfl
  | _ => rfl

/-- The calls of an expression, in order. -/
def calls (indent : Indent) (depth : ℕ) : ZodExpr → List Call
  | .describe inner description =>
    inner.calls indent depth ++ [lastCall indent depth (.describe inner description)]
  | .optional inner => inner.calls indent depth ++ [lastCall indent depth (.optional inner)]
  | .default inner value =>
    inner.calls indent depth ++ [lastCall indent depth (.default inner value)]
  | e => [lastCall indent depth e]

theorem calls_eq (e : ZodExpr) :
    e.calls indent depth =
      (e.receiver?.elim [] fun inner ↦ inner.calls indent depth) ++ [e.lastCall indent depth] := by
  cases e <;> rfl

/-- **The text of an expression is the chain of its calls.** -/
theorem write_eq_chain : ∀ e : ZodExpr, e.write indent depth = Call.chain (e.calls indent depth)
  | .describe inner description | .default inner value | .optional inner => by
    rw [calls_eq, Call.chain_append, write_eq]
    exact congrArg (· ++ _) (write_eq_chain inner)
  | .string | .number | .boolean | .datetime | .unknown | .literal _ | .object _ | .union _
  | .reference _ | .array _ => by
    rw [calls_eq, Call.chain_append, write_eq]
    rfl

/-! ## Property keys -/

section Keys

variable {name name' : String} {r s t : List Char} {c : Char}

theorem isKeyPart_of_isUnquotedKey (h : Naming.isUnquotedKey name) (hc : c ∈ name.toList) :
    Naming.isKeyPart c ∨ c = '\n' := by
  have hword {word : List Char} (hword : Naming.isKeyWord word) (hc : c ∈ word) :
      Naming.isKeyPart c := by
    cases word with
    | nil => cases hc
    | cons b word =>
      rw [Naming.isKeyWord, Bool.and_eq_true] at hword
      rcases List.mem_cons.mp hc with rfl | hc
      · have hstart := hword.1
        simp only [Naming.isKeyStart, Naming.isKeyPart, Char.isAlphanum,
          Bool.or_eq_true] at hstart ⊢
        tauto
      · exact List.all_eq_true.mp hword.2 c hc
  rw [Naming.isUnquotedKey, Naming.dropFinalLineFeed] at h
  split at h
  · rename_i hlast
    have hsplit := List.dropLast_append_getLast? '\n' hlast
    rw [← hsplit, List.mem_append, List.mem_singleton] at hc
    exact hc.imp (hword h) id
  · exact .inl (hword h hc)

theorem notMem_of_isUnquotedKey (h : Naming.isUnquotedKey name) (hpart : ¬ Naming.isKeyPart c)
    (hc : c ≠ '\n') : c ∉ name.toList := fun hmem ↦
  (isKeyPart_of_isUnquotedKey h hmem).elim hpart hc

theorem isPlain_of_isUnquotedKey (h : Naming.isUnquotedKey name) : name.toList.all isPlain :=
  all_isPlain (fun _ hc ↦ isKeyPart_of_isUnquotedKey h hc) (by decide)

theorem doubleQuoted_cancel
    (h : doubleQuoted name.toList ++ r = doubleQuoted name'.toList ++ s) :
    name = name' ∧ r = s := by
  have hread {name : String} {r : List Char} :
      Json.readString [] .plain ⟨[], none⟩ ((doubleQuoted name.toList ++ r).tail) =
        .ok (name, r) := by
    have htail : (doubleQuoted name.toList ++ r).tail =
        name.toList.flatMap doubleQuotedChar ++ '"' :: r := by
      rw [doubleQuoted, List.cons_append, List.tail_cons, List.append_assoc, List.singleton_append]
    rw [htail, Json.readString_doubleQuoted]
  have hsame := hread.symm.trans ((congrArg _ (congrArg List.tail h)).trans hread)
  exact Prod.mk.inj (Except.ok.inj hsame)

/-- No unquoted key begins like a quoted one. -/
theorem unquoted_ne_quoted (h : Naming.isUnquotedKey name) {text : List Char} :
    name.toList ++ t ≠ doubleQuoted text ++ r := by
  intro heq
  cases hname : name.toList with
  | nil =>
    rw [Naming.isUnquotedKey, hname] at h
    exact absurd h (by decide)
  | cons c rest =>
    rw [hname] at heq
    obtain rfl : c = '"' := (List.cons.inj heq).1
    have hquote : '"' ∉ name.toList := notMem_of_isUnquotedKey h (by decide) (by decide)
    rw [hname] at hquote
    exact hquote List.mem_cons_self

/-- **A property key is told apart** from what follows the colon behind it. -/
theorem propertyKey_cancel (h : propertyKey name ++ ':' :: r = propertyKey name' ++ ':' :: s) :
    name = name' ∧ r = s := by
  rw [propertyKey, propertyKey] at h
  split at h <;> split at h
  · rename_i hname hname'
    have hcolon {name : String} (hname : Naming.isUnquotedKey name) : ':' ∉ name.toList :=
      notMem_of_isUnquotedKey hname (by decide) (by decide)
    obtain ⟨hsame, hrest⟩ := append_cons_cancel (hcolon hname) (hcolon hname') h
    exact ⟨String.toList_injective hsame, hrest⟩
  · rename_i hname _
    exact absurd h (unquoted_ne_quoted hname)
  · rename_i hname'
    exact absurd h.symm (unquoted_ne_quoted hname')
  · obtain ⟨hsame, hrest⟩ := doubleQuoted_cancel h
    exact ⟨hsame, (List.cons.inj hrest).2⟩

theorem balanced_propertyKey (name : String) : Balanced (propertyKey name) := by
  rw [propertyKey]
  split
  · rename_i h
    exact .of_all (isPlain_of_isUnquotedKey h)
  · exact balanced_doubleQuoted _

end Keys

/-! ## Balance -/

/-- No binding that an expression refers to has a bracket or a quote in it. -/
inductive HasPlainBindings : ZodExpr → Prop where
  | string : HasPlainBindings .string
  | number : HasPlainBindings .number
  | boolean : HasPlainBindings .boolean
  | datetime : HasPlainBindings .datetime
  | unknown : HasPlainBindings .unknown
  | literal (value : Scalar) : HasPlainBindings (.literal value)
  | object {properties : List (String × ZodExpr)} (h : ∀ p ∈ properties, HasPlainBindings p.2) :
    HasPlainBindings (.object properties)
  | union {options : List ZodExpr} (h : ∀ e ∈ options, HasPlainBindings e) :
    HasPlainBindings (.union options)
  | reference {binding : Option String} (h : ∀ b ∈ binding, b.toList.all isPlain) :
    HasPlainBindings (.reference binding)
  | describe {e : ZodExpr} (h : HasPlainBindings e) (description : Json) :
    HasPlainBindings (.describe e description)
  | array {e : ZodExpr} (h : HasPlainBindings e) : HasPlainBindings (.array e)
  | optional {e : ZodExpr} (h : HasPlainBindings e) : HasPlainBindings (.optional e)
  | default {e : ZodExpr} (h : HasPlainBindings e) (value : Json) :
    HasPlainBindings (.default e value)

/-- The text of a property. -/
def propertyText (indent : Indent) (depth : ℕ) (p : String × ZodExpr) : List Char :=
  propertyKey p.1 ++ ':' :: ' ' :: p.2.write indent depth

theorem writeProperties_eq_map (properties : List (String × ZodExpr)) :
    writeProperties indent depth properties =
      properties.map fun p ↦ indent.pad depth ++ indent.unit ++
        propertyText indent (depth + 1) p := by
  induction properties with
  | nil => rfl
  | cons p rest ih => rw [writeProperties, ih, List.map_cons, propertyText, ← List.append_assoc]

theorem writeOptions_eq_map (options : List ZodExpr) :
    writeOptions indent depth options = options.map fun e ↦ e.write indent depth := by
  induction options with
  | nil => rfl
  | cons e rest ih => rw [writeOptions, ih, List.map_cons]

theorem balanced_propertyText {p : String × ZodExpr} (h : Balanced (p.2.write indent depth)) :
    Balanced (propertyText indent depth p) :=
  (balanced_propertyKey p.1).append (.cons (by decide) (.cons (by decide) h))

theorem balanced_objectText (hindent : indent.IsPlain) {properties : List (String × ZodExpr)}
    (h : ∀ p ∈ properties, Balanced (p.2.write indent (depth + 1))) :
    Balanced (objectText indent depth properties) := by
  cases properties with
  | nil => exact .nil
  | cons p rest =>
    have hpad : Balanced (indent.pad depth) := .of_all (hindent.pad depth)
    refine .cons (by decide) ((Balanced.joinWith (.of_all (by decide)) ?_).append
      (.cons (by decide) hpad))
    rw [writeProperties_eq_map, List.forall_mem_map]
    intro p hp
    exact (hpad.append (.of_all hindent.unit)).append (balanced_propertyText (h p hp))

theorem balanced_referenceText {binding : Option String}
    (h : ∀ b ∈ binding, b.toList.all isPlain) : Balanced (referenceText binding) := by
  cases binding with
  | none =>
    exact Balanced.append (t := "z.unknown".toList) (.of_all (by decide)) (.enclosed rfl rfl .nil)
  | some b => exact .of_all (h b rfl)

/-- All calls of an expression have balanced arguments. -/
theorem balanced_calls (hindent : indent.IsPlain) (he : e.HasPlainBindings) (depth : ℕ) :
    ∀ c ∈ e.calls indent depth, Balanced c.argument := by
  induction he generalizing depth with
  | string | number | boolean | datetime | unknown => exact List.forall_mem_singleton.mpr .nil
  | literal value => exact List.forall_mem_singleton.mpr (Json.balanced_write _ _ _)
  | object h ih =>
    refine List.forall_mem_singleton.mpr (.enclosed rfl rfl (balanced_objectText hindent ?_))
    intro p hp
    rw [write_eq_chain]
    exact Call.balanced_chain (ih p hp (depth + 1))
  | union h ih =>
    refine List.forall_mem_singleton.mpr (.enclosed rfl rfl (.joinWith (.of_all (by decide)) ?_))
    rw [writeOptions_eq_map, List.forall_mem_map]
    intro e he
    rw [write_eq_chain]
    exact Call.balanced_chain (ih e he depth)
  | reference h =>
    have harrow : Balanced "() => ".toList :=
      (Balanced.enclosed rfl rfl .nil).append (.of_all (t := " => ".toList) (by decide))
    exact List.forall_mem_singleton.mpr (harrow.append (balanced_referenceText h))
  | describe h description ih | default h value ih =>
    rw [calls_eq]
    exact List.forall_mem_append.mpr
      ⟨ih depth, List.forall_mem_singleton.mpr (Json.balanced_write _ _ _)⟩
  | optional h ih =>
    rw [calls_eq]
    exact List.forall_mem_append.mpr ⟨ih depth, List.forall_mem_singleton.mpr .nil⟩
  | array h ih =>
    refine List.forall_mem_singleton.mpr ?_
    change Balanced (write indent depth _)
    rw [write_eq_chain]
    exact Call.balanced_chain (ih depth)

theorem balanced_write (hindent : indent.IsPlain) (he : e.HasPlainBindings) (depth : ℕ) :
    Balanced (e.write indent depth) := by
  rw [write_eq_chain]
  exact Call.balanced_chain (balanced_calls hindent he depth)

/-! ## Comparison -/

mutual

/-- Expressions that are the same up to values of the same JSON text. -/
inductive Alike : ZodExpr → ZodExpr → Prop where
  | string : Alike .string .string
  | number : Alike .number .number
  | boolean : Alike .boolean .boolean
  | datetime : Alike .datetime .datetime
  | unknown : Alike .unknown .unknown
  | literal {v w : Scalar} (h : valueText v.toJson = valueText w.toJson) :
    Alike (.literal v) (.literal w)
  | object {ps qs : List (String × ZodExpr)} (h : List.Forall₂ AlikeProperty ps qs) :
    Alike (.object ps) (.object qs)
  | union {es fs : List ZodExpr} (h : List.Forall₂ Alike es fs) : Alike (.union es) (.union fs)
  | reference {binding binding' : Option String} (h : binding = binding') :
    Alike (.reference binding) (.reference binding')
  | describe {e f : ZodExpr} {d d' : Json} (h : Alike e f) (hd : valueText d = valueText d') :
    Alike (.describe e d) (.describe f d')
  | array {e f : ZodExpr} (h : Alike e f) : Alike (.array e) (.array f)
  | optional {e f : ZodExpr} (h : Alike e f) : Alike (.optional e) (.optional f)
  | default {e f : ZodExpr} {v w : Json} (h : Alike e f) (hv : valueText v = valueText w) :
    Alike (.default e v) (.default f w)

/-- Properties of the same name whose expressions are alike. -/
inductive AlikeProperty : String × ZodExpr → String × ZodExpr → Prop where
  | mk {name : String} {e f : ZodExpr} (h : Alike e f) : AlikeProperty (name, e) (name, f)

end

theorem Alike.method_eq (h : e.Alike e') : e.method = e'.method := by
  cases h <;> rfl

/-! ## Reading an expression back -/

section Reading

variable {r s : List Char} {p q : String × ZodExpr}

/-- **An expression is told apart from what follows**, if that is not a call. -/
theorem write_cancel (hindent : indent.IsPlain) (he : e.HasPlainBindings)
    (he' : e'.HasPlainBindings)
    (hr : Call.EndsChain r) (hs : Call.EndsChain s)
    (h : e.write indent depth ++ r = e'.write indent depth ++ s) :
    e.calls indent depth = e'.calls indent depth ∧ r = s := by
  rw [write_eq_chain, write_eq_chain] at h
  exact Call.chain_cancel (balanced_calls hindent he depth) (balanced_calls hindent he' depth)
    hr hs h

/-- Where the texts of two expressions agree, so do what their last calls are made on, the methods
and the arguments. -/
theorem call_eq_of_write_eq (hindent : indent.IsPlain) (he : e.HasPlainBindings)
    (he' : e'.HasPlainBindings) (h : e.write indent depth = e'.write indent depth) :
    (e.receiver?.elim ['z'] fun inner ↦ inner.write indent depth) =
        (e'.receiver?.elim ['z'] fun inner ↦ inner.write indent depth) ∧
      e.method = e'.method ∧ e.argument indent depth = e'.argument indent depth := by
  have hcalls := (write_cancel hindent he he' (r := []) (s := []) nofun nofun (by rw [h])).1
  rw [calls_eq, calls_eq] at hcalls
  obtain ⟨hreceiver, hlast⟩ := List.append_inj' hcalls rfl
  have hcall := Call.mk.inj (List.cons.inj hlast).1
  have hchain (e : ZodExpr) : (e.receiver?.elim ['z'] fun inner ↦ inner.write indent depth) =
      Call.chain (e.receiver?.elim [] fun inner ↦ inner.calls indent depth) := by
    cases e.receiver? with
    | none => rfl
    | some inner => exact write_eq_chain inner
  refine ⟨?_, hcall.1, hcall.2⟩
  rw [hchain, hchain, hreceiver]

/-- A property is told apart from what follows. -/
theorem propertyText_cancel (hindent : indent.IsPlain) (hp : p.2.HasPlainBindings)
    (hq : q.2.HasPlainBindings) (hr : Call.EndsChain r) (hs : Call.EndsChain s)
    (h : propertyText indent depth p ++ r = propertyText indent depth q ++ s) :
    (p.1 = q.1 ∧ p.2.write indent depth = q.2.write indent depth) ∧ r = s := by
  rw [propertyText, propertyText, List.append_assoc, List.append_assoc] at h
  obtain ⟨hname, htext⟩ := propertyKey_cancel h
  obtain ⟨hcalls, hrest⟩ := write_cancel hindent hp hq hr hs (List.cons.inj htext).2
  refine ⟨⟨hname, ?_⟩, hrest⟩
  rw [write_eq_chain, write_eq_chain, hcalls]

end Reading

theorem write_congr
    (hreceiver : (e.receiver?.elim ['z'] fun inner ↦ inner.write indent depth) =
      e'.receiver?.elim ['z'] fun inner ↦ inner.write indent depth)
    (hmethod : e.method = e'.method)
    (hargument : e.argument indent depth = e'.argument indent depth) :
    e.write indent depth = e'.write indent depth := by
  rw [write_eq e, write_eq e', hreceiver, lastCall, lastCall, hmethod, hargument]

/-- Expressions that are alike have the same text. -/
theorem Alike.write_eq (he : e.HasPlainBindings) (h : e.Alike e') :
    e.write indent depth = e'.write indent depth := by
  induction he generalizing e' depth with
  | string | number | boolean | datetime | unknown =>
    cases h
    rfl
  | literal value =>
    cases h with
    | literal h => exact write_congr rfl rfl h
  | @object ps _ ih =>
    cases h with
    | @object _ qs h =>
      have hproperties : writeProperties indent depth ps = writeProperties indent depth qs := by
        rw [writeProperties_eq_map, writeProperties_eq_map]
        refine map_eq_map_of_forall₂ (forall₂_imp_of_mem h fun p hp q _ hpq ↦ ?_)
        obtain ⟨hpq⟩ := hpq
        rw [propertyText, propertyText, ih _ hp hpq]
      refine write_congr rfl rfl ?_
      cases h with
      | nil => rfl
      | cons hp hps =>
        change '\x7b' :: (_ ++ _) = '\x7b' :: (_ ++ _)
        rw [objectText, objectText, hproperties]
  | @union es _ ih =>
    cases h with
    | @union _ fs h =>
      refine write_congr rfl rfl ?_
      have hoptions : writeOptions indent depth es = writeOptions indent depth fs := by
        rw [writeOptions_eq_map, writeOptions_eq_map]
        exact map_eq_map_of_forall₂ (forall₂_imp_of_mem h fun e he f _ hef ↦ ih e he hef)
      change '[' :: (_ ++ _) = '[' :: (_ ++ _)
      rw [hoptions]
  | reference _ =>
    cases h with
    | reference h => rw [h]
  | describe _ description ih =>
    cases h with
    | describe h hd => exact write_congr (ih h) rfl hd
  | array _ ih =>
    cases h with
    | array h => exact write_congr rfl rfl (ih h)
  | optional _ ih =>
    cases h with
    | optional h => exact write_congr (ih h) rfl rfl
  | default _ value ih =>
    cases h with
    | default h hv => exact write_congr (ih h) rfl hv

section Inversion

variable {ps qs : List (String × ZodExpr)} {es fs : List ZodExpr}

theorem endsChain_of_head? {t : List Char} {c : Char} (hc : c ≠ '.') (ht : t.head? = some c) :
    Call.EndsChain t := by
  rw [Call.EndsChain, ht]
  exact fun h ↦ hc (Option.some.inj h)

/-- Properties are told apart if their expressions are. -/
theorem alikeProperty_of_propertyText {p q : String × ZodExpr} {r s : List Char}
    (hindent : indent.IsPlain) (hp : p.2.HasPlainBindings) (hq : q.2.HasPlainBindings)
    (ih : p.2.write indent depth = q.2.write indent depth → p.2.Alike q.2)
    (hr : Call.EndsChain r) (hs : Call.EndsChain s)
    (h : propertyText indent depth p ++ r = propertyText indent depth q ++ s) :
    AlikeProperty p q ∧ r = s := by
  obtain ⟨⟨hname, htext⟩, hrest⟩ := propertyText_cancel hindent hp hq hr hs h
  obtain ⟨name, e⟩ := p
  obtain ⟨name', e'⟩ := q
  obtain rfl : name = name' := hname
  exact ⟨.mk (ih htext), hrest⟩

/-- A binding is no expression. -/
theorem referenceText_injective {binding binding' : Option String}
    (h : ∀ b ∈ binding, b.toList.all isPlain) (h' : ∀ b ∈ binding', b.toList.all isPlain)
    (htext : referenceText binding = referenceText binding') : binding = binding' := by
  have hne {b : String} (hb : b.toList.all isPlain) : b.toList ≠ referenceText none := by
    intro heq
    rw [heq] at hb
    exact absurd hb (by decide)
  cases binding with
  | none =>
    cases binding' with
    | none => rfl
    | some b' => exact absurd htext.symm (hne (h' b' rfl))
  | some b =>
    cases binding' with
    | none => exact absurd htext (hne (h b rfl))
    | some b' => exact congrArg some (String.toList_injective htext)

theorem alike_of_objectText (hindent : indent.IsPlain) (hps : ∀ p ∈ ps, p.2.HasPlainBindings)
    (hqs : ∀ q ∈ qs, q.2.HasPlainBindings)
    (ih : ∀ p ∈ ps, ∀ q ∈ qs,
      p.2.write indent (depth + 1) = q.2.write indent (depth + 1) → p.2.Alike q.2)
    (h : objectText indent depth ps = objectText indent depth qs) :
    List.Forall₂ AlikeProperty ps qs := by
  cases ps with
  | nil =>
    cases qs with
    | nil => exact .nil
    | cons q qs => exact absurd h nofun
  | cons p ps =>
    cases qs with
    | nil => exact absurd h nofun
    | cons q qs =>
      have htext := (List.cons.inj h).2
      rw [writeProperties_eq_map, writeProperties_eq_map] at htext
      have hend : Call.EndsChain ('\n' :: indent.pad depth) ∧
          ('\n' :: indent.pad depth).head? ≠ some ',' := ⟨nofun, nofun⟩
      refine (joinWith_cancel (fun t ↦ endsChain_of_head? (by decide))
        (fun p hp q hq r s hr hs h ↦ ?_)
        hend hend (List.cons_ne_nil p ps) (List.cons_ne_nil q qs) htext).1
      rw [List.append_assoc _ _ r, List.append_assoc _ _ s] at h
      exact alikeProperty_of_propertyText hindent (hps p hp) (hqs q hq) (ih p hp q hq) hr hs
        (List.append_cancel_left h)

theorem alike_of_optionsText (hindent : indent.IsPlain) (hes : ∀ e ∈ es, e.HasPlainBindings)
    (hfs : ∀ f ∈ fs, f.HasPlainBindings)
    (ih : ∀ e ∈ es, ∀ f ∈ fs, e.write indent depth = f.write indent depth → e.Alike f)
    (h : Json.joinWith [',', ' '] (writeOptions indent depth es) ++ [']'] =
      Json.joinWith [',', ' '] (writeOptions indent depth fs) ++ [']']) :
    List.Forall₂ Alike es fs := by
  rw [writeOptions_eq_map, writeOptions_eq_map] at h
  have hnonempty (e : ZodExpr) (es : List ZodExpr) :
      (Json.joinWith [',', ' '] ((e :: es).map fun e ↦ e.write indent depth) ++ [']']).head? =
        some 'z' := by
    rw [List.map_cons, joinWith_cons, write_eq_chain]
    rfl
  cases es with
  | nil =>
    cases fs with
    | nil => exact .nil
    | cons f fs => exact absurd ((congrArg List.head? h).trans (hnonempty f fs)) nofun
  | cons e es =>
    cases fs with
    | nil => exact absurd ((congrArg List.head? h).symm.trans (hnonempty e es)) nofun
    | cons f fs =>
      have hend : Call.EndsChain [']'] ∧ [']'].head? ≠ some ',' := ⟨nofun, nofun⟩
      refine (joinWith_cancel (fun t ↦ endsChain_of_head? (by decide))
        (fun e he f hf r s hr hs h ↦ ?_)
        hend hend (List.cons_ne_nil e es) (List.cons_ne_nil f fs) h).1
      obtain ⟨hcalls, hrest⟩ := write_cancel hindent (hes e he) (hfs f hf) hr hs h
      refine ⟨ih e he f hf ?_, hrest⟩
      rw [write_eq_chain, write_eq_chain, hcalls]

/-- Expressions of the same text are alike. -/
theorem alike_of_write_eq (hindent : indent.IsPlain) (he : e.HasPlainBindings)
    (he' : e'.HasPlainBindings) (h : e.write indent depth = e'.write indent depth) :
    e.Alike e' := by
  induction he generalizing e' depth with
  | string | number | boolean | datetime | unknown =>
    obtain ⟨-, hmethod, -⟩ := call_eq_of_write_eq hindent (by constructor) he' h
    cases he' <;> first | constructor | exact absurd hmethod nofun
  | literal value =>
    obtain ⟨-, hmethod, hargument⟩ := call_eq_of_write_eq hindent (.literal value) he' h
    cases he' with
    | literal => exact .literal hargument
    | _ => exact absurd hmethod nofun
  | object hps ih =>
    obtain ⟨-, hmethod, hargument⟩ := call_eq_of_write_eq hindent (.object hps) he' h
    cases he' with
    | object hqs =>
      have htext := List.append_cancel_right (List.cons.inj hargument).2
      exact .object (alike_of_objectText hindent hps hqs (fun p hp q hq ↦ ih p hp (hqs q hq)) htext)
    | _ => exact absurd hmethod nofun
  | union hes ih =>
    obtain ⟨-, hmethod, hargument⟩ := call_eq_of_write_eq hindent (.union hes) he' h
    cases he' with
    | union hfs =>
      have htext := (List.cons.inj hargument).2
      exact .union (alike_of_optionsText hindent hes hfs (fun e he f hf ↦ ih e he (hfs f hf)) htext)
    | _ => exact absurd hmethod nofun
  | @reference binding hbinding =>
    obtain ⟨-, hmethod, hargument⟩ := call_eq_of_write_eq hindent (.reference hbinding) he' h
    cases he' with
    | @reference binding' hbinding' =>
      have htext : referenceText binding = referenceText binding' :=
        List.append_cancel_left hargument
      exact .reference (referenceText_injective hbinding hbinding' htext)
    | _ => exact absurd hmethod nofun
  | describe he description ih =>
    obtain ⟨hreceiver, hmethod, hargument⟩ :=
      call_eq_of_write_eq hindent (.describe he description) he' h
    cases he' with
    | describe hf description' => exact .describe (ih hf hreceiver) hargument
    | _ => exact absurd hmethod nofun
  | array he ih =>
    obtain ⟨-, hmethod, hargument⟩ := call_eq_of_write_eq hindent (.array he) he' h
    cases he' with
    | array hf => exact .array (ih hf hargument)
    | _ => exact absurd hmethod nofun
  | optional he ih =>
    obtain ⟨hreceiver, hmethod, -⟩ := call_eq_of_write_eq hindent (.optional he) he' h
    cases he' with
    | optional hf => exact .optional (ih hf hreceiver)
    | _ => exact absurd hmethod nofun
  | default he value ih =>
    obtain ⟨hreceiver, hmethod, hargument⟩ := call_eq_of_write_eq hindent (.default he value) he' h
    cases he' with
    | default hf value' => exact .default (ih hf hreceiver) hargument
    | _ => exact absurd hmethod nofun

/-- **Unique readability.** Two expressions have the same text exactly if they are alike. -/
theorem write_eq_iff (hindent : indent.IsPlain) (he : e.HasPlainBindings)
    (he' : e'.HasPlainBindings) :
    e.write indent depth = e'.write indent depth ↔ e.Alike e' :=
  ⟨alike_of_write_eq hindent he he', Alike.write_eq he⟩

end Inversion

end ZodExpr

/-! ## Modules -/

namespace ZodModule

variable {indent : Indent} {ps qs : List (String × ZodExpr)}

theorem writeProperty_eq (p : String × ZodExpr) :
    writeProperty indent p = indent.unit ++ (ZodExpr.propertyText indent 1 p ++ [',', '\n']) := by
  rw [writeProperty, ZodExpr.propertyText, List.append_assoc, List.append_assoc, List.append_assoc]

/-- Between the same names, what a module holds is what its lines hold. -/
theorem write_eq_write_iff {exportName typeName : String} :
    (ZodModule.mk exportName typeName ps).write indent =
        (ZodModule.mk exportName typeName qs).write indent ↔
      ps.flatMap (writeProperty indent) = qs.flatMap (writeProperty indent) := by
  unfold write
  rw [List.append_left_inj, List.append_left_inj, List.append_left_inj, List.append_left_inj,
    List.append_left_inj, List.append_right_inj]

/-- **Modules are told apart** exactly if their properties are. -/
theorem write_eq_iff {exportName typeName : String} (hindent : indent.IsPlain) {c : Char}
    (hunit : indent.unit.head? = some c) (hps : ∀ p ∈ ps, p.2.HasPlainBindings)
    (hqs : ∀ q ∈ qs, q.2.HasPlainBindings) :
    (ZodModule.mk exportName typeName ps).write indent =
        (ZodModule.mk exportName typeName qs).write indent ↔
      List.Forall₂ ZodExpr.AlikeProperty ps qs := by
  have hstart (p : String × ZodExpr) : (writeProperty indent p).head? = some c := by
    rw [writeProperty_eq, List.head?_append, hunit]
    rfl
  have hcomma (r : List Char) : Call.EndsChain ([',', '\n'] ++ r) := nofun
  rw [write_eq_write_iff]
  constructor
  · intro h
    refine (flatMap_cancel (fun _ ↦ True) (r := []) (s := []) hstart (fun _ _ ↦ trivial)
      (fun p hp q hq r s _ _ h ↦ ?_) ⟨trivial, nofun⟩ ⟨trivial, nofun⟩ (congrArg (· ++ []) h)).1
    rw [writeProperty_eq, writeProperty_eq, List.append_assoc, List.append_assoc,
      List.append_assoc, List.append_assoc] at h
    obtain ⟨halike, hrest⟩ := ZodExpr.alikeProperty_of_propertyText hindent (hps p hp) (hqs q hq)
      (ZodExpr.alike_of_write_eq hindent (hps p hp) (hqs q hq)) (hcomma r) (hcomma s)
      (List.append_cancel_left h)
    exact ⟨halike, List.append_cancel_left hrest⟩
  · intro h
    have hproperty : List.Forall₂ (fun p q ↦ writeProperty indent p = writeProperty indent q)
        ps qs :=
      forall₂_imp_of_mem h fun p hp q _ hpq ↦ by
        obtain ⟨hpq⟩ := hpq
        rw [writeProperty, writeProperty, hpq.write_eq (hps _ hp)]
    rw [List.flatMap_def, List.flatMap_def, map_eq_map_of_forall₂ hproperty]

end ZodModule

end SchemaTree
