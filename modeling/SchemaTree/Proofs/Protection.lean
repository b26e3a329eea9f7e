import SchemaTree.Command.Run
import SchemaTree.Proofs.Members
import SchemaTree.Proofs.Steps

/-!
# Output that exists is not written over

An emission only writes over what exists if that was asked for, by an option or by a setting. The
argument has one part for each place where the request could come from unasked. Splitting arguments
never makes up a flag (`CommandForm.mem_of_split`), assigning settings never makes up a mode
(`EmitterSettings.protects_of_ofJson`), and no step of a run but the last touches the files at all,
where the last refuses what exists (`keeps_write`).

A mode that is no text is the exception. It is kept as it is, and writing compares it with the mode
that protects, so any such value asks for nothing and still removes the protection
(`exists_unasked_overwrite`).
-/

namespace SchemaTree

open Json

/-! ## Flags on the command line -/

namespace CommandForm

variable {f : CommandForm} {o : OptionForm} {argument : String} {group : OptionGroup}

/-- A long option with a value attached or to come has one, and a flag is the argument itself. -/
theorem readLong_eq_ok (h : f.readLong argument = .ok group) (ho : o.value = none) :
    (∀ v, (o, v) ∈ group.complete → argument = o.long) ∧
      ∀ name, group.pending ≠ some (o, name) := by
  simp only [readLong] at h
  split at h
  · exact absurd h nofun
  · next found hfound =>
    have hlong : found.long = String.ofList (argument.toList.takeWhile (· ≠ '=')) := by
      simpa using List.find?_some hfound
    split at h
    · next hattached =>
      obtain rfl := Except.ok.inj h
      have hall : argument.toList.takeWhile (· ≠ '=') = argument.toList := by
        have := List.takeWhile_append_dropWhile (p := fun c ↦ decide (c ≠ '='))
          (l := argument.toList)
        rwa [hattached, List.append_nil] at this
      refine ⟨?_, nofun⟩
      intro v hmem
      obtain ⟨rfl, -⟩ := Prod.mk.inj (List.mem_singleton.mp hmem)
      rw [hlong, hall, String.ofList_toList]
    · exact absurd h nofun
    · next hvalue _ =>
      obtain rfl := Except.ok.inj h
      refine ⟨nofun, ?_⟩
      intro name hpending
      obtain ⟨rfl, -⟩ := Prod.mk.inj (Option.some.inj hpending)
      exact absurd (ho.symm.trans hvalue) nofun
    · next hvalue _ =>
      obtain rfl := Except.ok.inj h
      refine ⟨?_, nofun⟩
      intro v hmem
      obtain ⟨rfl, -⟩ := Prod.mk.inj (List.mem_singleton.mp hmem)
      exact absurd (ho.symm.trans hvalue) nofun

/-- An option without a short name is in no group of short options. -/
theorem readShort_eq_ok {characters : List Char} (h : f.readShort characters = .ok group)
    (ho : o.short = none) :
    (∀ v, (o, v) ∉ group.complete) ∧ ∀ name, group.pending ≠ some (o, name) := by
  induction characters generalizing group with
  | nil =>
    obtain rfl := Except.ok.inj h
    exact ⟨nofun, nofun⟩
  | cons c rest ih =>
    rw [readShort] at h
    split at h
    · exact absurd h nofun
    · next found hfound =>
      have hne : found ≠ o := by
        rintro rfl
        have hshort : found.short = some c := by simpa using List.find?_some hfound
        exact absurd (ho.symm.trans hshort) nofun
      split at h
      · split at h
        · next inner hinner =>
          obtain rfl := Except.ok.inj h
          obtain ⟨hcomplete, hpending⟩ := ih hinner
          refine ⟨?_, hpending⟩
          rintro v (_ | ⟨_, hmem⟩)
          · exact hne rfl
          · exact hcomplete v hmem
        · exact absurd h nofun
      · split at h
        · obtain rfl := Except.ok.inj h
          refine ⟨nofun, ?_⟩
          intro name hpending
          exact hne (Prod.mk.inj (Option.some.inj hpending)).1
        · obtain rfl := Except.ok.inj h
          refine ⟨?_, nofun⟩
          intro v hmem
          exact hne (Prod.mk.inj (List.mem_singleton.mp hmem)).1.symm

theorem readOptions_eq_ok (h : f.readOptions argument = .ok group) (hvalue : o.value = none)
    (hshort : o.short = none) :
    (∀ v, (o, v) ∈ group.complete → argument = o.long) ∧
      ∀ name, group.pending ≠ some (o, name) := by
  rw [readOptions] at h
  split at h
  · exact readLong_eq_ok h hvalue
  · obtain ⟨hcomplete, hpending⟩ := readShort_eq_ok h hshort
    exact ⟨fun v hmem ↦ absurd hmem (hcomplete v), hpending⟩

variable {mixed : Bool} {arguments : List String} {a : Arguments} {v : String}

/-- **No flag is made up.** A flag without a short name is among the options of arguments only if
its name is among the arguments. -/
theorem mem_of_split (h : f.split mixed arguments = .ok a) (hvalue : o.value = none)
    (hshort : o.short = none) (hmem : (o, v) ∈ a.options) : o.long ∈ arguments := by
  fun_induction f.split mixed arguments generalizing a with
  | case1 | case2 | case8 =>
    obtain rfl := Except.ok.inj h
    exact absurd hmem nofun
  | case3 | case5 => exact absurd h nofun
  | case4 argument rest _ _ complete hread ih =>
    obtain ⟨b, hb, rfl⟩ := exists_of_map_eq_ok h
    obtain hmem | hmem := List.mem_append.mp hmem
    · exact (readOptions_eq_ok hread hvalue hshort).1 v hmem ▸ List.mem_cons_self
    · exact List.mem_cons_of_mem _ (ih hb hmem)
  | case6 argument _ _ complete found name hread value rest ih =>
    obtain ⟨b, hb, rfl⟩ := exists_of_map_eq_ok h
    obtain ⟨hcomplete, hpending⟩ := readOptions_eq_ok hread hvalue hshort
    obtain hmem | hmem := List.mem_append.mp hmem
    · obtain hmem | hmem := List.mem_append.mp hmem
      · exact hcomplete v hmem ▸ List.mem_cons_self
      · obtain ⟨rfl, -⟩ := Prod.mk.inj (List.mem_singleton.mp hmem)
        exact absurd rfl (hpending name)
    · exact List.mem_cons_of_mem _ (List.mem_cons_of_mem _ (ih hb hmem))
  | case7 argument rest _ _ _ ih =>
    obtain ⟨b, hb, rfl⟩ := exists_of_map_eq_ok h
    exact List.mem_cons_of_mem _ (ih hb hmem)

/-- Operands are arguments. -/
theorem operands_subset_of_split (h : f.split mixed arguments = .ok a) :
    a.operands ⊆ arguments := by
  fun_induction f.split mixed arguments generalizing a with
  | case1 =>
    obtain rfl := Except.ok.inj h
    exact List.Subset.refl _
  | case2 =>
    obtain rfl := Except.ok.inj h
    exact List.subset_cons_self _ _
  | case3 | case5 => exact absurd h nofun
  | case4 argument rest _ _ complete hread ih =>
    obtain ⟨b, hb, rfl⟩ := exists_of_map_eq_ok h
    have hrest : b.operands ⊆ rest := ih hb
    exact List.Subset.trans hrest (List.subset_cons_self _ _)
  | case6 argument _ _ complete found name hread value rest ih =>
    obtain ⟨b, hb, rfl⟩ := exists_of_map_eq_ok h
    have hrest : b.operands ⊆ rest := ih hb
    refine List.Subset.trans hrest ?_
    exact List.Subset.trans (List.subset_cons_self _ _) (List.subset_cons_self _ _)
  | case7 argument rest _ _ _ ih =>
    obtain ⟨b, hb, rfl⟩ := exists_of_map_eq_ok h
    exact List.cons_subset_cons _ (ih hb)
  | case8 =>
    obtain rfl := Except.ok.inj h
    exact List.Subset.refl _

theorem mem_of_has (h : f.split mixed arguments = .ok a) (hvalue : o.value = none)
    (hshort : o.short = none) (ho : a.has o) : o.long ∈ arguments := by
  rw [Arguments.has, List.any_eq_true] at ho
  obtain ⟨⟨found, v⟩, hmem, hfound⟩ := ho
  obtain rfl : found = o := by simpa using hfound
  exact mem_of_split h hvalue hshort hmem

end CommandForm

theorem endingRequest?_ne_run {a : Arguments} {log : LogSettings} {invocation : Invocation} :
    endingRequest? a ≠ some (.run log invocation) := by
  intro h
  obtain ⟨o, -, ho⟩ := Option.map_eq_some_iff.mp h
  split at ho <;> exact absurd ho nofun

section Reading

variable {t : FileTree} {arguments : List String} {log log' : LogSettings}
  {settings : Option Path} {language : Option Language} {force : Bool} {document output : Path}

theorem Command.mem_of_read_emit {command : Command}
    (h : command.read log t arguments =
      .ok (.run log' (.emit settings language force document output))) (hforce : force) :
    "--force" ∈ arguments := by
  obtain ⟨a, ha, h⟩ := exists_of_bind_eq_ok h
  split at h
  · exact absurd h nofun
  obtain ⟨-, -, h⟩ := exists_of_bind_eq_ok h
  obtain ⟨invocation, hinvocation, h⟩ := exists_of_bind_eq_ok h
  obtain ⟨-, rfl⟩ := Request.run.inj (Except.ok.inj h)
  have hhas : a.has forceOption := by
    unfold Command.invocation at hinvocation
    split at hinvocation
    · exact absurd hinvocation nofun
    · obtain ⟨-, -, rfl, -⟩ := Invocation.emit.inj (Except.ok.inj hinvocation)
      exact hforce
    · exact absurd hinvocation nofun
    · exact absurd hinvocation nofun
  exact CommandForm.mem_of_has ha rfl rfl hhas

/-- A command line asks to write over what exists only by an argument that says so. -/
theorem mem_of_readCommandLine_emit
    (h : readCommandLine t arguments =
      .ok (.run log (.emit settings language force document output))) (hforce : force) :
    "--force" ∈ arguments := by
  match arguments with
  | [] => exact absurd h nofun
  | first :: others =>
    obtain ⟨a, ha, h⟩ := exists_of_bind_eq_ok h
    split at h
    · next hending => exact absurd (Except.ok.inj h ▸ hending) endingRequest?_ne_run
    · exact absurd h nofun
    · next name rest _ hoperands =>
      split at h
      · obtain ⟨b, -, h⟩ := exists_of_bind_eq_ok h
        split at h
        · next hending => exact absurd (Except.ok.inj h ▸ hending) endingRequest?_ne_run
        · exact absurd h nofun
      · have hrest : rest ⊆ first :: others := by
          have hsplit := CommandForm.operands_subset_of_split (eq_ok_of_mapError_eq_ok ha)
          rw [hoperands] at hsplit
          exact List.Subset.trans (List.subset_cons_self _ _) hsplit
        exact hrest (Command.mem_of_read_emit (eq_ok_of_mapError_eq_ok h) hforce)

end Reading

/-! ## Modes in settings -/

/-- The modes that a value names as settings of emission: `mode` in an object under `output`. -/
def Json.outputModes : Json → List Json
  | .obj members => members.filterMap fun (key, value) =>
    if key = "output" then value.get? "mode" else none
  | _ => []

theorem Json.mem_outputModes_iff {members : List (String × Json)} {mode : Json} :
    mode ∈ (Json.obj members).outputModes ↔
      ∃ value, ("output", value) ∈ members ∧ value.get? "mode" = some mode := by
  rw [outputModes, List.mem_filterMap]
  constructor
  · rintro ⟨⟨key, value⟩, hmem, hmode⟩
    obtain ⟨rfl, hmode⟩ := Option.ite_none_right_eq_some.mp hmode
    exact ⟨value, hmem, hmode⟩
  · rintro ⟨value, hmem, hmode⟩
    exact ⟨("output", value), hmem, (if_pos rfl).trans hmode⟩

/-- The output is protected, unless its settings were replaced or lost. -/
def EmitterSettings.Protects (s : EmitterSettings) : Prop :=
  ∀ output, Members.find? "output" s.attributes = some (.output output) → output.mode.protects

/-- What assigning an attribute brings in is the value. -/
theorem find?_assignAttribute {α : Type} {owner key other : String}
    {defaults : List (String × Json)}
    {hold : Json → α} {attributes attributes' : List (String × α)} {value : Json} {held : α}
    (h : assignAttribute owner defaults hold attributes key value = .ok attributes')
    (hheld : Members.find? other attributes' = some held) :
    Members.find? other attributes = some held ∨ ∃ v, held = hold v := by
  unfold assignAttribute at h
  split at h
  · exact .inl (Except.ok.inj h ▸ hheld)
  split at h
  · exact absurd h nofun
  · exact absurd h nofun
  · obtain rfl := Except.ok.inj h
    obtain ⟨⟨k, v⟩, -, hv⟩ := List.mem_map.mp (Members.mem_of_find?_eq_some hheld)
    exact .inr ⟨v, (Prod.mk.inj hv).2.symm⟩
  · exact absurd h nofun
  · obtain rfl := Except.ok.inj h
    obtain ⟨-, rfl⟩ | hheld := Members.find?_insert_cases hheld
    · exact .inr ⟨value, rfl⟩
    · exact .inl hheld

namespace OutputSettings

/-- A mode that is no text and not `force` protects. -/
theorem protects_of_ofMembers {members : List (String × Json)} {output : OutputSettings}
    (h : OutputSettings.ofMembers members = .ok output)
    (hmode : ∀ mode, Members.find? "mode" members = some mode →
      ∃ name, mode = .str name ∧ name ≠ "force") : output.mode.protects := by
  unfold OutputSettings.ofMembers at h
  split at h
  · obtain rfl := Except.ok.inj h
    rfl
  · next name hfind =>
    obtain ⟨_, hname, hne⟩ := hmode _ hfind
    obtain rfl := Json.str.inj hname
    split at h
    · next mode hname =>
      obtain rfl := Except.ok.inj h
      unfold OutputMode.ofName? at hname
      split at hname
      · obtain rfl := Option.some.inj hname
        rfl
      · exact absurd rfl hne
      · exact absurd hname nofun
    · exact absurd h nofun
  · next hne hfind =>
    obtain ⟨name, rfl, -⟩ := hmode _ hfind
    exact absurd rfl (hne name)

end OutputSettings

namespace EmitterSettings

variable {s s' : EmitterSettings} {key : String} {value : Json}

theorem protects_default : ({} : EmitterSettings).Protects := by
  intro output houtput
  obtain rfl := EmitterSetting.output.inj (Option.some.inj houtput)
  rfl

/-- Setting something other than the output, or the output to settings that protect, protects. -/
theorem Protects.set (hs : s.Protects) {setting : EmitterSetting}
    (h : ∀ output, key = "output" → setting = .output output → output.mode.protects) :
    (s.set key setting).Protects := by
  intro output houtput
  obtain ⟨rfl, rfl⟩ | houtput := Members.find?_insert_cases houtput
  · exact h output rfl rfl
  · exact hs output houtput

theorem Protects.assign (hs : s.Protects) (h : s.assign key value = .ok s')
    (hmode : ∀ mode, key = "output" → value.get? "mode" = some mode →
      ∃ name, mode = .str name ∧ name ≠ "force") : s'.Protects := by
  unfold EmitterSettings.assign at h
  split at h
  · obtain ⟨formatter, -, h⟩ := exists_of_bind_eq_ok h
    obtain rfl := Except.ok.inj h
    exact hs.set fun _ hkey ↦ absurd hkey (by decide)
  · next members =>
    obtain ⟨output, houtput, h⟩ := exists_of_bind_eq_ok h
    obtain rfl := Except.ok.inj h
    apply hs.set
    rintro _ - hsame
    obtain rfl := EmitterSetting.output.inj hsame
    exact OutputSettings.protects_of_ofMembers houtput fun mode hfind ↦ hmode mode rfl hfind
  · obtain ⟨attributes, hassign, h⟩ := exists_of_bind_eq_ok h
    obtain rfl := Except.ok.inj h
    intro output houtput
    obtain houtput | ⟨_, hvalue⟩ := find?_assignAttribute hassign houtput
    · exact hs output houtput
    · exact absurd hvalue nofun

theorem Protects.assignAll {members : List (String × Json)} (hs : s.Protects)
    (h : members.foldlM (fun s (key, value) ↦ s.assign key value) s = .ok s')
    (hmode : ∀ mode ∈ (Json.obj members).outputModes, ∃ name, mode = .str name ∧ name ≠ "force") :
    s'.Protects := by
  induction members generalizing s with
  | nil => exact Except.ok.inj h ▸ hs
  | cons m rest ih =>
    obtain ⟨next, hnext, h⟩ := exists_of_bind_eq_ok (List.foldlM_cons.symm.trans h)
    refine ih (hs.assign hnext ?_) h ?_
    · intro mode hkey hfind
      exact hmode mode (Json.mem_outputModes_iff.mpr ⟨m.2, hkey ▸ List.mem_cons_self, hfind⟩)
    · intro mode hmem
      obtain ⟨value, hvalue, hfind⟩ := Json.mem_outputModes_iff.mp hmem
      exact hmode mode (Json.mem_outputModes_iff.mpr ⟨value, List.mem_cons_of_mem _ hvalue, hfind⟩)

/-- **No mode is made up.** Settings that are read protect the output if every mode that they name
is a text other than `force`. -/
theorem protects_of_ofJson (h : EmitterSettings.ofJson value = .ok s)
    (hmode : ∀ mode ∈ value.outputModes, ∃ name, mode = .str name ∧ name ≠ "force") :
    s.Protects := by
  match value with
  | .obj members => exact protects_default.assignAll h hmode
  | .null | .bool _ | .int _ | .float _ | .str _ | .arr _ => exact absurd h nofun

/-- Output settings that were replaced by a value that counts as false are the default ones. -/
theorem Protects.outputSettings {output : OutputSettings} (hs : s.Protects)
    (h : s.outputSettings? = .ok output) : output.mode.protects := by
  unfold EmitterSettings.outputSettings? at h
  split at h
  · next found houtput =>
    obtain rfl := Except.ok.inj h
    unfold EmitterSettings.output at houtput
    split at houtput
    · next hfind => exact hs _ (Group.record.inj houtput ▸ hfind)
    · exact absurd houtput nofun
    · exact absurd houtput nofun
  · split at h
    · exact absurd h nofun
    · obtain rfl := Except.ok.inj h
      rfl
  · exact absurd h nofun

end EmitterSettings

/-! ## What a run keeps -/

theorem Path.keeps_refuseExisting {t : FileTree} {p : Path} (h : t.has p) :
    Keeps (· = t) p.refuseExisting fun _ ↦ False := by
  refine Keeps.get.bind ?_
  rintro t rfl
  split
  · exact .throw _
  · next hhas =>
    unfold FileTree.has? at hhas
    split at hhas
    · exact absurd hhas nofun
    · exact absurd (h.symm.trans (Except.ok.inj hhas)) (by decide)
  · exact .throw _

/-- Output that exists is refused by settings that protect it, and no file changes. -/
theorem OutputSettings.keeps_write {settings : OutputSettings} {t : FileTree} {p : Path}
    (hmode : settings.mode.protects) (h : t.has p) (content : String) :
    Keeps (· = t) (settings.write p content) fun _ ↦ False := by
  unfold OutputSettings.write
  rw [if_pos hmode]
  exact (Path.keeps_refuseExisting h).bind fun _ ↦ False.elim

namespace Running

variable {t : FileTree} {α ε : Type}

theorem keeps_ofExcept {P : World → Prop} (ending : ε → Ending) (result : Except ε α) :
    Keeps P (ofExcept ending result) fun a ↦ result = .ok a := by
  match result with
  | .ok a => exact .pure rfl
  | .error e => exact .throw _

theorem keeps_ofLogged {P : World → Prop} (step : Logged α) :
    Keeps P (ofLogged step) fun a ↦ a = step.value := by
  intro w hw
  refine ⟨hw, ?_⟩
  rintro a ha
  exact (Except.ok.inj ha).symm

theorem keeps_readFile {P : World → Prop} (hP : ∀ w, P w → w.files = t) (p : Path) :
    Keeps P (readFile p) fun content ↦ t.read p = .ok content := by
  refine Keeps.get.bind fun w hw ↦ ?_
  rw [← hP w hw]
  exact keeps_ofExcept _ _

theorem keeps_load (p : Path) : Keeps (fun w ↦ w.files = t) (load p) fun _ ↦ True := by
  refine (keeps_readFile (fun _ hw ↦ hw) p).bind fun content _ ↦ Keeps.get.bind ?_
  rintro w rfl
  refine (keeps_ofLogged _).bind ?_
  rintro ⟨result, ids⟩ -
  refine Keeps.bind (Keeps.set rfl) fun _ _ ↦ ?_
  exact (keeps_ofExcept _ _).mono fun _ _ ↦ trivial

/-- Settings come from the file as it is. -/
theorem keeps_loadSettings {P : World → Prop} (hP : ∀ w, P w → w.files = t) (command : Command)
    (read : Json → Except SettingsError α) (defaults : α) (settings : Option Path) :
    Keeps P (loadSettings command read defaults settings) fun a ↦
      settings = none ∧ a = defaults ∨ ∃ p ∈ settings, ∃ content value,
        t.read p = .ok content ∧ parseFile content = .ok value ∧ read value = .ok a := by
  match settings with
  | none => exact .pure (.inl ⟨rfl, rfl⟩)
  | some p =>
    refine (keeps_readFile hP p).bind fun content hcontent ↦ ?_
    refine (keeps_ofExcept _ _).bind fun value hvalue ↦ ?_
    refine (keeps_ofExcept _ _).mono fun a ha ↦ ?_
    exact .inr ⟨p, rfl, content, value, hcontent, hvalue, ha⟩

theorem keeps_write {settings : OutputSettings} {p : Path} (hmode : settings.mode.protects)
    (h : t.has p) (content : String) :
    Keeps (fun w ↦ w.files = t) (write settings p content) fun _ ↦ True := by
  refine Keeps.get.bind ?_
  rintro w rfl
  obtain ⟨hfiles, -⟩ := settings.keeps_write hmode h content w.files rfl
  refine (keeps_ofLogged _).bind ?_
  rintro ⟨result, files⟩ hresult
  refine (Keeps.set ?_).bind fun _ _ ↦ (keeps_ofExcept _ _).mono fun _ _ ↦ trivial
  exact (congrArg Prod.snd hresult).trans hfiles

/-- An emission without a request to write over what exists keeps every file if the output exists
and every mode that the settings name is a text other than `force`. -/
theorem keeps_emit (surroundings : Surroundings) {settings : Option Path}
    (language : Option Language) (document : Path) {output : Path} (h : t.has output)
    (hmode : ∀ p ∈ settings, ∀ content value, t.read p = .ok content →
      parseFile content = .ok value →
        ∀ mode ∈ value.outputModes, ∃ name, mode = .str name ∧ name ≠ "force") :
    Keeps (fun w ↦ w.files = t) (emit surroundings settings language false document output)
      fun _ ↦ True := by
  refine (keeps_loadSettings (fun _ hw ↦ hw) _ _ _ settings).bind fun found hfound ↦ ?_
  have hprotects : found.Protects := by
    obtain ⟨-, rfl⟩ | ⟨p, hp, content, value, hcontent, hvalue, hread⟩ := hfound
    · exact EmitterSettings.protects_default
    · exact EmitterSettings.protects_of_ofJson hread (hmode p hp content value hcontent hvalue)
  refine (keeps_ofExcept _ _).bind fun settings hsettings ↦ ?_
  have hlanguage : settings.Protects := by
    cases language with
    | some language =>
      obtain rfl := Except.ok.inj hsettings
      exact hprotects.set fun _ hkey ↦ absurd hkey (by decide)
    | none =>
      obtain rfl := Except.ok.inj hsettings
      exact hprotects
  refine (keeps_load document).bind fun d _ ↦ ?_
  refine (keeps_ofLogged _).bind fun code _ ↦ ?_
  refine (keeps_ofExcept _ _).bind fun code _ ↦ ?_
  refine (keeps_ofExcept _ _).bind fun outputSettings houtput ↦ ?_
  exact keeps_write (hlanguage.outputSettings houtput) h _

end Running

/-- **No silent overwrite.** Without `--force` and with settings that name no mode but texts other
than `force`, an emission to an output that exists leaves every file as it is. -/
theorem runCommandLine_emit_files (surroundings : Surroundings) {arguments : List String}
    {w : World}
    {log : LogSettings} {settings : Option Path} {language : Option Language} {force : Bool}
    {document output : Path}
    (hread : readCommandLine w.files arguments =
      .ok (.run log (.emit settings language force document output)))
    (hforce : "--force" ∉ arguments) (houtput : w.files.has output)
    (hmode : ∀ p ∈ settings, ∀ content value, w.files.read p = .ok content →
      parseFile content = .ok value → .str "force" ∉ value.outputModes)
    (htext : ∀ p ∈ settings, ∀ content value, w.files.read p = .ok content →
      parseFile content = .ok value → ∀ mode ∈ value.outputModes, ∃ name, mode = .str name) :
    (runCommandLine surroundings arguments w).2.files = w.files := by
  have hunforced : force = false :=
    Bool.eq_false_iff.mpr fun h ↦ hforce (mem_of_readCommandLine_emit hread h)
  obtain rfl := hunforced
  have hmodes : ∀ p ∈ settings, ∀ content value, w.files.read p = .ok content →
      parseFile content = .ok value →
        ∀ mode ∈ value.outputModes, ∃ name, mode = .str name ∧ name ≠ "force" := by
    intro p hp content value hcontent hvalue mode hmem
    obtain ⟨name, rfl⟩ := htext p hp content value hcontent hvalue mode hmem
    refine ⟨name, rfl, ?_⟩
    rintro rfl
    exact hmode p hp content value hcontent hvalue hmem
  have hinvoke : Keeps (fun w' ↦ w'.files = w.files) (Running.invoke surroundings
      (.emit settings language false document output)) fun _ ↦ True :=
    (Running.keeps_emit surroundings language document houtput hmodes).bind fun _ _ ↦ .pure trivial
  rw [runCommandLine, hread]
  exact (hinvoke w rfl).1

/-! ## An output that exists -/

/-- A folder with a document, settings and an output that exists. -/
def occupied (settings : String) : World where
  files :=
    { working := ["work"]
      entries := [(["work"], .folder), (["work", "doc.json"], .file "\x7b\"fields\":[]\x7d"),
        (["work", "config.json"], .file settings), (["work", "out.ts"], .file "precious\n")] }
  ids := { stem := "" }

/-- Settings with the mode that protects. -/
def errorSettings : String := "\x7b\"output\":\x7b\"mode\":\"error\"\x7d\x7d"

/-- Settings with a mode that is no text. -/
def nullSettings : String := "\x7b\"output\":\x7b\"mode\":null\x7d\x7d"

/-- The arguments of an emission in such a folder. -/
def occupiedArguments : List String := ["emit", "--config", "config.json", "doc.json", "out.ts"]

/-- What the arguments ask for. -/
def occupiedRequest : Request :=
  .run ⟨false, false⟩ (.emit (some ⟨true, ["work", "config.json"]⟩) none false
    ⟨true, ["work", "doc.json"]⟩ ⟨true, ["work", "out.ts"]⟩)

theorem parseFile_eq (content : String) :
    parseFile content = (readText (Text.normalizeLineEnds content.toList)).mapError
      (.ofStuck (Text.normalizeLineEnds content.toList)) := by
  rw [parseFile, Json.parse, Text.withLineFeeds, String.toList_ofList]

theorem parseFile_errorSettings :
    parseFile errorSettings = .ok (.obj [("output", .obj [("mode", .str "error")])]) := by
  rw [parseFile_eq, errorSettings]
  simp only [String.reduceToList]
  rfl

theorem parseFile_nullSettings :
    parseFile nullSettings = .ok (.obj [("output", .obj [("mode", .null)])]) := by
  rw [parseFile_eq, nullSettings]
  simp only [String.reduceToList]
  rfl

theorem runCommandLine_emit_files_occupied :
    let w := occupied errorSettings
    readCommandLine w.files occupiedArguments = .ok occupiedRequest ∧
      "--force" ∉ occupiedArguments ∧ w.files.has ⟨true, ["work", "out.ts"]⟩ ∧
      (runCommandLine ⟨{}, []⟩ occupiedArguments w).2.files = w.files := by
  intro w
  have hread : readCommandLine w.files occupiedArguments = .ok occupiedRequest := by decide +kernel
  have hforce : "--force" ∉ occupiedArguments := by decide
  have hhas : w.files.has ⟨true, ["work", "out.ts"]⟩ := by decide +kernel
  have hvalue : ∀ p ∈ some (⟨true, ["work", "config.json"]⟩ : Path), ∀ content value,
      w.files.read p = .ok content → parseFile content = .ok value →
        value = .obj [("output", .obj [("mode", .str "error")])] := by
    rintro p hp content value hcontent hparse
    obtain rfl := Option.some.inj hp
    obtain rfl : errorSettings = content := by
      have hfile : w.files.read ⟨true, ["work", "config.json"]⟩ = .ok errorSettings := by
        decide +kernel
      exact Except.ok.inj (hfile.symm.trans hcontent)
    exact (Except.ok.inj (parseFile_errorSettings.symm.trans hparse)).symm
  refine ⟨hread, hforce, hhas, runCommandLine_emit_files _ hread hforce hhas ?_ ?_⟩
  · rintro p hp content value hcontent hparse hmem
    obtain rfl := hvalue p hp content value hcontent hparse
    exact absurd (Json.str.inj (List.mem_singleton.mp hmem)) (by decide)
  · rintro p hp content value hcontent hparse mode hmem
    obtain rfl := hvalue p hp content value hcontent hparse
    exact ⟨"error", List.mem_singleton.mp hmem⟩

/-- **A mode that is no text takes the protection away.** The settings are accepted and name no mode
`force`, nothing asks to write over the output, and it is lost. -/
theorem exists_unasked_overwrite :
    let settings := Json.obj [("output", .obj [("mode", .null)])]
    let w := occupied nullSettings
    readCommandLine w.files occupiedArguments = .ok occupiedRequest ∧
      "--force" ∉ occupiedArguments ∧ w.files.has ⟨true, ["work", "out.ts"]⟩ ∧
      w.files.read ⟨true, ["work", "config.json"]⟩ = .ok nullSettings ∧
      parseFile nullSettings = .ok settings ∧
      (EmitterSettings.ofJson settings).isOk ∧ .str "force" ∉ settings.outputModes ∧
      w.files.read ⟨true, ["work", "out.ts"]⟩ = .ok "precious\n" ∧
      (runCommandLine ⟨{}, []⟩ occupiedArguments w).2.files.read ⟨true, ["work", "out.ts"]⟩ ≠
        .ok "precious\n" := by
  intro settings w
  refine ⟨by decide +kernel, by decide, by decide +kernel, by decide +kernel,
    parseFile_nullSettings, rfl, ?_, by decide +kernel, by decide +kernel⟩
  intro hmem
  exact absurd (List.mem_singleton.mp hmem) nofun

end SchemaTree
