import SchemaTree.Json.Display

/-!
# Settings

Settings come from a JSON object. Every key that names a setting assigns its value as it is,
whatever its type; a value is only looked at when the setting is used. Two groups of settings are
records of their own, `formatter` and `output`: an object sets their members, anything else replaces
the whole group.

A settings record has some attributes besides its settings, and an object may assign those too. One
of them holds all attributes of the record, and with it every setting can be replaced or lost; a
setting that is lost has the default of its class again, except for the two groups, which have none.
-/

namespace SchemaTree

/-- Why settings cannot be read. -/
inductive SettingsError where
  | notAnObject (typeWord : String)
  | unknownFormatterKey (key : String)
  | unknownOutputMode (mode : Json)
  | classNotReplaceable (typeWord : String)
  | membersNotReplaceable (typeWord : String)
  | notWritable (member owner : String)

/-- The wording of an error. -/
def SettingsError.message : SettingsError → String
  | .notAnObject typeWord => "'" ++ typeWord ++ "' object has no attribute 'items'"
  | .unknownFormatterKey key =>
    "FormatterConfig.__init__() got an unexpected keyword argument '" ++ key ++ "'"
  | .unknownOutputMode mode => mode.display ++ " is not a valid OutputMode"
  | .classNotReplaceable typeWord =>
    "__class__ must be set to a class, not '" ++ typeWord ++ "' object"
  | .membersNotReplaceable typeWord =>
    "__dict__ must be set to a dictionary, not a '" ++ typeWord ++ "'"
  | .notWritable member owner =>
    "attribute '" ++ member ++ "' of '" ++ owner ++ "' objects is not writable"

/-- The attributes that every settings record has besides its settings. -/
def sharedAttributes : List String := [
  "from_dict", "__annotations__", "__class__", "__dataclass_fields__", "__dataclass_params__",
  "__delattr__", "__dict__", "__dir__", "__doc__", "__eq__", "__format__", "__ge__",
  "__getattribute__", "__getstate__", "__gt__", "__hash__", "__init__", "__init_subclass__",
  "__le__", "__lt__", "__match_args__", "__module__", "__ne__", "__new__", "__reduce__",
  "__reduce_ex__", "__repr__", "__setattr__", "__sizeof__", "__str__", "__subclasshook__",
  "__weakref__"]

/-- Assigns an attribute of a record whose class has `defaults` besides the shared attributes. A key
that is no attribute is ignored. The record keeps its own attributes in an object, which is itself
one of the shared attributes: an object assigned to it takes the place of all of them. -/
def assignAttribute (owner : String) (defaults : List (String × Json)) (hold : Json → α)
    (attributes : List (String × α)) (key : String) (value : Json) :
    Except SettingsError (List (String × α)) :=
  if key ∉ Json.Members.keys attributes ++ Json.Members.keys defaults ++ sharedAttributes then
    .ok attributes
  else
    match key, value with
    | "__class__", _ => .error (.classNotReplaceable value.typeWord)
    | "__weakref__", _ => .error (.notWritable key owner)
    | "__dict__", .obj members => .ok (members.map fun (key, value) => (key, hold value))
    | "__dict__", _ => .error (.membersNotReplaceable value.typeWord)
    | _, _ => .ok (Json.Members.insert key (hold value) attributes)

/-- An attribute that a value does not have. -/
structure MissingAttribute where
  /-- The type of the value. -/
  owner : String
  name : String

/-- The wording of the absence of an attribute. -/
def MissingAttribute.message (m : MissingAttribute) : String :=
  "'" ++ m.owner ++ "' object has no attribute '" ++ m.name ++ "'"

/-! ## Groups -/

/-- A group of settings, or the value that replaced it, or neither. -/
inductive Group (α : Type) where
  | record (settings : α)
  | replaced (value : Json)
  | missing

/-- How generated class modules are formatted. -/
structure FormatterSettings where
  enabled : Json := .bool false
  tool : Json := .str "black"
  lineLength : Json := .int 100
  targetVersion : Json := .str "py312"

/-- Settings of a formatter from the members of an object. -/
def FormatterSettings.ofMembers :
    List (String × Json) → FormatterSettings → Except SettingsError FormatterSettings
  | [], settings => .ok settings
  | (key, value) :: rest, settings =>
    match key with
    | "enabled" => ofMembers rest { settings with enabled := value }
    | "tool" => ofMembers rest { settings with tool := value }
    | "line_length" => ofMembers rest { settings with lineLength := value }
    | "target_version" => ofMembers rest { settings with targetVersion := value }
    | _ => .error (.unknownFormatterKey key)

/-- The JSON form of the settings of a formatter. -/
def FormatterSettings.toJson (s : FormatterSettings) : Json :=
  .obj [("enabled", s.enabled), ("tool", s.tool), ("line_length", s.lineLength),
    ("target_version", s.targetVersion)]

/-- What happens if the output exists. A value that is no string is kept and asks for neither. -/
inductive OutputMode where
  | errorIfExists
  | force
  | undefined (value : Json)

/-- The mode of a name. -/
def OutputMode.ofName? : String → Option OutputMode
  | "error" => some .errorIfExists
  | "force" => some .force
  | _ => none

/-- The JSON form of a mode. -/
def OutputMode.toJson : OutputMode → Json
  | .errorIfExists => .str "error"
  | .force => .str "force"
  | .undefined value => value

/-- How output is written. -/
structure OutputSettings where
  mode : OutputMode := .errorIfExists
  atomicWrite : Json := .bool true

/-- Settings of the output from the members of an object; others than the two are ignored. -/
def OutputSettings.ofMembers (members : List (String × Json)) :
    Except SettingsError OutputSettings := do
  let mode ← match Json.Members.find? "mode" members with
    | none => .ok .errorIfExists
    | some (.str name) =>
      match OutputMode.ofName? name with
      | some mode => .ok mode
      | none => .error (.unknownOutputMode (.str name))
    | some value => .ok (.undefined value)
  return { mode, atomicWrite := (Json.Members.find? "atomic_write" members).getD (.bool true) }

/-- The JSON form of the settings of the output. -/
def OutputSettings.toJson (s : OutputSettings) : Json :=
  .obj [("mode", s.mode.toJson), ("atomic_write", s.atomicWrite)]

/-! ## Emission -/

/-- What an attribute of the settings of emission holds. -/
inductive EmitterSetting where
  | value (value : Json)
  | formatter (settings : FormatterSettings)
  | output (settings : OutputSettings)

/-- The JSON form of an attribute. -/
def EmitterSetting.toJson : EmitterSetting → Json
  | .value json => json
  | .formatter settings => settings.toJson
  | .output settings => settings.toJson

/-- The settings of emission that are no groups, as they are where nothing assigns them. -/
def EmitterSettings.defaults : List (String × Json) := [
  ("language", .str "zod"), ("export_name", .str "schema"), ("type_name", .str "Schema"),
  ("indent", .str "  ")]

/-- Settings of emission: the attributes of the record, in the order in which they were set. -/
structure EmitterSettings where
  attributes : List (String × EmitterSetting) :=
    EmitterSettings.defaults.map (fun (key, value) => (key, .value value)) ++
      [("formatter", .formatter {}), ("output", .output {})]

namespace EmitterSettings

/-- The setting called `key`, which is no group. -/
def value (s : EmitterSettings) (key : String) : Json :=
  match Json.Members.find? key s.attributes with
  | some setting => setting.toJson
  | none => (Json.Members.find? key defaults).getD .null

/-- The language of emission. -/
def language (s : EmitterSettings) : Json := s.value "language"

/-- The name of the exported constant. -/
def exportName (s : EmitterSettings) : Json := s.value "export_name"

/-- The name of the type alias or of the class of the root. -/
def typeName (s : EmitterSettings) : Json := s.value "type_name"

/-- The unit of indentation. -/
def indent (s : EmitterSettings) : Json := s.value "indent"

/-- How class modules are formatted. -/
def formatter (s : EmitterSettings) : Group FormatterSettings :=
  match Json.Members.find? "formatter" s.attributes with
  | some (.formatter settings) => .record settings
  | some setting => .replaced setting.toJson
  | none => .missing

/-- How output is written. -/
def output (s : EmitterSettings) : Group OutputSettings :=
  match Json.Members.find? "output" s.attributes with
  | some (.output settings) => .record settings
  | some setting => .replaced setting.toJson
  | none => .missing

/-- The settings with another attribute. -/
def set (s : EmitterSettings) (key : String) (setting : EmitterSetting) : EmitterSettings :=
  ⟨Json.Members.insert key setting s.attributes⟩

/-- Assigns one setting of emission. -/
def assign (s : EmitterSettings) (key : String) (value : Json) :
    Except SettingsError EmitterSettings :=
  match key, value with
  | "formatter", .obj members => do
    return s.set key (.formatter (← FormatterSettings.ofMembers members {}))
  | "output", .obj members => do
    return s.set key (.output (← OutputSettings.ofMembers members))
  | _, _ => do
    return ⟨← assignAttribute "EmitterConfig" defaults .value s.attributes key value⟩

/-- Reads settings of emission. -/
def ofJson : Json → Except SettingsError EmitterSettings
  | .obj members => members.foldlM (fun s (key, value) => s.assign key value) {}
  | value => .error (.notAnObject value.typeWord)

/-- The JSON form of settings of emission. -/
def toJson (s : EmitterSettings) : Json :=
  .obj (s.attributes.map fun (key, setting) => (key, setting.toJson))

end EmitterSettings

/-! ## Building -/

/-- The settings of building, as they are where nothing assigns them. -/
def BuilderSettings.defaults : List (String × Json) := [
  ("root_model_name", .str "Schema"), ("anonymous_model_name", .str "Object")]

/-- Settings of building: the attributes of the record, in the order in which they were set. -/
structure BuilderSettings where
  attributes : List (String × Json) := BuilderSettings.defaults

namespace BuilderSettings

/-- The setting called `key`. -/
def value (s : BuilderSettings) (key : String) : Json :=
  ((Json.Members.find? key s.attributes).or (Json.Members.find? key defaults)).getD .null

/-- The name of the model of the root. -/
def rootModelName (s : BuilderSettings) : Json := s.value "root_model_name"

/-- The name of models of objects that have none. -/
def anonymousModelName (s : BuilderSettings) : Json := s.value "anonymous_model_name"

/-- Assigns one setting of building. -/
def assign (s : BuilderSettings) (key : String) (value : Json) :
    Except SettingsError BuilderSettings := do
  return ⟨← assignAttribute "BuilderConfig" defaults id s.attributes key value⟩

/-- Reads settings of building. -/
def ofJson : Json → Except SettingsError BuilderSettings
  | .obj members => members.foldlM (fun s (key, value) => s.assign key value) {}
  | value => .error (.notAnObject value.typeWord)

/-- The JSON form of settings of building. -/
def toJson (s : BuilderSettings) : Json := .obj s.attributes

end BuilderSettings

end SchemaTree
