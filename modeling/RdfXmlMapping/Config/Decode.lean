import RdfXmlMapping.Config.Basic
import RdfXmlMapping.Text.Messages
import RdfXmlMapping.Toml.Reader

/-!
Settings from a TOML document. Every key may be left out; a structure may also be written as an
array of its parts.
-/

namespace RdfXmlMapping

open Toml (Value Entries)

/-- Why settings cannot be read. -/
inductive ConfigError where
  /-- The text is no TOML document. -/
  | malformed
  | wrongType (found : Value) (expected : String)
  | unknownKey (found : String) (known : List String)
  | unknownVariant (found : String) (known : List String)
  /-- The name of a variant is neither a text nor the key of a table. -/
  | noVariant
  /-- A table names no variant, or several. -/
  | variantCount (several : Bool)
  /-- The table of a variant has content. -/
  | variantContent (found : Value)
  deriving Repr

namespace ConfigError

def describe : Value → String
  | .string s => "string " ++ Text.quoted s
  | .integer n => "integer `" ++ toString n ++ "`"
  | .real r => "floating point `" ++ r.text ++ "`"
  | .boolean true => "boolean `true`"
  | .boolean false => "boolean `false`"
  | .moment | .table .. => "map"
  | .array _ | .tables _ => "sequence"

def contentMessage : Value → String
  | .array _ | .tables _ => "expected empty array"
  | .table .. => "expected empty table"
  | .string _ => "expected table, found string"
  | .integer _ => "expected table, found integer"
  | .real _ => "expected table, found float"
  | .boolean _ => "expected table, found boolean"
  | .moment => "expected table, found datetime"

/-- The text of an error; a text that is no document has none. -/
def message? : ConfigError → Option String
  | malformed => none
  | wrongType found expected =>
    some ("invalid type: " ++ describe found ++ ", expected " ++ expected)
  | unknownKey found known => some ("unknown field `" ++ found ++ "`, " ++ Text.oneOf known)
  | unknownVariant found known => some ("unknown variant `" ++ found ++ "`, " ++ Text.oneOf known)
  | noVariant => some "wanted string or table"
  | variantCount false => some "wanted exactly 1 element, found 0 elements"
  | variantCount true => some "wanted exactly 1 element, more than 1 element"
  | variantContent found => some (contentMessage found)

end ConfigError

namespace Config

/-- A key of a structure, and how its value is taken in. -/
structure Key (α : Type) where
  name : String
  read : Value → α → Except ConfigError α

def readEntry {α : Type} (keys : List (Key α)) (a : α) (entry : String × Value) :
    Except ConfigError α :=
  match keys.find? (·.name == entry.1) with
  | some key => key.read entry.2 a
  | none => .error (.unknownKey entry.1 (keys.map (·.name)))

/-- Takes in values in the order of the keys; what goes beyond them is passed over. -/
def readItems {α : Type} (keys : List (Key α)) (a : α) (items : List Value) :
    Except ConfigError α :=
  (keys.zip items).foldlM (fun a (key, v) => key.read v a) a

/-- The one key of a date or time, which counts as a table where a structure is expected. -/
def momentKey : String := "$__toml_private_datetime"

/-- Reads a structure; what is not set stays as in `a`. -/
def readStruct {α : Type} (title : String) (keys : List (Key α)) (a : α) :
    Value → Except ConfigError α
  | .table _ entries => entries.foldlM (readEntry keys) a
  | .array items => readItems keys a items
  | .tables rows => readItems keys a (rows.map (.table .header))
  | .moment => .error (.unknownKey momentKey (keys.map (·.name)))
  | v => .error (.wrongType v title)

def readString : Value → Except ConfigError String
  | .string s => .ok s
  | v => .error (.wrongType v "a string")

def readBool : Value → Except ConfigError Bool
  | .boolean b => .ok b
  | v => .error (.wrongType v "a boolean")

def formNamed : String → Except ConfigError QueryForm
  | "construct" => .ok .construct
  | "select" => .ok .select
  | name => .error (.unknownVariant name ["construct", "select"])

/-- Whether a value may stand as the content of a variant that has none. -/
def isNothing : Value → Bool
  | .array items => items.isEmpty
  | .tables rows => rows.isEmpty
  | .table _ entries => entries.isEmpty
  | _ => false

/-- A form: its name, or a table with its name as the only key. -/
def readForm : Value → Except ConfigError QueryForm
  | .string name => formNamed name
  | .table _ [] => .error (.variantCount false)
  | .table _ [(name, content)] => do
    let form ← formNamed name
    if isNothing content then return form else throw (.variantContent content)
  | .table _ _ => .error (.variantCount true)
  | _ => .error .noVariant

def extractionKeys : List (Key Extraction) := [
  ⟨"group", fun v e => do return { e with group := ← readBool v }⟩,
  ⟨"type", fun v e => do return { e with namedType := ← readBool v }⟩]

def readExtraction : Value → Except ConfigError Extraction :=
  readStruct "struct ExtractionToggle" extractionKeys {}

def rulesKeys : List (Key ExtractionRules) := [
  ⟨"root", fun v r => do return { r with root := ← readExtraction v }⟩,
  ⟨"other", fun v r => do return { r with other := ← readExtraction v }⟩]

def queryKeys : List (Key QueryForm) := [⟨"form", fun v _ => readForm v⟩]

def bindingKeys : List (Key Bindings) := [
  ⟨"subject", fun v b => do return { b with subject := ← readString v }⟩,
  ⟨"predicate", fun v b => do return { b with predicate := ← readString v }⟩,
  ⟨"object", fun v b => do return { b with object := ← readString v }⟩]

def outputKeys : List (Key Output) := [
  ⟨"base-address", fun v o => do return { o with baseAddress := ← readString v }⟩,
  ⟨"schema-file", fun v o => do return { o with schemaFile := ← readString v }⟩,
  ⟨"query-file", fun v o => do return { o with queryFile := ← readString v }⟩,
  ⟨"lifting-file", fun v o => do return { o with liftingFile := ← readString v }⟩,
  ⟨"lowering-file", fun v o => do return { o with loweringFile := ← readString v }⟩]

def keys : List (Key Config) := [
  ⟨"extraction", fun v c => do
    return { c with extraction := ← readStruct "struct Extraction" rulesKeys {} v }⟩,
  ⟨"sparql", fun v c => do
    return { c with form := ← readStruct "struct SparqlConfig" queryKeys .construct v }⟩,
  ⟨"bindings", fun v c => do
    return { c with bindings := ← readStruct "struct BindingNames" bindingKeys {} v }⟩,
  ⟨"output", fun v c => do
    return { c with output := ← readStruct "struct OutputConfig" outputKeys {} v }⟩]

def ofToml : Value → Except ConfigError Config := readStruct "struct GeneratorConfig" keys {}

def parse (text : String) : Except ConfigError Config :=
  match Toml.parse? text with
  | some v => ofToml v
  | none => .error .malformed

end Config

end RdfXmlMapping
