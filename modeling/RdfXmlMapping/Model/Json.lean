import RdfXmlMapping.Json.Decode
import RdfXmlMapping.Json.Printer
import RdfXmlMapping.Model.Basic

/-! Models written as JSON and read from it. -/

namespace RdfXmlMapping

open Json

/-! ### Writing -/

def Labels.toJson (labels : Labels) : Value :=
  .object (labels.entries.map fun (language, text) => (language, .string text))

def optionJson : Option String → Value
  | some s => .string s
  | none => .null

def stringsJson (ss : List String) : Value := .array (ss.map .string)

/-- A candidate for values, tagged by its kind. -/
def DataType.toJson : DataType → Value
  | primitive iri => .object [("kind", .string "primitive"), ("iri", .string iri)]
  | association target => .object [("kind", .string "association"), ("class", .string target)]

def countJson (n : UInt32) : Value := .number (.integer n.toNat)

/-- A property; no upper bound is null. -/
def Property.toJson (p : Property) : Value :=
  .object [
    ("psmIri", .string p.iri),
    ("cimIri", .string p.predicate),
    ("technicalLabel", .string p.label),
    ("humanLabel", p.title.toJson),
    ("cardinalityMin", countJson p.least),
    ("cardinalityMax", match p.most with | some n => countJson n | none => .null),
    ("isReverse", .bool p.isReverse),
    ("dematerialize", .bool p.isSpliced),
    ("dataTypes", .array (p.types.map DataType.toJson))]

def Class.toJson (c : Class) : Value :=
  .object [
    ("psmIri", .string c.iri),
    ("cimIri", optionJson c.meaning),
    ("humanLabel", c.title.toJson),
    ("technicalLabel", .string c.label),
    ("isCodelist", .bool c.isCodelist),
    ("extends", stringsJson c.parents),
    ("owningSpecification", optionJson c.specification),
    ("owningSchema", optionJson c.schema),
    ("properties", .array (c.properties.map Property.toJson))]

def Model.toJson (m : Model) : Value :=
  .object [
    ("psmIri", .string m.iri),
    ("humanLabel", m.title.toJson),
    ("owningSpecification", .string m.specification),
    ("namespace", optionJson m.uri),
    ("namespacePrefix", optionJson m.nsPrefix),
    ("roots", .array (m.roots.map stringsJson)),
    ("classes", .array (m.classes.map Class.toJson))]

def Model.render (m : Model) : String := m.toJson.pretty

/-! ### Reading -/

def Labels.decode (d : Doc) : Decoded Labels := Labels.ofList <$> decodeMembers decodeString d

def decodeStrings : Doc → Decoded (List String) := decodeList decodeString

/-- What a value is, for a message. -/
def Json.Value.found : Value → Found
  | .null => .null
  | .bool b => .bool b
  | .number n => .number n
  | .string s => .string s
  | .array _ => .array
  | .object _ => .object

def Json.Value.asString : Value → Decoded String
  | .string s => .ok s
  | v => .error (.mismatch (.wrongType v.found "a string"))

namespace DataType

def kinds : List String := ["primitive", "association"]

def fieldOf (kind : String) : String := if kind = "primitive" then "iri" else "class"

def contentTitle (kind : String) : String :=
  "struct variant DataType::" ++ (if kind = "primitive" then "Primitive" else "Association")

def ofKind (kind content : String) : DataType :=
  if kind = "primitive" then .primitive content else .association content

def decodeKind (d : Doc) : Decoded String :=
  match d with
  | .string read _ => do
    let kind ← sound read
    if kinds.contains kind then return kind
    else throw (.mismatch (.unknownVariant kind kinds))
  | d => refuse "variant identifier" d

/-- The members of a candidate, with its kind apart from the others. -/
def decodeTagged (room : Nat) : List (Except Fault String × Doc) → Option String →
    Decoded (Option String × List (String × Value))
  | [], kind => .ok (kind, [])
  | (key, d) :: rest, kind => do
    let key ← sound key
    if key = "kind" then
      if kind.isSome then throw (.mismatch (.duplicateField "kind"))
      decodeTagged room rest (some (← decodeKind d))
    else do
      let value ← decodeAny room d
      let (kind, others) ← decodeTagged room rest kind
      return (kind, (key, value) :: others)

def contentOf (name : String) : List (String × Value) → Option String → Decoded String
  | [], content => require name content
  | (key, v) :: rest, content =>
    if key = name then
      if content.isSome then .error (.mismatch (.duplicateField name))
      else do contentOf name rest (some (← v.asString))
    else contentOf name rest content

/-- A candidate from an object with its kind and its content, or from an array of the two. -/
def decode (room : Nat) : Doc → Decoded DataType
  | .object members tail => do
    let (kind, others) ← decodeTagged room members none
    raise tail
    let kind ← require "kind" kind
    return ofKind kind (← contentOf (fieldOf kind) others none)
  | .array items tail => do
    match items with
    | [] =>
      raise tail
      throw (.mismatch (.missingField "kind"))
    | item :: items =>
      let kind ← decodeKind item
      let values ← decodeItems room items
      raise tail
      match values with
      | [] => throw (.mismatch (.wrongLength 0 (contentTitle kind ++ " with 1 element")))
      | v :: rest =>
        let content ← v.asString
        if rest.isEmpty then return ofKind kind content
        else throw (.mismatch (.wrongLength values.length "1 element in sequence"))
  | d => refuse "internally tagged enum DataType" d

end DataType

/-- A property as far as it is read. -/
structure Property.Draft where
  iri : Option String := none
  predicate : Option String := none
  label : Option String := none
  title : Option Labels := none
  least : Option UInt32 := none
  most : Option (Option UInt32) := none
  isReverse : Option Bool := none
  isSpliced : Option Bool := none
  types : Option (List DataType) := none

/-- How deep containers may be nested in a candidate of a property of a class of a model. -/
def DataType.room : Nat := nestingLimit - 7

def Property.fields : List (FieldReader Property.Draft) := [
  ⟨"psmIri", true, (·.iri.isSome), fun d p => do return { p with iri := some (← decodeString d) }⟩,
  ⟨"cimIri", true, (·.predicate.isSome),
    fun d p => do return { p with predicate := some (← decodeString d) }⟩,
  ⟨"technicalLabel", true, (·.label.isSome),
    fun d p => do return { p with label := some (← decodeString d) }⟩,
  ⟨"humanLabel", false, (·.title.isSome),
    fun d p => do return { p with title := some (← Labels.decode d) }⟩,
  ⟨"cardinalityMin", false, (·.least.isSome),
    fun d p => do return { p with least := some (← decodeUInt32 d) }⟩,
  ⟨"cardinalityMax", false, (·.most.isSome),
    fun d p => do return { p with most := some (← decodeOption decodeUInt32 d) }⟩,
  ⟨"isReverse", false, (·.isReverse.isSome),
    fun d p => do return { p with isReverse := some (← decodeBool d) }⟩,
  ⟨"dematerialize", false, (·.isSpliced.isSome),
    fun d p => do return { p with isSpliced := some (← decodeBool d) }⟩,
  ⟨"dataTypes", true, (·.types.isSome),
    fun d p => do return { p with types := some (← decodeList (DataType.decode DataType.room) d) }⟩]

/-- A property; it has exactly one value unless the document says otherwise. -/
def Property.decode (d : Doc) : Decoded Property := do
  let p ← readStruct "struct Property" Property.fields {} d
  return {
    iri := ← require "psmIri" p.iri
    predicate := ← require "cimIri" p.predicate
    label := ← require "technicalLabel" p.label
    title := p.title.getD {}
    least := p.least.getD 1
    most := p.most.getD (some 1)
    isReverse := p.isReverse.getD false
    isSpliced := p.isSpliced.getD false
    types := ← require "dataTypes" p.types }

/-- A class as far as it is read. -/
structure Class.Draft where
  iri : Option String := none
  meaning : Option (Option String) := none
  title : Option Labels := none
  label : Option String := none
  isCodelist : Option Bool := none
  parents : Option (List String) := none
  specification : Option (Option String) := none
  schema : Option (Option String) := none
  properties : Option (List Property) := none

def Class.fields : List (FieldReader Class.Draft) := [
  ⟨"psmIri", true, (·.iri.isSome), fun d c => do return { c with iri := some (← decodeString d) }⟩,
  ⟨"cimIri", false, (·.meaning.isSome),
    fun d c => do return { c with meaning := some (← decodeOption decodeString d) }⟩,
  ⟨"humanLabel", false, (·.title.isSome),
    fun d c => do return { c with title := some (← Labels.decode d) }⟩,
  ⟨"technicalLabel", true, (·.label.isSome),
    fun d c => do return { c with label := some (← decodeString d) }⟩,
  ⟨"isCodelist", false, (·.isCodelist.isSome),
    fun d c => do return { c with isCodelist := some (← decodeBool d) }⟩,
  ⟨"extends", false, (·.parents.isSome),
    fun d c => do return { c with parents := some (← decodeStrings d) }⟩,
  ⟨"owningSpecification", false, (·.specification.isSome),
    fun d c => do return { c with specification := some (← decodeOption decodeString d) }⟩,
  ⟨"owningSchema", false, (·.schema.isSome),
    fun d c => do return { c with schema := some (← decodeOption decodeString d) }⟩,
  ⟨"properties", false, (·.properties.isSome),
    fun d c => do return { c with properties := some (← decodeList Property.decode d) }⟩]

/-- A class; what the document leaves out is empty. -/
def Class.decode (d : Doc) : Decoded Class := do
  let c ← readStruct "struct Class" Class.fields {} d
  return {
    iri := ← require "psmIri" c.iri
    meaning := c.meaning.getD none
    title := c.title.getD {}
    label := ← require "technicalLabel" c.label
    isCodelist := c.isCodelist.getD false
    parents := c.parents.getD []
    specification := c.specification.getD none
    schema := c.schema.getD none
    properties := c.properties.getD [] }

/-- A model as far as it is read. -/
structure Model.Draft where
  iri : Option String := none
  title : Option Labels := none
  specification : Option String := none
  uri : Option (Option String) := none
  nsPrefix : Option (Option String) := none
  roots : Option (List (List String)) := none
  classes : Option (List Class) := none

def Model.fields : List (FieldReader Model.Draft) := [
  ⟨"psmIri", true, (·.iri.isSome), fun d m => do return { m with iri := some (← decodeString d) }⟩,
  ⟨"humanLabel", false, (·.title.isSome),
    fun d m => do return { m with title := some (← Labels.decode d) }⟩,
  ⟨"owningSpecification", true, (·.specification.isSome),
    fun d m => do return { m with specification := some (← decodeString d) }⟩,
  ⟨"namespace", false, (·.uri.isSome),
    fun d m => do return { m with uri := some (← decodeOption decodeString d) }⟩,
  ⟨"namespacePrefix", false, (·.nsPrefix.isSome),
    fun d m => do return { m with nsPrefix := some (← decodeOption decodeString d) }⟩,
  ⟨"roots", true, (·.roots.isSome),
    fun d m => do return { m with roots := some (← decodeList decodeStrings d) }⟩,
  ⟨"classes", true, (·.classes.isSome),
    fun d m => do return { m with classes := some (← decodeList Class.decode d) }⟩]

def Model.decode (d : Doc) : Decoded Model := do
  let m ← readStruct "struct StructureModel" Model.fields {} d
  return {
    iri := ← require "psmIri" m.iri
    title := m.title.getD {}
    specification := ← require "owningSpecification" m.specification
    uri := m.uri.getD none
    nsPrefix := m.nsPrefix.getD none
    roots := ← require "roots" m.roots
    classes := ← require "classes" m.classes }

def Model.parse (text : String) : Decoded Model := decodeText Model.decode text

end RdfXmlMapping
