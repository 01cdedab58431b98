import RdfXmlMapping.Artifact.Kind
import RdfXmlMapping.Json.Decode

/-! What other specifications have published. -/

namespace RdfXmlMapping

open Json

/-- A published artifact. -/
structure Publication where
  kind : ArtifactKind
  /-- The model that it was generated from. -/
  source : String
  address : String
  uri : Option String
  nsPrefix : Option String
  deriving DecidableEq, Repr

/-- The artifacts of one specification. -/
structure Manifest where
  specification : String
  publications : List Publication
  deriving DecidableEq, Repr

/-- The first artifact of a kind that was generated from a model. -/
def Manifest.find? (m : Manifest) (kind : ArtifactKind) (source : String) : Option Publication :=
  m.publications.find? fun p => p.kind = kind && p.source == source

/-! ### Reading -/

def ArtifactKind.ofNameIn (name : String) : Decoded ArtifactKind :=
  match ofName? name with
  | some kind => .ok kind
  | none => .error (.mismatch (.unknownVariant name (all.map ArtifactKind.name)))

/-- A kind: its name, or an object with its name as the only key and null as the value. -/
def ArtifactKind.decode : Doc → Decoded ArtifactKind
  | .string read _ => do ofNameIn (← sound read)
  | .object ((key, d) :: rest) tail => do
    let kind ← ofNameIn (← sound key)
    match d with
    | .null => pure ()
    | d => refuse "unit" d
    if !rest.isEmpty then throw (.fault .malformed)
    raise tail
    return kind
  | .object [] tail => do
    raise tail
    throw (.fault .malformed)
  | .broken f => .error (.fault f)
  | _ => .error (.fault .malformed)

/-- A published artifact as far as it is read. -/
structure Publication.Draft where
  kind : Option ArtifactKind := none
  source : Option String := none
  address : Option String := none
  uri : Option (Option String) := none
  nsPrefix : Option (Option String) := none

def Publication.fields : List (FieldReader Publication.Draft) := [
  ⟨"generator", true, (·.kind.isSome),
    fun d p => do return { p with kind := some (← ArtifactKind.decode d) }⟩,
  ⟨"sourceModel", true, (·.source.isSome),
    fun d p => do return { p with source := some (← decodeString d) }⟩,
  ⟨"publicAddress", true, (·.address.isSome),
    fun d p => do return { p with address := some (← decodeString d) }⟩,
  ⟨"namespace", false, (·.uri.isSome),
    fun d p => do return { p with uri := some (← decodeOption decodeString d) }⟩,
  ⟨"namespacePrefix", false, (·.nsPrefix.isSome),
    fun d p => do return { p with nsPrefix := some (← decodeOption decodeString d) }⟩]

def Publication.decode (d : Doc) : Decoded Publication := do
  let p ← readStruct "struct ArtifactDescriptor" Publication.fields {} d
  return {
    kind := ← require "generator" p.kind
    source := ← require "sourceModel" p.source
    address := ← require "publicAddress" p.address
    uri := p.uri.getD none
    nsPrefix := p.nsPrefix.getD none }

/-- A manifest as far as it is read. -/
structure Manifest.Draft where
  specification : Option String := none
  publications : Option (List Publication) := none

def Manifest.fields : List (FieldReader Manifest.Draft) := [
  ⟨"id", true, (·.specification.isSome),
    fun d m => do return { m with specification := some (← decodeString d) }⟩,
  ⟨"artifacts", false, (·.publications.isSome),
    fun d m => do return { m with publications := some (← decodeList Publication.decode d) }⟩]

def Manifest.decode (d : Doc) : Decoded Manifest := do
  let m ← readStruct "struct SpecificationManifest" Manifest.fields {} d
  return {
    specification := ← require "id" m.specification
    publications := m.publications.getD [] }

def Manifest.parse (text : String) : Decoded Manifest := decodeText Manifest.decode text

end RdfXmlMapping
