import RdfXmlMapping.Artifact.Inputs
import RdfXmlMapping.Conformance.Agreement
import RdfXmlMapping.Conformance.Query
import RdfXmlMapping.Conformance.Samples
import RdfXmlMapping.Conformance.Schema
import RdfXmlMapping.Text.Messages

/-!
All checks of the artifacts of a model, of a directory, and of the samples. Artifacts written in XML
must be documents, and stylesheets must be of the right version.
-/

namespace RdfXmlMapping.Conformance

/-! ### Markup -/

def markupKinds : List ArtifactKind := [.schema, .lifting, .lowering]

def versionText : Option String → String
  | some version => "Some(" ++ Text.quoted version ++ ")"
  | none => "None"

def checkMarkup (kind : ArtifactKind) (text : String) : Finding :=
  let check := "xml/" ++ kind.name
  match Xml.Node.parse? text with
  | none => .failed check "not well-formed" []
  | some root =>
    if kind = .schema then
      .passed check
        ("well-formed (" ++ toString (root.descendants.filter (·.isElement)).length ++ " elements)")
    else if !root.isNamed Vocabulary.xslt "stylesheet" then
      .failed check ("document element is " ++
        Text.quoted ((root.name?.map (·.localName)).getD "") ++ ", not xsl:stylesheet") []
    else if root.attribute? "version" = some "2.0" then
      .passed check "well-formed XSLT 2.0 stylesheet"
    else
      .failed check
        ("stylesheet version is " ++ versionText (root.attribute? "version") ++ ", not 2.0") []

def checkAllMarkup (set : ArtifactSet) : Report :=
  markupKinds.filterMap fun kind => (set.get? kind).map (checkMarkup kind)

/-! ### Artifacts of a model -/

/-- Checks the artifacts that are there: each for itself, then against each other. -/
def checkAll (m : Model) (config : Config) (set : ArtifactSet) : Except Query.Obstacle Report := do
  let schema := match set.schema with
    | some text => checkSchema text m
    | none => []
  let query ← match set.query with
    | some text => Query.check text config.bindings
    | none => pure []
  return checkAllMarkup set ++ schema ++ query ++ checkAgreement set config.bindings

/-! ### Artifacts in a directory -/

/-- Where the artifacts to check, and what they were generated from, are kept. -/
structure Paths where
  model : String
  artifacts : String
  config : Option String
  deriving DecidableEq, Repr

/-- Why artifacts cannot be checked. -/
inductive CheckError where
  | input (error : InputError)
  | query (obstacle : Query.Obstacle)
  deriving Repr

/-- The findings for the artifacts that are not there. -/
def missingArtifacts (config : Config) (set : ArtifactSet) : Report :=
  (ArtifactKind.all.filter fun kind => (set.get? kind).isNone).map fun kind =>
    .failed ("artifacts/" ++ kind.name) (config.output.fileName kind ++ " not found") []

def loadArtifacts {m : Type → Type} [Monad m] (fs : Files.System m) (directory : String)
    (config : Config) : m ArtifactSet :=
  ArtifactKind.all.foldlM (fun set kind => do
    return set.set kind (← fs.read (Files.join directory (config.output.fileName kind)))) {}

/-- Checks the artifacts in a directory; a missing one fails. -/
def checkDirectory {m : Type → Type} [Monad m] (fs : Files.System m) (paths : Paths) :
    ExceptT CheckError m Report := do
  let model ← ExceptT.adapt .input (loadModel fs paths.model)
  let config ← ExceptT.adapt .input (loadConfig fs paths.config)
  let set ← ExceptT.lift (loadArtifacts fs paths.artifacts config)
  match checkAll model config set with
  | .ok report => return missingArtifacts config set ++ report
  | .error obstacle => throw (.query obstacle)

/-! ### Samples -/

/-- Whether an artifact of a sample is generated exactly if it should be. An artifact that is
generated as it should has no finding yet. -/
def checkGeneration (sample : Sample) (kind : ArtifactKind) : Report :=
  let check := "fixtures/" ++ sample.name ++ "/" ++ kind.name
  match Source.artifact ⟨sample.model, [], {}⟩ kind, sample.refused.contains kind with
  | .ok _, false => []
  | .ok _, true => [.failed check "generated, expected a refusal" []]
  | .error e, false => [.failed check ("generation failed: " ++ e.message) []]
  | .error e, true =>
    if e.family = .unsupportedCombination then [.passed check ("refused: " ++ e.message)]
    else [.failed check ("refused with a " ++ e.family.name ++
      " error, expected an unsupported combination: " ++ e.message) []]

def checkSample (sample : Sample) : Except Query.Obstacle Report := do
  let source : Source := ⟨sample.model, [], {}⟩
  let set := sample.refused.foldl (fun set kind => set.set kind none) (ArtifactSet.generate source)
  let report ← checkAll sample.model {} set
  return ArtifactKind.all.flatMap (checkGeneration sample) ++
    report.map fun f => { f with check := "fixtures/" ++ sample.name ++ "/" ++ f.check }

def checkSamples : Except Query.Obstacle Report := do
  return (← Sample.all.mapM checkSample).flatten

end RdfXmlMapping.Conformance
