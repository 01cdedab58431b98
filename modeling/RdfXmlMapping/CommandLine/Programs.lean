import RdfXmlMapping.Artifact.Store
import RdfXmlMapping.CommandLine.Arguments
import RdfXmlMapping.Conformance.Suite

/-!
The two programs: one generates the artifacts of a model, the other checks them. Both are given
their arguments and the files, and end with a status and an output.
-/

namespace RdfXmlMapping.CommandLine

/-- How a program ends: its status and what it has printed. -/
structure Outcome where
  status : Nat
  output : String
  deriving DecidableEq, Repr

/-- The status of a program that has been called in the wrong way. -/
def usageStatus : Nat := 2

/-- The status of a program that breaks down. -/
def breakdownStatus : Nat := 101

/-- Lines, each with its end. -/
def printed (lines : List String) : String := String.join (lines.map (· ++ "\n"))

def pathParameter (name : String) : Parameter := ⟨name, none, .value (!·.isEmpty)⟩

def versionParameter : Parameter := ⟨"version", some 'V', .version⟩

def stopped (program : String) : Stop → Outcome
  | .refused => ⟨usageStatus, ""⟩
  | .version => ⟨0, printed [program ++ " 0.1.0"]⟩

/-- The kind of artifact that an argument names, or a complaint. -/
def readKind (s : String) : Except String ArtifactKind :=
  match ArtifactKind.ofName? s with
  | some kind => .ok kind
  | none => .error ("unknown artifact " ++ Text.quoted s ++ ", expected one of " ++
      ", ".intercalate (ArtifactKind.all.map (·.name)))

/-! ### Generating -/

def generateParameters : List Parameter :=
  [pathParameter "model", pathParameter "manifests", pathParameter "config", pathParameter "out",
    ⟨"only", none, .values fun v => (ArtifactKind.ofName? v).isSome⟩, versionParameter] ++
  loggingParameters

/-- The kinds of artifacts that are asked for; all of them if none is named. -/
def wantedKinds (given : Given) : List ArtifactKind :=
  match (given.values "only").filterMap ArtifactKind.ofName? with
  | [] => ArtifactKind.all
  | kinds => kinds

def inputLine (s : Source) : String :=
  "Structure Model " ++ s.model.iri ++ ": " ++ toString s.model.classes.length ++ " classes, " ++
    toString s.model.propertyCount ++ " properties, " ++ toString s.manifests.length ++
    " sibling manifests"

/-- Generates artifacts into a directory and tells what was written. -/
def generateInto {m : Type → Type} [Monad m] (fs : Files.System m) (s : Source)
    (directory : String) (kinds : List ArtifactKind) : m Outcome := do
  match ← s.store fs directory kinds with
  | .error _ => return ⟨1, printed [inputLine s]⟩
  | .ok g =>
    return ⟨0, printed (inputLine s ::
      g.files.map (fun file => "  Written: " ++ Files.join directory file) ++
      ["Generated " ++ toString g.artifactCount ++ " artifacts."])⟩

def generate {m : Type → Type} [Monad m] (fs : Files.System m) (args : List String) :
    m Outcome := do
  match read generateParameters args with
  | .error stop => return stopped "structura-generate" stop
  | .ok given =>
    match given.value? "model" with
    | none => return ⟨usageStatus, ""⟩
    | some path =>
      let inputs : ExceptT InputError m (Model × Config) := do
        return (← loadModel fs path, ← loadConfig fs (given.value? "config"))
      match ← inputs.run with
      | .error _ => return ⟨1, ""⟩
      | .ok (model, config) =>
        let manifests ← match given.value? "manifests" with
          | some path => loadManifests fs path
          | none => pure []
        generateInto fs ⟨model, manifests, config⟩ ((given.value? "out").getD "out")
          (wantedKinds given)

/-! ### Checking -/

def checkParameters : List Parameter :=
  [pathParameter "model", pathParameter "artifacts", pathParameter "config",
    ⟨"fixtures", none, .switch⟩, versionParameter] ++ loggingParameters

def reportOutcome (r : Conformance.Report) : Outcome :=
  let failed := Conformance.Report.count r .failure
  let warned := Conformance.Report.count r .warning
  let lines := ["Structura Conformance Report", "============================", ""] ++
    r.map (·.text) ++ ["", "Summary: " ++ toString (r.length - failed - warned) ++ " passed, " ++
      toString warned ++ " warnings, " ++ toString failed ++ " failed"]
  if failed > 0 then ⟨1, printed lines⟩ else ⟨0, printed (lines ++ ["Conformance PASSED."])⟩

def check {m : Type → Type} [Monad m] (fs : Files.System m) (args : List String) : m Outcome := do
  match read checkParameters args with
  | .error stop => return stopped "structura-conformance" stop
  | .ok given =>
    match given.value? "model", given.has "fixtures" with
    | some _, true | none, false => return ⟨usageStatus, ""⟩
    | none, true =>
      match Conformance.checkSamples with
      | .ok r => return reportOutcome r
      | .error _ => return ⟨breakdownStatus, ""⟩
    | some model, false =>
      let paths : Conformance.Paths := {
        model
        artifacts := (given.value? "artifacts").getD "out"
        config := given.value? "config" }
      match ← (Conformance.checkDirectory fs paths).run with
      | .ok r => return reportOutcome r
      | .error (.query .patternFirst) => return ⟨breakdownStatus, ""⟩
      | .error (.input _) => return ⟨1, ""⟩

end RdfXmlMapping.CommandLine
