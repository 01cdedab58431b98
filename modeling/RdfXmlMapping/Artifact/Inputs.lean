import RdfXmlMapping.Artifact.Manifest
import RdfXmlMapping.Config.Decode
import RdfXmlMapping.Files.Directory
import RdfXmlMapping.Model.Json

/-! Models, settings and manifests from files. -/

namespace RdfXmlMapping

/-- Why the inputs of a program cannot be read. -/
inductive InputError where
  | noModel
  | model (error : Json.ReadError)
  | config (error : ConfigError)
  deriving Repr

def Manifest.suffix : String := ".manifest.json"

variable {m : Type → Type} [Monad m] (fs : Files.System m)

def loadModel (path : String) : ExceptT InputError m Model := do
  match ← fs.read path with
  | none => throw .noModel
  | some text =>
    match Model.parse text with
    | .ok model => return model
    | .error e => throw (.model e)

/-- The settings in a file. A missing file, and no file, mean the defaults. -/
def loadConfig (path : Option String) : ExceptT InputError m Config := do
  match path with
  | none => return {}
  | some path =>
    match ← fs.read path with
    | none => return {}
    | some text =>
      match Config.parse text with
      | .ok config => return config
      | .error e => throw (.config e)

/-- The manifests below a directory; files that hold none are passed over. -/
def loadManifests (path : String) : m (List Manifest) := do
  let paths := (← fs.below path).filter fun path =>
    Manifest.suffix.toList.isSuffixOf (Files.fileName path).toList
  let texts ← paths.mapM fs.read
  return texts.filterMap fun text => text.bind fun text => (Manifest.parse text).toOption

end RdfXmlMapping
