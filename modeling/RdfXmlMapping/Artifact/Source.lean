import RdfXmlMapping.Config.Basic
import RdfXmlMapping.Import.Resolve

/-! What artifacts are generated from. -/

namespace RdfXmlMapping

/-- A model, what other specifications have published, and the settings. -/
structure Source where
  model : Model
  manifests : List Manifest
  config : Config
  deriving DecidableEq, Repr

def Source.outlook (s : Source) (kind : ArtifactKind) : Import.Outlook :=
  { manifests := s.manifests, kind, address := s.config.output.address kind }

end RdfXmlMapping
