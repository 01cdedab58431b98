import RdfXmlMapping.Lifting.Generate
import RdfXmlMapping.Lowering.Generate
import RdfXmlMapping.Query.Generate
import RdfXmlMapping.Schema.Generate

/-! The texts of artifacts, and the artifacts of one model taken together. -/

namespace RdfXmlMapping

def Source.artifact (s : Source) : ArtifactKind → Generated String
  | .schema => Schema.render <$> Schema.generate s
  | .query => Query.generate s
  | .lifting => Lifting.render <$> Lifting.generate s
  | .lowering => Lowering.render <$> Lowering.generate s

/-- The texts of the artifacts that are there. -/
structure ArtifactSet where
  schema : Option String := none
  query : Option String := none
  lifting : Option String := none
  lowering : Option String := none
  deriving DecidableEq, Repr

namespace ArtifactSet

def get? (set : ArtifactSet) : ArtifactKind → Option String
  | .schema => set.schema
  | .query => set.query
  | .lifting => set.lifting
  | .lowering => set.lowering

/-- The set with another text, or none, for the artifact of a kind. -/
def set (set : ArtifactSet) (kind : ArtifactKind) (text : Option String) : ArtifactSet :=
  match kind with
  | .schema => { set with schema := text }
  | .query => { set with query := text }
  | .lifting => { set with lifting := text }
  | .lowering => { set with lowering := text }

def generate (source : Source) : ArtifactSet :=
  ArtifactKind.all.foldl (fun set kind => set.set kind (source.artifact kind).toOption) {}

end ArtifactSet

end RdfXmlMapping
