import RdfXmlMapping.Artifact.Set
import RdfXmlMapping.Files.Directory

/-!
Artifacts written to where they are kept. Every artifact is generated before the first one is
written, so a model that is refused leaves everything as it was.
-/

namespace RdfXmlMapping

/-! ### One artifact -/

/-- A destination with the state `σ` that text is appended to. A failure has a reason in words. -/
structure Sink (σ : Type) where
  append : String → ExceptT String (StateM σ) Unit
  close : ExceptT String (StateM σ) Unit

/-- A text that grows; nothing fails. -/
def Sink.text : Sink String :=
  { append := fun chunk => modify (· ++ chunk)
    close := pure () }

/-- A medium that holds a limited number of bytes and keeps as many as fit; the state is the number
of bytes on it. It may be impossible to flush. -/
def Sink.medium (capacity : Option Nat) (flushes : Bool) : Sink Nat :=
  { append := fun chunk => do
      let size := (← get) + chunk.utf8ByteSize
      match capacity with
      | some capacity =>
        set (min size capacity)
        if size > capacity then throw "sink full"
      | none => set size
    close := if flushes then pure () else throw "sink not flushed" }

/-- Generates an artifact into a sink; nothing is appended if it cannot be generated. -/
def Source.writeTo {σ : Type} (s : Source) (kind : ArtifactKind) (sink : Sink σ) :
    ExceptT GenerationError (StateM σ) Unit :=
  match s.artifact kind with
  | .error e => throw e
  | .ok text => ExceptT.adapt .sinkFailed do
    sink.append text
    sink.close

/-! ### Several artifacts -/

/-- An artifact that cannot be generated. -/
structure Refusal where
  kind : ArtifactKind
  cause : GenerationError
  deriving DecidableEq, Repr

/-- What was generated, and into which files. -/
structure Generation where
  classCount : Nat
  propertyCount : Nat
  artifactCount : Nat
  files : List String
  deriving DecidableEq, Repr

/-- The texts of artifacts, or the first one that cannot be generated. -/
def Source.renderAll (s : Source) (kinds : List ArtifactKind) :
    Except Refusal (List (ArtifactKind × String)) :=
  kinds.mapM fun kind =>
    match s.artifact kind with
    | .ok text => .ok (kind, text)
    | .error cause => .error ⟨kind, cause⟩

/-- Writes artifacts into a directory, in their order. -/
def Source.writeAll {m : Type → Type} [Monad m] (s : Source) (fs : Files.System m)
    (directory : String) (texts : List (ArtifactKind × String)) : m Unit :=
  texts.forM fun (kind, text) =>
    fs.write (Files.join directory (s.config.output.fileName kind)) text

def Source.store {m : Type → Type} [Monad m] (s : Source) (fs : Files.System m)
    (directory : String) (kinds : List ArtifactKind) : m (Except Refusal Generation) := do
  match s.renderAll kinds with
  | .error refusal => return .error refusal
  | .ok texts =>
    s.writeAll fs directory texts
    return .ok {
      classCount := s.model.classes.length
      propertyCount := s.model.propertyCount
      artifactCount := texts.length
      files := texts.map fun (kind, _) => s.config.output.fileName kind }

end RdfXmlMapping
