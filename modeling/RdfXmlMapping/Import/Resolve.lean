import RdfXmlMapping.Artifact.Manifest
import RdfXmlMapping.Import.Table
import RdfXmlMapping.Model.Ancestry
import RdfXmlMapping.Text.Replace
import RdfXmlMapping.Text.Segments

/-! Where a class of another specification is published, and how its document refers to that
place. -/

namespace RdfXmlMapping.Import

/-! ### References -/

open Text

/-- Scheme and authority of an address that has them, and the path after them. -/
def splitOrigin? (address : List Char) : Option (List Char × List Char) :=
  match cut? [':', '/', '/'] address with
  | some (scheme, rest) =>
    some (scheme ++ [':', '/', '/'] ++ rest.takeWhile (· ≠ '/'), rest.dropWhile (· ≠ '/'))
  | none => none

def sharedLength : List (List Char) → List (List Char) → Nat
  | a :: as, b :: bs => if a = b then sharedLength as bs + 1 else 0
  | _, _ => 0

def indexFile : List Char := "index.html".toList

/-- Leaves out a final index document, so that the path names its directory. -/
def dropIndex (path : List (List Char)) : List (List Char) :=
  if path.getLast? = some indexFile then path.dropLast ++ [[]] else path

/-- One `..` for each directory of `source` that `target` is not in, and then the rest of `target`.
The last segment of `source` is its file name and never a directory. -/
def relativeSegments (source target : List (List Char)) : List (List Char) :=
  let shared := min (sharedLength source target) (source.length - 1)
  List.replicate (source.length - 1 - shared) ['.', '.'] ++ target.drop shared

/-- The reference to the path `target` in a document at the path `source`. -/
def relativePath (source target : List Char) : List Char :=
  match joinSegments '/'
      (dropIndex (relativeSegments (segments '/' source) (segments '/' target))) with
  | [] => ['.']
  | reference => reference

/-- The reference to the address `target` in a document published at `source`. Addresses of
different origins have no relative reference. -/
def relativeReferenceChars (source target : List Char) : List Char :=
  match splitOrigin? source, splitOrigin? target with
  | some (a, source), some (b, path) => if a = b then relativePath source path else target
  | _, _ => relativePath source target

/-- The reference to the address `target` in a document published at `source`. -/
def relativeReference (source target : String) : String :=
  .ofList (relativeReferenceChars source.toList target.toList)

/-! ### Resolution -/

/-- From where an artifact looks at others: what is published, its own kind and its own address. -/
structure Outlook where
  manifests : List Manifest
  kind : ArtifactKind
  address : String
  deriving DecidableEq, Repr

/-- The artifact of the same kind that was generated from the schema of a class; nothing for a class
of the model's own specification. -/
def Outlook.resolve (o : Outlook) (m : Model) (c : Class) : Generated (Option Descriptor) :=
  if !m.isForeign c then .ok none
  else
    let specification := m.specificationOf c
    match (o.manifests.filter (·.specification == specification)).findSome?
        (·.find? o.kind (m.schemaOf c)) with
    | none => .error (.unresolvedImport c.iri specification o.kind)
    | some p => .ok (some {
        specification
        uri := p.uri
        ownPrefix := p.nsPrefix
        reference := relativeReference o.address p.address })

end RdfXmlMapping.Import
