import RdfXmlMapping.Fresh
import RdfXmlMapping.NCName

/-! Prefixes for namespaces, handed out as a document needs them. -/

namespace RdfXmlMapping

/-- Namespaces with their prefixes in the order of first use. A prefix is the stem and a number;
`next` is the first number not tried yet. -/
structure PrefixTable where
  stem : String
  reserved : List String := []
  entries : List (String × String) := []
  next : Nat := 0
  deriving DecidableEq, Repr

namespace PrefixTable

def numbered (t : PrefixTable) (n : Nat) : String := t.stem ++ toString n

def find? (t : PrefixTable) (uri : String) : Option String :=
  (t.entries.find? (·.1 == uri)).map (·.2)

/-- The prefix of a namespace; the first use takes the next number whose prefix is not reserved. -/
def prefixFor (t : PrefixTable) (uri : String) : String × PrefixTable :=
  match t.find? uri with
  | some name => (name, t)
  | none =>
    let n := fresh t.numbered t.reserved t.next
    (t.numbered n, { t with entries := t.entries ++ [(uri, t.numbered n)], next := n + 1 })

/-- The IRI as prefix and local name, if it has a local name. -/
def qualify (t : PrefixTable) (iri : String) : Option String × PrefixTable :=
  match Iri.split? iri with
  | none => (none, t)
  | some (uri, localName) =>
    let (name, t) := t.prefixFor uri
    (some (name ++ ":" ++ localName), t)

/-- The prefixes with the namespaces they stand for, in the order of first use. -/
def bindings (t : PrefixTable) : List (String × String) :=
  t.entries.map fun (uri, name) => (name, uri)

end PrefixTable

end RdfXmlMapping
