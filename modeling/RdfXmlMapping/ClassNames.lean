import RdfXmlMapping.Fresh
import RdfXmlMapping.Model.Basic
import RdfXmlMapping.NCName

/-! Names for the types of classes. -/

namespace RdfXmlMapping

def identityElement : String := "iri"

def languageTextType : String := "langString"

/-- The names of classes by identity, and the names that no further type can have. -/
structure ClassNames where
  names : List (String × String) := []
  taken : List String := [languageTextType, identityElement]
  deriving DecidableEq, Repr

namespace ClassNames

/-- The first, second, … choice of a name: the name itself, then with 2, 3, … after it. -/
def choice (base : String) : Nat → String
  | 0 => base
  | n + 1 => base ++ toString (n + 2)

/-- Takes the first choice of a name that is free. -/
def reserve (t : ClassNames) (base : String) : String × ClassNames :=
  let name := choice base (fresh (choice base) t.taken 0)
  (name, { t with taken := name :: t.taken })

/-- Gives a name to a class unless its identity has one. A class of another specification is named
by its own schema, so its name need not differ from others. -/
def add (m : Model) (t : ClassNames) (c : Class) : ClassNames :=
  if t.names.any (·.1 == c.iri) then t
  else if m.isForeign c then { t with names := t.names ++ [(c.iri, toNCName c.label)] }
  else
    let (name, t) := t.reserve (toNCName c.label)
    { t with names := t.names ++ [(c.iri, name)] }

/-- The names of the classes of a model, given in the order of the classes. -/
def ofModel (m : Model) : ClassNames := m.classes.foldl (add m) {}

def get (t : ClassNames) (c : Class) : String :=
  ((t.names.find? (·.1 == c.iri)).map (·.2)).getD c.label

end ClassNames

end RdfXmlMapping
