import RdfXmlMapping.Model.Basic

/-! Models built step by step. -/

namespace RdfXmlMapping

namespace Property

/-- A property with exactly one value and no candidates for it yet. -/
def make (label predicate : String) : Property :=
  { iri := "", predicate, label, title := {}, least := 1, most := some 1, isReverse := false,
    isSpliced := false, types := [] }

def primitive (p : Property) (iri : String) : Property :=
  { p with types := p.types ++ [.primitive iri] }

def association (p : Property) (target : String) : Property :=
  { p with types := p.types ++ [.association target] }

end Property

namespace Class

def make (iri label : String) : Class :=
  { iri, meaning := none, title := {}, label, isCodelist := false, parents := [],
    specification := none, schema := none, properties := [] }

def extending (c : Class) (parent : String) : Class := { c with parents := c.parents ++ [parent] }

def ownedBy (c : Class) (specification schema : String) : Class :=
  { c with specification := some specification, schema := some schema }

/-- The class with one more property, whose identity is made from the class if it has none. -/
def declaring (c : Class) (p : Property) : Class :=
  let p := if p.iri.isEmpty then { p with iri := c.iri ++ "/" ++ p.label } else p
  { c with properties := c.properties ++ [p] }

end Class

namespace Model

def make (iri specification : String) : Model :=
  { iri, title := {}, specification, uri := none, nsPrefix := none, roots := [], classes := [] }

def rootedAt (m : Model) (group : List String) : Model := { m with roots := m.roots ++ [group] }

def declaring (m : Model) (c : Class) : Model := { m with classes := m.classes ++ [c] }

end Model

end RdfXmlMapping
