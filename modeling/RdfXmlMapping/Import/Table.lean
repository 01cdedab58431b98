import RdfXmlMapping.Fresh

/-! The documents that an artifact imports, each with the prefix bound to its namespace. -/

namespace RdfXmlMapping.Import

/-- A published artifact of another specification, seen from the artifact that imports it. -/
structure Descriptor where
  specification : String
  /-- Target namespace, if the artifact has one. -/
  uri : Option String
  /-- The prefix that the artifact itself uses for its namespace. -/
  ownPrefix : Option String
  reference : String
  deriving DecidableEq, Repr

/-- An import and its prefix; there is one exactly if the imported artifact has a namespace. -/
structure Entry where
  descriptor : Descriptor
  bound : Option String
  deriving DecidableEq, Repr

/-- Imports in the order of first use. `next` is the first number not tried for a prefix yet. -/
structure Table where
  reserved : List String
  entries : List Entry := []
  next : Nat := 0
  deriving DecidableEq, Repr

namespace Table

def numbered (n : Nat) : String := "imp" ++ toString n

def taken (t : Table) : List String := t.reserved ++ t.entries.filterMap (·.bound)

/-- The prefix for a new import, and the next number to try: its own prefix if that is free, else
the first free number. -/
def choosePrefix (t : Table) (d : Descriptor) : Option String × Nat :=
  match d.uri, d.ownPrefix with
  | none, _ => (none, t.next)
  | some _, some own =>
    if t.taken.contains own then allocate else (some own, t.next)
  | some _, none => allocate
where
  allocate : Option String × Nat :=
    let n := fresh numbered t.taken t.next
    (some (numbered n), n + 1)

/-- The entry of an import, made at the first use of its reference. -/
def register (t : Table) (d : Descriptor) : Entry × Table :=
  match t.entries.find? (·.descriptor.reference == d.reference) with
  | some entry => (entry, t)
  | none =>
    let (bound, next) := t.choosePrefix d
    let entry : Entry := { descriptor := d, bound }
    (entry, { t with entries := t.entries ++ [entry], next })

end Table

end RdfXmlMapping.Import
