import RdfXmlMapping.Toml.Value

/-!
Building tables from what is written. Every key is given one value only, and a table that is
complete cannot be added to: one in braces never, one with a header neither by a second header nor
by dotted keys.
-/

namespace RdfXmlMapping.Toml

/-- A value under a dotted key; `path` leads to the table that holds it. -/
structure Pair where
  path : List String
  key : String
  value : Value

/-- A header with the pairs below it. `repeated` headers start one more table of several. -/
structure Section where
  repeated : Bool
  path : List String
  key : String
  pairs : List Pair

def get? (key : String) (entries : Entries) : Option Value :=
  (entries.find? (·.1 == key)).map (·.2)

def set (key : String) (value : Value) (entries : Entries) : Entries :=
  entries.map fun e => if e.1 == key then (key, value) else e

/-- Changes the table at the end of a path. Tables that are missing on the way come into being with
the origin `way`. `change` is told whether dotted keys brought its table into being. -/
def descend (way : Origin) (change : Bool → Entries → Option Entries) :
    List String → Bool → Entries → Option Entries
  | [], dotted, entries => change dotted entries
  | key :: path, _, entries =>
    match get? key entries with
    | none => do
      let inner ← descend way change path (way = .dotted) []
      return entries ++ [(key, .table way inner)]
    | some (.table origin inner) =>
      if origin = .braces ∨ (way = .dotted ∧ origin = .header) then none
      else do
        return set key (.table origin (← descend way change path (origin = .dotted) inner)) entries
    | some (.tables rows) =>
      match rows.getLast? with
      | none => none
      | some row => do
        return set key (.tables (rows.dropLast ++ [← descend way change path false row])) entries
    | some _ => none

/-- Adds a pair to a table. A key with a path ends in a table of dotted keys. -/
def addPair (entries : Entries) (p : Pair) : Option Entries :=
  descend .dotted (fun dotted inner =>
    if dotted = p.path.isEmpty ∨ (get? p.key inner).isSome then none
    else some (inner ++ [(p.key, p.value)])) p.path false entries

def addPairs (entries : Entries) (pairs : List Pair) : Option Entries :=
  pairs.foldlM addPair entries

/-- Adds a section to the document's table. A table that was only on the way to others is taken up
under its own header, and stands where that header stands. -/
def addSection (root : Entries) (s : Section) : Option Entries :=
  descend .implied (fun _ inner =>
    match s.repeated, get? s.key inner with
    | false, none => do return inner ++ [(s.key, .table .header (← addPairs [] s.pairs))]
    | false, some (.table .implied entries) => do
      return inner.filter (·.1 != s.key) ++ [(s.key, .table .header (← addPairs entries s.pairs))]
    | true, none => do return inner ++ [(s.key, .tables [← addPairs [] s.pairs])]
    | true, some (.tables rows) => do
      return set s.key (.tables (rows ++ [← addPairs [] s.pairs])) inner
    | _, some _ => none) s.path false root

end RdfXmlMapping.Toml
