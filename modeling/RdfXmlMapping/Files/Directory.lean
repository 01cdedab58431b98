import RdfXmlMapping.Text.Segments

/-! Paths of files, files with their contents, and how programs reach them. -/

namespace RdfXmlMapping.Files

/-! ### Paths -/

/-- The path of a file from a directory on. A path from the root stays as it is. -/
def join (directory file : String) : String :=
  if file.toList.head? = some '/' ∨ directory.isEmpty then file
  else if directory.toList.getLast? = some '/' then directory ++ file
  else directory ++ "/" ++ file

/-- The last name of a path. -/
def fileName (path : String) : String :=
  .ofList ((path.toList.reverse.takeWhile (· ≠ '/')).reverse)

/-- Goes on from a place by one name; the innermost name comes first. Two points lead back. -/
def goOn (place : List String) (name : String) : List String :=
  if name = "" ∨ name = "." then place
  else if name = ".." then
    match place with
    | [] => [".."]
    | last :: outer => if last = ".." then ".." :: place else outer
  else name :: place

def pathNames (path : String) : List String := (Text.segments '/' path.toList).map String.ofList

/-- The names that lead to a file; a path from the root begins with a slash. Different paths to one
file have the same place. -/
def place (path : String) : List String :=
  let steps := ((pathNames path).foldl goOn []).reverse
  if path.toList.head? = some '/' then "/" :: steps else steps

/-! ### Directories -/

/-- Files by their places. -/
structure Directory where
  files : List (List String × String) := []
  deriving DecidableEq, Repr

namespace Directory

def get? (d : Directory) (location : List String) : Option String :=
  (d.files.find? (·.1 == location)).map (·.2)

def isDirectory (d : Directory) (location : List String) : Bool :=
  d.files.any fun f => location.isPrefixOf f.1 && f.1 != location

/-- Whether a path can be followed from a place, the innermost name first: a directory that two
points lead back from must be there. -/
def canFollow (d : Directory) : List String → List String → Bool
  | _, [] => true
  | here, name :: names =>
    (name != ".." || here.isEmpty || d.isDirectory here.reverse) &&
      d.canFollow (goOn here name) names

def read? (d : Directory) (path : String) : Option String :=
  if d.canFollow [] (pathNames path) then d.get? (place path) else none

def put (d : Directory) (location : List String) (text : String) : Directory :=
  if (d.get? location).isSome then
    ⟨d.files.map fun f => if f.1 == location then (location, text) else f⟩
  else ⟨d.files ++ [(location, text)]⟩

/-- The places of the files at or below a place, in order: of two names the lesser one first, with
all that lies below it. -/
def below (d : Directory) (location : List String) : List (List String) :=
  ((d.files.map (·.1)).filter (location.isPrefixOf ·)).mergeSort Text.notAfter

def ofList (files : List (String × String)) : Directory :=
  files.foldl (fun d f => d.put (place f.1) f.2) {}

/-- The files of `d` that are new or have another content than in `before`. -/
def changedSince (d before : Directory) : List (List String × String) :=
  d.files.filter fun f => before.get? f.1 ≠ some f.2

end Directory

/-! ### Operations -/

/-- The operations on files that programs need. -/
structure System (m : Type → Type) where
  /-- The content of a file, if there is one. -/
  read : String → m (Option String)
  /-- The paths of the files at or below a path, in the order of their names. -/
  below : String → m (List String)
  /-- Gives a file a content and makes the directories on its path. -/
  write : String → String → m Unit

/-- Files that are held as a value; nothing fails. -/
def Directory.system : System (StateM Directory) :=
  { read := fun path => do return (← get).read? path
    below := fun path => do return ((← get).below (place path)).map ("/".intercalate ·)
    write := fun path text => modify (·.put (place path) text) }

end RdfXmlMapping.Files
