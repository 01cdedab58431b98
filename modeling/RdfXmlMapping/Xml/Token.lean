import RdfXmlMapping.Xml.Reference

/-!
The tags and texts of a document, one after the other. Comments and processing instructions are
passed over; a document type declaration is refused.
-/

namespace RdfXmlMapping.Xml

/-- A name as it is written; without a colon the prefix is empty. -/
structure RawName where
  nsPrefix : String
  localName : String
  deriving DecidableEq, Repr

/-- A tag or a text. -/
inductive Token where
  /-- A start tag; `closed` if the element has no content and no end tag. -/
  | start (name : RawName) (attributes : List (RawName × String)) (closed : Bool)
  | stop (name : RawName)
  /-- Character data with its references. -/
  | text (raw : List Char)
  /-- Character data in which markup has no meaning. -/
  | verbatim (raw : List Char)
  deriving DecidableEq, Repr

def skipSpaces (cs : List Char) : List Char := cs.dropWhile isSpace

def scanName : List Char → Option (List Char × List Char)
  | [] => none
  | c :: cs => if isNameStart c then some ((c :: cs).span isNamePart) else none

def beginsName : List Char → Bool
  | [] => false
  | c :: _ => isNameStart c

/-- A name with at most one colon. -/
def scanRawName (cs : List Char) : Option (RawName × List Char) :=
  let (name, rest) := cs.span isNamePart
  match Text.segments ':' name with
  | [localName] =>
    if beginsName localName then some (⟨"", .ofList localName⟩, rest) else none
  | [nsPrefix, localName] =>
    if (nsPrefix.isEmpty || beginsName nsPrefix) && beginsName localName then
      some (⟨.ofList nsPrefix, .ofList localName⟩, rest)
    else none
  | _ => none

/-- An attribute: its name and the value as it is written. -/
def scanAttribute (cs : List Char) : Option (RawName × List Char × List Char) := do
  let (name, rest) ← scanRawName cs
  match skipSpaces rest with
  | '=' :: r =>
    match skipSpaces r with
    | quote :: r =>
      let (value, rest) := r.span fun c => c ≠ quote && c ≠ '<'
      if (quote = '"' || quote = '\'') && rest.head? = some quote && value.all isChar then
        return (name, value, rest.drop 1)
      else none
    | [] => none
  | _ => none

/-- The attributes of a start tag up to its end, whether the element is closed at once, and what
follows. Every attribute has a space in front. -/
def scanAttributes : (fuel : Nat) → List Char →
    Option (List (RawName × String) × Bool × List Char)
  | 0, _ => none
  | fuel + 1, cs =>
    match skipSpaces cs with
    | '/' :: '>' :: r => some ([], true, r)
    | '>' :: r => some ([], false, r)
    | r => do
      if cs.head?.any isSpace then
        let (name, value, rest) ← scanAttribute r
        let value := String.ofList (← attributeValue value)
        let (attributes, closed, rest) ← scanAttributes fuel rest
        return ((name, value) :: attributes, closed, rest)
      else none

/-- What follows a comment, after its beginning. -/
def skipComment (cs : List Char) : Option (List Char) := do
  let (body, rest) ← Text.cut? ['-', '-', '>'] cs
  if body.all isChar && !Text.occurs ['-', '-'] body && body.getLast? ≠ some '-' then return rest
  else none

/-- What follows a processing instruction, after its beginning. -/
def skipInstruction (cs : List Char) : Option (List Char) := do
  if (Text.after? ['x', 'm', 'l', ' '] cs).isSome then none
  else
    let (_, rest) ← scanName cs
    let (body, rest) ← Text.cut? ['?', '>'] (skipSpaces rest)
    if body.all isChar then return rest else none

/-- The first tag or text, if it is not passed over, and what follows. -/
def scanToken (cs : List Char) : Option (Option Token × List Char) :=
  match cs with
  | '<' :: '!' :: '-' :: '-' :: r => (skipComment r).map fun rest => (none, rest)
  | '<' :: '!' :: '[' :: 'C' :: 'D' :: 'A' :: 'T' :: 'A' :: '[' :: r => do
    let (body, rest) ← Text.cut? [']', ']', '>'] r
    if body.all isChar then return (some (.verbatim body), rest) else none
  | '<' :: '?' :: r => (skipInstruction r).map fun rest => (none, rest)
  | '<' :: '/' :: r => do
    let (name, rest) ← scanRawName r
    match skipSpaces rest with
    | '>' :: rest => return (some (.stop name), rest)
    | _ => none
  | '<' :: r => do
    let (name, rest) ← scanRawName r
    let (attributes, closed, rest) ← scanAttributes (rest.length + 1) rest
    return (some (.start name attributes closed), rest)
  | cs =>
    let (body, rest) := cs.span (· ≠ '<')
    if body.all isChar && !Text.occurs [']', ']', '>'] body then some (some (.text body), rest)
    else none

/-- The tags and texts of a text. `fuel` is never short when it exceeds the length of the text. -/
def scanTokens : (fuel : Nat) → List Char → Option (List Token)
  | _, [] => some []
  | 0, _ :: _ => none
  | fuel + 1, cs => do
    let (token, rest) ← scanToken cs
    return token.toList ++ (← scanTokens fuel rest)

/-- An attribute of the XML declaration whose name begins with `word`, with the space after it. -/
def skipDeclared (word cs : List Char) : Option (List Char) :=
  if word.isPrefixOf cs then do
    let (_, _, rest) ← scanAttribute cs
    return rest
  else none

/-- Space, if more than the end of the declaration follows. -/
def skipDeclarationSpace (cs : List Char) : Option (List Char) :=
  if cs.head?.any isSpace then some (skipSpaces cs)
  else if cs.isEmpty || ['?', '>'].isPrefixOf cs then some cs
  else none

/-- What follows the XML declaration, if there is one: it states the version and may state the
encoding and whether the document stands alone. -/
def skipDeclaration (cs : List Char) : Option (List Char) :=
  match Text.after? ['<', '?', 'x', 'm', 'l', ' '] cs with
  | none => some cs
  | some r => do
    let r ← skipDeclared ['v', 'e', 'r', 's', 'i', 'o', 'n'] (skipSpaces r)
    let r ← skipDeclarationSpace r
    let encoding := ['e', 'n', 'c', 'o', 'd', 'i', 'n', 'g']
    let r ← if encoding.isPrefixOf r then do
        skipDeclarationSpace (← skipDeclared encoding r)
      else some r
    let standalone := ['s', 't', 'a', 'n', 'd', 'a', 'l', 'o', 'n', 'e']
    let r ← if standalone.isPrefixOf r then skipDeclared standalone r else some r
    Text.after? ['?', '>'] (skipSpaces r)

/-- The tags and texts of a document; a mark of the byte order may come first. -/
def tokens? (text : String) : Option (List Token) := do
  let cs := match text.toList with
    | '\ufeff' :: r => r
    | r => r
  let body ← skipDeclaration cs
  scanTokens body.length body

end RdfXmlMapping.Xml
