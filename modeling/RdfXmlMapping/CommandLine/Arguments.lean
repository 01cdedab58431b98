/-!
Arguments of a program, read from left to right. Reading stops at the first thing that is wrong and
at a question for the version, whichever comes first.
-/

namespace RdfXmlMapping.CommandLine

/-- What an option is good for. -/
inductive Usage where
  /-- Given at most once, without a value. -/
  | switch
  /-- Given any number of times, without a value. -/
  | counter
  /-- Given at most once, with a value. -/
  | value (accepts : String → Bool)
  /-- Given any number of times, each time with a value. -/
  | values (accepts : String → Bool)
  /-- Asks for the version of the program. -/
  | version

/-- An option: its name, and the letter that may stand for it. -/
structure Parameter where
  name : String
  letter : Option Char := none
  usage : Usage

/-- Why reading stops. -/
inductive Stop where
  | refused
  | version
  deriving DecidableEq, Repr

/-- The options that are given, each with its value, in their order; those without a value have an
empty one. -/
abbrev Given := List (String × String)

namespace Given

def has (g : Given) (name : String) : Bool := g.any (·.1 == name)

def values (g : Given) (name : String) : List String := (g.filter (·.1 == name)).map (·.2)

def value? (g : Given) (name : String) : Option String := (g.values name).head?

end Given

namespace Parameter

def takesValue (p : Parameter) : Bool :=
  match p.usage with
  | .value _ | .values _ => true
  | _ => false

def takeBare (p : Parameter) (g : Given) : Except Stop Given :=
  match p.usage with
  | .switch => if g.has p.name then .error .refused else .ok (g ++ [(p.name, "")])
  | .counter => .ok (g ++ [(p.name, "")])
  | .version => .error .version
  | .value _ | .values _ => .error .refused

def takeValue (p : Parameter) (v : String) (g : Given) : Except Stop Given :=
  match p.usage with
  | .value accepts =>
    if accepts v && !g.has p.name then .ok (g ++ [(p.name, v)]) else .error .refused
  | .values accepts => if accepts v then .ok (g ++ [(p.name, v)]) else .error .refused
  | _ => .error .refused

end Parameter

def takeLetters (ps : List Parameter) (g : Given) (letters : List Char) : Except Stop Given :=
  letters.foldlM (fun g c =>
    match ps.find? (·.letter == some c) with
    | some p => p.takeBare g
    | none => .error .refused) g

/-- Whether an argument is no value of the option before it: it begins with a hyphen and goes on. -/
def isOptionLike (arg : String) : Bool :=
  match arg.toList with
  | '-' :: _ :: _ => true
  | _ => false

/-- Reads arguments after those that have been taken in. A value follows its option after an equals
sign or as the next argument; nothing follows two hyphens that stand alone. -/
def readFrom (ps : List Parameter) (g : Given) : List String → Except Stop Given
  | [] => .ok g
  | arg :: rest =>
    match arg.toList with
    | ['-', '-'] => if rest.isEmpty then .ok g else .error .refused
    | '-' :: '-' :: body =>
      let (name, attached) := body.span (· ≠ '=')
      match ps.find? (·.name == String.ofList name), attached with
      | none, _ => .error .refused
      | some p, _ :: v => do readFrom ps (← p.takeValue (.ofList v) g) rest
      | some p, [] =>
        if p.takesValue then
          match rest with
          | v :: rest =>
            if isOptionLike v then .error .refused else do readFrom ps (← p.takeValue v g) rest
          | [] => .error .refused
        else do readFrom ps (← p.takeBare g) rest
    | '-' :: c :: cs => do readFrom ps (← takeLetters ps g (c :: cs)) rest
    | _ => .error .refused

def read (ps : List Parameter) (args : List String) : Except Stop Given := readFrom ps [] args

/-! ### How much a program tells about what it does -/

/-- Levels of detail, from the least to the most. -/
inductive LogLevel where
  | error
  | warn
  | info
  | debug
  | trace
  deriving DecidableEq, Repr

namespace LogLevel

def all : List LogLevel := [error, warn, info, debug, trace]

def name : LogLevel → String
  | error => "error"
  | warn => "warn"
  | info => "info"
  | debug => "debug"
  | trace => "trace"

def ofName? (s : String) : Option LogLevel := all.find? (·.name == s)

/-- The level moved up and down; it stays within the levels there are. -/
def adjust (level : LogLevel) (up down : Nat) : LogLevel :=
  all.getD (min (all.idxOf level + up - down) 4) trace

end LogLevel

def loggingParameters : List Parameter := [
  ⟨"log-level", none, .value fun v => (LogLevel.ofName? v).isSome⟩,
  ⟨"verbose", some 'v', .counter⟩,
  ⟨"quiet", some 'q', .counter⟩]

end RdfXmlMapping.CommandLine
