import RdfXmlMapping.Model.Build
import RdfXmlMapping.Proofs.Lifting.Arcs
import RdfXmlMapping.Proofs.Xml.Tree

/-!
IRIs in the attributes of a stylesheet. A processor takes what stands in braces there for an
expression, on elements that go into the result. The IRIs of classes and of datatypes are written as
they are, so they denote themselves just where none of them has a brace (`iris_denote_iff`).
-/

namespace RdfXmlMapping

namespace Stylesheet

open Xml (Attributes)

/-! ### Values with expressions -/

def isBrace (c : Char) : Bool := c = '\x7b' ∨ c = '\x7d'

/-- A piece of a value: a character that stands for itself, or an expression between braces. -/
inductive ValuePart where
  | char (c : Char)
  | expression (text : String)
  deriving DecidableEq, Repr

/-- What a character inside an expression stands in. Comments are nested; the last character of one
is kept, because two characters open and close it. -/
inductive Inner where
  | plain
  | literal (quote : Char)
  | comment (depth : Nat) (last : Option Char)
  deriving DecidableEq, Repr

def Inner.next (last : Option Char) (c : Char) : Inner → Inner
  | plain =>
    if c = '"' ∨ c = '\'' then literal c
    else if last = some '(' ∧ c = ':' then comment 0 none else plain
  | literal quote => if c = quote then plain else literal quote
  | comment depth last =>
    if last = some '(' ∧ c = ':' then comment (depth + 1) none
    else if last = some ':' ∧ c = ')' then
      match depth with
      | 0 => plain
      | depth + 1 => comment depth none
    else comment depth (some c)

/-- Where a reader of a value is: in the text, behind one brace of it, or in an expression. -/
inductive Spot where
  | text
  | opened
  | closed
  | expression (read : List Char) (inner : Inner)
  deriving DecidableEq, Repr

/-- A reader with what it has read, the last first. -/
structure ValueReader where
  done : List ValuePart
  spot : Spot
  deriving DecidableEq, Repr

namespace ValueReader

/-- An expression ends at the first brace that is in no literal and in no comment. -/
def inExpression (done : List ValuePart) (read : List Char) (inner : Inner) (c : Char) :
    ValueReader :=
  if inner = .plain ∧ c = '\x7d' then ⟨.expression (.ofList read.reverse) :: done, .text⟩
  else ⟨done, .expression (c :: read) (inner.next read.head? c)⟩

/-- A brace that is written twice stands for itself; one that closes nothing is an error. -/
def step? (x : ValueReader) (c : Char) : Option ValueReader :=
  match x.spot with
  | .text =>
    if c = '\x7b' then some ⟨x.done, .opened⟩
    else if c = '\x7d' then some ⟨x.done, .closed⟩
    else some ⟨.char c :: x.done, .text⟩
  | .opened =>
    if c = '\x7b' then some ⟨.char c :: x.done, .text⟩ else some (inExpression x.done [] .plain c)
  | .closed => if c = '\x7d' then some ⟨.char c :: x.done, .text⟩ else none
  | .expression read inner => some (inExpression x.done read inner c)

def finish? (x : ValueReader) : Option (List ValuePart) :=
  match x.spot with
  | .text => some x.done.reverse
  | _ => none

end ValueReader

/-- The value of an attribute as a processor takes it, if there is no error in it. -/
def valueParts? (value : String) : Option (List ValuePart) :=
  (value.toList.foldlM ValueReader.step? ⟨[], .text⟩).bind ValueReader.finish?

/-- A value is the text that is written, without any expression. -/
def DenotesItself (value : String) : Prop :=
  valueParts? value = some (value.toList.map .char)

instance (value : String) : Decidable (DenotesItself value) :=
  inferInstanceAs (Decidable (_ = _))

/-- A character of the text as it has to be written. -/
def doubledChar (c : Char) : List Char := if isBrace c then [c, c] else [c]

/-- A text with each of its braces written twice. -/
def doubled (value : String) : String := .ofList (value.toList.flatMap doubledChar)

variable {x y : ValueReader} {c : Char} {cs : List Char} {done : List ValuePart} {value : String}

theorem step?_plain (plain : isBrace c = false) :
    ValueReader.step? ⟨done, .text⟩ c = some ⟨.char c :: done, .text⟩ := by
  obtain ⟨opening, closing⟩ := not_or.mp (of_decide_eq_false plain)
  simp [ValueReader.step?, opening, closing]

/-- A brace in the text adds nothing to what has been read. -/
theorem step?_brace (brace : isBrace c) :
    ∃ spot, ValueReader.step? ⟨done, .text⟩ c = some ⟨done, spot⟩ := by
  rcases of_decide_eq_true brace with rfl | rfl
  · exact ⟨.opened, rfl⟩
  · exact ⟨.closed, rfl⟩

theorem foldlM_doubled : (cs.flatMap doubledChar).foldlM ValueReader.step? ⟨done, .text⟩ =
    some ⟨(cs.map .char).reverse ++ done, .text⟩ := by
  induction cs generalizing done with
  | nil => rfl
  | cons c cs ih =>
    have first : (doubledChar c).foldlM ValueReader.step? ⟨done, .text⟩ =
        some ⟨.char c :: done, .text⟩ := by
      cases brace : isBrace c with
      | false => simp [doubledChar, brace, step?_plain brace]
      | true => rcases of_decide_eq_true brace with rfl | rfl <;> rfl
    rw [List.flatMap_cons, List.foldlM_append, first]
    simp [ih]

theorem flatMap_doubledChar (plain : ∀ c ∈ cs, isBrace c = false) :
    cs.flatMap doubledChar = cs := by
  have each : ∀ c ∈ cs, doubledChar c = [c] := fun c member => by simp [doubledChar, plain c member]
  rw [List.flatMap_congr each, List.flatMap_singleton']

/-- What has to be written for a text is read as the text. -/
theorem valueParts?_doubled (value : String) :
    valueParts? (doubled value) = some (value.toList.map .char) := by
  rw [valueParts?, doubled, String.toList_ofList, foldlM_doubled]
  simp [ValueReader.finish?]

/-- What a character adds is one piece at most. -/
theorem step?_length (h : x.step? c = some y) : y.done.length ≤ x.done.length + 1 := by
  have inside (read : List Char) (inner : Inner) :
      (ValueReader.inExpression x.done read inner c).done.length ≤ x.done.length + 1 := by
    unfold ValueReader.inExpression
    split <;> simp
  unfold ValueReader.step? at h
  split at h
  next => split at h <;> [skip; split at h] <;> cases h <;> simp
  next =>
    split at h <;> cases h
    · simp
    · exact inside [] .plain
  next => split at h <;> cases h; simp
  next read inner _ => cases h; exact inside read inner

theorem foldlM_length (h : cs.foldlM ValueReader.step? x = some y) :
    y.done.length ≤ x.done.length + cs.length := by
  induction cs generalizing x with
  | nil =>
    obtain rfl := Option.some.inj h
    simp
  | cons c cs ih =>
    rw [List.foldlM_cons] at h
    obtain ⟨z, first, h⟩ := Option.bind_eq_some_iff.mp h
    have one := step?_length first
    have rest := ih h
    rw [List.length_cons]
    omega

theorem finish?_length {parts : List ValuePart} (h : x.finish? = some parts) :
    parts.length = x.done.length := by
  unfold ValueReader.finish? at h
  split at h
  · obtain rfl := Option.some.inj h
    exact List.length_reverse
  · cases h

/-- A value denotes itself just if it has no brace. -/
theorem denotesItself_iff : DenotesItself value ↔ ∀ c ∈ value.toList, isBrace c = false := by
  constructor
  · intro denotes
    by_contra other
    have braces : ∃ c ∈ value.toList, isBrace c := by simpa using other
    obtain ⟨before, brace, after, split, plain, holds⟩ := exists_first braces
    have start : before.foldlM ValueReader.step? ⟨[], .text⟩ =
        some ⟨(before.map .char).reverse, .text⟩ := by
      have read : (before.flatMap doubledChar).foldlM ValueReader.step? ⟨[], .text⟩ =
          some ⟨(before.map .char).reverse ++ [], .text⟩ := foldlM_doubled
      rwa [flatMap_doubledChar fun c member => Bool.eq_false_iff.mpr (plain c member),
        List.append_nil] at read
    -- The first brace adds nothing, so that fewer pieces are read than there are characters.
    obtain ⟨spot, behind⟩ : ∃ spot, ValueReader.step? ⟨(before.map .char).reverse, .text⟩ brace =
        some ⟨(before.map .char).reverse, spot⟩ := step?_brace holds
    obtain ⟨last, run, finished⟩ := Option.bind_eq_some_iff.mp denotes
    rw [split, List.foldlM_append, start, Option.bind_eq_bind, Option.bind_some, List.foldlM_cons,
      behind, Option.bind_eq_bind, Option.bind_some] at run
    have few := foldlM_length run
    have all := finish?_length finished
    simp only [split, List.length_map, List.length_append, List.length_cons, List.length_reverse]
      at few all
    omega
  · intro plain
    have read := valueParts?_doubled value
    rwa [doubled, flatMap_doubledChar plain, String.ofList_toList] at read

end Stylesheet

namespace Lifting

open Stylesheet
open Xml (Attributes Element)

/-! ### IRIs in attributes -/

/-- An element is an instruction if its name is in the namespace of instructions. All others are
copied into the result, with their attributes. -/
def isInstruction (scope : Attributes) (name : String) : Bool :=
  match Conformance.splitName name with
  | (some own, _) => namespaceOf? scope own = some Vocabulary.xslt
  | (none, _) => false

/-- An attribute of the result that holds the IRI of a resource or of a datatype. -/
def isIri (scope : Attributes) (name : String) (a : String × String) : Bool :=
  !isInstruction scope name && a.1 ∈ ["rdf:resource", "rdf:datatype"]

/-- The attributes with IRIs that elements put into the result, in the order of the document. -/
def irisIn (scope : Attributes) (es : List Element) : Attributes :=
  Xml.attributesIn (isIri scope) es

/-- What marks values of a shape in the result: their datatype, unless they are texts or items of a
codelist. -/
def shapeIris : Shape → Attributes
  | .primitive [.datatype iri] =>
    if iri = Vocabulary.langString then [] else [("rdf:datatype", iri)]
  | _ => []

def propertyIris (m : Model) (p : Property) : Attributes :=
  if p.isSpliced then []
  else match m.shapeOf p with
    | .ok shape => shapeIris shape
    | .error _ => []

/-- The IRIs that the template of a class is made with, each for an attribute: the meaning of the
class, and the datatypes of its properties. -/
def classIris (m : Model) (c : Class) : Attributes :=
  c.meaning.toList.map ("rdf:resource", ·) ++
    match m.effectiveProperties c with
    | .ok ps => ps.flatMap (propertyIris m)
    | .error _ => []

/-- What is known of the values with IRIs in a stylesheet. -/
structure IrisWritten (s : Source) (l : Lifting) : Prop where
  /-- They are those of the classes, one class after the other. -/
  attributes : irisIn (toXml l).attributes [toXml l] =
    s.model.describedClasses.flatMap (classIris s.model)
  /-- In the text of the document each of them is read as it is. -/
  values : ∀ e ∈ (toXml l).all, ∀ a ∈ e.attributes, ∃ before rest after,
    (render l).toList = before ++ ' ' :: (a.1.toList ++ '=' :: '"' :: rest) ∧
    Xml.valueAt? rest = some (a.2, after)

variable {m : Model} {o : Import.Outlook} {c : Class} {p : Property} {s t : Progress} {l : Lifting}
  {scope attributes : Attributes} {es fs : List Element} {name : String}

/-! ### Names that are no instructions -/

/-- A name in a namespace of the table that is not the one of instructions. -/
def Outside (t : PrefixTable) (name : String) : Prop :=
  ∃ uri own last, (uri, own) ∈ t.entries ∧ name = own ++ ":" ++ last ∧ uri ≠ Vocabulary.xslt

theorem Outside.mono {t u : PrefixTable} (h : Outside t name) (more : t.Grows u) :
    Outside u name := by
  obtain ⟨uri, own, last, present, parts⟩ := h
  exact ⟨uri, own, last, more.entries present, parts⟩

theorem predicateOf_outside (h : predicateOf p s = .ok (name, t)) : Outside t.predicates name := by
  obtain ⟨_, qualified, rfl⟩ := predicateOf_made h
  obtain ⟨uri, own, last, cut, -, present, rfl⟩ := PrefixTable.qualify_some qualified
  refine ⟨uri, own, last, present, rfl, ?_⟩
  rintro rfl
  obtain ⟨c, ends, delimits⟩ := Iri.split?_delimiter cut
  have letter : Vocabulary.xslt.toList.getLast? = some 'm' := by decide
  obtain rfl := Option.some.inj (letter.symm.trans ends)
  exact absurd delimits (by decide)

theorem isInstruction_outside {t : PrefixTable} (ready : Ready t (l.target.map (·.1)).toList)
    (declared : l.predicates = t.bindings) (h : Outside t name) :
    isInstruction (toXml l).attributes name = false := by
  obtain ⟨uri, own, last, present, rfl, other⟩ := h
  have colon : ':' ∉ own.toList := fun inside => ready.plain present ':' inside (by decide)
  rw [isInstruction, splitName_append colon]
  simp [namespaceOf?_predicate ready declared present, other]

/-- Whatever else is declared, the prefix of types is not the one of instructions. -/
theorem isInstruction_type (l : Lifting) :
    isInstruction (toXml l).attributes "rdf:type" = false := by
  have cut : Conformance.splitName "rdf:type" = (some "rdf", "type") := by decide
  have apart : Vocabulary.rdf ≠ Vocabulary.xslt := by decide
  have named : (namespaces (toXml l).attributes).filter (·.1 = "rdf") =
      ("rdf", Vocabulary.rdf) :: (l.target.toList ++ l.predicates).filter (·.1 = "rdf") := by
    rw [namespaces_head, List.append_assoc]
    rfl
  rw [isInstruction, cut]
  dsimp only
  rw [namespaceOf?, named]
  cases (l.target.toList ++ l.predicates).filter (·.1 = "rdf") <;> simp [apart]

/-! ### Attributes of templates -/

theorem isIri_other (other : ∀ a ∈ attributes, a.1 ∉ ["rdf:resource", "rdf:datatype"]) :
    attributes.filter (isIri scope name) = [] := by
  refine List.filter_eq_nil_iff.mpr fun a member holds => other a member ?_
  exact of_decide_eq_true ((Bool.and_eq_true _ _).mp holds).2

theorem irisIn_append : irisIn scope (es ++ fs) = irisIn scope es ++ irisIn scope fs :=
  Xml.attributesIn_append es fs

theorem irisIn_cons (e f : Element) :
    irisIn scope (e :: f :: es) = irisIn scope [e] ++ irisIn scope (f :: es) :=
  Xml.attributesIn_cons e (f :: es)

theorem irisIn_node : irisIn scope [.node name attributes es] =
    attributes.filter (isIri scope name) ++ irisIn scope es :=
  Xml.attributesIn_node es

theorem irisIn_leaf : irisIn scope [.leaf name attributes] = attributes.filter (isIri scope name) :=
  Xml.attributesIn_leaf

theorem irisIn_nil : irisIn scope [] = [] := rfl

theorem irisIn_plain (plain : ∀ e ∈ Element.allOf es, ∀ a ∈ e.attributes,
    a.1 ∉ ["rdf:resource", "rdf:datatype"]) : irisIn scope es = [] :=
  List.flatMap_eq_nil_iff.mpr fun e inside => isIri_other (plain e inside)

theorem irisIn_whenPresent (present : List String) :
    irisIn scope (whenPresent present es) = irisIn scope es := by
  rw [whenPresent]
  split
  · rfl
  · rw [onlyIf, irisIn_node, isIri_other (by simp), List.nil_append]

theorem irisIn_forEach (selection : String) :
    irisIn scope [forEach selection es] = irisIn scope es := by
  rw [forEach, irisIn_node, isIri_other (by simp), List.nil_append]

theorem irisIn_call (template : String) (arguments : List Element) :
    irisIn scope [call template arguments] = irisIn scope arguments := by
  rw [call, irisIn_node, isIri_other (by simp), List.nil_append]

theorem irisIn_argument (key value : String) : irisIn scope [argument key value] = [] := by
  rw [argument, irisIn_leaf, isIri_other (by simp)]

theorem irisIn_nodeCall (isReference : Bool) (suffix : Suffix) :
    irisIn scope [nodeCall isReference suffix] = [] := by
  rw [nodeCall, irisIn_call, irisIn_append, irisIn_argument]
  cases isReference
  · rfl
  · exact (List.append_nil _).trans (irisIn_argument _ _)

def Forward.iris : Forward → Attributes
  | literal _ _ datatype => [("rdf:datatype", datatype)]
  | spliced .. | codelist .. | languageText .. | link .. => []

theorem irisIn_forward {f : Forward} (outside : isInstruction scope f.stated.2 = false) :
    irisIn scope f.toXml = f.iris := by
  cases f with
  | spliced present predicate element =>
    simp [Forward.toXml, irisIn_whenPresent, irisIn_node, irisIn_nodeCall, Forward.iris]
  | codelist element predicate =>
    simp [Forward.toXml, irisIn_forEach, irisIn_node, attributeOf, irisIn_leaf, isIri_other,
      Forward.iris]
  | languageText element predicate =>
    simp [Forward.toXml, irisIn_forEach, irisIn_node, irisIn_cons, copyOf, valueOf, irisIn_leaf,
      isIri_other, Forward.iris]
  | literal element predicate datatype =>
    have result : isInstruction scope predicate = false := outside
    have value : irisIn scope [valueOf "."] = [] := irisIn_plain (by decide)
    simp [Forward.toXml, irisIn_forEach, irisIn_node, value, isIri, result, Forward.iris]
  | link element predicate =>
    simp [Forward.toXml, irisIn_forEach, irisIn_node, irisIn_nodeCall, Forward.iris]

theorem irisIn_related (r : Related) : irisIn scope r.toXml = [] := by
  cases r with
  | spliced present element reverse template =>
    cases reverse <;>
      simp [Related.toXml, irisIn_whenPresent, irisIn_node, irisIn_cons, irisIn_call,
        irisIn_argument, irisIn_nodeCall]
  | nested element reverse template =>
    have called (name : String) : irisIn scope [plainCall name] = [] := by
      rw [plainCall, irisIn_leaf, isIri_other (by simp)]
    cases reverse <;> cases template <;>
      simp [Related.toXml, irisIn_forEach, irisIn_node, irisIn_cons, irisIn_nodeCall, irisIn_nil,
        called]

theorem irisIn_flatMap {α : Type} (f : α → List Element) (xs : List α) :
    irisIn scope (xs.flatMap f) = xs.flatMap fun x => irisIn scope (f x) :=
  Xml.attributesIn_flatMap f xs

/-- The attributes of a template: the type of the instance, and the datatypes of its literals. -/
theorem irisIn_template {x : Template} (type : isInstruction scope "rdf:type" = false)
    (outside : ∀ f ∈ x.forward, isInstruction scope f.stated.2 = false) :
    irisIn scope [x.toXml] =
      x.meaning.toList.map ("rdf:resource", ·) ++ x.forward.flatMap Forward.iris := by
  have meaning : irisIn scope
      (x.meaning.elim [] fun iri => [.leaf "rdf:type" [("rdf:resource", iri)]]) =
      x.meaning.toList.map ("rdf:resource", ·) := by
    cases x.meaning with
    | none => rfl
    | some iri => simp [irisIn_leaf, isIri, type]
  have forward : irisIn scope (x.forward.flatMap Forward.toXml) =
      x.forward.flatMap Forward.iris := by
    rw [irisIn_flatMap]
    exact List.flatMap_congr fun f member => irisIn_forward (outside f member)
  have related : irisIn scope (x.related.flatMap Related.toXml) = [] := by
    rw [irisIn_flatMap]
    exact List.flatMap_eq_nil_iff.mpr fun r _ => irisIn_related r
  have parameter : irisIn scope [.leaf "xsl:param" [("name", "suffix"), ("select", "''")]] = [] :=
    irisIn_plain (by decide)
  have head : irisIn scope (nodeCall false .own ::
      (x.meaning.elim [] fun iri => [.leaf "rdf:type" [("rdf:resource", iri)]])) =
      x.meaning.toList.map ("rdf:resource", ·) := by
    rw [irisIn, Xml.attributesIn_cons]
    exact congrArg₂ (· ++ ·) (irisIn_nodeCall false .own) meaning
  rw [Template.toXml, template, irisIn_node, isIri_other (by simp), List.nil_append, irisIn_append,
    related, List.append_nil, irisIn_cons, parameter, irisIn_node, List.filter_nil, List.nil_append,
    List.nil_append, irisIn_append, head, forward]

/-! ### What a run marks -/

/-- What a property is stated by holds its IRIs, under a name that is no instruction. -/
structure Marks (m : Model) (t : PrefixTable) (p : Property) (fs : List Forward) : Prop where
  outside : ∀ f ∈ fs, Outside t f.stated.2
  iris : fs.flatMap Forward.iris = propertyIris m p

theorem OfInstances.iris (h : OfInstances m p) : propertyIris m p = [] := by
  obtain ⟨shape, read, instances⟩ := h
  rw [propertyIris, read]
  split
  · rfl
  · cases shape with
    | primitive primitives => exact absurd rfl (instances primitives)
    | single | choice => rfl

theorem plainTriples_iris (element predicate : String) (one : Primitive) :
    (plainTriples element predicate one).iris = shapeIris (.primitive [one]) := by
  cases one with
  | codelist c => rfl
  | datatype iri =>
    simp only [plainTriples, shapeIris]
    split <;> rfl

theorem forward_marks {fs : List Forward} (h : forward m p s = .ok (fs, t)) :
    Marks m t.predicates p fs := by
  have one {f : Forward} {name : String} {t : Progress} (found : predicateOf p s = .ok (name, t))
      (named : f.stated.2 = name) (iris : f.iris = propertyIris m p) :
      Marks m t.predicates p [f] :=
    ⟨by simpa [named] using predicateOf_outside found, by simpa using iris⟩
  cases forward_made h with
  | reverse _ instances =>
    refine ⟨by simp, ?_⟩
    cases inPlace : p.isSpliced with
    | true => simp [propertyIris, inPlace]
    | false => exact (instances inPlace).iris.symm
  | spliced spliced _ found => exact one found rfl (if_pos spliced).symm
  | plain inPlace _ read found =>
    refine one found (by rw [plainTriples_stated]) ?_
    rw [plainTriples_iris, propertyIris, if_neg (by simp [inPlace]), read]
  | link _ _ instances found => exact one found rfl instances.iris.symm

theorem Marks.mono {t u : PrefixTable} {fs : List Forward} (h : Marks m t p fs)
    (more : t.Grows u) : Marks m u p fs :=
  { h with outside := fun f member => (h.outside f member).mono more }

theorem TemplateTook.iris {t : PrefixTable} {x : Template} (h : TemplateTook m o t c x)
    (type : isInstruction scope "rdf:type" = false)
    (results : ∀ name, Outside t name → isInstruction scope name = false) :
    irisIn scope [x.toXml] = classIris m c := by
  obtain ⟨ps, fs, rs, own, forwards, relateds, rfl⟩ := h
  have marks : List.Forall₂ (Marks m t) ps fs := forwards.imp fun p made took => by
    obtain ⟨_, _, run, more⟩ := took
    exact (forward_marks run).mono more
  have outside : ∀ f ∈ fs.flatten, isInstruction scope f.stated.2 = false := by
    intro f member
    obtain ⟨made, among, inside⟩ := List.mem_flatten.mp member
    obtain ⟨p, _, by_property⟩ := forall₂_mem_right marks among
    exact results _ (by_property.outside f inside)
  have iris : fs.flatten.flatMap Forward.iris = ps.flatMap (propertyIris m) := by
    have each := forall₂_map_eq (f := propertyIris m) (g := fun made => made.flatMap Forward.iris)
      (marks.imp fun p made by_property => by_property.iris.symm)
    rw [List.flatMap_def, List.flatMap_def, each, List.map_flatten, List.flatten_flatten,
      List.map_map]
    rfl
  rw [irisIn_template type outside, iris, classIris, own]

/-! ### What the stylesheet marks -/

theorem isIri_head (l : Lifting) : (headAttributes l).filter (isIri scope name) = [] := by
  have declaration (own : String) : "xmlns:" ++ own ∉ ["rdf:resource", "rdf:datatype"] :=
    declaration_notMem (by decide) own
  have fixed : ∀ a ∈ Stylesheet.headAttributes ++ [("xmlns:rdf", Vocabulary.rdf)],
      a.1 ∉ ["rdf:resource", "rdf:datatype"] := by decide
  have excluded : "exclude-result-prefixes" ∉ ["rdf:resource", "rdf:datatype"] := by decide
  refine isIri_other fun a member => ?_
  rcases List.mem_append.mp member with member | predicate
  · rcases List.mem_append.mp member with member | target
    · exact fixed a member
    · cases own : l.target with
      | none => simp [own] at target
      | some t =>
        simp only [own, List.mem_cons, List.not_mem_nil, or_false] at target
        rcases target with rfl | rfl
        · exact declaration t.1
        · exact excluded
  · obtain ⟨t, _, rfl⟩ := List.mem_map.mp predicate
    exact declaration t.1

theorem irisIn_map {α : Type} (f : α → Element) (xs : List α) :
    irisIn scope (xs.map f) = xs.flatMap fun x => irisIn scope [f x] := by
  rw [← irisIn_flatMap, List.map_eq_flatMap]

/-- Nothing but the templates of classes has such attributes. -/
theorem irisIn_toXml (l : Lifting) :
    irisIn scope [toXml l] = l.templates.flatMap fun x => irisIn scope [x.toXml] := by
  have imports : irisIn scope (l.imports.map importOf) = [] := by
    rw [irisIn_map]
    refine List.flatMap_eq_nil_iff.mpr fun reference _ => ?_
    rw [importOf, irisIn_leaf, isIri_other (by simp)]
  have roots : irisIn scope (l.roots.map RootRule.toXml) = [] := by
    rw [irisIn_map]
    refine List.flatMap_eq_nil_iff.mpr fun r _ => ?_
    simp [RootRule.toXml, rule, irisIn_node, plainCall, irisIn_leaf, isIri_other]
  have output : irisIn scope [outputMethod] = [] := irisIn_plain (by decide)
  have last : irisIn scope [nodeTemplate, identityRule] = [] := irisIn_plain (by decide)
  rw [toXml, irisIn_node, isIri_head]
  simp only [irisIn_append, imports, output, roots, last, irisIn_map, List.nil_append,
    List.append_nil]

theorem generate_iris {s : Source} (h : generate s = .ok l) : IrisWritten s l := by
  obtain ⟨t, ready, declared, each⟩ := generate_took h
  refine ⟨?_, fun e inside a given => Xml.document_values inside given⟩
  have templates := forall₂_map_eq (f := classIris s.model)
    (g := fun x => irisIn (toXml l).attributes [x.toXml]) (each.imp fun c x took =>
      (took.iris (isInstruction_type l) fun name => isInstruction_outside ready declared).symm)
  rw [irisIn_toXml, List.flatMap_def, List.flatMap_def, templates]

/-- The IRIs that a stylesheet is made with stand in it as they are, and a processor takes all of
them for themselves if, and only if, none has a brace. -/
theorem iris_denote_iff {s : Source} (h : generate s = .ok l) : IrisWritten s l ∧
    ((∀ a ∈ irisIn (toXml l).attributes [toXml l], DenotesItself a.2) ↔
      ∀ c ∈ s.model.describedClasses, ∀ a ∈ classIris s.model c, ∀ d ∈ a.2.toList,
        isBrace d = false) := by
  have written := generate_iris h
  refine ⟨written, ?_⟩
  simp only [written.attributes, List.mem_flatMap, denotesItself_iff]
  exact ⟨fun plain c described a made => plain a ⟨c, described, made⟩,
    fun plain a ⟨c, described, made⟩ => plain c described a made⟩

/-- Gauges whose class and whose values are named with braces. -/
def gauges : Source where
  model := ((Model.make "gauges" "gauges").rootedAt ["Gauge"]).declaring
    ({ Class.make "Gauge" "Gauge" with meaning := some "https://ex.org/\x7bkind\x7d" }
      |>.declaring
        ((Property.make "level" "https://ex.org/level").primitive "https://ex.org/unit\x7d"))
  manifests := []
  config := { output := { baseAddress := "https://own.org/" } }

theorem iris_denote_iff_gauges : ∃ l, generate gauges = .ok l ∧ IrisWritten gauges l ∧
    ((∀ a ∈ irisIn (toXml l).attributes [toXml l], DenotesItself a.2) ↔
      ∀ c ∈ gauges.model.describedClasses, ∀ a ∈ classIris gauges.model c, ∀ d ∈ a.2.toList,
        isBrace d = false) := by
  have lifted : (generate gauges).isOk := by decide +kernel
  obtain ⟨l, made⟩ := except_isOk lifted
  exact ⟨l, made, iris_denote_iff made⟩

/-- The first IRI is taken for a text with an expression, the second for an error. -/
theorem gauges_misread : ∃ l, generate gauges = .ok l ∧
    irisIn (toXml l).attributes [toXml l] = [("rdf:resource", "https://ex.org/\x7bkind\x7d"),
      ("rdf:datatype", "https://ex.org/unit\x7d")] ∧
    valueParts? "https://ex.org/\x7bkind\x7d" =
      some ("https://ex.org/".toList.map .char ++ [.expression "kind"]) ∧
    valueParts? "https://ex.org/unit\x7d" = none ∧
    ¬ ∀ a ∈ irisIn (toXml l).attributes [toXml l], DenotesItself a.2 := by
  have lifted : (generate gauges).isOk := by decide +kernel
  have iris : gauges.model.describedClasses.flatMap (classIris gauges.model) =
      [("rdf:resource", "https://ex.org/\x7bkind\x7d"),
        ("rdf:datatype", "https://ex.org/unit\x7d")] := by decide +kernel
  obtain ⟨l, made⟩ := except_isOk lifted
  have written := (generate_iris made).attributes.trans iris
  have expression : valueParts? "https://ex.org/\x7bkind\x7d" =
      some ("https://ex.org/".toList.map .char ++ [.expression "kind"]) := by decide +kernel
  have error : valueParts? "https://ex.org/unit\x7d" = none := by decide +kernel
  refine ⟨l, made, written, expression, error, fun all => ?_⟩
  rw [written] at all
  have denotes : DenotesItself "https://ex.org/unit\x7d" := all ("rdf:datatype", _) (by simp)
  rw [DenotesItself, error] at denotes
  cases denotes

end Lifting

end RdfXmlMapping
