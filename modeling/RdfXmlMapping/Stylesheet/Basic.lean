import RdfXmlMapping.Vocabulary
import RdfXmlMapping.Xml.Element

/-! Instructions that stylesheets are made of. -/

namespace RdfXmlMapping.Stylesheet

open Xml (Attributes Element QName)

def rule (pattern : String) (body : List Element) : Element :=
  .node "xsl:template" [("match", pattern)] body

def template (name : String) (body : List Element) : Element :=
  .node "xsl:template" [("name", name)] body

def argument (name value : String) : Element :=
  .leaf "xsl:with-param" [("name", name), ("select", value)]

def call (name : String) (arguments : List Element) : Element :=
  .node "xsl:call-template" [("name", name)] arguments

def plainCall (name : String) : Element := .leaf "xsl:call-template" [("name", name)]

/-- Instructions for each node that an expression selects. -/
def forEach (selection : String) (body : List Element) : Element :=
  .node "xsl:for-each" [("select", selection)] body

def onlyIf (test : String) (body : List Element) : Element := .node "xsl:if" [("test", test)] body

def valueOf (selection : String) : Element := .leaf "xsl:value-of" [("select", selection)]

def copyOf (selection : String) : Element := .leaf "xsl:copy-of" [("select", selection)]

def attributeOf (name selection : String) : Element :=
  .leaf "xsl:attribute" [("name", name), ("select", selection)]

def importOf (reference : String) : Element := .leaf "xsl:import" [("href", reference)]

def outputMethod : Element :=
  .leaf "xsl:output"
    [("method", "xml"), ("version", "1.0"), ("encoding", "utf-8"), ("indent", "yes")]

def headAttributes : Attributes := [("version", "2.0"), ("xmlns:xsl", Vocabulary.xslt)]

def targetName (target : Option (String × String)) (name : String) : QName :=
  ⟨target.map (·.1), name⟩

end RdfXmlMapping.Stylesheet
