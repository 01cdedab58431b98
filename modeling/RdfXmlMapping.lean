import RdfXmlMapping.Main
import RdfXmlMapping.Proofs.Content
import RdfXmlMapping.Proofs.Query.Extraction
import RdfXmlMapping.Proofs.TypeNames
import RdfXmlMapping.Proofs.Stylesheet.Calls
import RdfXmlMapping.Proofs.Templates
import RdfXmlMapping.Proofs.Schema.Declared
import RdfXmlMapping.Proofs.Schema.Substitution
import RdfXmlMapping.Proofs.Model.Redeclare
import RdfXmlMapping.Proofs.Schema.Redeclare
import RdfXmlMapping.Proofs.Stylesheet.Redeclare
import RdfXmlMapping.Proofs.Opacity
import RdfXmlMapping.Proofs.Model.Inheritance
import RdfXmlMapping.Proofs.Schema.Outline
import RdfXmlMapping.Proofs.Schema.Success
import RdfXmlMapping.Proofs.Query.Columns
import RdfXmlMapping.Proofs.Query.Expansion
import RdfXmlMapping.Proofs.Schema.Termination
import RdfXmlMapping.Proofs.Schema.Existence
import RdfXmlMapping.Proofs.Conformance.Query
import RdfXmlMapping.Proofs.Acceptance
import RdfXmlMapping.Proofs.Mapping
import RdfXmlMapping.Proofs.Conformance.Roots
import RdfXmlMapping.Proofs.Conformance.References
import RdfXmlMapping.Proofs.Model.Json
import RdfXmlMapping.Proofs.AttributeNames
import RdfXmlMapping.Proofs.TypesApart
import RdfXmlMapping.Proofs.Storage
import RdfXmlMapping.Proofs.Renaming
import RdfXmlMapping.Proofs.ElementNames
import RdfXmlMapping.Proofs.Model.Acyclic
import RdfXmlMapping.Proofs.Accounts
import RdfXmlMapping.Proofs.Conformance.Parameters
import RdfXmlMapping.Proofs.Xml.Calls
import RdfXmlMapping.Proofs.ChoiceTrees
import RdfXmlMapping.Proofs.Import.References
import RdfXmlMapping.Proofs.Import.Origins
import RdfXmlMapping.Proofs.Query.Trees
import RdfXmlMapping.Proofs.Query.Readings
import RdfXmlMapping.Proofs.Xml.Names
import RdfXmlMapping.Proofs.Query.Capture
import RdfXmlMapping.Proofs.Query.Insertion
import RdfXmlMapping.Proofs.Query.Nesting
import RdfXmlMapping.Proofs.Lifting.Instances
import RdfXmlMapping.Proofs.Lifting.References
import RdfXmlMapping.Proofs.Lowering.Dispatch
import RdfXmlMapping.Proofs.Lowering.Literals
import RdfXmlMapping.Proofs.Lifting.Values
import RdfXmlMapping.Proofs.Model.Ancestors
import RdfXmlMapping.Proofs.Conformance.Prefixes
import RdfXmlMapping.Proofs.Conformance.Soundness
import RdfXmlMapping.Proofs.Model.Repetition
import RdfXmlMapping.Proofs.Repetition
import RdfXmlMapping.Proofs.Balance
