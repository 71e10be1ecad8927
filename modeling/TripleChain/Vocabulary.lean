/-!
# Well-known names

The namespaces that every text may use without declaring them, and the names in them that the
grammar itself writes.
-/

namespace TripleChain.Vocabulary

/-- The namespace of `rdf`. -/
def rdf : String := "http://www.w3.org/1999/02/22-rdf-syntax-ns#"

/-- The namespace of `rdfs`. -/
def rdfs : String := "http://www.w3.org/2000/01/rdf-schema#"

/-- The namespace of `xsd`. -/
def xsd : String := "http://www.w3.org/2001/XMLSchema#"

/-- The namespace of `owl`. -/
def owl : String := "http://www.w3.org/2002/07/owl#"

def xsdInteger : String := xsd ++ "integer"

def xsdDecimal : String := xsd ++ "decimal"

def xsdDouble : String := xsd ++ "double"

def xsdFloat : String := xsd ++ "float"

def xsdBoolean : String := xsd ++ "boolean"

def rdfType : String := rdf ++ "type"

end TripleChain.Vocabulary
