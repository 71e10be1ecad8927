import TripleChain.Text.Casing
import TripleChain.Decimal.Numeral
import TripleChain.Vocabulary
/-!
# Terms

What stands in the three places of a triple: an IRI, a literal or a variable. Terms are totally
ordered, IRIs before literals before variables, so that patterns and bindings are always gone
through in the same order.

`Term.text` is the written form. Inside the quotes of a literal only the backslash and the quote are
escaped.
-/

open Std

namespace TripleChain

/-- A variable is its name: two occurrences of one name are the same variable. -/
structure Variable where
  name : String
  deriving DecidableEq, Inhabited

/-- The variable of a name that may be written with question marks in front. -/
def Variable.ofName (name : String) : Variable := ⟨String.ofList (name.toList.dropWhile (· == '?'))⟩

def Variable.text (v : Variable) : String := "?" ++ v.name

/-- What a literal carries besides its lexical form. -/
inductive Annotation where
  | plain
  /-- A language tag. -/
  | language (tag : String)
  /-- The IRI of a datatype. -/
  | datatype (iri : String)
  deriving DecidableEq, Inhabited

/-- A literal: a lexical form and what it carries. -/
structure Literal where
  lexical : String
  annotation : Annotation
  deriving DecidableEq, Inhabited

/-- A term of a triple pattern. -/
inductive Term where
  | iri (text : String)
  | literal (l : Literal)
  | var (v : Variable)
  deriving DecidableEq, Inhabited

/-! ## Order -/

/-- Variables are ordered by their names. -/
instance : Ord Variable := ⟨compareOn Variable.name⟩

instance : TransOrd Variable := inferInstanceAs (TransCmp (compareOn Variable.name))

instance : LawfulEqOrd Variable where
  eq_of_compare {a b} h := by
    have h : compare a.name b.name = .eq := h
    have := Std.compare_eq_iff_eq.1 h
    cases a; cases b; simp_all

/-- Plain literals come first, then those with a language, then those with a datatype. -/
def Annotation.rank : Annotation → Nat
  | .plain => 0
  | .language _ => 1
  | .datatype _ => 2

/-- The tag or the datatype. -/
def Annotation.detail : Annotation → String
  | .plain => ""
  | .language tag => tag
  | .datatype iri => iri

/-- IRIs come first, then literals, then variables. -/
def Term.rank : Term → Nat
  | .iri _ => 0
  | .literal _ => 1
  | .var _ => 2

/-- The characters of an IRI, of a lexical form or of a name. -/
def Term.body : Term → String
  | .iri text => text
  | .literal l => l.lexical
  | .var v => v.name

/-- What a literal carries, nothing for other terms. -/
def Term.annotation : Term → Annotation
  | .literal l => l.annotation
  | _ => .plain

/-- Terms are compared by kind, then by their characters, then by what a literal carries. -/
def Term.order : Term → Term → Ordering :=
  compareLex (compareOn Term.rank) <| compareLex (compareOn Term.body) <|
    compareLex (compareOn fun t => t.annotation.rank) (compareOn fun t => t.annotation.detail)

instance : Ord Term := ⟨Term.order⟩

instance : TransOrd Term := by
  show TransCmp Term.order
  unfold Term.order
  infer_instance

theorem Annotation.ext_detail {a b : Annotation} (hr : a.rank = b.rank) (hd : a.detail = b.detail) :
    a = b := by
  cases a <;> cases b <;> simp_all [rank, detail]

instance : LawfulEqOrd Term where
  eq_of_compare {a b} h := by
    have h : Term.order a b = .eq := h
    simp only [Term.order, compareLex_eq_eq, compareOn, Std.compare_eq_iff_eq] at h
    obtain ⟨hr, hb, ha, hd⟩ := h
    have hn := Annotation.ext_detail ha hd
    match a, b with
    | .iri _, .iri _ => simp_all [Term.body]
    | .literal ⟨_, _⟩, .literal ⟨_, _⟩ => simp_all [Term.body, Term.annotation]
    | .var ⟨_⟩, .var ⟨_⟩ => simp_all [Term.body]
    | .iri _, .literal _ | .iri _, .var _ | .literal _, .iri _ | .literal _, .var _
    | .var _, .iri _ | .var _, .literal _ => simp [Term.rank] at hr

/-! ## Literals -/

namespace Literal

def ofText (lexical : String) : Literal := ⟨lexical, .plain⟩

def typed (lexical datatype : String) : Literal := ⟨lexical, .datatype datatype⟩

/-- A literal in a language; tags are kept in lower case. -/
def inLanguage (lexical tag : String) : Literal := ⟨lexical, .language (Text.lowercase tag)⟩

def ofFloat (x : Float) : Literal := typed (Decimal.numeral x) Vocabulary.xsdFloat

def ofInt (n : Int) : Literal := typed (toString n) Vocabulary.xsdInteger

/-- The language tag. -/
def language? (l : Literal) : Option String :=
  match l.annotation with
  | .language tag => some tag
  | _ => none

/-- The IRI of the datatype. -/
def datatype? (l : Literal) : Option String :=
  match l.annotation with
  | .datatype iri => some iri
  | _ => none

def isPlain (l : Literal) : Bool := l.annotation == .plain

def toInt? (l : Literal) : Option Int := Decimal.readInt64? l.lexical

def toFloat? (l : Literal) : Option Float := Decimal.readFloat? l.lexical

end Literal

namespace Term

/-- True for variables. -/
def isVariable : Term → Bool
  | .var _ => true
  | _ => false

def isGround (t : Term) : Bool := !t.isVariable

/-- The variable that a term is. -/
def toVariable? : Term → Option Variable
  | .var v => some v
  | _ => none

/-- The literal that a term is. -/
def toLiteral? : Term → Option Literal
  | .literal l => some l
  | _ => none

/-- The characters of an IRI up to its local name: through the last `#`, else through the last `/`. -/
def splitIri (text : String) : String × String :=
  let cut (c : Char) : String × String :=
    let backwards := text.toList.reverse
    let after := backwards.takeWhile (· != c)
    (String.ofList (backwards.drop after.length).reverse, String.ofList after.reverse)
  if text.toList.contains '#' then cut '#'
  else if text.toList.contains '/' then cut '/'
  else (text, text)

end Term

/-! ## Written form -/

/-- Puts a backslash before each backslash and each quote. -/
def escapeQuoted (cs : List Char) : List Char :=
  cs.flatMap fun c => if c = '\\' ∨ c = '"' then ['\\', c] else [c]

def quoteText (s : String) : String := String.ofList ('"' :: (escapeQuoted s.toList ++ ['"']))

def bracketIri (iri : String) : String := "<" ++ iri ++ ">"

/-- The written form of a literal. -/
def Literal.text (l : Literal) : String :=
  match l.annotation with
  | .plain => quoteText l.lexical
  | .language tag => quoteText l.lexical ++ "@" ++ tag
  | .datatype iri => quoteText l.lexical ++ "^^" ++ bracketIri iri

/-- The written form of a term. -/
def Term.text : Term → String
  | .iri text => bracketIri text
  | .literal l => l.text
  | .var v => v.text

end TripleChain
