import DataSpec.Text.Segments

/-!
# Datatypes

Attributes name their datatype by its identifier in the vocabulary of basic datatypes.
Nine of them are known, so that each output format has a type of its own for them; any
other identifier of the vocabulary is a datatype about which nothing is known.
-/

set_option autoImplicit false

namespace DataSpec

/-- A basic datatype. -/
inductive Datatype where
  | boolean
  | date
  | time
  | dateTime
  | integer
  | decimal
  | url
  | string
  /-- A text with a language. -/
  | text
deriving DecidableEq

namespace Datatype

/-- What the identifiers of datatypes begin with. -/
def base : String := "https://ofn.gov.cz/zdroj/základní-datové-typy/2020-07-01/"

/-- All known datatypes. -/
def all : List Datatype :=
  [boolean, date, time, dateTime, integer, decimal, url, string, text]

/-- The name of a datatype in the vocabulary. -/
def localName : Datatype → String
  | boolean => "boolean"
  | date => "datum"
  | time => "čas"
  | dateTime => "datum-a-čas"
  | integer => "celé-číslo"
  | decimal => "desetinné-číslo"
  | url => "url"
  | string => "řetězec"
  | text => "text"

/-- The identifier of a datatype. -/
def iri (d : Datatype) : String := base ++ d.localName

/-- The known datatype with an identifier. -/
def ofIri? (iri : String) : Option Datatype :=
  (Text.after? iri base).bind fun name => all.find? fun d => d.localName = name

/-- The name of a datatype for people. -/
def label : Datatype → String
  | boolean => "Boolean"
  | date => "Date"
  | time => "Time"
  | dateTime => "Date and time"
  | integer => "Integer"
  | decimal => "Decimal number"
  | url => "URL"
  | string => "String"
  | text => "Text"

end Datatype

/-- Whether an identifier is that of a datatype, known or not. -/
def isDatatypeIri (iri : String) : Bool := Text.startsWith iri Datatype.base

end DataSpec
