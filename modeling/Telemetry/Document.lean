import Telemetry.Text

namespace Telemetry

/-- A value of the JSON data model. A number is an integer when it is written as one and fits a word
of eight bytes; every other number is a decimal. -/
inductive Document
  | null
  | bool (b : Bool)
  | int (n : Int)
  | decimal (mantissa exponent : Int)
  | text (t : Text)
  | array (items : List Document)
  | object (fields : List (Text × Document))
  deriving Repr, Inhabited

namespace Document

def setField (fields : List (Text × Document)) (key : Text) (value : Document) :
    List (Text × Document) :=
  match fields with
  | [] => [(key, value)]
  | (k, v) :: rest => if k = key then (k, value) :: rest else (k, v) :: setField rest key value

def fields : Document → List (Text × Document)
  | object fs => fs
  | _ => []

def isObject : Document → Bool
  | object _ => true
  | _ => false

def isNull : Document → Bool
  | null => true
  | _ => false

def get? (d : Document) (key : Text) : Option Document := d.fields.lookup key

mutual

/-- Lays one document over another: objects merge key by key, anything else replaces what is below.
A document that is no object changes nothing. -/
def merge (base : Document) : Document → Document
  | object overrides => object (mergeFields base.fields overrides)
  | _ => base

def mergeFields (base : List (Text × Document)) :
    List (Text × Document) → List (Text × Document)
  | [] => base
  | (key, value) :: rest =>
    let below := base.lookup key
    let merged :=
      if value.isObject && below.elim false isObject then merge (below.getD null) value else value
    mergeFields (setField base key merged) rest

end

/-- Why nothing is read from a text: it is no document, or it has a number that no value stands
for. -/
inductive Flaw
  | malformed
  | beyond (number : Text)
  deriving DecidableEq, Repr

/-- What a reader of documents makes of a text. -/
abbrev Parser := Text → Except Flaw Document

end Document

end Telemetry
