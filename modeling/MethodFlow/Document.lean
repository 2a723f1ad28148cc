/-! Structured documents, the form in which the data of this library is kept outside a program.
Readers give nothing where a document does not have the form they ask for. -/
namespace MethodFlow

inductive Document
  | null
  | bool (value : Bool)
  | integer (value : Int)
  | decimal (mantissa : Int) (exponent : Nat)
  | text (value : String)
  | list (items : List Document)
  | record (fields : List (String × Document))
  deriving Inhabited

namespace Document

def isNull : Document → Bool
  | null => true
  | _ => false

def bool? : Document → Option Bool
  | bool value => some value
  | _ => none

def int? : Document → Option Int
  | integer value => some value
  | _ => none

def nat? : Document → Option Nat
  | integer (.ofNat n) => some n
  | _ => none

def text? : Document → Option String
  | text value => some value
  | _ => none

/-- One more than the largest number a document may hold where a count is asked for. -/
def countLimit : Nat := 18446744073709551616

def count? (document : Document) : Option Nat :=
  document.nat?.filter (· < countLimit)

def optional? {α : Type} (read : Document → Option α) : Document → Option (Option α)
  | null => some none
  | document => (read document).map some

def flag? (document : Document) : Option Bool := (·.getD false) <$> optional? bool? document

def listOf? {α : Type} (read : Document → Option α) : Document → Option (List α)
  | list items => items.mapM read
  | _ => none

def pairOf? {α β : Type} (first : Document → Option α) (second : Document → Option β) :
    Document → Option (α × β)
  | list [a, b] => return (← first a, ← second b)
  | _ => none

/-- A field of a record; one that is not there reads as null. -/
def get (document : Document) (name : String) : Document :=
  match document with
  | record fields => (fields.lookup name).getD null
  | _ => null

/-- The fields of a record of which all field names are given: a record may also be written as the
list of all its fields in their order. Fields of other names do no harm, since no reader asks for
them. -/
def fields? (names : List String) : Document → Option Document
  | record fields => some (record fields)
  | list items => if items.length = names.length then some (record (names.zip items)) else none
  | _ => none

/-- A choice and the value that goes with it: a record of that one field, or for null only the
name. -/
def variant? : Document → Option (String × Document)
  | text name => some (name, null)
  | record [(name, value)] => some (name, value)
  | _ => none

def named? {α : Type} (table : List (String × α)) (document : Document) : Option α :=
  document.text?.bind fun name => table.lookup name

def count (n : Nat) : Document := integer n

def optional {α : Type} (write : α → Document) (value : Option α) : Document :=
  value.elim null write

def tagged (name : String) (value : Document) : Document := record [(name, value)]

def name {α : Type} [BEq α] (table : List (String × α)) (value : α) : Document :=
  optional (fun entry => text entry.1) (table.find? fun entry => entry.2 == value)

end Document

end MethodFlow
