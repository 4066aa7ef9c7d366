import DocumentStore.Json.Basic
import DocumentStore.Text.Pieces

/-!
# Comparing and adding values in conditions

Numbers are compared as binary64 numbers, wherever they stand in a list.
Addition joins strings and lists and adds numbers: integers of 64 bits
exactly, all others in binary64.
-/

namespace DocumentStore
namespace Json

mutual

/-- Equality in conditions. -/
def equals : Json → Json → Bool
  | number a, number b => a.order b == .eq
  | array as, array bs => equalItems as bs
  | a, b => a.same b

/-- Equality of lists in conditions, item by item. -/
def equalItems : List Json → List Json → Bool
  | [], [] => true
  | a :: as, b :: bs => equals a b && equalItems as bs
  | _, _ => false

end

/-- Order in conditions; defined between two numbers and between two strings. -/
def order? : Json → Json → Option Ordering
  | number a, number b => some (a.order b)
  | string a, string b => some (compare a b)
  | _, _ => none

/-- The value of an integer of 64 bits. -/
def Number.toInt64? : Number → Option Int
  | .integer i => if Signed64 i then some i else none
  | .float _ => none

/-- The sum of two numbers, if it is in range. -/
def Number.add? (a b : Number) : Option Number :=
  match a.toInt64?, b.toInt64? with
  | some i, some j =>
      if Signed64 (i + j) then some (.integer (i + j)) else none
  | _, _ => (Binary64.add? a.toBinary64 b.toBinary64).map .float

/-- The sum of two values, if they can be added. -/
def add? : Json → Json → Option Json
  | number a, number b => (a.add? b).map number
  | string a, string b => some (string (a ++ b))
  | array as, array bs => some (array (as ++ bs))
  | _, _ => none

/-- Whether a value is in another: an item of a list, a name of an object, or a part of a string. -/
def isIn? : (needle haystack : Json) → Option Bool
  | needle, array items => some (items.any fun item => equals item needle)
  | string name, object members => some (member? name members).isSome
  | string part, string whole => some (Text.occursIn part.toList whole.toList)
  | _, _ => none

end Json
end DocumentStore
