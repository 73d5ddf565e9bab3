import OverlayBuild.Calendar
import OverlayBuild.Number.Binary64

/-! Loosely typed values, as overlay attributes and manifests hold them. A mapping
keeps its entries in the order in which their keys first came. A container that holds
itself is a finite tree with references back to an enclosing container. -/
namespace OverlayBuild

inductive Value where
  | null
  | bool (b : Bool)
  | int (n : Int)
  | float (x : Binary64)
  | str (s : String)
  | bytes (bs : List UInt8)
  | date (d : Date)
  | datetime (t : DateTime)
  | list (items : List Value)
  | tuple (items : List Value)
  | map (entries : List (Value × Value))
  | set (items : List Value)
  /-- The container `up` levels above the one that holds this reference. -/
  | loop (up : Nat)
  deriving Repr, Inhabited

namespace Value

/-- Whether a value counts as present: neither null, false, zero nor empty. -/
def isPresent : Value → Bool
  | .null => false
  | .bool b => b
  | .int n => n != 0
  | .float x => !x.isZero
  | .str s => !s.isEmpty
  | .bytes bs => !bs.isEmpty
  | .list items | .tuple items | .set items => !items.isEmpty
  | .map entries => !entries.isEmpty
  | .date _ | .datetime _ | .loop _ => true

def isNull : Value → Bool
  | .null => true
  | _ => false

def typeName : Value → String
  | .null => "NoneType"
  | .bool _ => "bool"
  | .int _ => "int"
  | .float _ => "float"
  | .str _ => "str"
  | .bytes _ => "bytes"
  | .date _ => "date"
  | .datetime _ => "datetime"
  | .list _ | .loop _ => "list"
  | .tuple _ => "tuple"
  | .map _ => "dict"
  | .set _ => "set"

/-- The full name of the value's type, with its module for dates. -/
def fullTypeName : Value → String
  | .date _ => "datetime.date"
  | .datetime _ => "datetime.datetime"
  | v => v.typeName

/-- Booleans count as the numbers 0 and 1. -/
def number? : Value → Option Binary64.Exact
  | .bool b => some (.finite b.toNat 1)
  | .int n => some (.finite n 1)
  | .float x => some x.exact
  | _ => none

end Value

end OverlayBuild
