import OverlayBuild.Value.Display
import OverlayBuild.Value.Order

/-! Values as JSON. A style says whether mappings are sorted by key, whether text keeps
its non-ASCII characters, and how containers are laid out. -/
namespace OverlayBuild.Json

open Text

structure Style where
  sorted : Bool
  ascii : Bool
  /-- Columns of each level of indentation; none for a single line. -/
  indent : Option Nat

/-- One line with sorted keys, so that equal manifests have equal text. -/
def Style.canonical : Style := ⟨true, false, none⟩

/-- Keys as they come, four columns a level, ASCII only. -/
def Style.report : Style := ⟨false, true, some 4⟩

inductive Fault where
  | unordered (cause : Value.Unordered)
  | key (typeName : String)
  | value (typeName : String)
  | circular
  | oversized
  deriving DecidableEq, Repr

def Fault.message : Fault → String
  | .unordered cause => cause.message
  | .key typeName => "keys must be str, int, float, bool or None, not " ++ typeName
  | .value typeName => "Object of type " ++ typeName ++ " is not JSON serializable"
  | .circular => "Circular reference detected"
  | .oversized => Value.oversizedMessage

def unit (n : Nat) : List Char := '\\' :: 'u' :: fixedHex 4 n

/-- A character that is not written as it is; past the first plane it takes two
units. -/
def escapeNumber (n : Nat) : List Char :=
  if n < 0x10000 then unit n
  else unit (0xd800 + (n - 0x10000) / 0x400) ++ unit (0xdc00 + (n - 0x10000) % 0x400)

def charText (ascii : Bool) (c : Char) : List Char :=
  if c = '"' then ['\\', '"']
  else if c = '\\' then ['\\', '\\']
  else if c = '\n' then ['\\', 'n']
  else if c = '\r' then ['\\', 'r']
  else if c = '\t' then ['\\', 't']
  else if c.toNat = 0x0c then ['\\', 'f']
  else if c.toNat = 0x08 then ['\\', 'b']
  else if c.toNat < 0x20 ∨ (ascii = true ∧ 0x7f ≤ c.toNat) then escapeNumber c.toNat
  else [c]

def stringText (ascii : Bool) (s : String) : List Char :=
  '"' :: s.toList.flatMap (charText ascii) ++ ['"']

def floatText : Binary64 → List Char
  | .nan => "NaN".toList
  | .infinite negative => (if negative then ['-'] else []) ++ "Infinity".toList
  | x => x.text

def boolText (b : Bool) : List Char := (if b then "true" else "false").toList

def intText (n : Int) : Except Fault (List Char) :=
  if (Value.int n).isOversized then .error .oversized else .ok (integer n)

/-- The text of a mapping's key, which is always written as a string. -/
def keyText (style : Style) (key : Value) : Except Fault (List Char) :=
  let bare (cs : List Char) : List Char := '"' :: cs ++ ['"']
  match key with
  | .str s => .ok (stringText style.ascii s)
  | .null => .ok (bare "null".toList)
  | .bool b => .ok (bare (boolText b))
  | .int n => (intText n).map bare
  | .float x => .ok (bare (floatText x))
  | v => .error (.key v.fullTypeName)

def lineBreak (style : Style) (level : Nat) : List Char :=
  match style.indent with
  | none => []
  | some columns => '\n' :: List.replicate (columns * level) ' '

def enclose (style : Style) (level : Nat) (opening closing : Char) (items : List (List Char)) :
    List Char :=
  if items = [] then [opening, closing]
  else opening :: lineBreak style (level + 1)
    ++ (items.intersperse (',' :: lineBreak style (level + 1))).flatten
    ++ lineBreak style level ++ [closing]

def entryText (style : Style) (entry : Value × Except Fault (List Char)) :
    Except Fault (List Char) := do
  let key ← keyText style entry.1
  return key ++ ':' :: (if style.indent.isSome then [' '] else []) ++ (← entry.2)

mutual
/-- The text of a value whose closing bracket stands at the given level. -/
def writeAt (style : Style) (level : Nat) : Value → Except Fault (List Char)
  | .null => .ok "null".toList
  | .bool b => .ok (boolText b)
  | .int n => intText n
  | .float x => .ok (floatText x)
  | .str s => .ok (stringText style.ascii s)
  | .list items | .tuple items => do
    return enclose style level '[' ']' (← writeAll style (level + 1) items)
  | .map entries => do
    let texts := writeEntries style (level + 1) entries
    let texts ← if style.sorted then (Value.sortByKey texts).mapError Fault.unordered
      else .ok texts
    return enclose style level '\x7b' '\x7d' (← texts.mapM (entryText style))
  | .loop _ => .error .circular
  | v => .error (.value v.typeName)
termination_by structural v => v
def writeAll (style : Style) (level : Nat) : List Value → Except Fault (List (List Char))
  | [] => .ok []
  | v :: vs => do
    let text ← writeAt style level v
    return text :: (← writeAll style level vs)
termination_by structural vs => vs
def writeEntries (style : Style) (level : Nat) :
    List (Value × Value) → List (Value × Except Fault (List Char))
  | [] => []
  | (k, v) :: es => (k, writeAt style level v) :: writeEntries style level es
termination_by structural es => es
end

def write (style : Style) (v : Value) : Except Fault String :=
  (writeAt style 0 v).map String.ofList

end OverlayBuild.Json
