import OverlayBuild.Value.Display
import OverlayBuild.Yaml.Sheet

/-! Values written as a YAML document: mappings and lists in blocks, keys in the order
they have, after a marker of the document's start. -/
namespace OverlayBuild.Yaml

open Text

def floatScalar : Binary64 → List Char
  | .nan => ".nan".toList
  | .infinite negative => (if negative then ['-'] else []) ++ ".inf".toList
  | x =>
    let cs := x.text
    if cs.contains '.' then cs
    else cs.flatMap fun c => if c = 'e' then ['.', '0', 'e'] else [c]

/-- The scalar of a value that is no collection. Bytes, sets and references have no plain
form and are written as the text that shows them. -/
def Scalar.ofValue (multiline : Multiline) : Value → Scalar
  | .null => ⟨Tag.null, "null".toList, false⟩
  | .bool b => ⟨Tag.bool, (if b then "true" else "false").toList, false⟩
  | .int n => ⟨Tag.int, integer n, false⟩
  | .float x => ⟨Tag.float, floatScalar x, false⟩
  | .date d => ⟨Tag.timestamp, d.text, false⟩
  | .datetime t => ⟨Tag.timestamp, t.text, false⟩
  | v =>
    let cs := v.text.toList
    ⟨Tag.str, cs, multiline == .literal && cs.contains '\n'⟩

/-- The indentation one level below another; the root has none. -/
def deeper (indent : Option Nat) : Nat := (indent.map (· + indentStep)).getD 0

def scalarIndent (indent : Option Nat) : Nat := indent.getD 0 + indentStep

/-- A sequence as the value of a key stands at the key's own column. -/
def sequenceIndent (s : Sheet) (indent : Option Nat) (inMapping : Bool) : Nat :=
  if inMapping && !s.indented then indent.getD 0 else deeper indent

/-- Writes a key and the colon after it; a long or many-lined key has a mark of its
own. -/
def Sheet.key (s : Sheet) (multiline : Multiline) (key : Value) (indent : Nat) : Sheet :=
  let x := Scalar.ofValue multiline key
  let s := s.indentTo indent
  if x.isSimpleKey then
    (s.scalar x (scalarIndent indent) false true).indicator [':'] false false false
  else
    let s := (s.indicator ['?'] true false true).scalar x (scalarIndent indent) false false
    (s.indentTo indent).indicator [':'] true false true

mutual
def Sheet.value (multiline : Multiline) (indent : Option Nat) (inMapping : Bool) :
    Value → Sheet → Sheet
  | .list items, s | .tuple items, s =>
    if items.isEmpty then (s.indicator ['['] true true false).indicator [']'] false false false
    else Sheet.items multiline (sequenceIndent s indent inMapping) items s
  | .map entries, s =>
    if entries.isEmpty then
      (s.indicator ['\x7b'] true true false).indicator ['\x7d'] false false false
    else Sheet.entries multiline (deeper indent) entries s
  | v, s => s.scalar (.ofValue multiline v) (scalarIndent indent) indent.isNone false
termination_by structural v => v
def Sheet.items (multiline : Multiline) (indent : Nat) : List Value → Sheet → Sheet
  | [], s => s
  | v :: vs, s =>
    let s := (s.indentTo indent).indicator ['-'] true false true
    Sheet.items multiline indent vs (Sheet.value multiline (some indent) false v s)
termination_by structural vs => vs
def Sheet.entries (multiline : Multiline) (indent : Nat) :
    List (Value × Value) → Sheet → Sheet
  | [], s => s
  | (k, v) :: es, s =>
    let s := s.key multiline k indent
    Sheet.entries multiline indent es (Sheet.value multiline (some indent) true v s)
termination_by structural es => es
end

/-- The text of a document. A text that could go on is ended by a marker. -/
def write (multiline : Multiline) (v : Value) : String :=
  let s := (Sheet.blank.indentTo 0).indicator ['-', '-', '-'] true false false
  let s := (Sheet.value multiline none false v s).indentTo 0
  let s := if s.openEnded then (s.indicator ['.', '.', '.'] true false false).indentTo 0 else s
  String.ofList s.text

end OverlayBuild.Yaml
