import OverlayBuild.Number.Reading
import OverlayBuild.Number.Shortest
import OverlayBuild.Text.Quoted
import OverlayBuild.Value.Basic

/-! The text of values: `literal` shows a value as an expression, with quotes around
text, and `text` is the same but for text itself, which stands for itself. A reference
back to an enclosing container shows as that container's brackets around three dots. -/
namespace OverlayBuild.Value

open Text

def separate (items : List (List Char)) : List Char := (items.intersperse [',', ' ']).flatten

/-- What is left between the brackets of a container that is already being shown. -/
def dots : List Char := ['.', '.', '.']

mutual
/-- `outer` holds the brackets of the enclosing containers, innermost first. -/
def literalIn (outer : List (Char × Char)) : Value → List Char
  | .null => "None".toList
  | .bool b => if b then "True".toList else "False".toList
  | .int n => integer n
  | .float x => x.text
  | .str s => quoted s.toList
  | .bytes bs => quotedBytes bs
  | .date d => d.expression
  | .datetime t => t.expression
  | .list items => '[' :: separate (literals (('[', ']') :: outer) items) ++ [']']
  | .tuple items =>
    match literals (('(', ')') :: outer) items with
    | [one] => '(' :: one ++ [',', ')']
    | many => '(' :: separate many ++ [')']
  | .map entries =>
    '\x7b' :: separate (entryLiterals (('\x7b', '\x7d') :: outer) entries) ++ ['\x7d']
  | .set [] => "set()".toList
  | .set items => '\x7b' :: separate (literals (('\x7b', '\x7d') :: outer) items) ++ ['\x7d']
  | .loop up =>
    let (opening, closing) := outer.getD up ('[', ']')
    opening :: dots ++ [closing]
termination_by structural v => v
def literals (outer : List (Char × Char)) : List Value → List (List Char)
  | [] => []
  | v :: vs => literalIn outer v :: literals outer vs
termination_by structural vs => vs
def entryLiterals (outer : List (Char × Char)) : List (Value × Value) → List (List Char)
  | [] => []
  | (k, v) :: es =>
    (literalIn outer k ++ ':' :: ' ' :: literalIn outer v) :: entryLiterals outer es
termination_by structural es => es
end

def literal (v : Value) : String := String.ofList (literalIn [] v)

def text : Value → String
  | .str s => s
  | .date d => String.ofList d.text
  | .datetime t => String.ofList t.text
  | v => v.literal

mutual
def isOversized : Value → Bool
  | .int n => 10 ^ Number.maxDigits ≤ n.natAbs
  | .list items | .tuple items | .set items => anyOversized items
  | .map entries => anyEntryOversized entries
  | _ => false
termination_by structural v => v
def anyOversized : List Value → Bool
  | [] => false
  | v :: vs => isOversized v || anyOversized vs
termination_by structural vs => vs
def anyEntryOversized : List (Value × Value) → Bool
  | [] => false
  | (k, v) :: es => isOversized k || isOversized v || anyEntryOversized es
termination_by structural es => es
end

def oversizedMessage : String :=
  "Exceeds the limit (4300 digits) for integer string conversion; use sys.set_int_max_str_digits() to increase the limit"

end OverlayBuild.Value
