import OverlayBuild.Resource.Result
import OverlayBuild.Text.Basic
import OverlayBuild.Yaml.Printer

/-! The formats in which a result is printed. -/
namespace OverlayBuild.Report

open Text

/-! Rows of text in columns: each column is as wide as its widest value and four blanks more, and
no line ends in white space. -/

def padding : Nat := 4

inductive Misfit where
  | tooLong
  /-- The row ends before the column with the given index. -/
  | tooShort (index : Nat)
  deriving DecidableEq, Repr

def Misfit.message : Misfit → String
  | .tooLong => "list index out of range"
  | .tooShort index =>
    "Replacement index " ++ String.ofList (decimal index)
      ++ " out of range for positional args tuple"

def widths (count : Nat) (rows : List (List String)) : List Nat :=
  (List.range count).map fun j => (rows.map fun row => (row.getD j "").length).foldl max 0

def cell (width : Nat) (value : String) : List Char :=
  value.toList ++ List.replicate (width - value.length) ' '

def line (widths : List Nat) (row : List String) : Except Misfit String :=
  if row.length < widths.length then .error (.tooShort row.length)
  else
    let cells := widths.zipWith (fun w value => cell (w + padding) value) row
    .ok (String.ofList (trimEnd cells.flatten))

def columns (headers : List String) (rows : List (List String)) :
    Except Misfit (List String) :=
  let all := headers :: rows
  if all.any fun row => headers.length < row.length then .error .tooLong
  else all.mapM (line (widths headers.length all))

/-! Formats. -/

inductive Format where
  | json
  | table
  | yaml
  deriving DecidableEq, Repr

def Format.all : List Format := [.json, .table, .yaml]

def Format.name : Format → String
  | .json => "json"
  | .table => "table"
  | .yaml => "yaml"

def Format.ofName? (name : String) : Option Format := Format.all.find? fun f => f.name == name

def texts (ids : List String) : Value := .list (ids.map .str)

def outline (r : BuildResult) : Value := .map [
  (.str "ids", texts r.ids),
  (.str "ids_prio", .list (r.tiers.map texts)),
  (.str "manifests", .map (r.manifests.map fun m => (.str m.1, .str m.2)))]

/-- A row for each id, with the number of its tier. -/
def tierRows (tiers : List (List String)) : List (List String) :=
  tiers.zipIdx.flatMap fun (ids, n) => ids.map fun id => [String.ofList (decimal n), id]

/-- The lines that a format prints. A table without rows has no line. -/
def lines (multiline : Yaml.Multiline) (format : Format) (r : BuildResult) : List (List Char) :=
  match format with
  | .yaml =>
    splitAt '\n' (dropEndWhile (· == '\n') (Yaml.write multiline (outline r)).toList)
  | .json =>
    match Json.write .report (outline r) with
    | .ok text => splitAt '\n' text.toList
    | .error _ => []
  | .table =>
    let rows := tierRows r.tiers
    if rows = [] then []
    else match columns ["TIER", "ID"] rows with
      | .ok lines => lines.map String.toList
      | .error _ => []

def textOf (lines : List (List Char)) : String := String.ofList (lines.flatMap fun l => l ++ ['\n'])

@[simp] theorem textOf_nil : textOf [] = "" := rfl

def text (multiline : Yaml.Multiline) (format : Format) (r : BuildResult) : String :=
  textOf (lines multiline format r)

end OverlayBuild.Report
