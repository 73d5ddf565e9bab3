import OverlayBuild.Value.Basic

/-! Mappings: which keys are one key, entries by key, and the way down into containers
that may hold themselves. -/
namespace OverlayBuild.Value

/-- Two moments are one when they name the same instant, or the same clock time where
neither has an offset. -/
def sameMoment (a b : DateTime) : Bool :=
  match a.instant?, b.instant? with
  | some x, some y => x == y
  | none, none => a.clock == b.clock
  | _, _ => false

/-- Whether two values are one key. Numbers are compared by value, so that 1, 1.0 and
true are one key. -/
def sameKey (a b : Value) : Bool :=
  match a.number?, b.number? with
  | some x, some y => x.compare? y == some .eq
  | none, none => match a, b with
    | .null, .null => true
    | .str s, .str t => s == t
    | .bytes s, .bytes t => s == t
    | .date d, .date e => d == e
    | .datetime s, .datetime t => sameMoment s t
    | _, _ => false
  | _, _ => false

theorem sameKey_str (s t : String) : sameKey (.str s) (.str t) = (s == t) := rfl

def insert (key value : Value) : List (Value × Value) → List (Value × Value)
  | [] => [(key, value)]
  | (k, v) :: rest =>
    if sameKey k key then (k, value) :: rest else (k, v) :: insert key value rest

def ofPairs (pairs : List (Value × Value)) : List (Value × Value) :=
  pairs.foldl (fun entries p => insert p.1 p.2 entries) []

mutual
/-- Puts `whole` in the place of the references to it, which point `depth` levels up. -/
def tie (whole : Value) (depth : Nat) : Value → Value
  | .loop up => if up = depth then whole else .loop up
  | .list items => .list (tieAll whole (depth + 1) items)
  | .tuple items => .tuple (tieAll whole (depth + 1) items)
  | .map entries => .map (tieEntries whole (depth + 1) entries)
  | v => v
termination_by structural v => v
def tieAll (whole : Value) (depth : Nat) : List Value → List Value
  | [] => []
  | v :: vs => tie whole depth v :: tieAll whole depth vs
termination_by structural vs => vs
def tieEntries (whole : Value) (depth : Nat) : List (Value × Value) → List (Value × Value)
  | [] => []
  | (k, v) :: es => (k, tie whole depth v) :: tieEntries whole depth es
termination_by structural es => es
end

/-- The entries of a mapping, each value complete in itself. -/
def entries? (v : Value) : Option (List (Value × Value)) :=
  match v with
  | .map es => some (tieEntries v 0 es)
  | _ => none

def members? (v : Value) : Option (List Value) :=
  match v with
  | .list vs | .tuple vs => some (tieAll v 0 vs)
  | .set vs => some vs
  | _ => none

def find? (key : String) (entries : List (Value × Value)) : Option Value :=
  (entries.find? fun e => match e.1 with
    | .str s => s == key
    | _ => false).map (·.2)

/-- The value under a key of text, null where there is none. -/
def field (key : String) (entries : List (Value × Value)) : Value :=
  (find? key entries).getD .null

end OverlayBuild.Value
