import OverlayBuild.Value.Mapping

/-! The order of keys and sorting by it. Only keys of one kind have an order, so a sort
can fail, and which two keys its failure names follows from the order in which a
binary insertion sort compares them. -/
namespace OverlayBuild.Value

inductive Unordered where
  | types (left right : String)
  | dateWithMoment
  | clockWithInstant
  deriving DecidableEq, Repr

def Unordered.message : Unordered → String
  | .types left right =>
    "'<' not supported between instances of '" ++ left ++ "' and '" ++ right ++ "'"
  | .dateWithMoment => "can't compare datetime.datetime to datetime.date"
  | .clockWithInstant => "can't compare offset-naive and offset-aware datetimes"

def byteLess : List UInt8 → List UInt8 → Bool
  | _, [] => false
  | [], _ :: _ => true
  | a :: as, b :: bs => a < b || (a == b && byteLess as bs)

def momentLess (a b : DateTime) : Except Unordered Bool :=
  match a.instant?, b.instant? with
  | some x, some y => .ok (x < y)
  | none, none => .ok (a.clock < b.clock)
  | _, _ => .error .clockWithInstant

def less (a b : Value) : Except Unordered Bool :=
  match a.number?, b.number? with
  | some x, some y => .ok (x.compare? y == some .lt)
  | _, _ => match a, b with
    | .str s, .str t => .ok (s < t)
    | .bytes s, .bytes t => .ok (byteLess s t)
    | .date d, .date e => .ok (d.number < e.number)
    | .datetime s, .datetime t => momentLess s t
    | .date _, .datetime _ | .datetime _, .date _ => .error .dateWithMoment
    | _, _ => .error (.types a.fullTypeName b.fullTypeName)

variable {α : Type}

/-- The place of a key among sorted ones, found by halving; after its equals. -/
def place (key : Value) (sorted : Array (Value × α)) (low high : Nat) : Except Unordered Nat :=
  if low < high then
    let middle := low + (high - low) / 2
    match sorted[middle]? with
    | none => .ok low
    | some entry => do
      if ← less key entry.1 then place key sorted low middle
      else place key sorted (middle + 1) high
  else .ok low
termination_by high - low

/-- How long the entries at the start keep on rising, or keep on falling. -/
def runLength (falling : Bool) (previous : Value) : List (Value × α) → Except Unordered Nat
  | [] => .ok 0
  | entry :: rest => do
    if (← less entry.1 previous) = falling then
      return (← runLength falling entry.1 rest) + 1
    else return 0

def firstRun : List (Value × α) → Except Unordered (List (Value × α) × List (Value × α))
  | a :: b :: rest => do
    let falling ← less b.1 a.1
    let n := (← runLength falling b.1 rest) + 2
    let run := (a :: b :: rest).take n
    return (if falling then run.reverse else run, (a :: b :: rest).drop n)
  | short => .ok (short, [])

def insertSorted (sorted : Array (Value × α)) : List (Value × α) →
    Except Unordered (Array (Value × α))
  | [] => .ok sorted
  | entry :: rest => do
    let index ← place entry.1 sorted 0 sorted.size
    insertSorted (sorted.insertIdxIfInBounds index entry) rest

def sortByKey (entries : List (Value × α)) : Except Unordered (List (Value × α)) := do
  let (run, rest) ← firstRun entries
  return (← insertSorted run.toArray rest).toList

end OverlayBuild.Value
