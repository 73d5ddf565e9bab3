import OverlayBuild.Yaml.Node
import OverlayBuild.Yaml.Scalar

/-! The values of documents. A node's tag decides how its value is made. Mappings may
merge others under the key `<<`. Nodes are checked level by level, so that of several
faults the outermost is reported, and a node that holds itself is checked once. -/
namespace OverlayBuild.Yaml

namespace Node

def head? : Node → Option Head
  | .scalar head _ | .sequence head _ | .mapping head _ => some head
  | .alias _ => none

def start (n : Node) : Mark := (n.head?.map (·.start)).getD ⟨0, 0, 0⟩

def tag (n : Node) : String := (n.head?.map (·.tag)).getD ""

def kind : Node → NodeKind
  | .sequence _ _ => .sequence
  | .mapping _ _ => .mapping
  | _ => .scalar

def pairs : Node → List (Node × Node)
  | .mapping _ pairs => pairs
  | _ => []

mutual
def parts : Node → List Node
  | .scalar head text => [.scalar head text]
  | .sequence head items => .sequence head items :: partsAll items
  | .mapping head pairs => .mapping head pairs :: partsPairs pairs
  | .alias name => [.alias name]
termination_by structural n => n
def partsAll : List Node → List Node
  | [] => []
  | n :: ns => parts n ++ partsAll ns
termination_by structural ns => ns
def partsPairs : List (Node × Node) → List Node
  | [] => []
  | (k, v) :: ps => parts k ++ parts v ++ partsPairs ps
termination_by structural ps => ps
end

mutual
def anchored : Node → List (String × Node)
  | .scalar head text => (head.anchor.map (·, .scalar head text)).toList
  | .sequence head items =>
    (head.anchor.map (·, .sequence head items)).toList ++ anchoredAll items
  | .mapping head pairs =>
    (head.anchor.map (·, .mapping head pairs)).toList ++ anchoredPairs pairs
  | .alias _ => []
termination_by structural n => n
def anchoredAll : List Node → List (String × Node)
  | [] => []
  | n :: ns => anchored n ++ anchoredAll ns
termination_by structural ns => ns
def anchoredPairs : List (Node × Node) → List (String × Node)
  | [] => []
  | (k, v) :: ps => anchored k ++ anchored v ++ anchoredPairs ps
termination_by structural ps => ps
end

end Node

/-- A document: its root, how many nodes it has and those that aliases may name. -/
structure Document where
  root : Node
  count : Nat
  anchors : List (String × Node)

inductive CollectionTag where
  | seq
  | map
  | set
  | omap
  | pairs
  deriving DecidableEq, Repr

def CollectionTag.of? (tag : String) : Option CollectionTag :=
  if tag = Tag.seq then some .seq
  else if tag = Tag.map then some .map
  else if tag = Tag.set then some .set
  else if tag = Tag.omap then some .omap
  else if tag = Tag.pairs then some .pairs
  else none

/-- What making its values has changed in a document so far. -/
structure Revision where
  /-- The pairs that mappings have since merging changed them, by number, the last change first. -/
  pairs : List (Nat × List (Node × Node))
  /-- The numbers of the keys that were equals signs. They are text from then on. -/
  texts : List Nat
  /-- The values of the mappings that stand in the place of scalars. They stay if such a mapping
  is merged into another one later. -/
  scalars : List (Nat × Value)

namespace Revision

def none : Revision := ⟨[], [], []⟩

variable (rev : Revision)

/-- The tag that a node has by now. -/
def tag (n : Node) : String :=
  if n.head?.any fun head => rev.texts.contains head.number then Tag.str else n.tag

def pairsOf (head : Node.Head) (pairs : List (Node × Node)) : List (Node × Node) :=
  (rev.pairs.lookup head.number).getD pairs

def setPairs (head : Node.Head) (pairs : List (Node × Node)) : Revision :=
  { rev with pairs := (head.number, pairs) :: rev.pairs }

/-- Notes the value of a mapping that stands in the place of a scalar. -/
def note (n : Node) (v : Value) : Revision :=
  match n with
  | .mapping head _ => { rev with scalars := (head.number, v) :: rev.scalars }
  | _ => rev

end Revision

namespace Document

variable (d : Document)

def ofRoot (root : Node) (count : Nat) : Document := ⟨root, count, root.anchored⟩

/-- The node itself, or the one that an alias names. -/
def follow : Node → Node
  | .alias name => (d.anchors.lookup name).getD (.alias name)
  | n => n

def isMergeKey (key : Node) : Bool := (d.follow key).tag == Tag.merge

def mergeKeys : Nat := (d.root.parts.flatMap Node.pairs).countP fun p => d.isMergeKey p.1

/-- The keys among some pairs that are equals signs become text, wherever else they stand. -/
def retag (rev : Revision) (pairs : List (Node × Node)) : Revision :=
  { rev with texts := (pairs.filterMap fun p =>
      let key := d.follow p.1
      if rev.tag key = Tag.value then key.head?.map (·.number) else none) ++ rev.texts }

section

variable (merged : Revision → Node.Head → List (Node × Node) →
  Except Failure (Revision × List (Node × Node)))

/-- Merges an item of a list of mappings and puts its pairs before those of the items so far. -/
def mergeItem (start : Mark) (given : Revision × List (Node × Node)) (item : Node) :
    Except Failure (Revision × List (Node × Node)) :=
  match d.follow item with
  | .mapping head pairs => do
    let (rev, part) ← merged given.1 head pairs
    return (rev, part ++ given.2)
  | other => .error (failIn .mapping start (.notMerged other.kind) other.start)

/-- The pairs that the value of a merge key gives once they are merged themselves: those of a
mapping, or of a list of mappings, the last first. -/
def mergeValue (rev : Revision) (start : Mark) : Node → Except Failure (Revision × List (Node × Node))
  | .mapping head pairs => merged rev head pairs
  | .sequence _ items => items.foldlM (d.mergeItem merged start) (rev, [])
  | other => .error (failIn .mapping start (.notMergeable other.kind) other.start)

end

/-- Takes the merge keys out of a mapping, one after the other, and then puts what they gave
before the pairs that are left, so that these take the place of the others. A mapping that is
merged into itself gives what it has by then. Every step takes one merge key out. -/
def merge (rev : Revision) (head : Node.Head) (pairs given : List (Node × Node)) :
    Nat → Except Failure (Revision × List (Node × Node))
  | 0 => .ok (rev, rev.pairsOf head pairs)
  | fuel + 1 =>
    let held := rev.pairsOf head pairs
    match held.find? fun p => d.isMergeKey p.1 with
    | none =>
      let rev := d.retag rev held
      .ok (if given.isEmpty then rev else rev.setPairs head (given ++ held), given ++ held)
    | some (_, value) => do
      let left := held.eraseP fun p => d.isMergeKey p.1
      let (rev, part) ← d.mergeValue (fun rev head pairs => merge rev head pairs [] fuel)
        (rev.setPairs head left) head.start (d.follow value)
      merge rev head pairs (given ++ part) fuel

def mergedPairs (rev : Revision) (head : Node.Head) (pairs : List (Node × Node)) :
    Except Failure (Revision × List (Node × Node)) :=
  d.merge rev head pairs [] (d.mergeKeys + 1)

/-- The text of a scalar, or what a mapping holds under an equals sign in its place. One that has
been merged has none: its equals signs are text. A chain of more mappings than there are nodes
comes back to one of them and never ends. -/
def scalarText (rev : Revision) (n : Node) : Nat → Except Failure String
  | 0 => .error (.mismatch .endless)
  | fuel + 1 =>
    match n with
    | .scalar _ text => .ok text
    | .mapping _ pairs =>
      match pairs.find? fun p => rev.tag (d.follow p.1) == Tag.value with
      | some (_, value) => scalarText rev (d.follow value) fuel
      | none => .error (failAt (.notNode .scalar .mapping) n.start)
    | _ => .error (failAt (.notNode .scalar n.kind) n.start)

def scalarValue (rev : Revision) (tag : ScalarTag) (n : Node) : Except Failure Value := do
  let text ← d.scalarText rev n (d.count + 1)
  if tag = .timestamp ∧ n.kind = .mapping then .error (.mismatch .momentOfMapping)
  else tag.value text n.start

def itemPair (rev : Revision) (activity : Activity) (start : Mark) (item : Node) :
    Except Failure (Node × Node) :=
  match d.follow item with
  | .mapping head pairs =>
    match rev.pairsOf head pairs with
    | [pair] => .ok pair
    | held => .error (failIn activity start (.itemCount held.length) head.start)
  | other => .error (failIn activity start (.notItem other.kind) other.start)

/-- What a check still has to do: the collections that were met, in order, and the numbers
of all that were. -/
structure Agenda where
  waiting : List Node
  met : List Nat
  rev : Revision

/-- Meets a node: a scalar is made at once, a collection when its turn comes. Tells whether it
can be a key. -/
def meet (agenda : Agenda) (n : Node) : Except Failure (Bool × Agenda) := do
  let n := d.follow n
  let head := n.head?.getD ⟨0, ⟨0, 0, 0⟩, none, ""⟩
  let tag := agenda.rev.tag n
  match CollectionTag.of? tag with
  | some _ =>
    if agenda.met.contains head.number then return (false, agenda)
    else return (false, ⟨agenda.waiting ++ [n], head.number :: agenda.met, agenda.rev⟩)
  | none =>
    if agenda.met.contains head.number then return (true, agenda)
    match ScalarTag.of? tag with
    | some tag =>
      let v ← d.scalarValue agenda.rev tag n
      return (true, ⟨agenda.waiting, head.number :: agenda.met, agenda.rev.note n v⟩)
    | none => .error (failAt (.unknownTag tag) head.start)

def meetPair (start : Mark) (agenda : Agenda) (pair : Node × Node) : Except Failure Agenda := do
  let (isKey, agenda) ← d.meet agenda pair.1
  if !isKey then throw (failIn .mapping start .badKey (d.follow pair.1).start)
  return (← d.meet agenda pair.2).2

def meetItem (activity : Activity) (start : Mark) (agenda : Agenda) (item : Node) :
    Except Failure Agenda := do
  let pair ← d.itemPair agenda.rev activity start item
  let (_, agenda) ← d.meet agenda pair.1
  return (← d.meet agenda pair.2).2

def checkCollection (agenda : Agenda) (n : Node) : Except Failure Agenda :=
  let listed (activity : Activity) : Except Failure Agenda :=
    match n with
    | .sequence head items => items.foldlM (d.meetItem activity head.start) agenda
    | other => .error (failIn activity other.start (.notSequence other.kind) other.start)
  match CollectionTag.of? n.tag with
  | some .map | some .set =>
    match n with
    | .mapping head pairs => do
      let (rev, merged) ← d.mergedPairs agenda.rev head pairs
      merged.foldlM (d.meetPair head.start) { agenda with rev := rev }
    | other => .error (failAt (.notNode .mapping other.kind) other.start)
  | some .omap => listed .orderedMap
  | some .pairs => listed .pairs
  | _ =>
    match n with
    | .sequence _ items =>
      items.foldlM (fun agenda item => return (← d.meet agenda item).2) agenda
    | other => .error (failAt (.notNode .sequence other.kind) other.start)

def checkFrom (agenda : Agenda) : Nat → Except Failure Revision
  | 0 => .ok agenda.rev
  | fuel + 1 =>
    match agenda.waiting with
    | [] => .ok agenda.rev
    | n :: waiting => do
      checkFrom (← d.checkCollection { agenda with waiting := waiting } n) fuel

/-- What the document has become once all is checked that its root leads to. -/
def check : Except Failure Revision := do
  d.checkFrom (← d.meet ⟨[], [], .none⟩ d.root).2 (d.count + 1)

variable (rev : Revision)

mutual
/-- The value of a node. `outer` holds the numbers of the collections around it, innermost
first, with none for a pair. -/
def nodeValue (outer : List (Option Nat)) (n : Node) : Nat → Except Failure Value
  | 0 => .ok .null
  | fuel + 1 => do
    let n := d.follow n
    let head := n.head?.getD ⟨0, ⟨0, 0, 0⟩, none, ""⟩
    let tag := rev.tag n
    match CollectionTag.of? tag with
    | some tag =>
      match outer.idxOf? (some head.number) with
      | some up => return .loop up
      | none => collectionValue tag (some head.number :: outer) n fuel
    | none =>
      match rev.scalars.lookup head.number, ScalarTag.of? tag with
      | some v, _ => return v
      | none, some tag => d.scalarValue rev tag n
      | none, none => .error (failAt (.unknownTag tag) head.start)

def collectionValue (tag : CollectionTag) (outer : List (Option Nat)) (n : Node) :
    Nat → Except Failure Value
  | 0 => .ok .null
  | fuel + 1 =>
    let pairValue (outer : List (Option Nat)) (p : Node × Node) :
        Except Failure (Value × Value) := do
      return (← nodeValue outer p.1 fuel, ← nodeValue outer p.2 fuel)
    let listed (activity : Activity) (start : Mark) (items : List Node) : Except Failure Value := do
      return .list (← items.mapM fun item => do
        let (k, v) ← pairValue (none :: outer) (← d.itemPair rev activity start item)
        return .tuple [k, v])
    match tag, n with
    | .map, .mapping head pairs => do
      let (_, merged) ← d.mergedPairs rev head pairs
      return .map (Value.ofPairs (← merged.mapM (pairValue outer)))
    | .set, .mapping head pairs => do
      let (_, merged) ← d.mergedPairs rev head pairs
      let entries := Value.ofPairs (← merged.mapM (pairValue outer))
      return .set (entries.map (·.1))
    | .seq, .sequence _ items => return .list (← items.mapM fun item => nodeValue outer item fuel)
    | .omap, .sequence head items => listed .orderedMap head.start items
    | .pairs, .sequence head items => listed .pairs head.start items
    | .map, other | .set, other => .error (failAt (.notNode .mapping other.kind) other.start)
    | _, other => .error (failAt (.notNode .sequence other.kind) other.start)
end

/-- The value of a document. The collections around a node are distinct, which bounds
their depth. -/
def value : Except Failure Value := do
  d.nodeValue (← d.check) [] d.root (2 * d.count + 2)

end Document

def unacceptable? (text : List Char) : Option (Char × Nat) :=
  let bad (c : Char) : Bool :=
    let n := c.toNat
    !(n == 0x09 || n == 0x0a || n == 0x0d || (0x20 ≤ n && n ≤ 0x7e) || n == 0x85
      || (0xa0 ≤ n && n ≤ 0xfffd) || 0x10000 ≤ n)
  (text.zipIdx.find? fun p => bad p.1)

def Stream.length {α : Type} : Stream α → Nat
  | .item _ rest => rest.length + 1
  | _ => 0

def nextDocument (schema : Schema) (first : Bool) (fuel : Nat) :
    ReadNode (Option (Mark × Document)) := do
  match ← NodeReader.openDocument first fuel with
  | none => return none
  | some (start, marked) =>
    let root ← NodeReader.documentNode schema marked fuel
    return some (start, Document.ofRoot root (← get).count)

/-- A reader at the first document of a text, and a bound for its recursion: a token takes
it a few levels deeper at most. -/
def openText (text : List Char) : Except Failure (NodeReader × Nat) :=
  match unacceptable? text with
  | some (c, position) => .error (.unacceptable c position)
  | none =>
    let all := tokens text
    match all with
    | .item _ rest => .ok (⟨rest, [], [], 0⟩, 4 * all.length + 8)
    | .failed failure => .error failure
    | .done => .ok (⟨.done, [], [], 0⟩, 0)

/-- The values of the documents from the reader on. Each value is made before the next
document is read. -/
def valuesFrom (schema : Schema) (fuel : Nat) (first : Bool) (reader : NodeReader) :
    Nat → Except Failure (List Value)
  | 0 => .ok []
  | more + 1 => do
    match ← (nextDocument schema first fuel).run reader with
    | (none, _) => return []
    | (some (_, document), reader) =>
      let value ← document.value
      return value :: (← valuesFrom schema fuel false reader more)

def readAll (schema : Schema) (text : List Char) : Except Failure (List Value) := do
  let (reader, fuel) ← openText text
  valuesFrom schema fuel true reader fuel

/-- The value of the only document of a text; null where there is none. -/
def read (schema : Schema) (text : List Char) : Except Failure Value := do
  let (reader, fuel) ← openText text
  match ← (nextDocument schema true fuel).run reader with
  | (none, _) => return .null
  | (some (_, document), reader) =>
    match ← (NodeReader.openDocument false fuel).run reader with
    | (none, _) => document.value
    | (some (start, _), _) =>
      .error (failIn .singleDocument document.root.start .anotherDocument start)

end OverlayBuild.Yaml
