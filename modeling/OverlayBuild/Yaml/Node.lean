import OverlayBuild.Yaml.Tag
import OverlayBuild.Yaml.Token.Stream

/-! Nodes: the tree that the tokens of a document spell. Every node has a number of its
own in the document, its tag, the place where it starts and perhaps an anchor; an alias
stands for the node with its anchor. -/
namespace OverlayBuild.Yaml

structure Node.Head where
  number : Nat
  start : Mark
  anchor : Option String
  tag : String
  deriving DecidableEq, Repr

inductive Node where
  | scalar (head : Node.Head) (text : String)
  | sequence (head : Node.Head) (items : List Node)
  | mapping (head : Node.Head) (pairs : List (Node × Node))
  | alias (name : String)
  deriving Repr, Inhabited

structure NodeReader where
  tokens : Stream Token
  /-- The anchors so far and where their nodes start. -/
  anchors : List (String × Mark)
  /-- What the handles of tags stand for. -/
  handles : List (String × String)
  /-- How many nodes were numbered. -/
  count : Nat

abbrev ReadNode := StateT NodeReader (Except Failure)

namespace NodeReader

def stop {α : Type} (failure : Failure) : ReadNode α := throw failure

/-- The next token. After the last one the end of the stream goes on. -/
def peek : ReadNode Token := do
  match (← get).tokens with
  | .item token _ => return token
  | .failed failure => stop failure
  | .done => return ⟨.streamEnd, ⟨0, 0, 0⟩, ⟨0, 0, 0⟩⟩

def take : ReadNode Token := do
  let token ← peek
  modify fun r => match r.tokens with
    | .item _ rest => { r with tokens := rest }
    | _ => r
  return token

def next (kinds : List Token.Kind) : ReadNode Bool := do
  return kinds.contains (← peek).kind

def head (start : Mark) (anchor : Option String) (tag : String) : ReadNode Node.Head := do
  let number := (← get).count
  modify fun r => { r with count := number + 1 }
  return ⟨number, start, anchor, tag⟩

/-- An empty scalar, which stands for null. -/
def empty (start : Mark) : ReadNode Node := return .scalar (← head start none Tag.null) ""

structure Properties where
  anchor : Option String
  tag : Option TagName
  start : Option Mark
  tagStart : Mark

def properties : ReadNode Properties := do
  let token ← peek
  match token.kind with
  | .anchor name =>
    let _ ← take
    let second ← peek
    match second.kind with
    | .tag t =>
      let _ ← take
      return ⟨some name, some t, some token.start, second.start⟩
    | _ => return ⟨some name, none, some token.start, token.start⟩
  | .tag t =>
    let _ ← take
    let second ← peek
    match second.kind with
    | .anchor name =>
      let _ ← take
      return ⟨some name, some t, some token.start, token.start⟩
    | _ => return ⟨none, some t, some token.start, token.start⟩
  | _ => return ⟨none, none, none, token.start⟩

/-- The whole tag that a written one stands for. -/
def resolveTag (p : Properties) (start : Mark) : ReadNode (Option String) := do
  match p.tag with
  | none => return none
  | some ⟨none, suffix⟩ => return some suffix
  | some ⟨some handle, suffix⟩ =>
    match (← get).handles.lookup handle with
    | some stem => return some (stem ++ suffix)
    | none => stop (failIn .node start (.undefinedHandle handle) p.tagStart)

def register (anchor : Option String) (start : Mark) : ReadNode Unit := do
  match anchor with
  | none => return
  | some name =>
    match (← get).anchors.lookup name with
    | some first =>
      stop (.malformed ⟨some (.anchored name, some first), .secondAnchor, start⟩)
    | none => modify fun r => { r with anchors := r.anchors ++ [(name, start)] }

def scalarTag (schema : Schema) (tag : Option String) (text : String) (plain : Bool) : String :=
  match tag with
  | none => if plain then schema.tagOf text else Tag.str
  | some "!" => schema.tagOf text
  | some tag => tag

def collectionTag (tag : Option String) (default : String) : String :=
  match tag with
  | none | some "!" => default
  | some tag => tag

/-- Where a node may stand: inside a block, right after a key or its colon, where a
sequence need not be indented further, or inside brackets. -/
inductive Place where
  | block
  | afterKey
  | flow
  deriving DecidableEq, Repr

inductive Content where
  | scalar (text : String) (plain : Bool)
  | empty
  | indentless
  | blockSequence
  | blockMapping
  | flowSequence
  | flowMapping

/-- Properties alone make an empty node. -/
def contentless (place : Place) (p : Properties) (start : Mark) (token : Token) :
    ReadNode Content :=
  if p.anchor.isSome || p.tag.isSome then return .empty
  else
    let activity : Activity := if place = .flow then .flowNode else .blockNode
    stop (failIn activity start (.noContent token.kind) token.start)

def content (place : Place) (p : Properties) (start : Mark) : ReadNode Content := do
  let token ← peek
  match token.kind with
  | .blockEntry =>
    if place = .afterKey then return .indentless else contentless place p start token
  | .scalar text style =>
    let _ ← take
    return .scalar text (style == .plain)
  | .flowSequenceStart => return .flowSequence
  | .flowMappingStart => return .flowMapping
  | .blockSequenceStart =>
    if place = .flow then contentless place p start token else return .blockSequence
  | .blockMappingStart =>
    if place = .flow then contentless place p start token else return .blockMapping
  | _ => contentless place p start token

variable (schema : Schema)

mutual
def node (place : Place) : Nat → ReadNode Node
  | 0 => empty ⟨0, 0, 0⟩
  | fuel + 1 => do
    let first ← peek
    match first.kind with
    | .alias name =>
      let _ ← take
      if ((← get).anchors.lookup name).isSome then return .alias name
      else stop (failAt (.undefinedAlias name) first.start)
    | _ =>
      let p ← properties
      let tag ← resolveTag p (p.start.getD first.start)
      let start ← match p.start with
        | some start => pure start
        | none => pure (← peek).start
      let content ← content place p start
      register p.anchor start
      match content with
      | .scalar text plain =>
        return .scalar (← head start p.anchor (scalarTag schema tag text plain)) text
      | .empty => return .scalar (← head start p.anchor (scalarTag schema tag "" true)) ""
      | .indentless =>
        return .sequence (← head start p.anchor (collectionTag tag Tag.seq)) (← indentless fuel)
      | .blockSequence =>
        let h ← head start p.anchor (collectionTag tag Tag.seq)
        return .sequence h (← blockItems (← take).start fuel)
      | .blockMapping =>
        let h ← head start p.anchor (collectionTag tag Tag.map)
        return .mapping h (← blockPairs (← take).start fuel)
      | .flowSequence =>
        let h ← head start p.anchor (collectionTag tag Tag.seq)
        return .sequence h (← flowItems (← take).start true fuel)
      | .flowMapping =>
        let h ← head start p.anchor (collectionTag tag Tag.map)
        return .mapping h (← flowPairs (← take).start true fuel)

/-- The node after a token, or an empty one if one of the given tokens follows. -/
def nodeUnless (kinds : List Token.Kind) (place : Place) (after : Mark) : Nat → ReadNode Node
  | 0 => empty after
  | fuel + 1 => do
    if ← next kinds then empty after else node place fuel

def blockItems (opening : Mark) : Nat → ReadNode (List Node)
  | 0 => return []
  | fuel + 1 => do
    let token ← peek
    match token.kind with
    | .blockEntry =>
      let _ ← take
      let item ← nodeUnless [.blockEntry, .blockEnd] .block token.stop fuel
      return item :: (← blockItems opening fuel)
    | .blockEnd =>
      let _ ← take
      return []
    | kind => stop (failIn .blockCollection opening (.notBlockEnd kind) token.start)

/-- The items of a sequence at the column of the key before it. -/
def indentless : Nat → ReadNode (List Node)
  | 0 => return []
  | fuel + 1 => do
    let token ← peek
    if token.kind = .blockEntry then
      let _ ← take
      let item ← nodeUnless [.blockEntry, .key, .value, .blockEnd] .block token.stop fuel
      return item :: (← indentless fuel)
    else return []

def blockPairs (opening : Mark) : Nat → ReadNode (List (Node × Node))
  | 0 => return []
  | fuel + 1 => do
    let token ← peek
    match token.kind with
    | .key =>
      let _ ← take
      let key ← nodeUnless [.key, .value, .blockEnd] .afterKey token.stop fuel
      let value ← blockValue fuel
      return (key, value) :: (← blockPairs opening fuel)
    | .blockEnd =>
      let _ ← take
      return []
    | kind => stop (failIn .blockMapping opening (.notBlockEnd kind) token.start)

def blockValue : Nat → ReadNode Node
  | 0 => empty ⟨0, 0, 0⟩
  | fuel + 1 => do
    let token ← peek
    if token.kind = .value then
      let _ ← take
      nodeUnless [.key, .value, .blockEnd] .afterKey token.stop fuel
    else empty token.start

/-- The items of a sequence in brackets; one pair may stand for a mapping. -/
def flowItems (opening : Mark) (first : Bool) : Nat → ReadNode (List Node)
  | 0 => return []
  | fuel + 1 => do
    if ← next [.flowSequenceEnd] then
      let _ ← take
      return []
    let token ← peek
    if !first then
      if token.kind = .flowEntry then
        let _ ← take
      else
        stop (failIn .flowSequence opening (.notNextItem .flowSequenceEnd token.kind) token.start)
    let token ← peek
    match token.kind with
    | .key =>
      let _ ← take
      let h ← head token.start none Tag.map
      let key ← nodeUnless [.value, .flowEntry, .flowSequenceEnd] .flow token.stop fuel
      let value ← flowValue [.flowEntry, .flowSequenceEnd] fuel
      return Node.mapping h [(key, value)] :: (← flowItems opening false fuel)
    | .flowSequenceEnd =>
      let _ ← take
      return []
    | _ =>
      let item ← node .flow fuel
      return item :: (← flowItems opening false fuel)

/-- The value of a pair in brackets, unless one of the given tokens follows its colon. -/
def flowValue (kinds : List Token.Kind) : Nat → ReadNode Node
  | 0 => empty ⟨0, 0, 0⟩
  | fuel + 1 => do
    let token ← peek
    if token.kind = .value then
      let _ ← take
      nodeUnless kinds .flow token.stop fuel
    else empty token.start

/-- The pairs of a mapping in braces; a key may stand alone. -/
def flowPairs (opening : Mark) (first : Bool) : Nat → ReadNode (List (Node × Node))
  | 0 => return []
  | fuel + 1 => do
    if ← next [.flowMappingEnd] then
      let _ ← take
      return []
    let token ← peek
    if !first then
      if token.kind = .flowEntry then
        let _ ← take
      else stop (failIn .flowMapping opening (.notNextItem .flowMappingEnd token.kind) token.start)
    let token ← peek
    match token.kind with
    | .key =>
      let _ ← take
      let key ← nodeUnless [.value, .flowEntry, .flowMappingEnd] .flow token.stop fuel
      let value ← flowValue [.flowEntry, .flowMappingEnd] fuel
      return (key, value) :: (← flowPairs opening false fuel)
    | .flowMappingEnd =>
      let _ ← take
      return []
    | _ =>
      let key ← node .flow fuel
      let value ← empty (← peek).start
      return (key, value) :: (← flowPairs opening false fuel)
end

def defaultHandles : List (String × String) := [("!", "!"), ("!!", Tag.core "")]

/-- The directives before a document: at most one version, which must be 1.*, and each
handle once. -/
def directives (version : Bool) (handles : List (String × String)) :
    Nat → ReadNode (List (String × String))
  | 0 => return handles
  | fuel + 1 => do
    let token ← peek
    match token.kind with
    | .directive d =>
      let _ ← take
      match d with
      | .version major _ =>
        if version then stop (failAt .duplicateVersion token.start)
        else if major ≠ 1 then stop (failAt .incompatibleVersion token.start)
        else directives true handles fuel
      | .tag handle stem =>
        if (handles.lookup handle).isSome then stop (failAt (.duplicateHandle handle) token.start)
        else directives version (handles ++ [(handle, stem)]) fuel
      | .reserved _ => directives version handles fuel
    | _ => return handles

def skipDocumentEnds : Nat → ReadNode Unit
  | 0 => return
  | fuel + 1 => do
    if ← next [.documentEnd] then
      let _ ← take
      skipDocumentEnds fuel

/-- Where the next document starts, and whether a marker says so; none at the end of the
stream. Only the first document may go without a marker. -/
def openDocument (first : Bool) (fuel : Nat) : ReadNode (Option (Mark × Bool)) := do
  let token ← peek
  let known : Bool := match token.kind with
    | .directive _ | .documentStart | .streamEnd => true
    | _ => false
  if first && !known then
    modify fun r => { r with handles := defaultHandles }
    return some (token.start, false)
  skipDocumentEnds fuel
  let token ← peek
  if token.kind = .streamEnd then return none
  let handles ← directives false [] fuel
  modify fun r => { r with
    handles := handles ++ defaultHandles.filter fun h => (handles.lookup h.1).isNone }
  let marker ← peek
  if marker.kind = .documentStart then
    let _ ← take
    return some (token.start, true)
  else stop (failAt (.notDocumentStart marker.kind) marker.start)

def documentNode (schema : Schema) (marked : Bool) (fuel : Nat) : ReadNode Node := do
  modify fun r => { r with anchors := [], count := 0 }
  let token ← peek
  let bare : Bool := match token.kind with
    | .directive _ | .documentStart | .documentEnd | .streamEnd => true
    | _ => false
  let root ← if marked && bare then empty token.start else node schema .block fuel
  if ← next [.documentEnd] then
    let _ ← take
  return root

end NodeReader

end OverlayBuild.Yaml
