import OverlayBuild.Proofs.Yaml.Parts

/-! Bare nodes: those that a text without written tags gives where dates, moments and the lone
equals sign stay text. -/
namespace OverlayBuild.Yaml

/-- The tag of a scalar where dates, moments and the equals sign are text. -/
def textTag (tag : String) : String :=
  if tag = Tag.timestamp ∨ tag = Tag.value then Tag.str else tag

def bareTags : List String :=
  [Tag.null, Tag.bool, Tag.int, Tag.float, Tag.merge, Tag.core "yaml", Tag.str]

theorem str_mem_bareTags : Tag.str ∈ bareTags := by decide

theorem value_not_mem_bareTags : Tag.value ∉ bareTags := by decide

@[simp] theorem textTag_bare {tag : String} (bare : tag ∈ bareTags) : textTag tag = tag := by
  revert tag
  decide +kernel

/-- A line has by its text the same tag in both schemas, or one that becomes text. -/
theorem tagOfLine_manifest (cs : List Char) :
    Schema.manifest.tagOfLine cs ∈ bareTags ∧
      Schema.manifest.tagOfLine cs = textTag (Schema.full.tagOfLine cs) := by
  by_cases odd : cs ∈ [['!'], ['&'], ['*']]
  · revert cs
    decide +kernel
  have word : ¬(String.ofList cs = "!" ∨ String.ofList cs = "&" ∨ String.ofList cs = "*") := by
    simpa [String.ext_iff] using odd
  have bare (tag : String) (mem : tag ∈ bareTags) : tag ∈ bareTags ∧ tag = textTag tag :=
    ⟨mem, (textTag_bare mem).symm⟩
  simp only [Schema.tagOfLine, Schema.manifest, Schema.full, Bool.false_and, Bool.true_and, word,
    Bool.false_eq_true, if_false]
  split
  · exact bare _ (by decide)
  split
  · exact bare _ (by decide)
  split
  · exact bare _ (by decide)
  split
  · exact bare _ (by decide)
  split
  · exact bare _ (by decide)
  refine ⟨str_mem_bareTags, ?_⟩
  split
  · decide
  split
  · decide
  · decide

theorem tagOf_manifest (text : String) :
    Schema.manifest.tagOf text ∈ bareTags ∧
      Schema.manifest.tagOf text = textTag (Schema.full.tagOf text) := by
  rw [Schema.tagOf, Schema.tagOf]
  split
  · decide
  · exact tagOfLine_manifest _

namespace Node

variable {head : Head} {n : Node} {items ns : List Node} {pairs ps : List (Node × Node)}

mutual
/-- The node with dates, moments and equals signs as text. -/
def texted : Node → Node
  | .scalar head text => .scalar { head with tag := textTag head.tag } text
  | .sequence head items => .sequence head (textedAll items)
  | .mapping head pairs => .mapping head (textedPairs pairs)
  | .alias name => .alias name
termination_by structural n => n
def textedAll : List Node → List Node
  | [] => []
  | n :: ns => texted n :: textedAll ns
termination_by structural ns => ns
def textedPairs : List (Node × Node) → List (Node × Node)
  | [] => []
  | (k, v) :: ps => (texted k, texted v) :: textedPairs ps
termination_by structural ps => ps
end

/-- A node with the tags that nodes have by themselves. -/
inductive Bare : Node → Prop
  | scalar {head : Head} {text : String} (tag : head.tag ∈ bareTags) : Bare (.scalar head text)
  | sequence {head : Head} {items : List Node} (tag : head.tag = Tag.seq)
    (each : ∀ n ∈ items, Bare n) : Bare (.sequence head items)
  | mapping {head : Head} {pairs : List (Node × Node)} (tag : head.tag = Tag.map)
    (keys : ∀ p ∈ pairs, Bare p.1) (values : ∀ p ∈ pairs, Bare p.2) : Bare (.mapping head pairs)
  | reference (name : String) : Bare (.alias name)

theorem Bare.tag_ne_value (bare : n.Bare) : n.tag ≠ Tag.value := by
  cases bare with
  | scalar tag => exact fun same => value_not_mem_bareTags (same ▸ tag)
  | sequence tag | mapping tag => exact fun same => absurd (tag.symm.trans same) (by decide)
  | reference name => exact show "" ≠ Tag.value by decide

/-- What a bare node holds is bare. -/
theorem Bare.part (bare : n.Bare) : ∀ m ∈ n.parts, m.Bare := by
  induction bare with
  | scalar tag =>
    intro m mem
    exact List.mem_singleton.mp mem ▸ .scalar tag
  | sequence tag each ih =>
    intro m mem
    rw [parts, partsAll_eq_flatMap, List.mem_cons, List.mem_flatMap] at mem
    rcases mem with rfl | ⟨n, part, mem⟩
    · exact .sequence tag each
    · exact ih n part m mem
  | mapping tag keys values keyed valued =>
    intro m mem
    rw [parts, partsPairs_eq_flatMap, List.mem_cons, List.mem_flatMap] at mem
    rcases mem with rfl | ⟨q, part, mem⟩
    · exact .mapping tag keys values
    · rcases List.mem_append.mp mem with key | value
      · exact keyed q part m key
      · exact valued q part m value
  | reference name =>
    intro m mem
    exact List.mem_singleton.mp mem ▸ .reference name

def BarePairs (pairs : List (Node × Node)) : Prop := ∀ p ∈ pairs, p.1.Bare ∧ p.2.Bare

end Node

namespace Document

def Bare (d : Document) : Prop := ∀ n ∈ d.root.parts, n.Bare

end Document

end OverlayBuild.Yaml
