import OverlayBuild.Proofs.Spec.Reading
import OverlayBuild.Proofs.Value.Mapping

/-! Attributes that differ in one place. A list or a count can be written in several ways; where
the two ways are read alike, nothing that composing gives tells which one was chosen, neither the
specification nor the notices nor whether there is one. -/
namespace OverlayBuild.Compose

open Value

variable {α : Type} {v w x y b c item : Value} {entries : List (Value × Value)}

def under (key : String) (v : Value) : Value := Value.field key (fieldsOf v)

def SameBut (key : String) (v w : Value) : Prop :=
  v.entries?.isSome ∧ w.entries?.isSome ∧ ∀ other, other ≠ key → under other v = under other w

/-- Mappings that say the same but for one field of one block of a list, the block that follows
`index` others. -/
def SameButIn (list : String) (index : Nat) (key : String) (v w : Value) : Prop :=
  SameBut list v w ∧ ∃ before b c after,
    itemsOf (under list v) = before ++ b :: after ∧ itemsOf (under list w) = before ++ c :: after ∧
    (before.filterMap entries?).length = index ∧ SameBut key b c

theorem entries?_of_isSome (mapping : v.entries?.isSome) : v.entries? = some (fieldsOf v) := by
  obtain ⟨entries, own⟩ := Option.isSome_iff_exists.mp mapping
  rw [fieldsOf_eq own, own]

theorem sameBut_singleton (key : String) (x y : Value) :
    SameBut key (.map [(.str key, x)]) (.map [(.str key, y)]) := by
  refine ⟨rfl, rfl, fun other ne => ?_⟩
  have apart : Value.str key ≠ .str other := fun same => ne (Value.str.inj same).symm
  have missing (z : Value) : under other (.map [(.str key, z)]) = .null := by
    rw [under, fieldsOf_eq rfl, Value.field, tieEntries, find?_cons_ne apart]
    rfl
  rw [missing, missing]

inductive Declared where
  | components
  | crds
  | resources
  | configMaps
  | secrets
  | images
  | replicas
  | patches
  deriving DecidableEq, Repr

def Declared.key : Declared → String
  | .components => "components"
  | .crds => "crds"
  | .resources => "resources"
  | .configMaps => "config_map_generator"
  | .secrets => "secret_generator"
  | .images => "images"
  | .replicas => "replicas"
  | .patches => "patches"

/-- The same comes of two values in the place of a list. -/
def Declared.ReadAlike : Declared → Value → Value → Prop
  | .components, x, y | .crds, x, y | .resources, x, y => textList x = textList y
  | .configMaps, x, y =>
    composeBlocks "config_map_generator" generator x =
      composeBlocks "config_map_generator" generator y
  | .secrets, x, y =>
    composeBlocks "secret_generator" secretGenerator x =
      composeBlocks "secret_generator" secretGenerator y
  | .images, x, y => composeBlocks "images" image x = composeBlocks "images" image y
  | .replicas, x, y => composeBlocks "replicas" replica x = composeBlocks "replicas" replica y
  | .patches, x, y => composeBlocks "patches" patch x = composeBlocks "patches" patch y

theorem attributes_eq (mapping : v.entries?.isSome) : attributes v = pure (fieldsOf v) := by
  rw [attributes, entries?_of_isSome mapping]

/-- Attributes that say the same but for one list are composed alike where the list is read alike. -/
theorem compose_congr (list : Declared) (same : SameBut list.key v w)
    (alike : list.ReadAlike (under list.key v) (under list.key w)) : compose v = compose w := by
  obtain ⟨first, second, same⟩ := same
  simp only [under] at same alike
  have spec : spec v = spec w := by
    rw [spec, spec, attributes_eq first, attributes_eq second, pure_bind, pure_bind]
    simp only [blocks_eq]
    cases list <;> simp only [Declared.ReadAlike, Declared.key] at same alike <;>
      simp (disch := decide) only [same, alike]
  rw [compose, compose, spec]

/-! Blocks. -/

theorem standing_eq (some : itemsOf v ≠ []) : standing v = pure (itemsOf v) := by
  unfold standing
  unfold itemsOf at some ⊢
  split
  · rfl
  split
  · rfl
  · rename_i present several
    rw [if_neg present, if_neg several] at some
    cases v with
    | list own | tuple own | set own | bytes bs => rfl
    | _ => contradiction

theorem composeItem_eq {key : String} (compose : List (Value × Value) → Compose α) (mapping : item.entries?.isSome) :
    composeItem key compose item = do return some (← compose (fieldsOf item)) := by
  rw [composeItem, block?, entries?_of_isSome mapping]
  rfl

theorem isNull_of_mapping (mapping : item.entries?.isSome) : item.isNull = false := by
  cases item with
  | null => contradiction
  | _ => rfl

/-- One block in the place of another is all the same where the two are composed alike. -/
theorem composeBlocks_congr {key : String} {compose : List (Value × Value) → Compose α}
    {before after : List Value}
    (first : itemsOf x = before ++ b :: after) (second : itemsOf y = before ++ c :: after)
    (block : b.entries?.isSome) (also : c.entries?.isSome)
    (alike : compose (fieldsOf b) = compose (fieldsOf c)) :
    composeBlocks key compose x = composeBlocks key compose y := by
  have filtered {d : Value} (mapping : d.entries?.isSome) :
      (before ++ d :: after).filter (fun item => !item.isNull) =
        before.filter (fun item => !item.isNull) ++
          d :: after.filter (fun item => !item.isNull) := by
    rw [List.filter_append, List.filter_cons_of_pos (by simp [isNull_of_mapping mapping])]
  rw [composeBlocks, composeBlocks, standing_eq (by simp [first]), standing_eq (by simp [second]),
    pure_bind, pure_bind, first, second, filtered block, filtered also]
  simp only [List.mapM_append, List.mapM_cons, composeItem_eq compose block,
    composeItem_eq compose also, alike]

/-- The block in which two mappings differ, counted among the blocks. -/
theorem blocksOf_getElem? {list : String} {index : Nat} {before after : List Value}
    (items : itemsOf (under list v) = before ++ b :: after) (block : b.entries?.isSome)
    (place : (before.filterMap entries?).length = index) :
    (blocksOf (under list v))[index]? = some (fieldsOf b) := by
  rw [blocksOf, items, List.filterMap_append, List.filterMap_cons_some (entries?_of_isSome block),
    List.getElem?_append_right (Nat.le_of_eq place), place, Nat.sub_self, List.getElem?_cons_zero]

end OverlayBuild.Compose
