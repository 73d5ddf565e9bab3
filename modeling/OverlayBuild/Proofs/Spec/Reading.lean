import OverlayBuild.Proofs.Spec.Compose

/-! What composing makes of attributes. Each field of the specification that is composed is a
function of what the attributes say under one key; what was noticed on the way has no part in it,
and only whether a specification comes out at all is left open. -/
namespace OverlayBuild

namespace Compose

open Value

variable {α : Type} {v : Value} {items : List Value} {entries fields : List (Value × Value)}

def fieldsOf (v : Value) : List (Value × Value) := v.entries?.getD []

theorem fieldsOf_eq (mapping : v.entries? = some entries) : fieldsOf v = entries := by
  rw [fieldsOf, mapping, Option.getD_some]

def contents : Value → List Value
  | .bytes bs => bs.map fun b => .int b.toNat
  | v => v.members?.getD []

theorem contents_of_members (given : v.members? = some items) : contents v = items := by
  cases v with
  | list own | tuple own | set own => exact congrArg (Option.getD · []) given
  | _ => exact nomatch given

theorem Gives.members (gives : Gives (members v) items) : items = contents v := by
  have none (stops : Compose.members v = throw (.notIterable v.fullTypeName)) : False := by
    rw [stops] at gives
    obtain ⟨before, after, run⟩ := gives
    contradiction
  cases v with
  | list own | tuple own | set own | bytes bs => exact gives.pure
  | _ => exact (none rfl).elim

def listed (v : Value) : List String :=
  if !v.isPresent then []
  else if isSingle v then [rendered v]
  else if isMapping v then []
  else ((contents v).filter fun item => !item.isNull).map rendered

theorem Gives.textList {texts : List String} (gives : Gives (textList v) texts) :
    texts = listed v := by
  rw [Compose.textList] at gives
  split at gives
  · rename_i absent
    rw [gives.pure, listed, if_pos absent]
  split at gives
  · rename_i present single
    obtain ⟨s, own, gives⟩ := gives.bind
    rw [gives.pure, own.text, listed, if_neg present, if_pos single]
  split at gives
  · rename_i present plural mapping
    obtain ⟨_, -, gives⟩ := gives.bind
    rw [gives.pure, listed, if_neg present, if_neg plural, if_pos mapping]
  · rename_i present plural unmapped
    obtain ⟨items, given, gives⟩ := gives.bind
    rw [gives.mapM fun _ _ own => own.text, given.members, listed, if_neg present, if_neg plural,
      if_neg unmapped]

def counted (v : Value) : Int := (integer? v).getD 0

theorem counted_of_absent (absent : v.isPresent = false) : counted v = 0 := by
  cases v with
  | null | date d | datetime t | list items | tuple items | map entries | set items | loop up => rfl
  | bool b =>
    obtain rfl : b = false := absent
    rfl
  | int n =>
    obtain rfl : n = 0 := by simpa [isPresent] using absent
    rfl
  | float x =>
    cases x with
    | nan | infinite negative => rfl
    | finite negative m e =>
      obtain rfl : m = 0 := by simpa [isPresent, Binary64.isZero] using absent
      cases negative <;> simp [counted, integer?, Binary64.truncate?, Binary64.toRatio?]
  | str s =>
    obtain rfl : s = "" := by simpa [isPresent] using absent
    rfl
  | bytes bs =>
    obtain rfl : bs = [] := by simpa [isPresent] using absent
    rfl

theorem count_eq {n : Int} (own : integer? v = some n) : count v = pure n := by
  rw [count]
  split
  · rename_i absent
    rw [← counted_of_absent (v := v) (by simpa using absent), counted, own, Option.getD_some]
  · rw [own]

theorem Gives.count {n : Int} (gives : Gives (count v) n) : n = counted v := by
  rw [Compose.count] at gives
  split at gives
  · rename_i absent
    rw [gives.pure, counted_of_absent (by simpa using absent)]
  split at gives
  · rename_i own
    rw [gives.pure, counted, own, Option.getD_some]
  · rename_i none
    obtain ⟨_, -, gives⟩ := gives.bind
    rw [gives.pure, counted, none, Option.getD_none]

/-- The entries of a mapping as texts, one for each text that is a key. -/
def mapped (v : Value) : List (String × String) :=
  Text.Dictionary.ofPairs ((fieldsOf v).map fun e => (e.1.text, rendered e.2))

theorem mapped_of_absent (absent : v.isPresent = false) : mapped v = [] := by
  cases v with
  | map entries =>
    obtain rfl : entries = [] := by simpa [isPresent] using absent
    rfl
  | _ => rfl

theorem Gives.mapped {texts : List (String × String)} (gives : Gives (Compose.textMap v) texts) :
    texts = mapped v := by
  rw [Compose.textMap.eq_def] at gives
  split at gives
  · rename_i absent
    rw [gives.pure, mapped_of_absent (by simpa using absent)]
  split at gives
  · rename_i unmapped
    obtain ⟨_, -, gives⟩ := gives.bind
    rw [gives.pure, Compose.mapped, fieldsOf, unmapped]
    rfl
  · rename_i entries mapping
    obtain ⟨pairs, each, gives⟩ := gives.bind
    have pair_of_entry (e : Value × Value) (pair : String × String)
        (gives : Gives (do return (← Compose.shown e.1, ← Compose.text e.2)) pair) :
        pair = (e.1.text, rendered e.2) := by
      obtain ⟨key, first, gives⟩ := gives.bind
      obtain ⟨value, second, gives⟩ := gives.bind
      rw [gives.pure, first.shown, second.text]
    rw [gives.pure, Compose.mapped, fieldsOf_eq mapping, each.mapM pair_of_entry]

/-! Blocks. -/

/-- What stands in the place of a list of blocks: nothing, a single value for itself, or what a
value holds. -/
def itemsOf (v : Value) : List Value :=
  if !v.isPresent then [] else if isSingle v || isMapping v then [v] else contents v

def blocksOf (v : Value) : List (List (Value × Value)) := (itemsOf v).filterMap entries?

def standing (v : Value) : Compose (List Value) :=
  if !v.isPresent then pure [] else if isSingle v || isMapping v then pure [v] else members v

def composeItem (key : String) (compose : List (Value × Value) → Compose α) (item : Value) :
    Compose (Option α) := do
  match ← block? key item with
  | some entries => return some (← compose entries)
  | none => return none

def composeBlocks (key : String) (compose : List (Value × Value) → Compose α) (v : Value) :
    Compose (List α) := do
  let composed ← ((← standing v).filter fun item => !item.isNull).mapM (composeItem key compose)
  return composed.filterMap id

theorem blocks_eq (key : String) (compose : List (Value × Value) → Compose α) :
    blocks entries key compose = composeBlocks key compose (Value.field key entries) := by
  unfold blocks composeBlocks standing
  dsimp only
  split
  · rw [pure_bind, pure_bind]
    rfl
  split
  · rw [pure_bind, pure_bind]
    rfl
  · rfl

theorem Gives.standing (gives : Gives (standing v) items) : items = itemsOf v := by
  rw [Compose.standing] at gives
  split at gives
  · rename_i absent
    rw [gives.pure, itemsOf, if_pos absent]
  split at gives
  · rename_i present lone
    rw [gives.pure, itemsOf, if_neg present, if_pos lone]
  · rename_i present several
    rw [gives.members, itemsOf, if_neg present, if_neg several]

theorem Gives.block? {key : String} {result : Option (List (Value × Value))}
    (gives : Gives (block? key v) result) : result = v.entries? := by
  rw [Compose.block?] at gives
  split at gives
  · rename_i mapping
    rw [gives.pure, mapping]
  · rename_i unmapped
    obtain ⟨_, -, gives⟩ := gives.bind
    rw [gives.pure, unmapped]

theorem Gives.composeItem {key : String} {compose : List (Value × Value) → Compose α}
    {read : List (Value × Value) → α} {item : Value} {result : Option α}
    (gives : Gives (composeItem key compose item) result)
    (each : ∀ {fields a}, Gives (compose fields) a → a = read fields) :
    result = item.entries?.map read := by
  obtain ⟨block, own, gives⟩ := gives.bind
  obtain rfl := own.block?
  split at gives
  · rename_i fields mapping
    obtain ⟨a, made, gives⟩ := gives.bind
    rw [gives.pure, each made, mapping, Option.map_some]
  · rename_i unmapped
    rw [gives.pure, unmapped, Option.map_none]

/-- Null is no block, so that nothing is lost when nulls are left out first. -/
theorem filterMap_blocks {read : List (Value × Value) → α} (items : List Value) :
    ((items.filter fun item => !item.isNull).map fun item => item.entries?.map read).filterMap id =
      (items.filterMap entries?).map read := by
  induction items with
  | nil => rfl
  | cons item items ih =>
    cases null : item.isNull with
    | true =>
      have none : item.entries? = none := by
        cases item with
        | null => rfl
        | _ => contradiction
      rw [List.filter_cons_of_neg (by simp [null]), List.filterMap_cons_none none, ih]
    | false =>
      rw [List.filter_cons_of_pos (by simp [null]), List.map_cons]
      cases block : item.entries? with
      | none => rw [List.filterMap_cons_none block, ← ih]; rfl
      | some fields => rw [List.filterMap_cons_some block, List.map_cons, ← ih]; rfl

theorem Gives.blocks {key : String} {compose : List (Value × Value) → Compose α}
    {read : List (Value × Value) → α} {results : List α}
    (gives : Gives (blocks entries key compose) results)
    (each : ∀ {fields a}, Gives (compose fields) a → a = read fields) :
    results = (blocksOf (Value.field key entries)).map read := by
  rw [blocks_eq, composeBlocks] at gives
  obtain ⟨items, given, gives⟩ := gives.bind
  obtain ⟨composed, all, gives⟩ := gives.bind
  rw [gives.pure, all.mapM fun _ _ own => own.composeItem each, filterMap_blocks, given.standing,
    blocksOf]

/-! Records. -/

def targetOf (v : Value) : Option PatchTarget :=
  if !v.isPresent then none
  else v.entries?.map fun fields => {
    group := rendered (Value.field "group" fields)
    version := rendered (Value.field "version" fields)
    kind := rendered (Value.field "kind" fields)
    name := rendered (Value.field "name" fields)
    namespace_ := rendered (Value.field "namespace" fields)
    labelSelector := rendered (Value.field "label_selector" fields)
    annotationSelector := rendered (Value.field "annotation_selector" fields) }

def generatorOf (fields : List (Value × Value)) : Generator where
  name := rendered (Value.field "name" fields)
  behavior := rendered (Value.field "behavior" fields)
  literals := listed (Value.field "literals" fields)
  envs := listed (Value.field "envs" fields)
  files := listed (Value.field "files" fields)

def secretOf (fields : List (Value × Value)) : SecretGenerator where
  generator := generatorOf fields
  type := rendered (Value.field "type" fields)

def imageOf (fields : List (Value × Value)) : Image where
  name := rendered (Value.field "name" fields)
  newName := rendered (Value.field "new_name" fields)
  newTag := rendered (Value.field "new_tag" fields)
  digest := rendered (Value.field "digest" fields)

def replicaOf (fields : List (Value × Value)) : Replica where
  name := rendered (Value.field "name" fields)
  count := counted (Value.field "count" fields)

def patchOf (fields : List (Value × Value)) : Patch where
  path := rendered (Value.field "path" fields)
  patch := rendered (Value.field "patch" fields)
  target := targetOf (Value.field "target" fields)

def specOf (entries : List (Value × Value)) : Spec where
  commonAnnotations := mapped (Value.field "common_annotations" entries)
  commonLabels := mapped (Value.field "common_labels" entries)
  components := listed (Value.field "components" entries)
  configMapGenerator := (blocksOf (Value.field "config_map_generator" entries)).map generatorOf
  crds := listed (Value.field "crds" entries)
  images := (blocksOf (Value.field "images" entries)).map imageOf
  namePrefix := rendered (Value.field "name_prefix" entries)
  nameSuffix := rendered (Value.field "name_suffix" entries)
  namespace_ := rendered (Value.field "namespace" entries)
  replicas := (blocksOf (Value.field "replicas" entries)).map replicaOf
  resources := listed (Value.field "resources" entries)
  secretGenerator := (blocksOf (Value.field "secret_generator" entries)).map secretOf
  patches := (blocksOf (Value.field "patches" entries)).map patchOf

theorem Gives.target {target : Option PatchTarget} (gives : Gives (Compose.target v) target) :
    target = targetOf v := by
  rw [Compose.target] at gives
  split at gives
  next absent => rw [gives.pure, targetOf, if_pos absent]
  next present =>
    rw [targetOf, if_neg present]
    split at gives
    next unmapped =>
      obtain ⟨_, -, gives⟩ := gives.bind
      rw [gives.pure, unmapped, Option.map_none]
    next fields mapping =>
      obtain ⟨_, group, gives⟩ := gives.bind
      obtain ⟨_, version, gives⟩ := gives.bind
      obtain ⟨_, kind, gives⟩ := gives.bind
      obtain ⟨_, name, gives⟩ := gives.bind
      obtain ⟨_, namespace_, gives⟩ := gives.bind
      obtain ⟨_, labelSelector, gives⟩ := gives.bind
      obtain ⟨_, annotationSelector, gives⟩ := gives.bind
      rw [gives.pure, mapping, Option.map_some, group.text, version.text, kind.text, name.text,
        namespace_.text, labelSelector.text, annotationSelector.text]

theorem Gives.generator {g : Generator} (gives : Gives (Compose.generator fields) g) :
    g = generatorOf fields := by
  obtain ⟨_, name, gives⟩ := gives.bind
  obtain ⟨_, behavior, gives⟩ := gives.bind
  obtain ⟨_, literals, gives⟩ := gives.bind
  obtain ⟨_, envs, gives⟩ := gives.bind
  obtain ⟨_, files, gives⟩ := gives.bind
  rw [gives.pure, name.text, behavior.text, literals.textList, envs.textList, files.textList,
    generatorOf]

theorem Gives.secretGenerator {s : SecretGenerator}
    (gives : Gives (Compose.secretGenerator fields) s) : s = secretOf fields := by
  obtain ⟨_, own, gives⟩ := gives.bind
  obtain ⟨_, type, gives⟩ := gives.bind
  rw [gives.pure, own.generator, type.text, secretOf]

theorem Gives.image {i : Image} (gives : Gives (Compose.image fields) i) : i = imageOf fields := by
  obtain ⟨_, name, gives⟩ := gives.bind
  obtain ⟨_, newName, gives⟩ := gives.bind
  obtain ⟨_, newTag, gives⟩ := gives.bind
  obtain ⟨_, digest, gives⟩ := gives.bind
  rw [gives.pure, name.text, newName.text, newTag.text, digest.text, imageOf]

theorem Gives.replica {r : Replica} (gives : Gives (Compose.replica fields) r) :
    r = replicaOf fields := by
  obtain ⟨_, name, gives⟩ := gives.bind
  obtain ⟨_, count, gives⟩ := gives.bind
  rw [gives.pure, name.text, count.count, replicaOf]

theorem Gives.patch {p : Patch} (gives : Gives (Compose.patch fields) p) : p = patchOf fields := by
  obtain ⟨_, path, gives⟩ := gives.bind
  obtain ⟨_, patch, gives⟩ := gives.bind
  obtain ⟨_, target, gives⟩ := gives.bind
  rw [gives.pure, path.text, patch.text, target.target, patchOf]

theorem Composed.eq {s : Spec} (composed : Composed entries s) : s = specOf entries := by
  cases s
  rw [specOf, Spec.mk.injEq]
  exact ⟨composed.commonAnnotations.mapped, composed.commonLabels.mapped, composed.components.textList,
    composed.configMapGenerator.blocks Gives.generator, composed.crds.textList,
    composed.images.blocks Gives.image, composed.namePrefix.text, composed.nameSuffix.text,
    composed.namespace_.text, composed.replicas.blocks Gives.replica, composed.resources.textList,
    composed.secretGenerator.blocks Gives.secretGenerator, composed.patches.blocks Gives.patch⟩

theorem Gives.attributes (gives : Gives (Compose.attributes v) entries) :
    entries = fieldsOf v := by
  rw [Compose.attributes] at gives
  split at gives
  · rename_i mapping
    rw [gives.pure, fieldsOf_eq mapping]
  · rename_i unmapped
    rw [fieldsOf, unmapped, Option.getD_none]
    split at gives
    · obtain ⟨_, -, gives⟩ := gives.bind
      exact gives.pure
    · exact gives.pure

/-- What composes is the specification that the attributes tell field by field. -/
theorem eq_specOf {s : Spec} {notices : List Notice} (composed : compose v = .ok (s, notices)) :
    s = specOf (fieldsOf v) := by
  obtain ⟨entries, given, fields⟩ := (gives_of_compose composed).spec
  rw [fields.eq, given.attributes]

end Compose

end OverlayBuild
