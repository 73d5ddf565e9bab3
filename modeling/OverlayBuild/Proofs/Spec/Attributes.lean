import OverlayBuild.Proofs.Spec.Replacement

/-! Every specification is reached from attributes: those that hold its fields under their names.
What is well typed already is not changed by composing, whether it is empty, zero, missing or
repeated, so that composing again changes nothing. -/
namespace OverlayBuild

namespace Text.Dictionary

variable {α : Type} {pairs : List (String × α)} {key : String}

theorem keys_insert_known (known : key ∈ pairs.map (·.1)) (value : α) :
    (insert key value pairs).map (·.1) = pairs.map (·.1) := by
  induction pairs with
  | nil => contradiction
  | cons p pairs ih =>
    rw [insert]
    split
    next => rfl
    next other =>
      have later : key ∈ pairs.map (·.1) := by
        rcases List.mem_cons.mp known with here | later
        · exact absurd here.symm other
        · exact later
      rw [List.map_cons, List.map_cons, ih later]

theorem nodup_insert (nodup : (pairs.map (·.1)).Nodup) (value : α) :
    ((insert key value pairs).map (·.1)).Nodup := by
  by_cases known : key ∈ pairs.map (·.1)
  · rwa [keys_insert_known known]
  · rw [insert_new known, List.map_append]
    refine List.nodup_append.mpr ⟨nodup, List.nodup_singleton key, ?_⟩
    rintro k own other mem rfl
    obtain rfl : k = key := List.mem_singleton.mp mem
    exact known own

/-- A dictionary has each key once. -/
theorem nodup_ofPairs (pairs : List (String × α)) : ((ofPairs pairs).map (·.1)).Nodup := by
  have kept {done : List (String × α)} (nodup : (done.map (·.1)).Nodup) :
      ((pairs.foldl (fun entries p => insert p.1 p.2 entries) done).map (·.1)).Nodup := by
    induction pairs generalizing done with
    | nil => exact nodup
    | cons p pairs ih => exact ih (nodup_insert nodup p.2)
  exact kept List.nodup_nil

end Text.Dictionary

namespace Value

variable {items : List Value} {entries : List (Value × Value)}

theorem Tidy.members?_list (tidy : Tidy (.list items)) : members? (.list items) = some items :=
  congrArg some (tieAll_of_fixed fun v mem => (tidyAll_iff.mp tidy v mem).tie)

end Value

namespace Spec

open Value

/-! A specification as attributes. The fields of generators and of replicas have one name in both
formats. -/

def imageAttributes (i : Image) : List (Value × Value) := [
  entry "name" (.str i.name),
  entry "new_name" (.str i.newName),
  entry "new_tag" (.str i.newTag),
  entry "digest" (.str i.digest)]

def targetAttributes (t : PatchTarget) : List (Value × Value) := [
  entry "group" (.str t.group),
  entry "version" (.str t.version),
  entry "kind" (.str t.kind),
  entry "name" (.str t.name),
  entry "namespace" (.str t.namespace_),
  entry "label_selector" (.str t.labelSelector),
  entry "annotation_selector" (.str t.annotationSelector)]

/-- A patch without a target has null there. -/
def patchAttributes (p : Patch) : List (Value × Value) := [
  entry "path" (.str p.path),
  entry "patch" (.str p.patch),
  entry "target" ((p.target.map fun t => .map (targetAttributes t)).getD .null)]

def attributeEntries (s : Spec) : List (Value × Value) := [
  entry "common_annotations" (textMap s.commonAnnotations),
  entry "common_labels" (textMap s.commonLabels),
  entry "components" (texts s.components),
  entry "config_map_generator" (.list (s.configMapGenerator.map generatorFields)),
  entry "crds" (texts s.crds),
  entry "images" (.list (s.images.map fun i => .map (imageAttributes i))),
  entry "name_prefix" (.str s.namePrefix),
  entry "name_suffix" (.str s.nameSuffix),
  entry "namespace" (.str s.namespace_),
  entry "replicas" (.list (s.replicas.map replicaFields)),
  entry "resources" (texts s.resources),
  entry "secret_generator" (.list (s.secretGenerator.map secretFields)),
  entry "patches" (.list (s.patches.map fun p => .map (patchAttributes p)))]

def attributes (s : Spec) : Value := .map s.attributeEntries

/-- Labels and annotations have each key once, as the keys of a mapping do. -/
structure Keyed (s : Spec) : Prop where
  labels : (s.commonLabels.map (·.1)).Nodup
  annotations : (s.commonAnnotations.map (·.1)).Nodup

/-! None of the attributes holds itself. -/

theorem tidy_texts (ss : List String) : Tidy (texts ss) :=
  tidyAll_iff.mpr (List.forall_mem_map.mpr fun _ _ => trivial)

theorem tidy_textMap {texts : List (String × String)} (nodup : (texts.map (·.1)).Nodup) :
    Tidy (textMap texts) := by
  refine ⟨List.forall_mem_map.mpr fun e _ => ⟨e.1, rfl⟩, ?_,
    tidyEntries_iff.mpr (List.forall_mem_map.mpr fun _ _ => trivial)⟩
  have keys := nodup.map (f := Value.str) fun _ _ => Value.str.inj
  rwa [List.map_map] at keys ⊢

theorem tidy_generator (g : Generator) : Tidy (generatorFields g) := by
  simp [generatorFields, generatorEntries, entry, Tidy, TextKeys, TidyEntries, tidy_texts]

theorem tidy_secret (s : SecretGenerator) : Tidy (secretFields s) := by
  simp [secretFields, generatorEntries, entry, Tidy, TextKeys, TidyEntries, tidy_texts]

theorem tidy_image (i : Image) : Tidy (.map (imageAttributes i)) := by
  simp [imageAttributes, entry, Tidy, TextKeys, TidyEntries]

theorem tidy_replica (r : Replica) : Tidy (replicaFields r) := by
  simp [replicaFields, entry, Tidy, TextKeys, TidyEntries]

theorem tidy_target (t : PatchTarget) : Tidy (.map (targetAttributes t)) := by
  simp [targetAttributes, entry, Tidy, TextKeys, TidyEntries]

theorem tidy_patch (p : Patch) : Tidy (.map (patchAttributes p)) := by
  have target : Tidy ((p.target.map fun t => .map (targetAttributes t)).getD .null) := by
    cases p.target with
    | none => trivial
    | some t => exact tidy_target t
  simp [patchAttributes, entry, Tidy, TextKeys, TidyEntries, target]

theorem tidy_attributes {s : Spec} (keyed : s.Keyed) : Tidy s.attributes := by
  have text (s : String) : Tidy (.str s) := trivial
  have list {α : Type} {f : α → Value} (each : ∀ a, Tidy (f a)) (items : List α) :
      Tidy (.list (items.map f)) :=
    tidyAll_iff.mpr (List.forall_mem_map.mpr fun a _ => each a)
  refine ⟨by simp [attributeEntries, entry, TextKeys], by simp [attributeEntries, entry], ?_⟩
  simp only [attributeEntries, entry, TidyEntries]
  exact ⟨tidy_textMap keyed.annotations, tidy_textMap keyed.labels, tidy_texts _,
    list tidy_generator _, tidy_texts _, list tidy_image _, text _, text _, text _,
    list tidy_replica _, tidy_texts _, list tidy_secret _, list tidy_patch _, trivial⟩

end Spec

namespace Compose

open Value Spec

variable {α β γ : Type} {s : Spec} {v : Value}

/-! What is well typed is composed to itself, without a notice. -/

theorem mapM_map_eq_pure {f : β → Compose γ} {g : α → β} {h : α → γ}
    (each : ∀ a, f (g a) = pure (h a)) (items : List α) :
    (items.map g).mapM f = pure (items.map h) := by
  induction items with
  | nil => rfl
  | cons a items ih =>
    rw [List.map_cons, List.mapM_cons, each, pure_bind, ih, pure_bind]
    rfl

theorem members_list {items : List Value} (tidy : Tidy (.list items)) :
    members (.list items) = pure items := by
  simp only [members, tidy.members?_list]

theorem text_str (s : String) : text (.str s) = pure s := rfl

theorem textList_texts (ss : List String) : textList (texts ss) = pure ss := by
  cases ss with
  | nil => rfl
  | cons s ss =>
    have several : textList (texts (s :: ss)) = (do
        ((← members (texts (s :: ss))).filter fun item => !item.isNull).mapM text) := rfl
    have all : members (texts (s :: ss)) = pure ((s :: ss).map .str) :=
      members_list (tidy_texts (s :: ss))
    have kept : ((s :: ss).map Value.str).filter (fun item => !item.isNull) = (s :: ss).map .str :=
      List.filter_eq_self.mpr (List.forall_mem_map.mpr fun _ _ => rfl)
    rw [several, all, pure_bind, kept, mapM_map_eq_pure text_str, List.map_id']

theorem textMap_texts {texts : List (String × String)} (nodup : (texts.map (·.1)).Nodup) :
    textMap (Spec.textMap texts) = pure texts := by
  cases texts with
  | nil => rfl
  | cons e texts =>
    have mapping : (Spec.textMap (e :: texts)).entries? =
        some ((e :: texts).map fun e => entry e.1 (.str e.2)) := (tidy_textMap nodup).entries?_map
    have pair (e : String × String) :
        (do return (← shown (entry e.1 (.str e.2)).1, ← text (entry e.1 (.str e.2)).2) :
          Compose (String × String)) = pure e := rfl
    have present : (!(Spec.textMap (e :: texts)).isPresent) = false := rfl
    rw [textMap, present, if_neg Bool.false_ne_true, mapping]
    dsimp only
    rw [mapM_map_eq_pure pair, pure_bind, List.map_id', Text.Dictionary.ofPairs_of_nodup nodup]

theorem standing_list {items : List Value} (tidy : Tidy (.list items)) :
    standing (.list items) = pure items := by
  cases items with
  | nil => rfl
  | cons v items => exact members_list tidy

theorem fieldsOf_map {entries : List (Value × Value)} (tidy : Tidy (.map entries)) :
    fieldsOf (.map entries) = entries := fieldsOf_eq tidy.entries?_map

/-- Blocks that are composed to themselves are so together. -/
theorem composeBlocks_list {key : String} {compose : List (Value × Value) → Compose α}
    (fields : α → List (Value × Value)) (tidy : ∀ a, Tidy (.map (fields a)))
    (own : ∀ a, compose (fields a) = pure a) (items : List α) :
    composeBlocks key compose (.list (items.map fun a => .map (fields a))) = pure items := by
  have all : standing (.list (items.map fun a => .map (fields a))) =
      pure (items.map fun a => .map (fields a)) :=
    standing_list (tidyAll_iff.mpr (List.forall_mem_map.mpr fun a _ => tidy a))
  have kept : (items.map fun a => Value.map (fields a)).filter (fun item => !item.isNull) =
      items.map fun a => .map (fields a) :=
    List.filter_eq_self.mpr (List.forall_mem_map.mpr fun _ _ => rfl)
  have block (a : α) : composeItem key compose (.map (fields a)) = pure (some a) := by
    rw [composeItem_eq compose rfl, fieldsOf_map (tidy a), own, pure_bind]
  rw [composeBlocks, all, pure_bind, kept, mapM_map_eq_pure block, pure_bind, List.filterMap_map]
  simp

theorem generator_attributes (g : Generator) : generator (generatorEntries g) = pure g := by
  have literals : textList (Value.field "literals" (generatorEntries g)) = pure g.literals :=
    textList_texts g.literals
  have envs : textList (Value.field "envs" (generatorEntries g)) = pure g.envs :=
    textList_texts g.envs
  have files : textList (Value.field "files" (generatorEntries g)) = pure g.files :=
    textList_texts g.files
  rw [generator, literals, envs, files]
  rfl

theorem secretGenerator_attributes (s : SecretGenerator) :
    secretGenerator (generatorEntries s.generator ++ [entry "type" (.str s.type)]) = pure s := by
  have own : generator (generatorEntries s.generator ++ [entry "type" (.str s.type)]) =
      pure s.generator := generator_attributes s.generator
  rw [secretGenerator, own]
  rfl

theorem replica_attributes (r : Replica) :
    replica [entry "name" (.str r.name), entry "count" (.int r.count)] = pure r := by
  have own : count (Value.field "count" [entry "name" (.str r.name), entry "count" (.int r.count)]) =
      pure r.count := count_eq rfl
  rw [replica, own]
  rfl

theorem target_attributes (target : Option PatchTarget) :
    Compose.target ((target.map fun t => .map (targetAttributes t)).getD .null) = pure target := by
  cases target with
  | none => rfl
  | some t =>
    have mapping := (tidy_target t).entries?_map
    have present : (!(Value.map (targetAttributes t)).isPresent) = false := rfl
    rw [Option.map_some, Option.getD_some, Compose.target, present, if_neg Bool.false_ne_true, mapping]
    rfl

theorem patch_attributes (p : Patch) : patch (patchAttributes p) = pure p := by
  have own : Compose.target (Value.field "target" (patchAttributes p)) = pure p.target :=
    target_attributes p.target
  rw [patch, own]
  rfl

theorem spec_attributes (keyed : s.Keyed) : spec s.attributes = pure s := by
  have tidy := tidy_attributes keyed
  have given : attributes s.attributes = pure s.attributeEntries :=
    (attributes_eq rfl).trans (congrArg pure (fieldsOf_map tidy))
  have annotations : textMap (Value.field "common_annotations" s.attributeEntries) =
      pure s.commonAnnotations := textMap_texts keyed.annotations
  have labels : textMap (Value.field "common_labels" s.attributeEntries) = pure s.commonLabels :=
    textMap_texts keyed.labels
  have components : textList (Value.field "components" s.attributeEntries) = pure s.components :=
    textList_texts s.components
  have crds : textList (Value.field "crds" s.attributeEntries) = pure s.crds := textList_texts s.crds
  have resources : textList (Value.field "resources" s.attributeEntries) = pure s.resources :=
    textList_texts s.resources
  have configMaps : blocks s.attributeEntries "config_map_generator" generator =
      pure s.configMapGenerator :=
    (blocks_eq _ _).trans (composeBlocks_list generatorEntries tidy_generator generator_attributes _)
  have images : blocks s.attributeEntries "images" image = pure s.images :=
    (blocks_eq _ _).trans (composeBlocks_list imageAttributes tidy_image (fun _ => rfl) _)
  have replicas : blocks s.attributeEntries "replicas" replica = pure s.replicas :=
    (blocks_eq _ _).trans (composeBlocks_list _ tidy_replica replica_attributes _)
  have secrets : blocks s.attributeEntries "secret_generator" secretGenerator =
      pure s.secretGenerator :=
    (blocks_eq _ _).trans (composeBlocks_list _ tidy_secret secretGenerator_attributes _)
  have patches : blocks s.attributeEntries "patches" patch = pure s.patches :=
    (blocks_eq _ _).trans (composeBlocks_list patchAttributes tidy_patch patch_attributes _)
  rw [spec, given]
  simp only [pure_bind, annotations, labels, components, configMaps, crds, images, replicas,
    resources, secrets, patches]
  rfl

/-- What is composed has each label and each annotation once. -/
theorem keyed_of_compose {notices : List Notice} (composed : compose v = .ok (s, notices)) :
    s.Keyed := by
  obtain rfl := eq_specOf composed
  exact ⟨Text.Dictionary.nodup_ofPairs _, Text.Dictionary.nodup_ofPairs _⟩

/-- The attributes that hold the fields of a specification are composed to it, with nothing to
notice; so what is composed from any attributes is composed again from its own. -/
theorem compose_attributes (s : Spec) :
    (s.Keyed → compose s.attributes = .ok (s, [])) ∧
    ∀ {v : Value} {notices : List Notice}, compose v = .ok (s, notices) →
      compose s.attributes = .ok (s, []) := by
  have own (keyed : s.Keyed) : compose s.attributes = .ok (s, []) := by
    rw [compose, spec_attributes keyed]
    rfl
  exact ⟨own, fun composed => own (keyed_of_compose composed)⟩

def motley : Value := .map [
  (.str "common_labels", .map [(.bool true, .str "a"), (.str "True", .null)]),
  (.str "config_map_generator", .str "a=b"),
  (.str "patches", .list [.map [(.str "target", .map [(.str "kind", .null)])], .map []]),
  (.str "replicas", .map [(.str "count", .str "2")])]

def motleySpec : Spec :=
  ⟨[], [("True", "")], [], [], [], [], "", "", "", [⟨"", 2⟩], [], [],
    [⟨"", "", some ⟨"", "", "", "", "", "", ""⟩⟩, ⟨"", "", none⟩]⟩

def relabelled : Spec := { motleySpec with commonLabels := [("b", ""), ("a", "b")] }

theorem compose_attributes_of_motley :
    compose motley = .ok (motleySpec, [.block "config_map_generator" (.str "a=b")]) ∧
    compose motleySpec.attributes = .ok (motleySpec, []) ∧
    relabelled.Keyed ∧ compose relabelled.attributes = .ok (relabelled, []) := by
  have composed : compose motley =
      .ok (motleySpec, [.block "config_map_generator" (.str "a=b")]) := rfl
  have keyed : relabelled.Keyed := ⟨by decide, by decide⟩
  exact ⟨composed, (compose_attributes motleySpec).2 composed, keyed,
    (compose_attributes relabelled).1 keyed⟩

end Compose

end OverlayBuild
