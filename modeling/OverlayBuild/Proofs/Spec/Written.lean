import OverlayBuild.Proofs.Spec.Document
import OverlayBuild.Proofs.Yaml.Roundtrip

/-! What is staged for a specification means its document: the text is read as the document again,
in whichever way text of several lines is written. -/
namespace OverlayBuild

namespace Yaml

variable {depth : Nat} {v : Value}

/-- What can be written has no integer that is too long. -/
theorem Legible.isOversized (legible : Legible depth v) : v.isOversized = false := by
  induction legible with
  | str => rfl
  | @int _ i small =>
    change decide (10 ^ Number.maxDigits ≤ i.natAbs) = false
    exact decide_eq_false (Nat.not_le_of_lt small)
  | @list _ items each ih =>
    show Value.anyOversized items = false
    clear each
    induction items with
    | nil => rfl
    | cons v items later =>
      obtain ⟨own, rest⟩ := List.forall_mem_cons.mp ih
      exact Bool.or_eq_false_iff.mpr ⟨own, later rest⟩
  | @map _ entries keys distinct each ih =>
    show Value.anyEntryOversized entries = false
    clear each distinct
    induction entries with
    | nil => rfl
    | cons e entries later =>
      obtain ⟨own, rest⟩ := List.forall_mem_cons.mp ih
      obtain ⟨⟨key, text, -⟩, others⟩ := List.forall_mem_cons.mp keys
      obtain ⟨k, v⟩ := e
      obtain rfl : k = .str key := text
      exact Bool.or_eq_false_iff.mpr ⟨own, later others rest⟩

/-- Pruning leaves what can be written. -/
theorem Legible.prune (legible : Legible depth v) : Legible depth v.prune := by
  induction legible with
  | str text => exact .str text
  | int small => exact .int small
  | list each ih =>
    refine .list fun v mem => ?_
    rcases Value.mem_pruneItems mem with own | ⟨w, own, rfl⟩
    · exact each v own
    · exact ih w own
  | map keys distinct each ih =>
    refine .map (fun e mem => ?_) (distinct.sublist (Value.keys_pruneEntries_sublist _)) fun e mem => ?_
    · obtain ⟨v, own, -⟩ := Value.mem_pruneEntries mem
      exact (keys _ own : NarrowKey (e.1, v))
    · obtain ⟨v, own, same⟩ := Value.mem_pruneEntries mem
      exact same ▸ ih _ own

end Yaml

namespace Spec

open Yaml

variable {depth : Nat}

theorem legible_texts (ss : List String) : Legible (depth + 1) (texts ss) :=
  .list fun v mem => by
    obtain ⟨s, -, rfl⟩ := List.mem_map.mp mem
    exact .str s

theorem legible_list {α : Type} {items : List α} {f : α → Value}
    (each : ∀ a ∈ items, Legible depth (f a)) :
    Legible (depth + 1) (.list (items.map f)) :=
  .list fun v mem => by
    obtain ⟨a, own, rfl⟩ := List.mem_map.mp mem
    exact each a own

/-- A mapping of different names to what can be written. -/
theorem legible_map {α : Type} {items : List α} {key : α → String} {value : α → Value}
    (narrow : ∀ a ∈ items, ∀ c ∈ (key a).toList, c.toNat < 0x10000) (distinct : (items.map key).Nodup)
    (each : ∀ a ∈ items, Legible depth (value a)) :
    Legible (depth + 1) (.map (items.map fun a => entry (key a) (value a))) := by
  refine .map (fun e mem => ?_) ?_ fun e mem => ?_
  · obtain ⟨a, own, rfl⟩ := List.mem_map.mp mem
    exact ⟨key a, rfl, narrow a own⟩
  · have keys : (items.map fun a => entry (key a) (value a)).map (·.1) = (items.map key).map .str := by
      simp [entry]
    rw [keys]
    exact distinct.map fun _ _ => Value.str.inj
  · obtain ⟨a, own, rfl⟩ := List.mem_map.mp mem
    exact each a own

theorem legible_textMap {texts : List (String × String)}
    (narrow : ∀ e ∈ texts, ∀ c ∈ e.1.toList, c.toNat < 0x10000) (distinct : (texts.map (·.1)).Nodup) :
    Legible (depth + 1) (textMap texts) :=
  legible_map narrow distinct fun _ _ => .str _

def isNarrow (key : String) : Bool := key.toList.all fun c => c.toNat < 0x10000

theorem isNarrow_iff {key : String} : isNarrow key = true ↔ ∀ c ∈ key.toList, c.toNat < 0x10000 := by
  simp [isNarrow]

/-- The fields of a record under names of their own. -/
theorem legible_fields (names : List String) (values : List Value) (same : names.length = values.length)
    (narrow : ∀ name ∈ names, isNarrow name = true) (distinct : names.Nodup)
    (each : ∀ v ∈ values, Legible depth v) :
    Legible (depth + 1) (.map ((names.zip values).map fun f => entry f.1 f.2)) := by
  have keys : (names.zip values).map (·.1) = names := List.map_fst_zip (Nat.le_of_eq same)
  exact legible_map (fun f mem => isNarrow_iff.mp (narrow f.1 (List.of_mem_zip mem).1)) (by rw [keys]; exact distinct)
    fun f mem => each f.2 (List.of_mem_zip mem).2

theorem legible_generator (g : Generator) : Legible (depth + 2) (generatorFields g) :=
  legible_fields ["name", "behavior", "literals", "envs", "files"]
    [.str g.name, .str g.behavior, texts g.literals, texts g.envs, texts g.files] rfl (by decide)
    (by decide)
    (by simp only [List.forall_mem_cons]; exact ⟨.str _, .str _, legible_texts _, legible_texts _,
      legible_texts _, nofun⟩)

theorem legible_secret (s : SecretGenerator) : Legible (depth + 2) (secretFields s) :=
  legible_fields ["name", "behavior", "literals", "envs", "files", "type"]
    [.str s.generator.name, .str s.generator.behavior, texts s.generator.literals,
      texts s.generator.envs, texts s.generator.files, .str s.type] rfl (by decide) (by decide)
    (by simp only [List.forall_mem_cons]; exact ⟨.str _, .str _, legible_texts _, legible_texts _,
      legible_texts _, .str _, nofun⟩)

theorem legible_image (i : Image) : Legible (depth + 1) (imageFields i) :=
  legible_fields ["name", "newName", "newTag", "digest"]
    [.str i.name, .str i.newName, .str i.newTag, .str i.digest] rfl (by decide) (by decide)
    (by simp only [List.forall_mem_cons]; exact ⟨.str _, .str _, .str _, .str _, nofun⟩)

theorem legible_replica {r : Replica} (small : r.count.natAbs < 10 ^ Number.maxDigits) :
    Legible (depth + 1) (replicaFields r) :=
  legible_fields ["name", "count"] [.str r.name, .int r.count] rfl (by decide) (by decide)
    (by simp only [List.forall_mem_cons]; exact ⟨.str _, .int small, nofun⟩)

theorem legible_target (t : PatchTarget) : Legible (depth + 1) (targetFields t) :=
  legible_fields
    ["group", "version", "kind", "name", "namespace", "labelSelector", "annotationSelector"]
    [.str t.group, .str t.version, .str t.kind, .str t.name, .str t.namespace_, .str t.labelSelector,
      .str t.annotationSelector] rfl (by decide) (by decide)
    (by
      simp only [List.forall_mem_cons]
      exact ⟨.str _, .str _, .str _, .str _, .str _, .str _, .str _, nofun⟩)

theorem legible_patch (p : Patch) : Legible (depth + 2) (patchFields p) := by
  rw [patchFields]
  cases p.target with
  | none =>
    exact legible_fields ["path", "patch"] [.str p.path, .str p.patch] rfl (by decide) (by decide)
      (by simp only [List.forall_mem_cons]; exact ⟨.str _, .str _, nofun⟩)
  | some t =>
    exact legible_fields ["path", "patch", "target"] [.str p.path, .str p.patch, targetFields t] rfl
      (by decide) (by decide)
      (by simp only [List.forall_mem_cons]; exact ⟨.str _, .str _, legible_target t, nofun⟩)

/-- Labels and annotations under different keys without wide characters, and counts that are
written out. -/
structure Writable (s : Spec) : Prop where
  labels : (s.commonLabels.map (·.1)).Nodup
  annotations : (s.commonAnnotations.map (·.1)).Nodup
  narrowLabels : ∀ e ∈ s.commonLabels, ∀ c ∈ e.1.toList, c.toNat < 0x10000
  narrowAnnotations : ∀ e ∈ s.commonAnnotations, ∀ c ∈ e.1.toList, c.toNat < 0x10000
  counts : ∀ r ∈ s.replicas, r.count.natAbs < 10 ^ Number.maxDigits

theorem Writable.fields {s : Spec} (writable : s.Writable) : Legible 4 (.map s.fields) :=
  legible_fields
    ["commonAnnotations", "commonLabels", "components", "configMapGenerator", "crds", "images",
      "namePrefix", "nameSuffix", "namespace", "replicas", "resources", "secretGenerator", "patches"]
    [textMap s.commonAnnotations, textMap s.commonLabels, texts s.components,
      .list (s.configMapGenerator.map generatorFields), texts s.crds, .list (s.images.map imageFields),
      .str s.namePrefix, .str s.nameSuffix, .str s.namespace_, .list (s.replicas.map replicaFields),
      texts s.resources, .list (s.secretGenerator.map secretFields), .list (s.patches.map patchFields)]
    rfl (by decide) (by decide)
    (by
      simp only [List.forall_mem_cons]
      exact ⟨legible_textMap writable.narrowAnnotations writable.annotations,
        legible_textMap writable.narrowLabels writable.labels, legible_texts _,
        legible_list fun g _ => legible_generator g, legible_texts _,
        legible_list fun i _ => legible_image i, .str _, .str _, .str _,
        legible_list fun r mem => legible_replica (writable.counts r mem), legible_texts _,
        legible_list fun g _ => legible_secret g, legible_list fun p _ => legible_patch p, nofun⟩)

theorem narrow_header : ∀ e ∈ header, NarrowKey e := by
  simp only [header, List.forall_mem_cons]
  exact ⟨⟨_, rfl, isNarrow_iff.mp (by decide)⟩, ⟨_, rfl, isNarrow_iff.mp (by decide)⟩, nofun⟩

theorem legible_header : ∀ e ∈ header, Legible (depth + 1) e.2 := by
  simp only [header, List.forall_mem_cons]
  exact ⟨.str _, .str _, nofun⟩

theorem Writable.document {s : Spec} (writable : s.Writable) : Legible 4 s.document := by
  have pruned := writable.fields.prune
  rw [Value.prune] at pruned
  cases pruned with
  | map keys _ each =>
    have named : ((header ++ s.fields).map (·.1)).Nodup := by simp [header, Spec.fields, entry]
    have distinct : ((header ++ Value.pruneEntries s.fields).map (·.1)).Nodup := by
      rw [List.map_append] at named ⊢
      exact named.sublist (List.Sublist.append_left (Value.keys_pruneEntries_sublist _) _)
    refine .map (fun e mem => ?_) distinct fun e mem => ?_
    · rcases List.mem_append.mp mem with own | rest
      · exact narrow_header e own
      · exact keys e rest
    · rcases List.mem_append.mp mem with own | rest
      · exact legible_header e own
      · exact each e rest

/-- What is staged for a specification is read as its document. -/
theorem read_yaml {s : Spec} (writable : s.Writable) (mode : Multiline) :
    ∃ text, s.yaml mode = .ok text ∧ Yaml.read .full text.toList = .ok s.document := by
  have legible := writable.document
  refine ⟨s.text mode, ?_, ?_⟩
  · rw [yaml, legible.isOversized]
    rfl
  · exact read_write legible (by simp [header]) (by decide)

def ambiguous : Spec where
  commonAnnotations := [("=", "two\nlines ")]
  commonLabels := [("on", "1"), ("<<", "null")]
  components := []
  configMapGenerator := []
  crds := []
  images := []
  namePrefix := "0x1"
  nameSuffix := ""
  namespace_ := "2024-01-01"
  replicas := [⟨"~", 3⟩]
  resources := ["- a: b"]
  secretGenerator := []
  patches := []

theorem read_yaml_ambiguous : ambiguous.Writable ∧
    ∃ text, ambiguous.yaml .literal = .ok text ∧ Yaml.read .full text.toList = .ok (.map [
      entry "apiVersion" (.str "kustomize.config.k8s.io/v1beta1"),
      entry "kind" (.str "Kustomization"),
      entry "commonAnnotations" (textMap [("=", "two\nlines ")]),
      entry "commonLabels" (textMap [("on", "1"), ("<<", "null")]),
      entry "namePrefix" (.str "0x1"),
      entry "namespace" (.str "2024-01-01"),
      entry "replicas" (.list [.map [entry "name" (.str "~"), entry "count" (.int 3)]]),
      entry "resources" (texts ["- a: b"])]) := by
  have small : 3 < 10 ^ Number.maxDigits :=
    Nat.lt_of_lt_of_le (by decide : 3 < 10 ^ 1) (Nat.pow_le_pow_right (by decide) (by decide))
  have narrowLabels : ∀ e ∈ ambiguous.commonLabels, isNarrow e.1 = true := by decide
  have narrowAnnotations : ∀ e ∈ ambiguous.commonAnnotations, isNarrow e.1 = true := by decide
  have writable : ambiguous.Writable :=
    { labels := by decide
      annotations := by decide
      narrowLabels := fun e mem => isNarrow_iff.mp (narrowLabels e mem)
      narrowAnnotations := fun e mem => isNarrow_iff.mp (narrowAnnotations e mem)
      counts := by simp only [ambiguous, List.forall_mem_singleton]; exact small }
  exact ⟨writable, read_yaml writable .literal⟩

end Spec

end OverlayBuild
