import OverlayBuild.Proofs.Spec.Document

/-! The document of a specification tells the specification. Pruning drops what says nothing, and
under a given name only one value of each kind says nothing, so that it can be put back. What is
lost is a patch target without content, which leaves what no target leaves. -/
namespace OverlayBuild

def PatchTarget.blank : PatchTarget := ⟨"", "", "", "", "", "", ""⟩

def Patch.withoutBlank (p : Patch) : Patch := { p with target := p.target.filter (· ≠ .blank) }

/-- A specification with no patch target in the place of a blank one. -/
def Spec.withoutBlanks (s : Spec) : Spec := { s with patches := s.patches.map Patch.withoutBlank }

namespace Value

variable {name : String} {k v w : Value} {entries : List (Value × Value)} {names : List String}
  {values others items : List Value}

def left? (v : Value) : Option Value := if v.prune.isVoid then none else some v.prune

theorem pruneEntries_cons :
    pruneEntries ((k, v) :: entries) = (v.left?.map (k, ·)).toList ++ pruneEntries entries := by
  cases void : v.prune.isVoid with
  | true => rw [pruneEntries_cons_void void, left?, if_pos void]; rfl
  | false => rw [pruneEntries_cons_kept void, left?, if_neg (ne_true_of_eq_false void)]; rfl

def record (names : List String) (values : List Value) : List (Value × Value) :=
  (names.zip values).map fun f => Spec.entry f.1 f.2

/-- No entry of a record without a name has that name. -/
theorem not_mem_keys_record (absent : name ∉ names) :
    .str name ∉ (pruneEntries (record names values)).map (·.1) := by
  intro mem
  obtain ⟨e, inside, key⟩ := List.mem_map.mp ((keys_pruneEntries_sublist _).subset mem)
  obtain ⟨f, own, rfl⟩ := List.mem_map.mp inside
  obtain rfl : f.1 = name := Value.str.inj key
  exact absent (List.of_mem_zip own).1

variable (names values others) in
/-- Pruning leaves the same of two records with the same names exactly when it leaves the same
of each field. -/
theorem pruneEntries_record_eq_iff (distinct : names.Nodup) (length : values.length = names.length)
    (also : others.length = names.length) :
    pruneEntries (record names values) = pruneEntries (record names others) ↔
      values.map left? = others.map left? := by
  induction names generalizing values others with
  | nil =>
    obtain rfl := List.eq_nil_of_length_eq_zero length
    obtain rfl := List.eq_nil_of_length_eq_zero also
    exact iff_of_true rfl rfl
  | cons name names ih =>
    obtain ⟨v, values, rfl⟩ := List.exists_cons_of_length_eq_add_one length
    obtain ⟨w, others, rfl⟩ := List.exists_cons_of_length_eq_add_one also
    obtain ⟨new, distinct⟩ := List.nodup_cons.mp distinct
    have rest : _ ↔ values.map left? = others.map left? :=
      ih _ _ distinct (Nat.succ.inj length) (Nat.succ.inj also)
    have here (u : Value) (us : List Value) :
        pruneEntries (record (name :: names) (u :: us)) =
          (u.left?.map (.str name, ·)).toList ++ pruneEntries (record names us) := pruneEntries_cons
    have fresh (us : List Value) (u : Value) : (.str name, u) ∉ pruneEntries (record names us) :=
      fun mem => not_mem_keys_record new (List.mem_map_of_mem mem)
    rw [here, here, List.map_cons, List.map_cons, List.cons.injEq, ← rest]
    cases v.left? with
    | none =>
      cases w.left? with
      | none => simp
      | some y =>
        -- The second record would have a field of a name that the first has not.
        refine iff_of_false (fun same => fresh values y ?_) (fun both => nomatch both.1)
        change pruneEntries (record names values) = (.str name, y) :: _ at same
        exact same ▸ List.mem_cons_self
    | some x =>
      cases w.left? with
      | none =>
        refine iff_of_false (fun same => fresh others x ?_) (fun both => nomatch both.1)
        change (.str name, x) :: _ = pruneEntries (record names others) at same
        exact same ▸ List.mem_cons_self
      | some y => simp

theorem prune_map_eq_iff {fields : List (Value × Value)} :
    prune (.map entries) = prune (.map fields) ↔ pruneEntries entries = pruneEntries fields := by
  rw [prune, prune, Value.map.injEq]

/-- Where only one of two values says nothing when it is pruned, or both do and are the same then,
what is left tells what pruning makes of them. -/
theorem left?_eq_iff
    (one : v.prune.isVoid = true → w.prune.isVoid = true → v.prune = w.prune) :
    v.left? = w.left? ↔ v.prune = w.prune := by
  rw [left?, left?]
  split
  next void =>
    split
    next also => exact iff_of_true rfl (one void also)
    next kept => exact iff_of_false nofun fun same => kept (same ▸ void)
  next kept =>
    split
    next void => exact iff_of_false nofun fun same => kept (same ▸ void)
    next => rw [Option.some.injEq]

theorem left?_list_eq_iff :
    left? (.list items) = left? (.list others) ↔ pruneItems items = pruneItems others := by
  have empty {items : List Value} (void : (Value.list items).prune.isVoid = true) :
      (Value.list items).prune = .list [] := by
    rw [prune] at void ⊢
    rw [List.isEmpty_iff.mp void]
  rw [left?_eq_iff fun void also => (empty void).trans (empty also).symm, prune, prune,
    Value.list.injEq]

theorem left?_map_eq_iff {fields : List (Value × Value)} :
    left? (.map entries) = left? (.map fields) ↔ pruneEntries entries = pruneEntries fields := by
  have empty {entries : List (Value × Value)} (void : (Value.map entries).prune.isVoid = true) :
      (Value.map entries).prune = .map [] := by
    rw [prune] at void ⊢
    rw [List.isEmpty_iff.mp void]
  rw [left?_eq_iff fun void also => (empty void).trans (empty also).symm, prune_map_eq_iff]

end Value

namespace Spec

open Value

/-! What pruning leaves of a field tells its value, kind by kind. -/

section fields

variable {α β : Type} {f : α → Value} {g : α → β}

theorem left?_str_eq_iff {a b : String} : left? (.str a) = left? (.str b) ↔ a = b := by
  have empty {s : String} (void : (prune (.str s)).isVoid = true) : s = "" :=
    String.isEmpty_iff.mp void
  rw [left?_eq_iff fun void also => by rw [empty void, empty also]]
  exact Value.str.injEq a b ▸ Iff.rfl

theorem left?_int_eq_iff {a b : Int} : left? (.int a) = left? (.int b) ↔ a = b := by
  simp [left?, prune, isVoid]

theorem pruneItems_texts (ss : List String) : pruneItems (ss.map .str) = ss.map .str := by
  rw [pruneItems_eq_map, List.map_map]
  rfl

theorem left?_texts_eq_iff {a b : List String} : left? (texts a) = left? (texts b) ↔ a = b := by
  rw [texts, texts, left?_list_eq_iff, pruneItems_texts, pruneItems_texts,
    (List.map_injective_iff.mpr fun _ _ => Value.str.inj).eq_iff]

theorem pruneItems_blocks (blocks : ∀ a, ∃ entries, f a = .map entries) (items : List α) :
    pruneItems (items.map f) = items.map fun a => prune (f a) := by
  rw [pruneItems_eq_map, List.map_map]
  apply List.map_congr_left
  intro a _
  obtain ⟨entries, own⟩ := blocks a
  rw [Function.comp_apply, own, pruneItem, prune]

/-- Blocks are told one by one, those that are left empty as well. -/
theorem left?_blocks_eq_iff (blocks : ∀ a, ∃ entries, f a = .map entries)
    (told : ∀ a b, prune (f a) = prune (f b) ↔ g a = g b) {items others : List α} :
    left? (.list (items.map f)) = left? (.list (others.map f)) ↔ items.map g = others.map g := by
  rw [left?_list_eq_iff, pruneItems_blocks blocks, pruneItems_blocks blocks]
  induction items generalizing others with
  | nil => cases others <;> simp
  | cons a items ih => cases others <;> simp [told, ih]

theorem left?_blocks_injective (blocks : ∀ a, ∃ entries, f a = .map entries)
    (told : ∀ a b, prune (f a) = prune (f b) ↔ a = b) {items others : List α} :
    left? (.list (items.map f)) = left? (.list (others.map f)) ↔ items = others := by
  rw [left?_blocks_eq_iff (g := id) blocks told, List.map_id, List.map_id]

theorem left?_textMap_eq_iff {a b : List (String × String)} (full : ∀ e ∈ a, e.2 ≠ "")
    (also : ∀ e ∈ b, e.2 ≠ "") : left? (textMap a) = left? (textMap b) ↔ a = b := by
  have whole {a : List (String × String)} (full : ∀ e ∈ a, e.2 ≠ "") :
      prune (textMap a) = textMap a := by
    rw [prune_textMap, List.filter_eq_self.mpr fun e mem => bne_iff_ne.mpr (full e mem)]
  have told : Function.Injective fun e : String × String => entry e.1 (.str e.2) := by
    rintro ⟨k, v⟩ ⟨l, w⟩ same
    simpa [entry] using same
  have pruned : left? (textMap a) = left? (textMap b) ↔ prune (textMap a) = prune (textMap b) :=
    left?_map_eq_iff.trans prune_map_eq_iff.symm
  rw [pruned, whole full, whole also, textMap, textMap, Value.map.injEq,
    (List.map_injective_iff.mpr told).eq_iff]

end fields

/-! Blocks. -/

theorem prune_generator_eq_iff (g h : Generator) :
    prune (generatorFields g) = prune (generatorFields h) ↔ g = h := by
  have each := pruneEntries_record_eq_iff ["name", "behavior", "literals", "envs", "files"]
    [.str g.name, .str g.behavior, texts g.literals, texts g.envs, texts g.files]
    [.str h.name, .str h.behavior, texts h.literals, texts h.envs, texts h.files]
    (by decide) rfl rfl
  refine prune_map_eq_iff.trans (each.trans ?_)
  simp [left?_str_eq_iff, left?_texts_eq_iff, ← Generator.mk.injEq]

theorem prune_secret_eq_iff (s t : SecretGenerator) :
    prune (secretFields s) = prune (secretFields t) ↔ s = t := by
  have each := pruneEntries_record_eq_iff
    ["name", "behavior", "literals", "envs", "files", "type"]
    [.str s.generator.name, .str s.generator.behavior, texts s.generator.literals,
      texts s.generator.envs, texts s.generator.files, .str s.type]
    [.str t.generator.name, .str t.generator.behavior, texts t.generator.literals,
      texts t.generator.envs, texts t.generator.files, .str t.type]
    (by decide) rfl rfl
  refine prune_map_eq_iff.trans (each.trans ?_)
  obtain ⟨⟨_, _, _, _, _⟩, _⟩ := s
  obtain ⟨⟨_, _, _, _, _⟩, _⟩ := t
  simp [left?_str_eq_iff, left?_texts_eq_iff, and_assoc]

theorem prune_image_eq_iff (i j : Image) : prune (imageFields i) = prune (imageFields j) ↔ i = j := by
  have each := pruneEntries_record_eq_iff ["name", "newName", "newTag", "digest"]
    [.str i.name, .str i.newName, .str i.newTag, .str i.digest]
    [.str j.name, .str j.newName, .str j.newTag, .str j.digest] (by decide) rfl rfl
  refine prune_map_eq_iff.trans (each.trans ?_)
  simp [left?_str_eq_iff, ← Image.mk.injEq]

theorem prune_replica_eq_iff (r s : Replica) :
    prune (replicaFields r) = prune (replicaFields s) ↔ r = s := by
  have each := pruneEntries_record_eq_iff ["name", "count"]
    [.str r.name, .int r.count] [.str s.name, .int s.count] (by decide) rfl rfl
  refine prune_map_eq_iff.trans (each.trans ?_)
  simp [left?_str_eq_iff, left?_int_eq_iff, ← Replica.mk.injEq]

theorem left?_target_eq_iff (t u : PatchTarget) :
    left? (targetFields t) = left? (targetFields u) ↔ t = u := by
  have each := pruneEntries_record_eq_iff
    ["group", "version", "kind", "name", "namespace", "labelSelector", "annotationSelector"]
    [.str t.group, .str t.version, .str t.kind, .str t.name, .str t.namespace_,
      .str t.labelSelector, .str t.annotationSelector]
    [.str u.group, .str u.version, .str u.kind, .str u.name, .str u.namespace_,
      .str u.labelSelector, .str u.annotationSelector]
    (by decide) rfl rfl
  refine left?_map_eq_iff.trans (each.trans ?_)
  simp [left?_str_eq_iff, ← PatchTarget.mk.injEq]

/-- Nothing is left of a target exactly where it is blank. -/
theorem left?_target_eq_none_iff {t : PatchTarget} : left? (targetFields t) = none ↔ t = .blank :=
  left?_target_eq_iff t .blank

def targetValue (target : Option PatchTarget) : Value := (target.map targetFields).getD .null

theorem left?_targetValue (target : Option PatchTarget) : left? (targetValue target) =
    (target.filter (· ≠ .blank)).bind fun t => left? (targetFields t) := by
  cases target with
  | none => rfl
  | some t =>
    by_cases blank : t = .blank
    · subst blank
      rfl
    · simp [targetValue, Option.filter, blank]

theorem left?_targetValue_eq_iff {a b : Option PatchTarget} :
    left? (targetValue a) = left? (targetValue b) ↔
      a.filter (· ≠ .blank) = b.filter (· ≠ .blank) := by
  rw [left?_targetValue, left?_targetValue]
  have full {target : Option PatchTarget} {t : PatchTarget}
      (own : target.filter (· ≠ .blank) = some t) : left? (targetFields t) ≠ none := by
    obtain ⟨-, filled⟩ := Option.filter_eq_some_iff.mp own
    exact mt left?_target_eq_none_iff.mp (of_decide_eq_true filled)
  cases first : a.filter (· ≠ .blank) with
  | none =>
    cases second : b.filter (· ≠ .blank) with
    | none => exact iff_of_true rfl rfl
    | some u => exact iff_of_false (full second).symm nofun
  | some t =>
    cases second : b.filter (· ≠ .blank) with
    | none => exact iff_of_false (full first) nofun
    | some u =>
      rw [Option.bind_some, Option.bind_some, left?_target_eq_iff, Option.some.injEq]

/-- A patch without a target is pruned like one whose target is null. -/
theorem prune_patchFields (p : Patch) : prune (patchFields p) = prune (.map
    (record ["path", "patch", "target"] [.str p.path, .str p.patch, targetValue p.target])) := by
  rw [patchFields]
  cases p.target <;> rfl

theorem prune_patch_eq_iff (p q : Patch) :
    prune (patchFields p) = prune (patchFields q) ↔ p.withoutBlank = q.withoutBlank := by
  have each := pruneEntries_record_eq_iff ["path", "patch", "target"]
    [.str p.path, .str p.patch, targetValue p.target]
    [.str q.path, .str q.patch, targetValue q.target] (by decide) rfl rfl
  rw [prune_patchFields, prune_patchFields, prune_map_eq_iff, each]
  simp [left?_str_eq_iff, left?_targetValue_eq_iff, Patch.withoutBlank]

/-! Specifications. -/

structure Labelled (s : Spec) : Prop where
  labels : ∀ e ∈ s.commonLabels, e.2 ≠ ""
  annotations : ∀ e ∈ s.commonAnnotations, e.2 ≠ ""

/-- Specifications whose labels and annotations all say something have one document exactly where
they are the same, but for patch targets that are blank in one of them and missing in the other. -/
theorem document_eq_iff {s t : Spec} (labelled : s.Labelled) (also : t.Labelled) :
    s.document = t.document ↔ s.withoutBlanks = t.withoutBlanks := by
  have each := pruneEntries_record_eq_iff
    ["commonAnnotations", "commonLabels", "components", "configMapGenerator", "crds", "images",
      "namePrefix", "nameSuffix", "namespace", "replicas", "resources", "secretGenerator", "patches"]
    [textMap s.commonAnnotations, textMap s.commonLabels, texts s.components,
      .list (s.configMapGenerator.map generatorFields), texts s.crds, .list (s.images.map imageFields),
      .str s.namePrefix, .str s.nameSuffix, .str s.namespace_, .list (s.replicas.map replicaFields),
      texts s.resources, .list (s.secretGenerator.map secretFields), .list (s.patches.map patchFields)]
    [textMap t.commonAnnotations, textMap t.commonLabels, texts t.components,
      .list (t.configMapGenerator.map generatorFields), texts t.crds, .list (t.images.map imageFields),
      .str t.namePrefix, .str t.nameSuffix, .str t.namespace_, .list (t.replicas.map replicaFields),
      texts t.resources, .list (t.secretGenerator.map secretFields), .list (t.patches.map patchFields)]
    (by decide) rfl rfl
  have generators : left? (.list (s.configMapGenerator.map generatorFields)) =
      left? (.list (t.configMapGenerator.map generatorFields)) ↔
        s.configMapGenerator = t.configMapGenerator :=
    left?_blocks_injective (fun _ => ⟨_, rfl⟩) prune_generator_eq_iff
  have images : left? (.list (s.images.map imageFields)) = left? (.list (t.images.map imageFields)) ↔
      s.images = t.images := left?_blocks_injective (fun _ => ⟨_, rfl⟩) prune_image_eq_iff
  have replicas : left? (.list (s.replicas.map replicaFields)) =
      left? (.list (t.replicas.map replicaFields)) ↔ s.replicas = t.replicas :=
    left?_blocks_injective (fun _ => ⟨_, rfl⟩) prune_replica_eq_iff
  have secrets : left? (.list (s.secretGenerator.map secretFields)) =
      left? (.list (t.secretGenerator.map secretFields)) ↔ s.secretGenerator = t.secretGenerator :=
    left?_blocks_injective (fun _ => ⟨_, rfl⟩) prune_secret_eq_iff
  have patches : left? (.list (s.patches.map patchFields)) = left? (.list (t.patches.map patchFields)) ↔
      s.patches.map Patch.withoutBlank = t.patches.map Patch.withoutBlank :=
    left?_blocks_eq_iff (fun _ => ⟨_, rfl⟩) prune_patch_eq_iff
  rw [document, document, Value.map.injEq, List.append_right_inj]
  refine each.trans ?_
  simp only [List.map_cons, List.map_nil, List.cons.injEq, left?_str_eq_iff, left?_texts_eq_iff,
    left?_textMap_eq_iff labelled.annotations also.annotations,
    left?_textMap_eq_iff labelled.labels also.labels, generators, images, replicas, secrets, patches,
    withoutBlanks, Spec.mk.injEq, and_true]

def sparse (target : Option PatchTarget) : Spec where
  commonAnnotations := []
  commonLabels := [("team", "web")]
  components := []
  configMapGenerator := [⟨"", "", [], [], []⟩]
  crds := []
  images := []
  namePrefix := ""
  nameSuffix := ""
  namespace_ := ""
  replicas := [⟨"", 0⟩]
  resources := [""]
  secretGenerator := []
  patches := [⟨"", "", target⟩]

theorem document_sparse_eq : (sparse none).Labelled ∧ (sparse (some .blank)).Labelled ∧
    sparse none ≠ sparse (some .blank) ∧ (sparse none).document = (sparse (some .blank)).document := by
  have labelled (target : Option PatchTarget) : (sparse target).Labelled :=
    ⟨by simp [sparse], by simp [sparse]⟩
  exact ⟨labelled _, labelled _, by decide, (document_eq_iff (labelled _) (labelled _)).mpr (by decide)⟩

end Spec

end OverlayBuild
