import OverlayBuild.Proofs.Resource.Order

/-! Which resources, ids and tiers can be put together, for ids and tiers of any origin, and
in which order the result is listed. Each id is new and has the resource at its position,
whose manifest can be written, and the tiers part the ids. -/
namespace OverlayBuild.BuildResult

variable {resources : List Resource} {ids texts : List String} {tiers : List (List String)}
  {result : BuildResult} {id text : String} {r : Resource} {i : Nat}

theorem sortIds_perm (ids : List String) : (sortIds ids).Perm ids := List.mergeSort_perm _ _

/-- Where no two items have one key, sorting leaves the keys strictly increasing. -/
theorem mergeSort_increasing {α : Type} {key : α → String} {items : List α}
    (distinct : (items.map key).Nodup) :
    (items.mergeSort fun a b => !decide (key b < key a)).Pairwise fun a b => key a < key b := by
  have inOrder := @mergeSort_inOrder α key items
  have apart : (items.mergeSort fun a b => !decide (key b < key a)).Pairwise
      fun a b => key a ≠ key b :=
    List.pairwise_map.mp (((List.mergeSort_perm _ _).map key).symm.nodup distinct)
  refine (inOrder.and apart).imp ?_
  rintro a b ⟨below, other⟩
  by_contra above
  exact other (String.le_antisymm below (String.not_lt.mp above))

theorem sortIds_increasing (nodup : ids.Nodup) : (sortIds ids).Pairwise (· < ·) := by
  have distinct : (ids.map id).Nodup := by rwa [List.map_id]
  exact mergeSort_increasing distinct

theorem keys_sorted (result : BuildResult) :
    result.sorted.manifests.map (·.1) = sortIds (result.manifests.map (·.1)) :=
  List.map_mergeSort fun _ _ _ _ => rfl

theorem flatten_sorted (tiers : List (List String)) :
    (tiers.map sortIds).flatten.Perm tiers.flatten := by
  induction tiers with
  | nil => exact .refl _
  | cons tier tiers ih => exact (sortIds_perm tier).append ih

/-- Tiers that part different ids hold each of them once. -/
theorem Parts.flatten_perm (parts : Parts tiers ids) (nodup : ids.Nodup) :
    (tiers.map List.eraseDups).flatten.Perm ids := by
  have apart : (tiers.map List.eraseDups).Pairwise List.Disjoint :=
    List.pairwise_map.mpr (parts.apart.imp disjoint_eraseDups_iff.mpr)
  have each : ∀ tier ∈ tiers.map List.eraseDups, tier.Nodup :=
    List.forall_mem_map.mpr fun tier _ => nodup_eraseDups tier
  refine (List.perm_ext_iff_of_nodup (List.nodup_flatten.mpr ⟨each, apart⟩) nodup).mpr ?_
  intro id
  rw [mem_flatten_eraseDups, parts.covers]

theorem lookup_zip (nodup : ids.Nodup) (known : ids[i]? = some id) (given : texts[i]? = some text) :
    (ids.zip texts).lookup id = some text := by
  induction ids generalizing texts i with
  | nil => contradiction
  | cons first ids ih =>
    obtain ⟨new, nodup⟩ := List.nodup_cons.mp nodup
    cases texts with
    | nil => contradiction
    | cons own texts =>
      cases i with
      | zero => simp_all
      | succ i =>
        have later : ids[i]? = some id := by simpa using known
        have other : id ≠ first := by
          rintro rfl
          exact new (List.mem_of_getElem? later)
        rw [List.zip_cons_cons, List.lookup_cons, beq_false_of_ne other]
        exact ih nodup later (by simpa using given)

theorem Written.text_at (written : Written resources texts) (own : resources[i]? = some r) :
    ∃ text, texts[i]? = some text ∧ serialize r.manifest = .ok text := by
  have same := congrArg (·[i]?) written
  simp only [List.getElem?_map, own, Option.map_some] at same
  cases given : texts[i]? with
  | none => simp [given] at same
  | some text => exact ⟨text, rfl, by simpa [given] using same⟩

/-- A result in which each id has the manifest of the resource at its position and there are
no others, with the tiers that were given, as sets. -/
structure Assembled (resources : List Resource) (ids : List String) (tiers : List (List String))
    (result : BuildResult) : Prop where
  ids_eq : result.ids = ids
  keys_eq : result.manifests.map (·.1) = ids
  lookup_eq : ∀ (i : Nat) (id : String) (r : Resource), ids[i]? = some id → resources[i]? = some r →
    ∃ text, serialize r.manifest = .ok text ∧ result.manifests.lookup id = some text
  tiers_eq : List.Forall₂ (fun own given => own.Nodup ∧ ∀ id, id ∈ own ↔ id ∈ given)
    result.tiers tiers

/-- A listing of a result: all that it holds, ids and keys in one strictly increasing order,
and each tier in it. -/
structure Lists (listing result : BuildResult) : Prop where
  ids : listing.ids.Pairwise (· < ·)
  ids_perm : listing.ids.Perm result.ids
  keys : listing.manifests.map (·.1) = listing.ids
  manifests : listing.manifests.Perm result.manifests
  tiers : ∀ tier ∈ listing.tiers, tier.Pairwise (· < ·)
  tiers_perm : List.Forall₂ List.Perm listing.tiers result.tiers
  tiers_ids : listing.tiers.flatten.Perm listing.ids

theorem assembled_of_ok (made : assemble resources ids tiers = .ok result) :
    Assembled resources ids tiers result := by
  obtain ⟨sameLength, nodup, -, texts, written, rfl⟩ := assemble_eq_ok_iff.mp made
  refine ⟨rfl, map_fst_zip sameLength written, ?_, ?_⟩
  · intro i id r known own
    obtain ⟨text, given, serialized⟩ := written.text_at own
    exact ⟨text, serialized, lookup_zip nodup known given⟩
  · rw [List.forall₂_map_left_iff]
    exact List.forall₂_same.mpr fun tier _ => ⟨nodup_eraseDups tier, fun _ => List.mem_eraseDups⟩

theorem lists_sorted (made : assemble resources ids tiers = .ok result) :
    Lists result.sorted result := by
  obtain ⟨sameLength, nodup, parts, texts, written, rfl⟩ := assemble_eq_ok_iff.mp made
  have keys := map_fst_zip sameLength written
  exact {
    ids := sortIds_increasing nodup
    ids_perm := sortIds_perm ids
    keys := (keys_sorted _).trans (congrArg sortIds keys)
    manifests := List.mergeSort_perm _ _
    tiers := by
      intro tier mem
      obtain ⟨own, also, rfl⟩ := List.mem_map.mp mem
      obtain ⟨given, -, rfl⟩ := List.mem_map.mp also
      exact sortIds_increasing (nodup_eraseDups given)
    tiers_perm := List.forall₂_map_left_iff.mpr (List.forall₂_same.mpr fun tier _ => sortIds_perm tier)
    tiers_ids := (flatten_sorted _).trans ((parts.flatten_perm nodup).trans (sortIds_perm ids).symm) }

/-- A result is made exactly of as many resources as there are ids, of different ids, of
manifests that can be written, and of three tiers that part the ids. It maps each id to the
manifest at its position, and is listed in the order of the ids. -/
theorem assemble_accepts_partitions (resources : List Resource) (ids : List String)
    (tiers : List (List String)) :
    ((∃ result, assemble resources ids tiers = .ok result) ↔
      resources.length = ids.length ∧ ids.Nodup ∧
        (∀ r ∈ resources, ∃ text, serialize r.manifest = .ok text) ∧
        tiers.length = 3 ∧ tiers.Pairwise List.Disjoint ∧
        ∀ id, id ∈ tiers.flatten ↔ id ∈ ids) ∧
    ∀ result, assemble resources ids tiers = .ok result →
      Assembled resources ids tiers result ∧ Lists result.sorted result := by
  refine ⟨?_, fun result made => ⟨assembled_of_ok made, lists_sorted made⟩⟩
  constructor
  · rintro ⟨result, made⟩
    obtain ⟨sameLength, nodup, parts, texts, written, -⟩ := assemble_eq_ok_iff.mp made
    exact ⟨sameLength.symm, nodup, exists_written_iff.mp ⟨texts, written⟩, parts.count,
      parts.apart, parts.covers⟩
  · rintro ⟨sameLength, nodup, manifests, count, apart, covers⟩
    obtain ⟨texts, written⟩ := exists_written_iff.mpr manifests
    exact ⟨_, assemble_eq_ok_iff.mpr
      ⟨sameLength.symm, nodup, ⟨count, apart, covers⟩, texts, written, rfl⟩⟩

/-- Ids of another origin, out of order, and a tier that names its only id twice. -/
theorem assemble_accepts_named_twice :
    assemble hookAndNamespace ["b", "a"] [["a", "a"], [], ["b"]] = .ok {
      ids := ["b", "a"]
      tiers := [["a"], [], ["b"]]
      manifests := [
        ("b", "\x7b\"kind\":\"ValidatingWebhookConfiguration\",\"webhooks\":[]\x7d"),
        ("a", "\x7b\"a\":null,\"kind\":\"Namespace\"\x7d")] } ∧
    ∀ result, assemble hookAndNamespace ["b", "a"] [["a", "a"], [], ["b"]] = .ok result →
      Assembled hookAndNamespace ["b", "a"] [["a", "a"], [], ["b"]] result ∧
        Lists result.sorted result :=
  ⟨rfl, (assemble_accepts_partitions hookAndNamespace ["b", "a"] [["a", "a"], [], ["b"]]).2⟩

end OverlayBuild.BuildResult
