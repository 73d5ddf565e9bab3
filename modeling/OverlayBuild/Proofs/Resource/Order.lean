import OverlayBuild.Proofs.Json.Canonical
import OverlayBuild.Proofs.Resource.Document
import OverlayBuild.Proofs.Resource.Result
import OverlayBuild.Report.Format

/-! Neither the order of documents nor that of the keys in them has a part in the result. What
a result takes from a document is its digest, which hides the order of keys. Results of the
same digests in any order are equal, and sorting them leaves one order. -/
namespace OverlayBuild.BuildResult

open Value

variable {resources others : List Resource} {documents reordered : List Value}
  {texts : List String} {result : BuildResult}

structure Digest where
  id : String
  tier : Tier
  manifest : Except Json.Fault String

def digest (r : Resource) : Digest := ⟨r.id, Tier.of r, serialize r.manifest⟩

def Digest.entry? (d : Digest) : Option (String × String) :=
  match d.manifest with
  | .ok text => some (d.id, text)
  | .error _ => none

theorem ids_digest : (resources.map digest).map Digest.id = resources.map Resource.id := by
  rw [List.map_map]
  rfl

theorem idsIn_digest {tier : Tier} :
    ((resources.map digest).filter fun d => d.tier = tier).map Digest.id = idsIn resources tier := by
  -- Stated for `decide`, since the two tests are decided in two ways.
  have own (r : Resource) : decide ((digest r).tier = tier) = decide (Tier.of r = tier) := by
    rw [digest]
  simp only [idsIn, List.filter_map, List.map_map, Function.comp_def, own]
  rfl

theorem entries_digest (written : Written resources texts) :
    (resources.map digest).filterMap Digest.entry? = (resources.map Resource.id).zip texts := by
  induction resources generalizing texts with
  | nil => rfl
  | cons r resources ih =>
    obtain ⟨own, more, first, rfl, rest⟩ := written_cons_iff.mp written
    rw [List.map_cons, List.map_cons, List.zip_cons_cons, ← ih rest, List.filterMap_cons]
    simp only [digest, Digest.entry?, first]

theorem accepted_of_perm (same : (resources.map digest).Perm (others.map digest))
    (accepted : Accepted resources) : Accepted others where
  ids := by
    rw [← ids_digest]
    exact (same.map Digest.id).nodup (ids_digest ▸ accepted.ids)
  manifests := by
    intro r mem
    obtain ⟨own, also, digests⟩ :=
      List.mem_map.mp (same.mem_iff.mpr (List.mem_map_of_mem mem))
    have written : serialize own.manifest = serialize r.manifest :=
      congrArg Digest.manifest digests
    exact written ▸ accepted.manifests own also

/-- Equal ids, tier by tier too, as sets, and equal manifests as mappings. -/
structure Same (a b : BuildResult) : Prop where
  ids : a.ids.Perm b.ids
  tiers : List.Forall₂ List.Perm a.tiers b.tiers
  manifests : a.manifests.Perm b.manifests

theorem ofResources_perm (same : (resources.map digest).Perm (others.map digest))
    (made : ofResources resources = .ok result) :
    ∃ other, ofResources others = .ok other ∧ Same result other := by
  obtain ⟨accepted, texts, written, rfl⟩ := ofResources_eq_ok_iff.mp made
  have acceptedToo := accepted_of_perm same accepted
  obtain ⟨more, writtenToo⟩ := exists_written_iff.mpr acceptedToo.manifests
  refine ⟨_, ofResources_eq_ok_iff.mpr ⟨acceptedToo, more, writtenToo, rfl⟩, ?_⟩
  have tier (tier : Tier) : (idsIn resources tier).Perm (idsIn others tier) :=
    idsIn_digest ▸ idsIn_digest ▸ (same.filter _).map _
  exact {
    ids := ids_digest ▸ ids_digest ▸ same.map Digest.id
    tiers := .cons (tier _) (.cons (tier _) (.cons (tier _) .nil))
    manifests := by
      rw [← entries_digest written, ← entries_digest writtenToo]
      exact same.filterMap _ }

theorem mergeSort_inOrder {α : Type} {key : α → String} (items : List α) :
    (items.mergeSort fun a b => !decide (key b < key a)).Pairwise fun a b => key a ≤ key b := by
  refine (List.pairwise_mergeSort ?_ ?_ items).imp ?_ <;>
    simp only [Bool.or_eq_true, Bool.not_eq_true', decide_eq_false_iff_not, String.not_lt]
  · exact fun _ _ _ => String.le_trans
  · exact fun a b => String.le_total _ _
  · exact fun below => below

/-- Sorting leaves one order, if no two different items have one key. -/
theorem mergeSort_eq_of_perm {α : Type} {key : α → String} {items others : List α}
    (distinct : ∀ a ∈ items, ∀ b ∈ items, key a = key b → a = b) (same : items.Perm others) :
    (items.mergeSort fun a b => !decide (key b < key a)) =
      others.mergeSort fun a b => !decide (key b < key a) := by
  have left := List.mergeSort_perm items fun a b => !decide (key b < key a)
  have right := List.mergeSort_perm others fun a b => !decide (key b < key a)
  refine List.Perm.eq_of_pairwise (fun a b first second below above => ?_)
    (mergeSort_inOrder items) (mergeSort_inOrder others) (left.trans (same.trans right.symm))
  exact distinct a (left.mem_iff.mp first) b (same.mem_iff.mpr (right.mem_iff.mp second))
    (String.le_antisymm below above)

theorem sortIds_eq_of_perm {ids others : List String} (same : ids.Perm others) :
    sortIds ids = sortIds others :=
  mergeSort_eq_of_perm (fun _ _ _ _ equal => equal) same

theorem Same.sorted {other : BuildResult} (same : Same result other)
    (distinct : (result.manifests.map (·.1)).Nodup) : result.sorted = other.sorted := by
  have tiers : List.Forall₂ (· = ·) (result.tiers.map sortIds) (other.tiers.map sortIds) := by
    rw [List.forall₂_map_left_iff, List.forall₂_map_right_iff]
    exact same.tiers.imp fun _ _ => sortIds_eq_of_perm
  rw [List.forall₂_eq_eq_eq] at tiers
  rw [BuildResult.sorted, BuildResult.sorted, sortIds_eq_of_perm same.ids, tiers]
  exact congrArg (BuildResult.mk _ _)
    (mergeSort_eq_of_perm (List.inj_on_of_nodup_map distinct) same.manifests)

/-! Documents that are equal but for their order and the order of keys. -/

def ofDocuments? (documents : List Value) : Option BuildResult := do
  let resources ← (documents.mapM Resource.ofDocument).toOption
  (ofResources resources).toOption

/-- The same documents up to their order, and the order of the entries of mappings in them. -/
def Reordered (documents reordered : List Value) : Prop :=
  ∃ moved, documents.Perm moved ∧ List.Forall₂ Alike moved reordered

theorem Reordered.symm (same : Reordered documents reordered) : Reordered reordered documents := by
  obtain ⟨moved, order, alike⟩ := same
  obtain ⟨found, also, back⟩ := List.perm_comp_forall₂ order alike
  exact ⟨found, back.symm, (also.imp fun _ _ => Alike.symm).flip⟩

theorem ofDocuments?_eq_some_iff :
    ofDocuments? documents = some result ↔ ∃ resources,
      List.Forall₂ (fun document r => Resource.ofDocument document = .ok r) documents resources ∧
        ofResources resources = .ok result := by
  simp only [ofDocuments?, Option.bind_eq_bind, Option.bind_eq_some_iff, toOption_eq_some_iff,
    mapM_eq_ok_iff]

theorem digests_of_alike (plain : ∀ d ∈ documents, Resource.Plain d)
    (also : ∀ d ∈ reordered, Resource.Plain d) (alike : List.Forall₂ Alike documents reordered)
    (made : List.Forall₂ (fun d r => Resource.ofDocument d = .ok r) documents resources) :
    ∃ others, List.Forall₂ (fun d r => Resource.ofDocument d = .ok r) reordered others ∧
      resources.map digest = others.map digest := by
  induction alike generalizing resources with
  | nil =>
    cases made
    exact ⟨[], .nil, rfl⟩
  | @cons d e documents reordered first _ ih =>
    cases made with
    | @cons _ r _ resources found made =>
      obtain ⟨plainFirst, plain⟩ := List.forall_mem_cons.mp plain
      obtain ⟨alsoFirst, also⟩ := List.forall_mem_cons.mp also
      obtain ⟨others, madeToo, digests⟩ := ih plain also made
      have manifest : r.manifest = d := Resource.manifest_of_ofDocument found
      refine ⟨_, .cons (Resource.ofDocument_alike plainFirst alsoFirst.tidy first found) madeToo, ?_⟩
      have text : serialize r.manifest = serialize e :=
        manifest ▸ Json.write_alike plainFirst.tidy first
      rw [List.map_cons, List.map_cons, digests, digest, text]
      rfl

theorem ofDocuments?_reordered (plain : ∀ d ∈ documents, Resource.Plain d)
    (also : ∀ d ∈ reordered, Resource.Plain d) (same : Reordered documents reordered)
    (made : ofDocuments? documents = some result) :
    ∃ other, ofDocuments? reordered = some other ∧ Same result other := by
  obtain ⟨resources, described, packed⟩ := ofDocuments?_eq_some_iff.mp made
  obtain ⟨moved, order, alike⟩ := same
  -- The resources are moved as the documents were, so that the two lists can be paired.
  obtain ⟨arranged, found, back⟩ := List.perm_comp_forall₂ order.symm described
  have plainMoved : ∀ d ∈ moved, Resource.Plain d := fun d mem => plain d (order.mem_iff.mpr mem)
  obtain ⟨others, describedToo, digests⟩ := digests_of_alike plainMoved also alike found
  obtain ⟨other, packedToo, equal⟩ := ofResources_perm (digests ▸ back.symm.map digest) packed
  exact ⟨other, ofDocuments?_eq_some_iff.mpr ⟨others, describedToo, packedToo⟩, equal⟩

/-- Output does not depend on order: from the same documents in any order, with the keys of
each mapping in any order, there is either no result, or one that is equal, and printed as the
same text in each format. -/
theorem output_of_reordered (plain : ∀ d ∈ documents, Resource.Plain d)
    (also : ∀ d ∈ reordered, Resource.Plain d) (same : Reordered documents reordered) :
    (ofDocuments? documents = none ∧ ofDocuments? reordered = none) ∨
      ∃ result other, ofDocuments? documents = some result ∧ ofDocuments? reordered = some other ∧
        Same result other ∧ result.sorted = other.sorted ∧
          ∀ multiline format, Report.text multiline format result.sorted =
            Report.text multiline format other.sorted := by
  cases made : ofDocuments? documents with
  | none =>
    -- A result of the other list would make one of this.
    refine .inl ⟨rfl, Option.eq_none_iff_forall_ne_some.mpr fun other found => ?_⟩
    obtain ⟨result, found, -⟩ := ofDocuments?_reordered also plain same.symm found
    rw [made] at found
    contradiction
  | some result =>
    obtain ⟨other, found, equal⟩ := ofDocuments?_reordered plain also same made
    obtain ⟨resources, -, packed⟩ := ofDocuments?_eq_some_iff.mp made
    have sorted : result.sorted = other.sorted := equal.sorted (holds_of_ofResources packed).keys_nodup
    exact .inr ⟨result, other, rfl, found, equal, sorted, fun _ _ => by rw [sorted]⟩

def shop : List Value := [
  .map [(.str "apiVersion", .str "v1"), (.str "kind", .str "Namespace"),
    (.str "metadata", .map [(.str "name", .str "shop")])],
  .map [(.str "apiVersion", .str "apps/v1"), (.str "kind", .str "Deployment"),
    (.str "metadata", .map [(.str "name", .str "web"), (.str "namespace", .str "shop")])]]

def shopBackwards : List Value := [
  .map [(.str "metadata", .map [(.str "namespace", .str "shop"), (.str "name", .str "web")]),
    (.str "kind", .str "Deployment"), (.str "apiVersion", .str "apps/v1")],
  .map [(.str "metadata", .map [(.str "name", .str "shop")]),
    (.str "kind", .str "Namespace"), (.str "apiVersion", .str "v1")]]

theorem reordered_shop : Reordered shop shopBackwards := by
  have deployment : AlikeEntries
      [(.str "apiVersion", .str "apps/v1"), (.str "kind", .str "Deployment"),
        (.str "metadata", .map [(.str "name", .str "web"), (.str "namespace", .str "shop")])]
      [(.str "apiVersion", .str "apps/v1"), (.str "kind", .str "Deployment"),
        (.str "metadata", .map [(.str "namespace", .str "shop"), (.str "name", .str "web")])] :=
    ⟨rfl, .refl _, rfl, .refl _, rfl, .of_perm (List.reverse_perm _).symm, trivial⟩
  exact ⟨shop.reverse, (List.reverse_perm _).symm,
    .cons ⟨_, deployment, (List.reverse_perm _).symm⟩
      (.cons (.of_perm (List.reverse_perm _).symm) .nil)⟩

theorem output_of_shop :
    ∃ result other, ofDocuments? shop = some result ∧ ofDocuments? shopBackwards = some other ∧
      result.ids = ["~G_v1_Namespace|~X|shop", "apps_v1_Deployment|shop|web"] ∧
      other.ids = ["apps_v1_Deployment|shop|web", "~G_v1_Namespace|~X|shop"] ∧
      Same result other ∧ result.sorted = other.sorted ∧
      ∀ multiline format, Report.text multiline format result.sorted =
        Report.text multiline format other.sorted := by
  have plain : ∀ d ∈ shop ++ shopBackwards, Resource.Plain d := by
    simp only [shop, shopBackwards, List.cons_append, List.nil_append, List.forall_mem_cons]
    refine ⟨?_, ?_, ?_, ?_, nofun⟩ <;>
      exact .of_map (by simp [Tidy, TidyEntries, TextKeys]) rfl ⟨trivial, trivial⟩ ⟨trivial, trivial⟩
  obtain ⟨plain, also⟩ := List.forall_mem_append.mp plain
  obtain ⟨none, -⟩ | ⟨result, other, made, found, equal⟩ :=
    output_of_reordered plain also reordered_shop
  · contradiction
  · have first : result.ids = ["~G_v1_Namespace|~X|shop", "apps_v1_Deployment|shop|web"] :=
      Option.some.inj (made.symm.trans rfl) ▸ rfl
    have second : other.ids = ["apps_v1_Deployment|shop|web", "~G_v1_Namespace|~X|shop"] :=
      Option.some.inj (found.symm.trans rfl) ▸ rfl
    exact ⟨result, other, made, found, first, second, equal⟩

end OverlayBuild.BuildResult
