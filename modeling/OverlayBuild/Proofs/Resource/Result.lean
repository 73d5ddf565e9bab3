import Mathlib.Data.List.Nodup
import Mathlib.Data.List.Pairwise
import OverlayBuild.Build.Flow

/-! Putting a result together. Resources, ids and tiers make a result exactly when each
position has a new id and a manifest that can be written, and the tiers part the ids. Under
their own ids and tiers, resources are refused at most for what the first of them that does
not fit is: one with an id that came before, or one whose manifest cannot be written. -/
namespace OverlayBuild.BuildResult

variable {resources : List Resource} {ids texts : List String} {tiers : List (List String)}
  {done manifests : List (String × String)}

theorem eraseDups_of_nodup {l : List String} (nodup : l.Nodup) : l.eraseDups = l := by
  induction l with
  | nil => rfl
  | cons a l ih =>
    obtain ⟨new, nodup⟩ := List.nodup_cons.mp nodup
    have kept : l.filter (fun b => !b == a) = l :=
      List.filter_eq_self.mpr fun b mem => by
        simpa using fun same : b = a => new (same ▸ mem)
    rw [List.eraseDups_cons, kept, ih nodup]

theorem nodup_eraseDups (l : List String) : l.eraseDups.Nodup := by
  match l with
  | [] => exact List.nodup_nil
  | a :: l =>
    rw [List.eraseDups_cons, List.nodup_cons]
    have shorter := List.length_filter_le (fun b => !b == a) l
    exact ⟨by simp [List.mem_eraseDups], nodup_eraseDups _⟩
termination_by l.length

/-! Collecting manifests. -/

/-- Each manifest can be written, and has the text at its position. -/
def Written (resources : List Resource) (texts : List String) : Prop :=
  resources.map (fun r => serialize r.manifest) = texts.map .ok

theorem written_cons_iff {r : Resource} :
    Written (r :: resources) texts ↔ ∃ text more, serialize r.manifest = .ok text ∧
      texts = text :: more ∧ Written resources more := by
  cases texts <;> simp [Written, and_left_comm]

/-- What is wrong with a resource under an id, given the ids before it. -/
inductive Spoils (known : List String) (r : Resource) (id : String) : Fault → Prop
  | duplicate : id ∈ known → Spoils known r id (.duplicateId id)
  | manifest {cause : Json.Fault} : id ∉ known → serialize r.manifest = .error cause →
      Spoils known r id (.manifest cause)

theorem any_iff {id : String} : done.any (·.1 == id) = true ↔ id ∈ done.map (·.1) := by
  grind

theorem collect_cons_eq_ok_iff {r : Resource} {id : String} :
    collect done (r :: resources) (id :: ids) = .ok manifests ↔
      ∃ text, id ∉ done.map (·.1) ∧ serialize r.manifest = .ok text ∧
        collect (done ++ [(id, text)]) resources ids = .ok manifests := by
  rw [collect]
  split
  · rename_i known
    simp [-List.mem_map, any_iff.mp known]
  · rename_i new
    cases written : serialize r.manifest with
    | error cause => simp
    | ok text => simp [-List.mem_map, mt any_iff.mpr new]

theorem collect_cons_eq_error_iff {r : Resource} {id : String} {fault : Fault} :
    collect done (r :: resources) (id :: ids) = .error fault ↔
      Spoils (done.map (·.1)) r id fault ∨
        ∃ text, id ∉ done.map (·.1) ∧ serialize r.manifest = .ok text ∧
          collect (done ++ [(id, text)]) resources ids = .error fault := by
  rw [collect]
  split
  · rename_i known
    have known := any_iff.mp known
    simp only [known, not_true_eq_false, false_and, exists_false, or_false, Except.error.injEq]
    constructor
    · rintro rfl; exact .duplicate known
    · rintro (_ | new)
      · rfl
      · contradiction
  · rename_i new
    have new := mt any_iff.mpr new
    cases written : serialize r.manifest with
    | error cause =>
      simp only [reduceCtorEq, false_and, and_false, exists_false, or_false, Except.error.injEq]
      constructor
      · rintro rfl; exact .manifest new written
      · rintro (known | ⟨-, unwritten⟩)
        · contradiction
        · rw [written] at unwritten; rw [Except.error.inj unwritten]
    | ok text =>
      have sound : ¬ Spoils (done.map (·.1)) r id fault := by
        rintro (known | ⟨-, unwritten⟩)
        · contradiction
        · rw [written] at unwritten; contradiction
      simp [-List.mem_map, new, sound]

theorem collect_eq_ok_iff :
    collect done resources ids = .ok manifests ↔
      ids.length = resources.length ∧ ids.Nodup ∧ (∀ id ∈ ids, id ∉ done.map (·.1)) ∧
        ∃ texts, Written resources texts ∧ manifests = done ++ ids.zip texts := by
  induction resources generalizing ids done with
  | nil => cases ids <;> simp [collect, Written, eq_comm]
  | cons r resources ih =>
    cases ids with
    | nil => simp [collect]
    | cons id ids =>
      simp only [collect_cons_eq_ok_iff, ih, List.length_cons, List.nodup_cons,
        List.forall_mem_cons, List.map_append, List.map_cons, List.map_nil, List.mem_append,
        List.mem_singleton]
      constructor
      · rintro ⟨text, known, first, sameLength, nodup, new, texts, rest, rfl⟩
        exact ⟨by omega, ⟨fun mem => new id mem (.inr rfl), nodup⟩,
          ⟨known, fun other mem => mt .inl (new other mem)⟩, text :: texts,
          written_cons_iff.mpr ⟨text, texts, first, rfl, rest⟩, by simp⟩
      · rintro ⟨sameLength, ⟨fresh, nodup⟩, ⟨known, new⟩, texts, written, rfl⟩
        obtain ⟨text, more, first, rfl, rest⟩ := written_cons_iff.mp written
        refine ⟨text, known, first, by omega, nodup, fun other mem => ?_, more, rest, by simp⟩
        exact not_or.mpr ⟨new other mem, fun same => fresh (same ▸ mem)⟩

/-- Collecting stops at the first resource with which something is wrong. -/
theorem collect_eq_error_iff {fault : Fault} (own : Resource → String) :
    collect done resources (resources.map own) = .error fault ↔
      ∃ before r after manifests, resources = before ++ r :: after ∧
        collect done before (before.map own) = .ok manifests ∧
          Spoils (manifests.map (·.1)) r (own r) fault := by
  induction resources generalizing done with
  | nil => simp [collect]
  | cons r resources ih =>
    rw [List.map_cons, collect_cons_eq_error_iff]
    constructor
    · rintro (spoils | ⟨text, new, written, failed⟩)
      · exact ⟨[], r, resources, done, rfl, rfl, spoils⟩
      · obtain ⟨before, other, after, manifests, rfl, collected, spoils⟩ := ih.mp failed
        exact ⟨r :: before, other, after, manifests, rfl,
          collect_cons_eq_ok_iff.mpr ⟨text, new, written, collected⟩, spoils⟩
    · rintro ⟨before, other, after, manifests, parts, collected, spoils⟩
      cases before with
      | nil =>
        obtain ⟨rfl, rfl⟩ := List.cons.inj parts
        obtain rfl := Except.ok.inj collected
        exact .inl spoils
      | cons first before =>
        obtain ⟨rfl, rfl⟩ := List.cons.inj parts
        obtain ⟨text, new, written, rest⟩ := collect_cons_eq_ok_iff.mp collected
        exact .inr ⟨text, new, written,
          ih.mpr ⟨before, other, after, manifests, rfl, rest, spoils⟩⟩

/-! Tiers that part ids. -/

theorem disjointIds_eq_ok_iff {seen all : List String} :
    disjointIds seen tiers = .ok all ↔
      tiers.Pairwise List.Disjoint ∧ (∀ tier ∈ tiers, seen.Disjoint tier) ∧
        all = seen ++ tiers.flatten := by
  induction tiers generalizing seen with
  | nil => simp [disjointIds, eq_comm]
  | cons tier tiers ih =>
    have shared : seen.filter tier.contains = [] ↔ seen.Disjoint tier := by
      simp [List.filter_eq_nil_iff, List.Disjoint]
    rw [disjointIds]
    by_cases apart : seen.Disjoint tier
    · simp only [shared.mpr apart, ne_eq, not_true_eq_false, if_false, ih, List.pairwise_cons,
        List.forall_mem_cons, List.disjoint_append_left, List.flatten_cons, List.append_assoc]
      grind
    · simp [mt shared.mp apart, apart]

/-- Each id is in one of the three tiers, and nothing else is in any. -/
structure Parts (tiers : List (List String)) (ids : List String) : Prop where
  count : tiers.length = 3
  apart : tiers.Pairwise List.Disjoint
  covers : ∀ id, id ∈ tiers.flatten ↔ id ∈ ids

theorem disjoint_eraseDups_iff {a b : List String} :
    a.eraseDups.Disjoint b.eraseDups ↔ a.Disjoint b := by
  simp only [List.Disjoint, List.mem_eraseDups]

theorem mem_flatten_eraseDups {id : String} :
    id ∈ (tiers.map List.eraseDups).flatten ↔ id ∈ tiers.flatten := by
  simp [List.mem_flatten]

theorem Written.length_eq (written : Written resources texts) :
    texts.length = resources.length := by
  simpa using (congrArg List.length written).symm

theorem Written.unique {others : List String} (written : Written resources texts)
    (also : Written resources others) : texts = others :=
  List.map_injective_iff.mpr (fun _ _ => Except.ok.inj) (written.symm.trans also)

theorem map_fst_zip (sameLength : ids.length = resources.length)
    (written : Written resources texts) : (ids.zip texts).map (·.1) = ids :=
  List.map_fst_zip (Nat.le_of_eq (sameLength.trans written.length_eq.symm))

theorem assemble_of_collect_error {fault : Fault} (refused : collect [] resources ids = .error fault) :
    assemble resources ids tiers = .error fault := by
  simp [assemble, refused, bind, Except.bind]

theorem Parts.joined (parts : Parts tiers ids) :
    disjointIds [] (tiers.map List.eraseDups) = .ok (tiers.map List.eraseDups).flatten :=
  disjointIds_eq_ok_iff.mpr ⟨List.pairwise_map.mpr (parts.apart.imp disjoint_eraseDups_iff.mpr),
    fun _ _ => List.disjoint_nil_left _, rfl⟩

theorem unmatched_eq_nil_iff :
    ((tiers.map List.eraseDups).flatten.filter (!ids.contains ·) ++
      ids.filter (!(tiers.map List.eraseDups).flatten.contains ·)) = [] ↔
        ∀ id, id ∈ tiers.flatten ↔ id ∈ ids := by
  simp only [List.append_eq_nil_iff, List.filter_eq_nil_iff, Bool.not_eq_true, Bool.not_eq_false',
    List.contains_iff_mem, mem_flatten_eraseDups]
  exact ⟨fun both id => ⟨both.1 id, both.2 id⟩, fun same => ⟨fun id => (same id).mp,
    fun id => (same id).mpr⟩⟩

/-- With the manifests collected, a result is made when the tiers part the ids. -/
theorem assemble_of_collect_ok {result : BuildResult}
    (collected : collect [] resources ids = .ok manifests) (keys : manifests.map (·.1) = ids) :
    assemble resources ids tiers = .ok result ↔
      Parts tiers ids ∧ result = ⟨ids, tiers.map List.eraseDups, manifests⟩ := by
  have all : Tier.all.length = 3 := rfl
  simp only [assemble, collected, bind, Except.bind, keys, List.length_map, all]
  by_cases three : tiers.length = 3
  · simp only [three, ne_eq, not_true_eq_false, if_false]
    cases joined : disjointIds [] (tiers.map List.eraseDups) with
    | error fault =>
      have overlap : ¬ Parts tiers ids := fun parts => by
        rw [parts.joined] at joined
        contradiction
      simp [overlap]
    | ok seen =>
      obtain ⟨apart, -, rfl⟩ := disjointIds_eq_ok_iff.mp joined
      have apart : tiers.Pairwise List.Disjoint :=
        (List.pairwise_map.mp apart).imp disjoint_eraseDups_iff.mp
      simp only [List.nil_append]
      split
      · rename_i unmatched
        have gap : ¬ Parts tiers ids := fun parts =>
          unmatched (unmatched_eq_nil_iff.mpr parts.covers)
        simp [gap, throw, throwThe, MonadExceptOf.throw]
      · rename_i none_unmatched
        have parts : Parts tiers ids :=
          ⟨three, apart, unmatched_eq_nil_iff.mp (not_not.mp none_unmatched)⟩
        simp [parts, pure, Except.pure, eq_comm]
  · have short : ¬ Parts tiers ids := fun parts => three parts.count
    simp [three, short, throw, throwThe, MonadExceptOf.throw]

/-- What resources, ids and tiers must be to make a result, and the result they make. -/
theorem assemble_eq_ok_iff {result : BuildResult} :
    assemble resources ids tiers = .ok result ↔
      ids.length = resources.length ∧ ids.Nodup ∧ Parts tiers ids ∧
        ∃ texts, Written resources texts ∧
          result = ⟨ids, tiers.map List.eraseDups, ids.zip texts⟩ := by
  cases collected : collect [] resources ids with
  | error fault =>
    rw [assemble_of_collect_error collected]
    simp only [reduceCtorEq, false_iff]
    rintro ⟨sameLength, nodup, -, texts, written, -⟩
    have fine : collect [] resources ids = .ok ([] ++ ids.zip texts) :=
      collect_eq_ok_iff.mpr ⟨sameLength, nodup, fun _ _ => by simp, texts, written, rfl⟩
    rw [collected] at fine
    contradiction
  | ok manifests =>
    obtain ⟨sameLength, nodup, -, texts, written, rfl⟩ := collect_eq_ok_iff.mp collected
    rw [assemble_of_collect_ok collected (map_fst_zip sameLength written)]
    constructor
    · rintro ⟨parts, rfl⟩
      exact ⟨sameLength, nodup, parts, texts, written, rfl⟩
    · rintro ⟨-, -, parts, others, alsoWritten, rfl⟩
      exact ⟨parts, by rw [alsoWritten.unique written, List.nil_append]⟩

/-! The tiers of resources. -/

/-- The ids of the resources that belong to a tier. -/
def idsIn (resources : List Resource) (tier : Tier) : List String :=
  (resources.filter fun r => Tier.of r = tier).map Resource.id

theorem mem_idsIn {tier : Tier} {id : String} :
    id ∈ idsIn resources tier ↔ ∃ r ∈ resources, Tier.of r = tier ∧ r.id = id := by
  simp [idsIn, and_assoc]

theorem mem_classify {tier : Tier} {id : String} :
    id ∈ (Tier.classify resources).getD tier.number [] ↔
      ∃ r ∈ resources, Tier.of r = tier ∧ r.id = id := by
  have own : (Tier.classify resources).getD tier.number [] = (idsIn resources tier).eraseDups := by
    cases tier <;> rfl
  rw [own, List.mem_eraseDups, mem_idsIn]

/-- Each resource has its id in some tier. -/
theorem mem_flatten_classify {id : String} :
    id ∈ (Tier.classify resources).flatten ↔ ∃ r ∈ resources, r.id = id := by
  have all (tier : Tier) : tier ∈ Tier.all := by cases tier <;> decide
  have own : Tier.classify resources = Tier.all.map fun tier => (idsIn resources tier).eraseDups :=
    rfl
  simp only [own, List.mem_flatten, List.mem_map, exists_exists_and_eq_and, List.mem_eraseDups,
    mem_idsIn]
  grind

/-- No two tiers share an id exactly where resources of one id belong to one tier. -/
theorem apart_classify_iff :
    (Tier.classify resources).Pairwise List.Disjoint ↔
      ∀ r ∈ resources, ∀ s ∈ resources, r.id = s.id → Tier.of r = Tier.of s := by
  have each : (Tier.classify resources).Pairwise List.Disjoint ↔
      Tier.all.Pairwise fun a b => (idsIn resources a).Disjoint (idsIn resources b) := by
    simp only [Tier.classify, List.pairwise_map, disjoint_eraseDups_iff, idsIn]
  rw [each]
  constructor
  · intro apart r mem s also same
    by_contra other
    have all (tier : Tier) : tier ∈ Tier.all := by cases tier <;> decide
    have : Std.Symm fun a b => (idsIn resources a).Disjoint (idsIn resources b) :=
      ⟨fun _ _ apart _ first second => apart second first⟩
    have disjoint := apart.forall (all _) (all _) other
    exact disjoint (mem_idsIn.mpr ⟨r, mem, rfl, rfl⟩) (mem_idsIn.mpr ⟨s, also, rfl, same.symm⟩)
  · intro agree
    have distinct : Tier.all.Pairwise (· ≠ ·) := by decide
    refine distinct.imp fun other id first second => other ?_
    obtain ⟨r, mem, rfl, rfl⟩ := mem_idsIn.mp first
    obtain ⟨s, also, rfl, same⟩ := mem_idsIn.mp second
    exact agree r mem s also same.symm

section nodup

variable (nodup : (resources.map Resource.id).Nodup)

include nodup

theorem nodup_idsIn (tier : Tier) : (idsIn resources tier).Nodup :=
  nodup.sublist (List.filter_sublist.map _)

theorem classify_of_nodup : Tier.classify resources = Tier.all.map (idsIn resources) :=
  List.map_congr_left fun tier _ => eraseDups_of_nodup (nodup_idsIn nodup tier)

theorem classify_eraseDups :
    (Tier.classify resources).map List.eraseDups = Tier.all.map (idsIn resources) := by
  rw [classify_of_nodup nodup, List.map_map]
  exact List.map_congr_left fun tier _ => eraseDups_of_nodup (nodup_idsIn nodup tier)

/-- The tiers of resources without two of one id part their ids. -/
theorem parts_classify : Parts (Tier.classify resources) (resources.map Resource.id) where
  count := rfl
  apart := apart_classify_iff.mpr fun r mem s also same => by
    rw [List.inj_on_of_nodup_map nodup mem also same]
  covers id := by rw [mem_flatten_classify, List.mem_map]

end nodup

/-! The result of resources. -/

/-- No two resources have one id, and every manifest can be written. -/
structure Accepted (resources : List Resource) : Prop where
  ids : (resources.map Resource.id).Nodup
  manifests : ∀ r ∈ resources, ∃ text, serialize r.manifest = .ok text

theorem exists_written_iff :
    (∃ texts, Written resources texts) ↔ ∀ r ∈ resources, ∃ text, serialize r.manifest = .ok text := by
  induction resources with
  | nil => simp [Written]
  | cons r resources ih =>
    rw [List.forall_mem_cons, ← ih]
    simp [written_cons_iff]

theorem collect_own_ids :
    (∃ manifests, collect [] resources (resources.map Resource.id) = .ok manifests) ↔
      Accepted resources := by
  simp only [collect_eq_ok_iff, List.length_map, List.map_nil, List.not_mem_nil,
    not_false_eq_true, implies_true, true_and, List.nil_append]
  constructor
  · rintro ⟨_, nodup, texts, written, -⟩
    exact ⟨nodup, exists_written_iff.mp ⟨texts, written⟩⟩
  · intro accepted
    obtain ⟨texts, written⟩ := exists_written_iff.mpr accepted.manifests
    exact ⟨_, accepted.ids, texts, written, rfl⟩

theorem ofResources_eq_ok_iff {result : BuildResult} :
    ofResources resources = .ok result ↔
      Accepted resources ∧ ∃ texts, Written resources texts ∧
        result = ⟨resources.map Resource.id, Tier.all.map (idsIn resources),
          (resources.map Resource.id).zip texts⟩ := by
  rw [ofResources, assemble_eq_ok_iff]
  constructor
  · rintro ⟨-, nodup, -, texts, written, rfl⟩
    rw [classify_eraseDups nodup]
    exact ⟨⟨nodup, exists_written_iff.mp ⟨texts, written⟩⟩, texts, written, rfl⟩
  · rintro ⟨accepted, texts, written, rfl⟩
    rw [← classify_eraseDups accepted.ids]
    exact ⟨List.length_map _, accepted.ids, parts_classify accepted.ids, texts, written, rfl⟩

def tierIds (result : BuildResult) (tier : Tier) : List String :=
  result.tiers.getD tier.number []

/-- A result that has each resource in its place, and nothing else. -/
structure Holds (result : BuildResult) (resources : List Resource) : Prop where
  ids : ∀ id, id ∈ result.ids ↔ ∃ r ∈ resources, r.id = id
  ids_nodup : result.ids.Nodup
  ids_length : result.ids.length = resources.length
  manifests : ∀ id text, (id, text) ∈ result.manifests ↔
    ∃ r ∈ resources, r.id = id ∧ serialize r.manifest = .ok text
  keys_nodup : (result.manifests.map (·.1)).Nodup
  tiers_length : result.tiers.length = 3
  tiers_nodup : ∀ tier ∈ result.tiers, tier.Nodup
  tier : ∀ r ∈ resources, ∀ tier, r.id ∈ result.tierIds tier ↔ tier = Tier.of r
  tiers_disjoint : result.tiers.Pairwise List.Disjoint
  tiers_union : ∀ id, id ∈ result.tiers.flatten ↔ id ∈ result.ids

theorem mem_zip_of_written (written : Written resources texts) (id text : String) :
    (id, text) ∈ (resources.map Resource.id).zip texts ↔
      ∃ r ∈ resources, r.id = id ∧ serialize r.manifest = .ok text := by
  induction resources generalizing texts with
  | nil => simp
  | cons r resources ih =>
    obtain ⟨own, more, first, rfl, rest⟩ := written_cons_iff.mp written
    simp only [List.map_cons, List.zip_cons_cons, List.mem_cons, Prod.mk.injEq, ih rest,
      exists_eq_or_imp, first, Except.ok.injEq]
    grind

theorem tierIds_own (tier : Tier) :
    tierIds ⟨ids, Tier.all.map (idsIn resources), manifests⟩ tier = idsIn resources tier := by
  cases tier <;> rfl

theorem holds_of_ofResources {result : BuildResult} (made : ofResources resources = .ok result) :
    Holds result resources := by
  obtain ⟨accepted, texts, written, rfl⟩ := ofResources_eq_ok_iff.mp made
  have parts := parts_classify accepted.ids
  rw [classify_of_nodup accepted.ids] at parts
  exact {
    ids := fun id => by simp
    ids_nodup := accepted.ids
    ids_length := List.length_map _
    manifests := mem_zip_of_written written
    keys_nodup := by
      rw [map_fst_zip (List.length_map _) written]
      exact accepted.ids
    tiers_length := parts.count
    tiers_nodup := List.forall_mem_map.mpr fun tier _ => nodup_idsIn accepted.ids tier
    tier := fun r mem tier => by
      rw [tierIds_own, mem_idsIn]
      constructor
      · rintro ⟨other, also, rfl, same⟩
        rw [List.inj_on_of_nodup_map accepted.ids also mem same]
      · rintro rfl
        exact ⟨r, mem, rfl, rfl⟩
    tiers_disjoint := parts.apart
    tiers_union := parts.covers }

/-- The fault of resources is that of the first of them with which something is wrong. -/
theorem ofResources_eq_error_iff {fault : Fault} :
    ofResources resources = .error fault ↔
      ∃ before r after, resources = before ++ r :: after ∧ Accepted before ∧
        Spoils (before.map Resource.id) r r.id fault := by
  have stops : ofResources resources = .error fault ↔
      collect [] resources (resources.map Resource.id) = .error fault := by
    constructor
    · intro refused
      cases collected : collect [] resources (resources.map Resource.id) with
      | error cause =>
        rw [ofResources, assemble_of_collect_error collected] at refused
        rw [Except.error.inj refused]
      | ok manifests =>
        have accepted := collect_own_ids.mp ⟨manifests, collected⟩
        obtain ⟨texts, written⟩ := exists_written_iff.mpr accepted.manifests
        rw [ofResources_eq_ok_iff.mpr ⟨accepted, texts, written, rfl⟩] at refused
        contradiction
    · exact assemble_of_collect_error
  rw [stops, collect_eq_error_iff]
  have keys {before : List Resource} {manifests : List (String × String)}
      (collected : collect [] before (before.map Resource.id) = .ok manifests) :
      manifests.map (·.1) = before.map Resource.id := by
    obtain ⟨sameLength, -, -, texts, written, rfl⟩ := collect_eq_ok_iff.mp collected
    exact map_fst_zip sameLength written
  constructor
  · rintro ⟨before, r, after, manifests, parts, collected, spoils⟩
    rw [keys collected] at spoils
    exact ⟨before, r, after, parts, collect_own_ids.mp ⟨manifests, collected⟩, spoils⟩
  · rintro ⟨before, r, after, parts, accepted, spoils⟩
    obtain ⟨manifests, collected⟩ := collect_own_ids.mpr accepted
    rw [← keys collected] at spoils
    exact ⟨before, r, after, manifests, parts, collected, spoils⟩

/-- No resource is lost or misplaced. Resources make a result exactly when their ids differ
and their manifests can be written. The result has each of them in its place. Otherwise the
first of them that does not fit is named: for its id, or else for its manifest. -/
theorem ofResources_places_all (resources : List Resource) :
    ((∃ result, ofResources resources = .ok result) ↔
      (resources.map Resource.id).Nodup ∧
        ∀ r ∈ resources, ∃ text, serialize r.manifest = .ok text) ∧
    (∀ result, ofResources resources = .ok result → Holds result resources) ∧
    (∀ fault, ofResources resources = .error fault ↔
      ∃ before r after, resources = before ++ r :: after ∧ Accepted before ∧
        Spoils (before.map Resource.id) r r.id fault) ∧
    (∀ id, Build.Flow.resultCategory? (.duplicateId id) = some .input ∧
      (Fault.duplicateId id).message = "Duplicate resource id in build output: " ++ id) ∧
    ∀ cause, (Fault.manifest cause).message = cause.message := by
  refine ⟨?_, fun _ => holds_of_ofResources, fun _ => ofResources_eq_error_iff,
    fun _ => ⟨rfl, rfl⟩, fun _ => rfl⟩
  constructor
  · rintro ⟨result, made⟩
    obtain ⟨accepted, -⟩ := ofResources_eq_ok_iff.mp made
    exact ⟨accepted.ids, accepted.manifests⟩
  · rintro ⟨ids, manifests⟩
    obtain ⟨texts, written⟩ := exists_written_iff.mpr manifests
    exact ⟨_, ofResources_eq_ok_iff.mpr ⟨⟨ids, manifests⟩, texts, written, rfl⟩⟩

def hookAndNamespace : List Resource := [
  ⟨"admissionregistration.k8s.io/v1", "ValidatingWebhookConfiguration", "hook", "",
    .map [(.str "kind", .str "ValidatingWebhookConfiguration"), (.str "webhooks", .list [])]⟩,
  ⟨"v1", "Namespace", "shop", "", .map [(.str "kind", .str "Namespace"), (.str "a", .null)]⟩]

theorem ofResources_places_hook_and_namespace :
    ofResources hookAndNamespace = .ok {
      ids := ["admissionregistration.k8s.io_v1_ValidatingWebhookConfiguration|~X|hook",
        "~G_v1_Namespace|~X|shop"]
      tiers := [["~G_v1_Namespace|~X|shop"], [],
        ["admissionregistration.k8s.io_v1_ValidatingWebhookConfiguration|~X|hook"]]
      manifests := [
        ("admissionregistration.k8s.io_v1_ValidatingWebhookConfiguration|~X|hook",
          "\x7b\"kind\":\"ValidatingWebhookConfiguration\",\"webhooks\":[]\x7d"),
        ("~G_v1_Namespace|~X|shop", "\x7b\"a\":null,\"kind\":\"Namespace\"\x7d")] } ∧
    ∀ result, ofResources hookAndNamespace = .ok result → Holds result hookAndNamespace :=
  ⟨rfl, fun result made => (ofResources_places_all hookAndNamespace).2.1 result made⟩

end OverlayBuild.BuildResult
