import OverlayBuild.Proofs.Spec.Faithful
import OverlayBuild.Proofs.Spec.Replacement

/-! Lists on their way to the document. What a list says reaches the document item by item and in
order, so that a list of two parts is documented as the one part and then the other, and a value
that stands for itself is read like the list of it alone. -/
namespace OverlayBuild

namespace Value

variable {v : Value} {items : List Value} {entries fields : List (Value × Value)} {key : String}

def listAt (key : String) : Value → Option (List Value)
  | .map entries =>
    match find? key entries with
    | none => some []
    | some (.list items) => some items
    | some _ => none
  | _ => none

/-- Of a list in a mapping pruning leaves its items, pruned, with the key or without it. -/
theorem listAt_pruned (other : .str key ∉ fields.map (·.1)) (distinct : (entries.map (·.1)).Nodup)
    (own : find? key entries = some (.list items)) :
    listAt key (.map (fields ++ pruneEntries entries)) = some (pruneItems items) := by
  rw [listAt, find?_append_of_not_mem other, find?_pruneEntries distinct, own, Option.map_some, prune]
  cases pruneItems items <;> rfl

/-- Members make a value a list, where nothing else does. -/
theorem lone_of_members (given : v.members? = some items) :
    Compose.isSingle v = false ∧ Compose.isMapping v = false ∧ v.isPresent = !items.isEmpty := by
  cases v with
  | list own | tuple own =>
    obtain rfl := Option.some.inj given
    cases own <;> exact ⟨rfl, rfl, rfl⟩
  | set own =>
    obtain rfl := Option.some.inj given
    exact ⟨rfl, rfl, rfl⟩
  | _ => contradiction

end Value

namespace Compose

open Value Spec

variable {v w x : Value} {items : List Value} {s t r : Spec}

/-- The items of a list: its members, and none where there is no list. -/
def Holds (v : Value) (items : List Value) : Prop := v.members? = some items ∨ v = .null ∧ items = []

theorem listed_of_holds (holds : Holds v items) :
    listed v = (items.filter fun item => !item.isNull).map rendered := by
  rcases holds with given | ⟨rfl, rfl⟩
  · obtain ⟨plural, unmapped, present⟩ := lone_of_members given
    rw [listed, plural, unmapped, contents_of_members given, present]
    cases items <;> rfl
  · rfl

theorem itemsOf_of_holds (holds : Holds v items) : itemsOf v = items := by
  rcases holds with given | ⟨rfl, rfl⟩
  · obtain ⟨plural, unmapped, present⟩ := lone_of_members given
    rw [itemsOf, plural, unmapped, contents_of_members given, present]
    cases items <;> rfl
  · rfl

/-- The blocks among items are their mappings. -/
theorem map_filterMap_entries? {α : Type} (f : List (Value × Value) → α) (items : List Value) :
    (items.filterMap entries?).map f = (items.filter isMapping).map fun item => f (fieldsOf item) := by
  induction items with
  | nil => rfl
  | cons item items ih =>
    cases block : item.entries? with
    | none =>
      have unmapped : ¬isMapping item = true := by simp [isMapping, block]
      rw [List.filterMap_cons_none block, List.filter_cons_of_neg unmapped, ih]
    | some fields =>
      have mapping : isMapping item = true := by simp [isMapping, block]
      rw [List.filterMap_cons_some block, List.filter_cons_of_pos mapping, List.map_cons,
        List.map_cons, fieldsOf_eq block, ih]

/-! The lists that can be declared, and where the document has them. -/

namespace Declared

def documentKey : Declared → String
  | .components => "components"
  | .crds => "crds"
  | .resources => "resources"
  | .configMaps => "configMapGenerator"
  | .secrets => "secretGenerator"
  | .images => "images"
  | .replicas => "replicas"
  | .patches => "patches"

/-- Which items a list keeps: all but null in a list of texts, the mappings in a list of blocks. -/
def takes : Declared → Value → Bool
  | .components, item | .crds, item | .resources, item => !item.isNull
  | .configMaps, item | .secrets, item | .images, item | .replicas, item | .patches, item =>
    isMapping item

def shown : Declared → Value → Value
  | .components, item | .crds, item | .resources, item => .str (rendered item)
  | .configMaps, item => prune (generatorFields (generatorOf (fieldsOf item)))
  | .secrets, item => prune (secretFields (secretOf (fieldsOf item)))
  | .images, item => prune (imageFields (imageOf (fieldsOf item)))
  | .replicas, item => prune (replicaFields (replicaOf (fieldsOf item)))
  | .patches, item => prune (patchFields (patchOf (fieldsOf item)))

/-- Whether a value in the place of the list is read as an item of it: a text or a number, and in
the place of blocks a mapping. -/
def lone : Declared → Value → Bool
  | .components, v | .crds, v | .resources, v => isSingle v
  | .configMaps, v | .secrets, v | .images, v | .replicas, v | .patches, v =>
    isSingle v || isMapping v

end Declared

theorem documentKey_not_mem_header (list : Declared) :
    .str list.documentKey ∉ header.map (·.1) := by
  cases list <;> simp [Declared.documentKey, header, entry]

theorem listAt_document {list : Declared} {values : List Value}
    (own : find? list.documentKey s.fields = some (.list values)) :
    listAt list.documentKey s.document = some (pruneItems values) :=
  listAt_pruned (documentKey_not_mem_header list) s.keys_fields_nodup own

theorem listAt_texts {list : Declared} (own : find? list.documentKey s.fields = some (texts (listed x)))
    (holds : Holds x items) :
    listAt list.documentKey s.document =
      some ((items.filter fun item => !item.isNull).map fun item => .str (rendered item)) := by
  rw [listAt_document own, pruneItems_texts, listed_of_holds holds, List.map_map]
  rfl

theorem listAt_blocks {α : Type} {f : α → Value} {read : List (Value × Value) → α} (list : Declared)
    (blocks : ∀ a, ∃ entries, f a = .map entries)
    (own : find? list.documentKey s.fields = some (.list (((blocksOf x).map read).map f))) :
    listAt list.documentKey s.document =
      some ((blocksOf x).map fun fields => prune (f (read fields))) := by
  rw [listAt_document own, pruneItems_blocks blocks, List.map_map]
  rfl

theorem blocksOf_of_holds {α : Type} {f : List (Value × Value) → α} (holds : Holds x items) :
    (blocksOf x).map f = (items.filter isMapping).map fun item => f (fieldsOf item) := by
  rw [blocksOf, itemsOf_of_holds holds, map_filterMap_entries?]

/-- The document has a list with the items that it keeps, in order. -/
theorem listAt_declared {notices : List Notice} (list : Declared)
    (composed : compose v = .ok (s, notices))
    (holds : Holds (under list.key v) items) :
    listAt list.documentKey s.document = some ((items.filter list.takes).map list.shown) := by
  obtain rfl := eq_specOf composed
  cases list with
  | components | crds | resources => exact listAt_texts rfl holds
  | configMaps | secrets | images | replicas | patches =>
    exact (listAt_blocks _ (fun _ => ⟨_, rfl⟩) rfl).trans (congrArg some (blocksOf_of_holds holds))

/-! Lists within the blocks of generators. -/

inductive Generators where
  | configMaps
  | secrets
  deriving DecidableEq, Repr

def Generators.list : Generators → Declared
  | .configMaps => .configMaps
  | .secrets => .secrets

inductive Source where
  | literals
  | envs
  | files
  deriving DecidableEq, Repr

def Source.key : Source → String
  | .literals => "literals"
  | .envs => "envs"
  | .files => "files"

theorem listAt_source {fields entries : List (Value × Value)} {source : Source}
    (distinct : (entries.map (·.1)).Nodup)
    (own : find? source.key entries = some (texts (listed (Value.field source.key fields))))
    (holds : Holds (Value.field source.key fields) items) :
    listAt source.key (prune (.map entries)) =
      some ((items.filter fun item => !item.isNull).map fun item => .str (rendered item)) := by
  have pruned : listAt source.key (.map ([] ++ pruneEntries entries)) = _ :=
    listAt_pruned List.not_mem_nil distinct own
  rw [pruneItems_texts, listed_of_holds holds, List.map_map] at pruned
  rw [prune]
  exact pruned

/-- Where a list is declared: in an attribute, or in the block of a generator that follows `index`
others. -/
inductive Site where
  | declared (name : Declared)
  | within (generators : Generators) (index : Nat) (source : Source)
  deriving DecidableEq, Repr

namespace Site

def value : Site → Value → Value
  | .declared name, v => under name.key v
  | .within generators index source, v =>
    Value.field source.key ((blocksOf (under generators.list.key v))[index]?.getD [])

/-- The list that a document has there, empty where the key or the block is missing. -/
def documented : Site → Value → Option (List Value)
  | .declared name, document => listAt name.documentKey document
  | .within generators index source, document => do
    let blocks ← listAt generators.list.documentKey document
    listAt source.key (blocks[index]?.getD (.map []))

def takes : Site → Value → Bool
  | .declared name => name.takes
  | .within .. => fun item => !item.isNull

def shown : Site → Value → Value
  | .declared name => name.shown
  | .within .. => fun item => .str (rendered item)

def lone : Site → Value → Bool
  | .declared name => name.lone
  | .within .. => isSingle

def kept (site : Site) (items : List Value) : List Value := (items.filter site.takes).map site.shown

theorem length_kept (site : Site) (items : List Value) :
    (site.kept items).length = items.countP site.takes := by
  rw [kept, List.length_map, List.countP_eq_length_filter]

theorem kept_append (site : Site) (items others : List Value) :
    site.kept (items ++ others) = site.kept items ++ site.kept others := by
  rw [kept, List.filter_append, List.map_append, kept, kept]

/-- Attributes that say the same everywhere else. -/
def SameElsewhere : Site → Value → Value → Prop
  | .declared name, v, w => SameBut name.key v w
  | .within generators index source, v, w => SameButIn generators.list.key index source.key v w

end Site

/-- The document has a list of a generator in the block that is made of the generator. -/
theorem documented_within {α : Type} {f : α → Value} {read : List (Value × Value) → α}
    {generators : Generators} {index : Nat} {source : Source} {document : Value}
    (all : listAt generators.list.documentKey document =
      some ((blocksOf (under generators.list.key v)).map fun fields => prune (f (read fields))))
    (own : ∀ fields, Holds (Value.field source.key fields) items →
      listAt source.key (prune (f (read fields))) =
        some ((items.filter fun item => !item.isNull).map fun item => .str (rendered item)))
    (holds : Holds ((Site.within generators index source).value v) items) :
    (Site.within generators index source).documented document =
      some ((Site.within generators index source).kept items) := by
  rw [Site.documented, all, Option.bind_eq_bind, Option.bind_some, List.getElem?_map]
  rw [Site.value] at holds
  cases place : (blocksOf (under generators.list.key v))[index]? with
  | none =>
    rw [place] at holds
    rcases holds with given | ⟨-, rfl⟩
    · contradiction
    · rfl
  | some fields =>
    rw [place, Option.getD_some] at holds
    exact own fields holds

theorem documented_eq {notices : List Notice} (site : Site) (composed : compose v = .ok (s, notices))
    (holds : Holds (site.value v) items) : site.documented s.document = some (site.kept items) := by
  cases site with
  | declared name => exact listAt_declared name composed holds
  | within generators index source =>
    obtain rfl := eq_specOf composed
    cases generators with
    | configMaps =>
      refine documented_within (listAt_blocks _ (fun _ => ⟨_, rfl⟩) rfl)
        (fun fields => listAt_source ?_ ?_) holds
      · simp [generatorEntries, entry]
      · cases source <;> rfl
    | secrets =>
      refine documented_within (listAt_blocks _ (fun _ => ⟨_, rfl⟩) rfl)
        (fun fields => listAt_source ?_ ?_) holds
      · simp [generatorEntries, entry]
      · cases source <;> rfl

/-! Values that stand for the list of themselves. -/

theorem textList_of_single (single : isSingle x = true) (present : x.isPresent = true)
    (one : w.members? = some [x]) : textList x = textList w := by
  obtain ⟨plural, unmapped, some⟩ := lone_of_members one
  have given : members w = pure [x] := by simp only [members, one]
  have kept : (!x.isNull) = true := by
    cases x with
    | null => contradiction
    | _ => rfl
  rw [textList, textList, present, single, plural, unmapped, some, given]
  simp [kept]

theorem standing_of_lone (lone : (isSingle x || isMapping x) = true) (present : x.isPresent = true)
    (one : w.members? = some [x]) : standing x = standing w := by
  obtain ⟨plural, unmapped, some⟩ := lone_of_members one
  have given : members w = pure [x] := by simp only [members, one]
  rw [standing, standing, present, lone, plural, unmapped, some, given]
  rfl

theorem composeBlocks_of_lone {α : Type} {key : String} {compose : List (Value × Value) → Compose α}
    (lone : (isSingle x || isMapping x) = true) (present : x.isPresent = true)
    (one : w.members? = some [x]) : composeBlocks key compose x = composeBlocks key compose w := by
  rw [composeBlocks, composeBlocks, standing_of_lone lone present one]

theorem readAlike_of_lone {name : Declared} (lone : name.lone x = true) (present : x.isPresent = true)
    (one : w.members? = some [x]) : name.ReadAlike x w := by
  cases name with
  | components | crds | resources => exact textList_of_single lone present one
  | configMaps | secrets | images | replicas | patches => exact composeBlocks_of_lone lone present one

/-- A generator is composed alike from blocks that say the same but for one list that is read
alike. -/
theorem generator_congr {source : Source} {b c : Value} (same : SameBut source.key b c)
    (alike : textList (under source.key b) = textList (under source.key c)) :
    generator (fieldsOf b) = generator (fieldsOf c) := by
  obtain ⟨-, -, same⟩ := same
  simp only [under] at same alike
  rw [generator, generator]
  cases source <;> simp only [Source.key] at same alike <;>
    simp (disch := decide) only [same, alike]

theorem secretGenerator_congr {source : Source} {b c : Value} (same : SameBut source.key b c)
    (alike : textList (under source.key b) = textList (under source.key c)) :
    secretGenerator (fieldsOf b) = secretGenerator (fieldsOf c) := by
  have type : Value.field "type" (fieldsOf b) = Value.field "type" (fieldsOf c) :=
    same.2.2 "type" (by cases source <;> decide)
  rw [secretGenerator, secretGenerator, generator_congr same alike, type]

theorem compose_of_lone (site : Site) (same : site.SameElsewhere v w)
    (lone : site.lone (site.value v) = true) (present : (site.value v).isPresent = true)
    (one : (site.value w).members? = some [site.value v]) : compose v = compose w := by
  cases site with
  | declared name => exact compose_congr name same (readAlike_of_lone lone present one)
  | within generators index source =>
    obtain ⟨outside, before, b, c, after, first, second, place, inside⟩ := same
    have ⟨block, also, _⟩ := inside
    have own : (Site.within generators index source).value v = under source.key b := by
      rw [Site.value, blocksOf_getElem? first block place]
      rfl
    have other : (Site.within generators index source).value w = under source.key c := by
      rw [Site.value, blocksOf_getElem? second also place]
      rfl
    rw [own] at lone present one
    rw [other] at one
    have alike := textList_of_single lone present one
    cases generators with
    | configMaps =>
      exact compose_congr .configMaps outside
        (composeBlocks_congr first second block also (generator_congr inside alike))
    | secrets =>
      exact compose_congr .secrets outside
        (composeBlocks_congr first second block also (secretGenerator_congr inside alike))

/-- Every list that can be declared reaches the document with one item for each item that is kept,
in order. So a list of two parts is documented as the one part and then the other, and a value that
stands for itself is composed like the list of it alone. -/
theorem document_keeps_lists (site : Site) :
    (∀ {v : Value} {s : Spec} {notices : List Notice} {items : List Value},
      compose v = .ok (s, notices) → Holds (site.value v) items →
      site.documented s.document = some (site.kept items) ∧
        (site.kept items).length = items.countP site.takes) ∧
    (∀ {u v w : Value} {r s t : Spec} {before after all : List Notice} {firsts seconds : List Value},
      compose u = .ok (r, before) → compose v = .ok (s, after) → compose w = .ok (t, all) →
      Holds (site.value u) firsts → Holds (site.value v) seconds →
      Holds (site.value w) (firsts ++ seconds) →
      ∃ one other, site.documented r.document = some one ∧ site.documented s.document = some other ∧
        site.documented t.document = some (one ++ other)) ∧
    ∀ {v w : Value}, site.SameElsewhere v w → site.lone (site.value v) = true →
      (site.value v).isPresent = true → (site.value w).members? = some [site.value v] →
      compose v = compose w := by
  refine ⟨?_, ?_, compose_of_lone site⟩
  · intro v s notices items composed holds
    exact ⟨documented_eq site composed holds, site.length_kept items⟩
  · intro u v w r s t before after all firsts seconds composed also whole given next both
    refine ⟨site.kept firsts, site.kept seconds, documented_eq site composed given,
      documented_eq site also next, ?_⟩
    rw [documented_eq site whole both, site.kept_append]

def sourced (literals : Value) : Value := .map [(.str "config_map_generator",
  .list [.null, .map [(.str "name", .str "a")], .map [(.str "literals", literals)]])]

def sourcedSpec (literals : List String) : Spec :=
  ⟨[], [], [], [⟨"a", "", [], [], []⟩, ⟨"", "", literals, [], []⟩], [], [], "", "", "", [], [], [], []⟩

theorem document_keeps_lists_of_literals :
    let site := Site.within .configMaps 1 .literals
    compose (sourced (.list [.str "", .null])) = .ok (sourcedSpec [""], []) ∧
    compose (sourced (.list [.bool true, .str ""])) = .ok (sourcedSpec ["true", ""], []) ∧
    compose (sourced (.list [.str "", .null, .bool true, .str ""])) =
      .ok (sourcedSpec ["", "true", ""], []) ∧
    site.documented (sourcedSpec ["true", ""]).document = some [.str "true", .str ""] ∧
    (∃ one other, site.documented (sourcedSpec [""]).document = some one ∧
      site.documented (sourcedSpec ["true", ""]).document = some other ∧
      site.documented (sourcedSpec ["", "true", ""]).document = some (one ++ other)) ∧
    compose (sourced (.str "a=b")) = compose (sourced (.list [.str "a=b"])) := by
  intro site
  obtain ⟨kept, joined, alone⟩ := document_keeps_lists site
  have first : compose (sourced (.list [.str "", .null])) = .ok (sourcedSpec [""], []) := rfl
  have second : compose (sourced (.list [.bool true, .str ""])) =
      .ok (sourcedSpec ["true", ""], []) := rfl
  have whole : compose (sourced (.list [.str "", .null, .bool true, .str ""])) =
      .ok (sourcedSpec ["", "true", ""], []) := rfl
  refine ⟨first, second, whole, (kept second (.inl rfl)).1,
    joined first second whole (.inl rfl) (.inl rfl) (.inl rfl), ?_⟩
  have elsewhere : site.SameElsewhere (sourced (.str "a=b")) (sourced (.list [.str "a=b"])) :=
    ⟨sameBut_singleton _ _ _, [.null, .map [(.str "name", .str "a")]], _, _, [], rfl, rfl, rfl,
      sameBut_singleton _ _ _⟩
  exact alone elsewhere rfl rfl rfl

end Compose

end OverlayBuild
