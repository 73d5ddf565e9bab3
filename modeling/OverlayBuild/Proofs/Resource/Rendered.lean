import OverlayBuild.Proofs.Json.Renderable
import OverlayBuild.Proofs.Value.Graph
import OverlayBuild.Resource.Result
import OverlayBuild.Yaml.Document

/-! When a manifest has a text: no container in it holds itself, and all that is reached fits. A
container that is shared by several has its one text in each of them. -/
namespace OverlayBuild

open Value Json

/-! The text of a value does not depend on its level where all is on one line. -/

namespace Json

variable {level : Nat} {v : Value}

theorem writeAll_level {items : List Value}
    (each : ∀ v ∈ items, writeAt .canonical (level + 1) v = writeAt .canonical 1 v) :
    writeAll .canonical (level + 1) items = writeAll .canonical 1 items := by
  induction items with
  | nil => rfl
  | cons v items ih =>
    obtain ⟨own, each⟩ := List.forall_mem_cons.mp each
    rw [writeAll, writeAll, own, ih each]

theorem writeAt_level (v : Value) (level : Nat) :
    writeAt .canonical level v = writeAt .canonical 0 v := by
  induction v using nested generalizing level with
  | leaf v leaf => cases v <;> first | exact leaf.elim | rfl
  | list items ih =>
    have each : ∀ v ∈ items, writeAt .canonical (level + 1) v = writeAt .canonical 1 v :=
      fun v mem => (ih v mem _).trans (ih v mem 1).symm
    simp only [writeAt, writeAll_level each, enclose_canonical]
  | tuple items ih =>
    have each : ∀ v ∈ items, writeAt .canonical (level + 1) v = writeAt .canonical 1 v :=
      fun v mem => (ih v mem _).trans (ih v mem 1).symm
    simp only [writeAt, writeAll_level each, enclose_canonical]
  | map entries ih =>
    have each : writeEntries .canonical (level + 1) entries = writeEntries .canonical 1 entries := by
      rw [writeEntries_eq_map, writeEntries_eq_map]
      refine List.map_congr_left fun e mem => ?_
      rw [ih e mem, ih e mem 1]
    simp only [writeAt_map, each, enclose_canonical]
  | set items => rfl

def Fault.IsTyped : Fault → Prop
  | .unordered _ | .key _ | .value _ => True
  | .circular | .oversized => False

end Json

namespace Value.Graph

variable {n : Nat} {g : Graph n} {around : List (Fin n)} {a b : Fin n}

/-- What stands at an address can be rendered as far as it goes itself. -/
def Fits (g : Graph n) (a : Fin n) : Prop :=
  match g a with
  | .single v _ => v.IsRenderable
  | .list _ | .tuple _ => True
  | .map entries => KeysFit (keys entries)

/-- The integers that stand at an address, or are keys there, are short. -/
def IsBrief (g : Graph n) (a : Fin n) : Prop :=
  match g a with
  | .single v _ => v.Every IsShort
  | .list _ | .tuple _ => True
  | .map entries => ∀ e ∈ entries, e.1.Every IsShort

theorem every_single_iff {v : Value} (alone : v.IsSingle) :
    v.Every IsRenderable ↔ v.IsRenderable := by
  cases v <;> first | exact alone.elim | exact Iff.rfl | exact and_iff_left_of_imp False.elim

theorem every_isRenderable_iff :
    (g.valueIn around a).Every IsRenderable ↔ a ∉ around ∧ g.Fits a ∧
      ∀ b, g.Holds a b → (g.valueIn (a :: around) b).Every IsRenderable := by
  by_cases inside : a ∈ around
  · rw [valueIn_of_mem inside]
    exact iff_of_false id fun fit => fit.1 inside
  rw [valueIn, if_neg inside, Fits]
  simp only [Holds, inside, not_false_eq_true, true_and]
  cases g a with
  | single v alone => simp [Cell.members, every_single_iff alone]
  | list items => simp [Cell.members, every_list_iff, IsRenderable]
  | tuple items => simp [Cell.members, every_tuple_iff, IsRenderable]
  | map entries =>
    have same (f : Fin n → Value) : keys (entries.map fun e => (e.1, f e.2)) = keys entries :=
      List.map_map
    simp only [Cell.members, every_map_iff, IsRenderable, same, List.forall_mem_map]
    refine and_congr_right fun fit => forall₂_congr fun e mem => and_iff_right ?_
    exact ((keysFit_iff.mp fit).2 e.1 (List.mem_map_of_mem mem)).every_isRenderable

theorem every_isShort (brief : ∀ b, g.Reaches a b → g.IsBrief b) :
    (g.valueIn around a).Every IsShort := by
  induction measure : others around using Nat.strong_induction_on generalizing around a with
  | _ count ih =>
    by_cases inside : a ∈ around
    · rw [valueIn_of_mem inside]
      trivial
    have own : g.IsBrief a := brief a .refl
    have each : ∀ b ∈ (g a).members, (g.valueIn (a :: around) b).Every IsShort :=
      fun b next => ih _ (measure ▸ others_lt inside) (fun c reaches => brief c (.head next reaches)) rfl
    rw [IsBrief] at own
    rw [valueIn, if_neg inside]
    cases cell : g a with
    | single v alone => rwa [cell] at own
    | list items =>
      rw [cell] at each
      exact every_list_iff.mpr ⟨trivial, List.forall_mem_map.mpr each⟩
    | tuple items =>
      rw [cell] at each
      exact every_tuple_iff.mpr ⟨trivial, List.forall_mem_map.mpr each⟩
    | map entries =>
      rw [cell] at each own
      exact every_map_iff.mpr ⟨trivial, List.forall_mem_map.mpr fun e mem =>
        ⟨own e mem, each e.2 (List.mem_map_of_mem mem)⟩⟩

/-- The text of a container is made of those of what it holds, in each place where it does. -/
def Composed (text : Fin n → List Char) : Cell n → List Char → Prop
  | .single v _, cs => writeAt .canonical 0 v = .ok cs
  | .list items, cs | .tuple items, cs => cs = '[' :: separated (items.map text) ++ [']']
  | .map entries, cs => ∃ moved texts, moved.Perm entries ∧
      List.Forall₂ (fun e s => ∃ k, keyText .canonical e.1 = .ok k ∧ s = k ++ ':' :: text e.2)
        moved texts ∧ cs = '\x7b' :: separated texts ++ ['\x7d']

variable {text : Fin n → List Char} {cs : List Char}

theorem texts_eq {show_ : Fin n → Value} {items : List (Fin n)} {texts : List (List Char)}
    (each : ∀ b ∈ items, writeAt .canonical 1 (show_ b) = .ok (text b))
    (all : List.Forall₂ (fun v t => writeAt .canonical 1 v = .ok t) (items.map show_) texts) :
    texts = items.map text := by
  have both := (List.forall₂_and_left _ _).mpr ⟨each, List.forall₂_map_left_iff.mp all⟩
  have same : List.Forall₂ (· = ·) (items.map text) texts :=
    List.forall₂_map_left_iff.mpr (both.imp fun b t own => Except.ok.inj (own.1.symm.trans own.2))
  exact (List.forall₂_eq_eq_eq ▸ same).symm

theorem composed (acyclic : g.IsAcyclic a)
    (each : ∀ b, g.Holds a b → writeAt .canonical 0 (g.value b) = .ok (text b))
    (own : writeAt .canonical 0 (g.value a) = .ok cs) : Composed text (g a) cs := by
  have parts : ∀ b ∈ (g a).members, writeAt .canonical 1 (g.valueIn [a] b) = .ok (text b) :=
    fun b next => by rw [valueIn_eq_value acyclic next, writeAt_level, each b next]
  rw [value, valueIn, if_neg List.not_mem_nil] at own
  cases cell : g a with
  | single v alone =>
    rw [cell] at own
    exact own
  | list items =>
    rw [cell] at own parts
    obtain ⟨texts, all, rfl⟩ := writeAt_list_eq_ok own
    exact congrArg (fun texts => '[' :: separated texts ++ [']']) (texts_eq parts all)
  | tuple items =>
    rw [cell] at own parts
    obtain ⟨texts, all, rfl⟩ := writeAt_list_eq_ok own
    exact congrArg (fun texts => '[' :: separated texts ++ [']']) (texts_eq parts all)
  | map entries =>
    rw [cell] at own parts
    obtain ⟨-, moved, texts, same, all, rfl⟩ := writeAt_map_eq_ok own
    obtain ⟨ordered, order, rfl⟩ := exists_perm_of_perm_map same
    have each := (List.forall₂_and_left _ _).mpr
      ⟨fun e mem => parts e.2 (List.mem_map_of_mem (order.mem_iff.mp mem)),
        List.forall₂_map_left_iff.mp all⟩
    refine ⟨ordered, texts, order, each.imp ?_, rfl⟩
    rintro e _ ⟨known, k, t, named, made, rfl⟩
    exact ⟨k, named, by rw [Except.ok.inj (made.symm.trans known)]⟩

end Value.Graph

namespace BuildResult

theorem exists_serialize_iff {v : Value} (short : v.Every IsShort) :
    (∃ json, serialize v = .ok json) ↔ v.Every IsRenderable := by
  rw [← exists_writeAt_iff short, serialize, write]
  constructor
  · rintro ⟨json, made⟩
    obtain ⟨cs, made, -⟩ := map_eq_ok_iff.mp made
    exact ⟨cs, made⟩
  · rintro ⟨cs, made⟩
    exact ⟨_, map_eq_ok_iff.mpr ⟨cs, made, rfl⟩⟩

theorem exists_serialize_value_iff {n : Nat} {g : Graph n} {root : Fin n}
    (brief : ∀ a, g.Reaches root a → g.IsBrief a) :
    (∃ json, serialize (g.value root) = .ok json) ↔
      ∀ a, g.Reaches root a → ¬ g.Circular a ∧ g.Fits a :=
  (exists_serialize_iff (Graph.every_isShort brief)).trans
    (Graph.descends_iff (P := fun around a => (g.valueIn around a).Every IsRenderable)
      fun _ _ => Graph.every_isRenderable_iff)

/-- What keeps a value whose integers are short from being serialized is a type or a circle. -/
theorem spoils_of_serialize {v : Value} {fault : Json.Fault} (short : v.Every IsShort)
    (failed : serialize v = .error fault) :
    (fault.IsTyped ∨ fault = .circular) ∧ v.Has (Spoils fault) := by
  have spoilt : v.Has (Spoils fault) := has_spoils (map_eq_error_iff.mp failed)
  refine ⟨?_, spoilt⟩
  obtain ⟨w, spoils, brief, -⟩ := spoilt.exists_of_every short short
  cases spoils with
  | circular up => exact .inr rfl
  | oversized long => exact absurd brief long
  | _ => exact .inl trivial

/-- Where a value is serialized, all that is reached from it has one text each. -/
theorem exists_texts {n : Nat} {g : Graph n} {root : Fin n}
    (brief : ∀ a, g.Reaches root a → g.IsBrief a) (made : ∃ json, serialize (g.value root) = .ok json) :
    ∃ text : Fin n → List Char, ∀ a, g.Reaches root a →
      serialize (g.value a) = .ok (String.ofList (text a)) ∧ Graph.Composed text (g a) (text a) := by
  have sound := (exists_serialize_value_iff brief).mp made
  let text (a : Fin n) : List Char := (writeAt .canonical 0 (g.value a)).toOption.getD []
  have written : ∀ a, g.Reaches root a → writeAt .canonical 0 (g.value a) = .ok (text a) := by
    intro a reaches
    obtain ⟨json, own⟩ := (exists_serialize_value_iff
      fun b (further : g.Reaches a b) => brief b (reaches.trans further)).mpr
        fun b further => sound b (reaches.trans further)
    obtain ⟨cs, own, -⟩ := map_eq_ok_iff.mp own
    simp only [text, own, Except.toOption, Option.getD_some]
  refine ⟨text, fun a reaches => ⟨map_eq_ok_iff.mpr ⟨_, written a reaches, rfl⟩, ?_⟩⟩
  exact Graph.composed (fun b further => (sound b (reaches.trans further)).1)
    (fun b next => written b (reaches.tail next)) (written a reaches)

/-- A value whose integers are short is serialized exactly when it holds no references back, no
bytes, dates, moments and sets, and mappings only with keys that are all text, all numbers or null
alone; else the failure is over a type or a circle, and tells of a part that is in the way. With
containers that share others, none may hold itself; and each is rendered in every place that
holds it, with the text that it has by itself. -/
theorem serialize_renderable :
    (∀ v : Value, v.Every IsShort →
      ((∃ json, serialize v = .ok json) ↔ v.Every IsRenderable) ∧
      ∀ fault, serialize v = .error fault →
        (fault.IsTyped ∨ fault = .circular) ∧ v.Has (Spoils fault)) ∧
    ∀ (n : Nat) (g : Graph n) (root : Fin n), (∀ a, g.Reaches root a → g.IsBrief a) →
      ((∃ json, serialize (g.value root) = .ok json) ↔
        ∀ a, g.Reaches root a → ¬ g.Circular a ∧ g.Fits a) ∧
      ((∃ json, serialize (g.value root) = .ok json) →
        ∃ text : Fin n → List Char, ∀ a, g.Reaches root a →
          serialize (g.value a) = .ok (String.ofList (text a)) ∧
            Graph.Composed text (g a) (text a)) := by
  constructor
  · intro v short
    exact ⟨exists_serialize_iff short, fun fault => spoils_of_serialize short⟩
  · intro n g root brief
    exact ⟨exists_serialize_value_iff brief, exists_texts brief⟩

/-- What an anchor names is shared where an alias stands beside it, and holds itself where one stands
inside. -/
example :
    ((Yaml.read .manifest "- &a [x]\n- *a\n".toList).toOption.map serialize,
        (Yaml.read .manifest "&a [x, *a]\n".toList).toOption.map serialize) =
      (some (.ok "[[\"x\"],[\"x\"]]"), some (.error .circular)) := by decide +kernel

def sharedList : Graph 3
  | 0 => .map [(.str "b", 1), (.str "a", 1)]
  | 1 => .list [2, 2]
  | 2 => .single (.str "x") trivial

theorem sharedList_value :
    sharedList.value 0 = .map [(.str "b", .list [.str "x", .str "x"]),
      (.str "a", .list [.str "x", .str "x"])] := by
  have text : sharedList.valueIn [1, 0] 2 = .str "x" := by
    rw [Graph.valueIn]
    simp [sharedList]
  have list : sharedList.valueIn [0] 1 = .list [.str "x", .str "x"] := by
    rw [Graph.valueIn]
    simp [sharedList, text]
  rw [Graph.value, Graph.valueIn]
  simp [sharedList, list]

theorem sharedList_isBrief (a : Fin 3) : sharedList.IsBrief a := by
  match a with
  | 0 => simp [Graph.IsBrief, sharedList, Every, IsShort]
  | 1 => trivial
  | 2 => trivial

/-- The list is rendered under both keys, with its own text. -/
theorem serialize_renderable_of_sharedList :
    (∀ a, sharedList.Reaches 0 a → sharedList.IsBrief a) ∧ (sharedList.value 0).Every IsShort ∧
    serialize (sharedList.value 0) = .ok "\x7b\"a\":[\"x\",\"x\"],\"b\":[\"x\",\"x\"]\x7d" ∧
    (sharedList.value 0).Every IsRenderable ∧
    (∀ a, sharedList.Reaches 0 a → ¬ sharedList.Circular a ∧ sharedList.Fits a) ∧
    ∃ text : Fin 3 → List Char, serialize (sharedList.value 1) = .ok (String.ofList (text 1)) ∧
      Graph.Composed text (sharedList 0) (text 0) := by
  have brief : ∀ a, sharedList.Reaches 0 a → sharedList.IsBrief a := fun a _ => sharedList_isBrief a
  have short : (sharedList.value 0).Every IsShort := Graph.every_isShort brief
  have made : serialize (sharedList.value 0) =
      .ok "\x7b\"a\":[\"x\",\"x\"],\"b\":[\"x\",\"x\"]\x7d" := by
    rw [sharedList_value]
    decide +kernel
  obtain ⟨sound, texts⟩ := serialize_renderable.2 3 sharedList 0 brief
  obtain ⟨text, each⟩ := texts ⟨_, made⟩
  have held : sharedList.Holds 0 1 := List.mem_cons_self
  exact ⟨brief, short, made, ((serialize_renderable.1 _ short).1).mp ⟨_, made⟩, sound.mp ⟨_, made⟩,
    text, (each 1 (.single held)).1, (each 0 .refl).2⟩

end BuildResult

end OverlayBuild
