import Mathlib.Data.List.Nodup
import OverlayBuild.Spec.Compose

/-! What composing gives where it gives anything. The notices that are collected on the way
have no part in it, so a composition that gives something is followed step by step, whatever
was noticed before. -/
namespace OverlayBuild

namespace Text.Dictionary

variable {α : Type} {pairs : List (String × α)}

theorem insert_new {key : String} (new : key ∉ pairs.map (·.1)) (value : α) :
    insert key value pairs = pairs ++ [(key, value)] := by
  induction pairs with
  | nil => rfl
  | cons p pairs ih =>
    rw [List.map_cons, List.mem_cons, not_or] at new
    rw [insert, if_neg (Ne.symm new.1), ih new.2, List.cons_append]

theorem foldl_insert {done : List (String × α)} (nodup : ((done ++ pairs).map (·.1)).Nodup) :
    pairs.foldl (fun entries p => insert p.1 p.2 entries) done = done ++ pairs := by
  induction pairs generalizing done with
  | nil => simp
  | cons p pairs ih =>
    have new : p.1 ∉ done.map (·.1) := fun mem => by
      rw [List.map_append, List.nodup_append] at nodup
      exact nodup.2.2 _ mem p.1 (by simp) rfl
    rw [List.foldl_cons, insert_new new, ih (by simpa using nodup), List.append_assoc]
    rfl

theorem ofPairs_of_nodup (nodup : (pairs.map (·.1)).Nodup) : ofPairs pairs = pairs :=
  foldl_insert nodup

end Text.Dictionary

namespace Compose

variable {α β : Type}

def Gives (x : Compose α) (a : α) : Prop :=
  ∃ before after, x.run before = .ok (a, after)

theorem Gives.bind {x : Compose α} {f : α → Compose β} {b : β} (gives : Gives (x >>= f) b) :
    ∃ a, Gives x a ∧ Gives (f a) b := by
  obtain ⟨before, after, run⟩ := gives
  rw [StateT.run_bind] at run
  cases first : x.run before with
  | error fault => rw [first] at run; contradiction
  | ok result => rw [first] at run; exact ⟨result.1, ⟨_, _, first⟩, _, _, run⟩

theorem Gives.pure {a b : α} (gives : Gives (pure a) b) : b = a := by
  obtain ⟨before, after, run⟩ := gives
  exact (Prod.mk.inj (Except.ok.inj run)).1.symm

theorem Gives.mapM {f : α → Compose β} {g : α → β} {items : List α} {results : List β}
    (gives : Gives (items.mapM f) results) (each : ∀ a b, Gives (f a) b → b = g a) :
    results = items.map g := by
  induction items generalizing results with
  | nil =>
    rw [List.mapM_nil] at gives
    exact gives.pure
  | cons a items ih =>
    rw [List.mapM_cons] at gives
    obtain ⟨b, first, gives⟩ := gives.bind
    obtain ⟨rest, others, gives⟩ := gives.bind
    rw [gives.pure, each a b first, ih others, List.map_cons]

theorem Gives.shown {v : Value} {s : String} (gives : Gives (shown v) s) : s = v.text := by
  rw [Compose.shown] at gives
  split at gives
  · obtain ⟨before, after, run⟩ := gives
    contradiction
  · exact gives.pure

/-- The text that stands for a value: nothing for null, and lower case words for booleans. -/
def rendered : Value → String
  | .null => ""
  | .bool b => if b then "true" else "false"
  | v => v.text

theorem Gives.text {v : Value} {s : String} (gives : Gives (text v) s) : s = rendered v := by
  cases v with
  | null => exact gives.pure
  | bool b => exact gives.pure
  | _ => exact gives.shown

def Declares (v : Value) (declared : List (String × Value)) : Prop :=
  v.entries? = some (declared.map fun e => (.str e.1, e.2)) ∧ (declared.map (·.1)).Nodup

theorem Declares.eq_nil {v : Value} {declared : List (String × Value)}
    (declares : Declares v declared) (absent : v.isPresent = false) : declared = [] := by
  obtain ⟨mapping, -⟩ := declares
  cases v with
  | map entries =>
    cases entries with
    | nil => exact List.map_eq_nil_iff.mp (Option.some.inj mapping).symm
    | cons e entries => contradiction
  | _ => contradiction

theorem Gives.textMap {v : Value} {declared : List (String × Value)}
    {texts : List (String × String)} (gives : Gives (textMap v) texts)
    (declares : Declares v declared) : texts = declared.map fun e => (e.1, rendered e.2) := by
  rw [Compose.textMap] at gives
  split at gives
  · rename_i absent
    rw [gives.pure, declares.eq_nil (by simpa using absent), List.map_nil]
  · rw [declares.1] at gives
    obtain ⟨pairs, each, gives⟩ := gives.bind
    have texts_of_entry (e : Value × Value) (pair : String × String)
        (gives : Gives (do return (← Compose.shown e.1, ← Compose.text e.2)) pair) :
        pair = (e.1.text, rendered e.2) := by
      obtain ⟨key, first, gives⟩ := gives.bind
      obtain ⟨value, second, gives⟩ := gives.bind
      rw [gives.pure, first.shown, second.text]
    have same : pairs = declared.map fun e => (e.1, rendered e.2) := by
      rw [each.mapM texts_of_entry, List.map_map]
      rfl
    have nodup : (pairs.map (·.1)).Nodup := by
      rw [same, List.map_map]
      exact declares.2
    rw [gives.pure, Text.Dictionary.ofPairs_of_nodup nodup, same]

/-- The fields of a specification are those that the entries give. -/
structure Composed (entries : List (Value × Value)) (s : Spec) : Prop where
  commonAnnotations :
    Gives (textMap (Value.field "common_annotations" entries)) s.commonAnnotations
  commonLabels : Gives (textMap (Value.field "common_labels" entries)) s.commonLabels
  components : Gives (textList (Value.field "components" entries)) s.components
  configMapGenerator : Gives (blocks entries "config_map_generator" generator) s.configMapGenerator
  crds : Gives (textList (Value.field "crds" entries)) s.crds
  images : Gives (blocks entries "images" image) s.images
  namePrefix : Gives (text (Value.field "name_prefix" entries)) s.namePrefix
  nameSuffix : Gives (text (Value.field "name_suffix" entries)) s.nameSuffix
  namespace_ : Gives (text (Value.field "namespace" entries)) s.namespace_
  replicas : Gives (blocks entries "replicas" replica) s.replicas
  resources : Gives (textList (Value.field "resources" entries)) s.resources
  secretGenerator : Gives (blocks entries "secret_generator" secretGenerator) s.secretGenerator
  patches : Gives (blocks entries "patches" patch) s.patches

theorem Gives.spec {v : Value} {s : Spec} (gives : Gives (spec v) s) :
    ∃ entries, Gives (attributes v) entries ∧ Composed entries s := by
  obtain ⟨entries, given, gives⟩ := gives.bind
  obtain ⟨_, commonAnnotations, gives⟩ := gives.bind
  obtain ⟨_, commonLabels, gives⟩ := gives.bind
  obtain ⟨_, components, gives⟩ := gives.bind
  obtain ⟨_, configMapGenerator, gives⟩ := gives.bind
  obtain ⟨_, crds, gives⟩ := gives.bind
  obtain ⟨_, images, gives⟩ := gives.bind
  obtain ⟨_, namePrefix, gives⟩ := gives.bind
  obtain ⟨_, nameSuffix, gives⟩ := gives.bind
  obtain ⟨_, namespace_, gives⟩ := gives.bind
  obtain ⟨_, replicas, gives⟩ := gives.bind
  obtain ⟨_, resources, gives⟩ := gives.bind
  obtain ⟨_, secretGenerator, gives⟩ := gives.bind
  obtain ⟨_, patches, gives⟩ := gives.bind
  obtain rfl := gives.pure
  exact ⟨entries, given, ⟨commonAnnotations, commonLabels, components, configMapGenerator, crds,
    images, namePrefix, nameSuffix, namespace_, replicas, resources, secretGenerator, patches⟩⟩

theorem gives_of_compose {v : Value} {s : Spec} {notices : List Notice}
    (composed : compose v = .ok (s, notices)) : Gives (spec v) s :=
  ⟨[], notices, composed⟩

end Compose

end OverlayBuild
