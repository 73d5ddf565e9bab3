import OverlayBuild.Resource.Identifier

/-! Which identifiers are read back from their text. A text is cut at the first two bars,
and what stands before the first bar at the first two underscores, so the pieces are those
of the one way to take the text apart in which no earlier piece holds its separator. -/
namespace OverlayBuild.ResourceId

variable {separator : Char} {cs first second third rest : List Char}

theorem cut?_eq_some_iff :
    cut? separator cs = some (first, rest) ↔
      separator ∉ first ∧ cs = first ++ separator :: rest := by
  induction cs generalizing first with
  | nil => simp [cut?]
  | cons c cs ih =>
    by_cases here : c = separator
    · subst here
      cases first with
      | nil => simp [cut?, eq_comm]
      | cons d first => simp [cut?]; grind
    · have step : cut? separator (c :: cs) =
          (cut? separator cs).map fun pieces => (c :: pieces.1, pieces.2) := by
        simp only [cut?, List.dropWhile_cons, List.takeWhile_cons, bne_iff_ne, ne_eq, here,
          not_false_eq_true, if_true]
        cases cs.dropWhile (· != separator) <;> rfl
      rw [step, Option.map_eq_some_iff]
      constructor
      · rintro ⟨⟨before, after⟩, found, same⟩
        obtain ⟨rfl, rfl⟩ := Prod.mk.inj same
        obtain ⟨free, rfl⟩ := ih.mp found
        exact ⟨by simp [free, Ne.symm here], rfl⟩
      · rintro ⟨free, parts⟩
        cases first with
        | nil => exact absurd (List.cons.inj parts).1 here
        | cons d first =>
          obtain ⟨rfl, rfl⟩ := List.cons.inj parts
          exact ⟨(first, rest), ih.mpr ⟨List.not_mem_of_not_mem_cons free, rfl⟩, rfl⟩

theorem cutTwice?_eq_some_iff :
    cutTwice? separator cs = some (first, second, third) ↔
      separator ∉ first ∧ separator ∉ second ∧
        cs = first ++ separator :: (second ++ separator :: third) := by
  simp only [cutTwice?, Option.bind_eq_bind, Option.bind_eq_some_iff, Option.pure_def,
    Option.some.injEq, Prod.exists, Prod.mk.injEq]
  constructor
  · rintro ⟨_, _, cut, _, _, again, rfl, rfl, rfl⟩
    obtain ⟨free, rfl⟩ := cut?_eq_some_iff.mp cut
    obtain ⟨alsoFree, rfl⟩ := cut?_eq_some_iff.mp again
    exact ⟨free, alsoFree, rfl⟩
  · rintro ⟨free, alsoFree, rfl⟩
    exact ⟨_, _, cut?_eq_some_iff.mpr ⟨free, rfl⟩, _, _,
      cut?_eq_some_iff.mpr ⟨alsoFree, rfl⟩, rfl, rfl, rfl⟩

/-- The five pieces of a text, as they stand in it. -/
structure Pieces where
  group : List Char
  version : List Char
  kind : List Char
  namespace_ : List Char
  name : List Char

namespace Pieces

def joined (p : Pieces) : List Char :=
  (p.group ++ '_' :: (p.version ++ '_' :: p.kind)) ++ '|' :: (p.namespace_ ++ '|' :: p.name)

/-- No piece holds a separator at which it would be cut. -/
structure Parted (p : Pieces) : Prop where
  group_bar : '|' ∉ p.group
  group_underscore : '_' ∉ p.group
  version_bar : '|' ∉ p.version
  version_underscore : '_' ∉ p.version
  kind_bar : '|' ∉ p.kind
  namespace_bar : '|' ∉ p.namespace_

def fields (p : Pieces) : ResourceId where
  group := unlessMark (String.ofList p.group) noGroup
  version := String.ofList p.version
  kind := String.ofList p.kind
  namespace_ := unlessMark (String.ofList p.namespace_) noNamespace
  name := String.ofList p.name

end Pieces

theorem parse_eq_ok_iff {text : String} {r : ResourceId} :
    parse text = .ok r ↔ ∃ p : Pieces, p.Parted ∧ text.toList = p.joined ∧ r = p.fields := by
  constructor
  · intro parsed
    rw [parse] at parsed
    split at parsed
    · contradiction
    · rename_i gvk namespace_ name outer
      split at parsed
      · contradiction
      · rename_i group version kind inner
        obtain ⟨bars, namespaceBars, whole⟩ := cutTwice?_eq_some_iff.mp outer
        obtain ⟨groupFree, versionFree, rfl⟩ := cutTwice?_eq_some_iff.mp inner
        simp only [List.mem_append, List.mem_cons, not_or] at bars
        refine ⟨⟨group, version, kind, namespace_, name⟩, ?_, whole, (Except.ok.inj parsed).symm⟩
        exact ⟨bars.1, groupFree, bars.2.2.1, versionFree, bars.2.2.2.2, namespaceBars⟩
  · rintro ⟨p, parted, whole, rfl⟩
    have bars : '|' ∉ p.group ++ '_' :: (p.version ++ '_' :: p.kind) := by
      simp [parted.group_bar, parted.version_bar, parted.kind_bar]
    rw [parse, cutTwice?_eq_some_iff.mpr ⟨bars, parted.namespace_bar, whole⟩]
    simp only [cutTwice?_eq_some_iff.mpr
      ⟨parted.group_underscore, parted.version_underscore, rfl⟩]
    rfl

variable {field mark : String} {c : Char}

theorem unlessMark_ne (marked : mark ≠ "") : unlessMark field mark ≠ mark := by
  rw [unlessMark]
  split
  · exact marked.symm
  · assumption

theorem not_mem_unlessMark (free : c ∉ field.toList) : c ∉ (unlessMark field mark).toList := by
  rw [unlessMark]
  split
  · exact List.not_mem_nil
  · exact free

theorem unlessMark_orElse (other : field ≠ mark) :
    unlessMark (orElse field mark) mark = field := by
  rw [orElse]
  split
  · rename_i empty; rw [unlessMark, if_pos rfl, empty]
  · exact if_neg other

theorem not_mem_orElse (free : c ∉ field.toList) (unmarked : c ∉ mark.toList) :
    c ∉ (orElse field mark).toList := by
  rw [orElse]
  split <;> assumption

def pieces (r : ResourceId) : Pieces where
  group := (orElse r.group noGroup).toList
  version := r.version.toList
  kind := r.kind.toList
  namespace_ := (orElse r.namespace_ noNamespace).toList
  name := r.name.toList

theorem toList_print (r : ResourceId) : r.print.toList = r.pieces.joined := by
  simp [print, pieces, Pieces.joined]

/-- An identifier is read back from its text exactly when no field before the name holds a
separator that ends it and none is what stands for an empty one. -/
theorem parse_print_eq_ok_iff (r : ResourceId) :
    parse r.print = .ok r ↔
      ('|' ∉ r.group.toList ∧ '_' ∉ r.group.toList ∧ r.group ≠ "~G") ∧
      ('|' ∉ r.version.toList ∧ '_' ∉ r.version.toList) ∧
      '|' ∉ r.kind.toList ∧
      ('|' ∉ r.namespace_.toList ∧ r.namespace_ ≠ "~X") := by
  rw [parse_eq_ok_iff]
  constructor
  · rintro ⟨p, parted, -, rfl⟩
    refine ⟨⟨?_, ?_, unlessMark_ne (by decide)⟩, ⟨?_, ?_⟩, ?_, ?_, unlessMark_ne (by decide)⟩
    · exact not_mem_unlessMark (by simpa using parted.group_bar)
    · exact not_mem_unlessMark (by simpa using parted.group_underscore)
    · simpa [Pieces.fields] using parted.version_bar
    · simpa [Pieces.fields] using parted.version_underscore
    · simpa [Pieces.fields] using parted.kind_bar
    · exact not_mem_unlessMark (by simpa using parted.namespace_bar)
  · rintro ⟨⟨groupBar, groupUnderscore, groupMark⟩, ⟨versionBar, versionUnderscore⟩, kindBar,
      namespaceBar, namespaceMark⟩
    refine ⟨r.pieces, ?_, toList_print r, ?_⟩
    · exact {
        group_bar := not_mem_orElse groupBar (by decide)
        group_underscore := not_mem_orElse groupUnderscore (by decide)
        version_bar := versionBar
        version_underscore := versionUnderscore
        kind_bar := kindBar
        namespace_bar := not_mem_orElse namespaceBar (by decide) }
    · have group : unlessMark (orElse r.group noGroup) noGroup = r.group :=
        unlessMark_orElse groupMark
      have namespace_ : unlessMark (orElse r.namespace_ noNamespace) noNamespace = r.namespace_ :=
        unlessMark_orElse namespaceMark
      simp only [Pieces.fields, pieces, String.ofList_toList, group, namespace_]

/-- Underscores in the kind and bars in the name are no separators. -/
example : parse (print ⟨"", "v1", "_a_", "", "x|y_z"⟩) = .ok ⟨"", "v1", "_a_", "", "x|y_z"⟩ := by
  rfl

end OverlayBuild.ResourceId
