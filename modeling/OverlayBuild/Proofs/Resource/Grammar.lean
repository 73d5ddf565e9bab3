import OverlayBuild.Proofs.Resource.Distinct

/-! Which texts are identifiers, and what becomes of one that is read and written again. Two bars,
and two underscores before the first of them, make an identifier of a text, whatever stands between
them. What is written has marks in the places of an empty group and an empty namespace, and is the
text that was read but for them. -/
namespace OverlayBuild.ResourceId

variable {separator : Char} {cs first rest : List Char} {text field mark : String} {r : ResourceId}

theorem exists_cut? (mem : separator ∈ cs) :
    ∃ first rest, cut? separator cs = some (first, rest) := by
  obtain ⟨first, rest, parts, free⟩ := List.eq_append_cons_of_mem mem
  exact ⟨first, rest, cut?_eq_some_iff.mpr ⟨free, parts⟩⟩

/-- Cutting at a character takes away one of its occurrences. -/
theorem count_of_cut? (cut : cut? separator cs = some (first, rest)) :
    cs.count separator = rest.count separator + 1 := by
  obtain ⟨free, rfl⟩ := cut?_eq_some_iff.mp cut
  rw [List.count_append, List.count_eq_zero.mpr free, List.count_cons_self, Nat.zero_add]

/-- A text is cut twice exactly where the character stands in it at least twice. -/
theorem exists_cutTwice?_iff :
    (∃ pieces, cutTwice? separator cs = some pieces) ↔ 2 ≤ cs.count separator := by
  constructor
  · rintro ⟨⟨first, second, third⟩, cut⟩
    obtain ⟨-, -, rfl⟩ := cutTwice?_eq_some_iff.mp cut
    simp only [List.count_append, List.count_cons_self]
    omega
  · intro often
    obtain ⟨first, rest, cut⟩ := exists_cut? (List.count_pos_iff.mp (by omega : 0 < cs.count separator))
    have left := count_of_cut? cut
    obtain ⟨second, third, again⟩ :=
      exists_cut? (List.count_pos_iff.mp (by omega : 0 < rest.count separator))
    obtain ⟨free, rfl⟩ := cut?_eq_some_iff.mp cut
    obtain ⟨alsoFree, rfl⟩ := cut?_eq_some_iff.mp again
    exact ⟨_, cutTwice?_eq_some_iff.mpr ⟨free, alsoFree, rfl⟩⟩

theorem cutTwice?_eq_none (seldom : cs.count separator < 2) : cutTwice? separator cs = none := by
  by_contra cut
  have often := exists_cutTwice?_iff.mp (Option.ne_none_iff_exists'.mp cut)
  omega

def before (separator : Char) (cs : List Char) : List Char := cs.takeWhile (· != separator)

def after (separator : Char) (cs : List Char) : List Char :=
  (cs.dropWhile (· != separator)).drop 1

theorem parts_of_free (free : separator ∉ first) :
    before separator (first ++ separator :: rest) = first ∧
      after separator (first ++ separator :: rest) = rest := by
  have all : ∀ c ∈ first, (c != separator) = true := by
    intro c mem
    exact bne_iff_ne.mpr fun same => free (same ▸ mem)
  constructor
  · rw [before, List.takeWhile_append_of_pos all, List.takeWhile_cons_of_neg (by simp),
      List.append_nil]
  · rw [after, List.dropWhile_append_of_pos all, List.dropWhile_cons_of_neg (by simp)]
    rfl

/-- The place of the group in a text: what stands before its first underscore. -/
def groupText (text : String) : String := String.ofList (before '_' text.toList)

/-- The place of the namespace in a text: what stands between its first two bars. -/
def namespaceText (text : String) : String := String.ofList (before '|' (after '|' text.toList))

/-- Two bars, and two underscores before the first of them. -/
structure Separated (text : String) : Prop where
  bars : 2 ≤ text.toList.count '|'
  underscores : 2 ≤ (before '|' text.toList).count '_'

theorem parse_of_few_bars (few : text.toList.count '|' < 2) : parse text = .error (.fields text) := by
  rw [parse, cutTwice?_eq_none few]

theorem parse_of_few_underscores (bars : 2 ≤ text.toList.count '|')
    (few : (before '|' text.toList).count '_' < 2) : parse text = .error (.kindFields text) := by
  obtain ⟨⟨gvk, namespace_, name⟩, cut⟩ := exists_cutTwice?_iff.mpr bars
  obtain ⟨free, -, whole⟩ := cutTwice?_eq_some_iff.mp cut
  rw [whole, (parts_of_free free).1] at few
  rw [parse, cut]
  simp only [cutTwice?_eq_none few]

theorem parse_of_separated (separated : Separated text) : ∃ r, parse text = .ok r := by
  obtain ⟨⟨gvk, namespace_, name⟩, cut⟩ := exists_cutTwice?_iff.mpr separated.bars
  obtain ⟨free, -, whole⟩ := cutTwice?_eq_some_iff.mp cut
  have underscores := separated.underscores
  rw [whole, (parts_of_free free).1] at underscores
  obtain ⟨⟨group, version, kind⟩, inner⟩ := exists_cutTwice?_iff.mpr underscores
  rw [parse, cut]
  simp only [inner]
  exact ⟨_, rfl⟩

/-- A text is an identifier exactly where it is separated. -/
theorem exists_parse_iff : (∃ r, parse text = .ok r) ↔ Separated text := by
  refine ⟨?_, parse_of_separated⟩
  rintro ⟨r, parsed⟩
  constructor
  · by_contra few
    rw [parse_of_few_bars (Nat.lt_of_not_le few)] at parsed
    contradiction
  · by_contra few
    rcases Nat.lt_or_ge (text.toList.count '|') 2 with fewBars | bars
    · rw [parse_of_few_bars fewBars] at parsed
      contradiction
    · rw [parse_of_few_underscores bars (Nat.lt_of_not_le few)] at parsed
      contradiction

/-- Every field can be told from the text of an identifier that was read. -/
theorem readable_of_parse (parsed : parse text = .ok r) : r.Readable := by
  obtain ⟨p, parted, -, rfl⟩ := parse_eq_ok_iff.mp parsed
  exact {
    group_bar := not_mem_unlessMark (by simpa using parted.group_bar)
    group_underscore := not_mem_unlessMark (by simpa using parted.group_underscore)
    group_mark := unlessMark_ne (by decide)
    version_bar := by simpa [Pieces.fields] using parted.version_bar
    version_underscore := by simpa [Pieces.fields] using parted.version_underscore
    kind_bar := by simpa [Pieces.fields] using parted.kind_bar
    namespace_bar := not_mem_unlessMark (by simpa using parted.namespace_bar)
    namespace_mark := unlessMark_ne (by decide) }

/-- A mark is written for a field that was empty and for one that was the mark. -/
theorem orElse_unlessMark : orElse (unlessMark field mark) mark = orElse field mark := by
  rw [unlessMark]
  split
  next same =>
    rw [same, orElse, if_pos rfl, orElse]
    split <;> rfl
  next => rfl

/-- Reading a text and writing it again leaves all that stands around group and namespace. -/
theorem print_of_parse (parsed : parse text = .ok r) : ∃ front back : String,
    text = groupText text ++ front ++ namespaceText text ++ back ∧
    r.print = orElse (groupText text) noGroup ++ front ++
      orElse (namespaceText text) noNamespace ++ back := by
  obtain ⟨p, parted, whole, rfl⟩ := parse_eq_ok_iff.mp parsed
  have bars : '|' ∉ p.group ++ '_' :: (p.version ++ '_' :: p.kind) := by
    simp [parted.group_bar, parted.version_bar, parted.kind_bar]
  have group : groupText text = String.ofList p.group := by
    rw [groupText, whole, Pieces.joined, List.append_assoc, List.cons_append,
      (parts_of_free parted.group_underscore).1]
  have namespace_ : namespaceText text = String.ofList p.namespace_ := by
    rw [namespaceText, whole, Pieces.joined, (parts_of_free bars).2,
      (parts_of_free parted.namespace_bar).1]
  have printed : p.fields.print =
      orElse (groupText text) noGroup ++ "_" ++ String.ofList p.version ++ "_" ++
        String.ofList p.kind ++ "|" ++ orElse (namespaceText text) noNamespace ++ "|" ++
        String.ofList p.name := by
    rw [print, Pieces.fields, orElse_unlessMark, orElse_unlessMark, group, namespace_]
  refine ⟨"_" ++ String.ofList p.version ++ "_" ++ String.ofList p.kind ++ "|",
    "|" ++ String.ofList p.name, ?_, ?_⟩
  · apply String.toList_inj.mp
    rw [group, namespace_, whole]
    simp [Pieces.joined]
  · rw [printed]
    simp only [String.append_assoc]

theorem length_orElse : (orElse field mark).length =
    field.length + if field = "" then mark.length else 0 := by
  rw [orElse]
  split
  next empty => rw [empty, String.length_empty, Nat.zero_add]
  next => rfl

/-- What is written is what was read exactly where neither place is empty, since each mark makes
the text longer. -/
theorem print_eq_iff (parsed : parse text = .ok r) :
    r.print = text ↔ groupText text ≠ "" ∧ namespaceText text ≠ "" := by
  obtain ⟨front, back, whole, printed⟩ := print_of_parse parsed
  constructor
  · intro same
    have length := congrArg String.length (printed.symm.trans (same.trans whole))
    simp only [String.length_append, length_orElse] at length
    have groupMark : noGroup.length = 2 := rfl
    have namespaceMark : noNamespace.length = 2 := rfl
    constructor
    · intro empty
      rw [if_pos empty, groupMark] at length
      omega
    · intro empty
      rw [if_pos empty, namespaceMark] at length
      omega
  · rintro ⟨group, namespace_⟩
    rw [printed, orElse, if_neg group, orElse, if_neg namespace_]
    exact whole.symm

/-- A text is an identifier exactly where it is separated, and is refused as input otherwise. What
is read from it is read again from what is written for it. That is the text itself exactly where
group and namespace have text, and else differs from it by the marks in their empty places only. -/
theorem parse_normalizes (text : String) :
    ((∃ r, parse text = .ok r) ↔ Separated text) ∧
    (¬ Separated text → ∃ fault, parse text = .error fault ∧ fault.category = .input ∧
      fault = if text.toList.count '|' < 2 then .fields text else .kindFields text) ∧
    ∀ r, parse text = .ok r → parse r.print = .ok r ∧
      (r.print = text ↔ groupText text ≠ "" ∧ namespaceText text ≠ "") ∧
      ∃ front back : String, text = groupText text ++ front ++ namespaceText text ++ back ∧
        r.print = orElse (groupText text) "~G" ++ front ++
          orElse (namespaceText text) "~X" ++ back := by
  refine ⟨exists_parse_iff, ?_, ?_⟩
  · intro blended
    by_cases fewBars : text.toList.count '|' < 2
    · exact ⟨_, parse_of_few_bars fewBars, rfl, (if_pos fewBars).symm⟩
    · have bars := Nat.le_of_not_lt fewBars
      have few : (before '|' text.toList).count '_' < 2 := by
        by_contra many
        exact blended ⟨bars, Nat.le_of_not_lt many⟩
      exact ⟨_, parse_of_few_underscores bars few, rfl, (if_neg fewBars).symm⟩
  · intro r parsed
    exact ⟨(readable_of_parse parsed).parse_print, print_eq_iff parsed, print_of_parse parsed⟩

/-- An empty group, an empty version, an underscore in the kind, and a mark for the namespace. -/
theorem parse_normalizes_groupless :
    parse "__a_b|~X|x|y" = .ok ⟨"", "", "a_b", "", "x|y"⟩ ∧
    parse (print ⟨"", "", "a_b", "", "x|y"⟩) = .ok ⟨"", "", "a_b", "", "x|y"⟩ ∧
    print ⟨"", "", "a_b", "", "x|y"⟩ ≠ "__a_b|~X|x|y" ∧
    ¬ Separated "_v1|a_b|c" ∧ ∃ fault, parse "_v1|a_b|c" = .error fault ∧ fault.category = .input := by
  have parsed : parse "__a_b|~X|x|y" = .ok ⟨"", "", "a_b", "", "x|y"⟩ := by rfl
  obtain ⟨again, same, -⟩ := (parse_normalizes "__a_b|~X|x|y").2.2 _ parsed
  have blended : ¬ Separated "_v1|a_b|c" := fun separated =>
    absurd separated.underscores (by decide)
  obtain ⟨fault, refused, input, -⟩ := (parse_normalizes "_v1|a_b|c").2.1 blended
  refine ⟨parsed, again, ?_, blended, fault, refused, input⟩
  intro kept
  exact (same.mp kept).1 (by rfl)

end OverlayBuild.ResourceId
