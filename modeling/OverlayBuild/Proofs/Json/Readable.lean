import OverlayBuild.Proofs.Json.Canonical
import OverlayBuild.Proofs.Outcome
import OverlayBuild.Proofs.Text
import OverlayBuild.Proofs.Value.Plain
import OverlayBuild.Proofs.Value.Sorting
import OverlayBuild.Resource.Result

/-! Canonical JSON tells which value it was written for: whatever comes after the text of a
value, there is only one way to read the value off it. So manifests have one text exactly
when they are the same value. -/
namespace OverlayBuild.Json

open Value Text

variable {α : Type} {style : Style} {level : Nat} {v w : Value} {s t rest more : List Char}
  {texts : List (List Char)}

theorem floatText_eq_text {x : Binary64} (finite : x.IsFinite) : floatText x = x.text := by
  cases x <;> first | exact finite.elim | rfl

/-- Values that are the same have one text. -/
theorem writeAt_same (plain : Plain v) (same : Same v w) :
    writeAt .canonical level v = writeAt .canonical level w := by
  induction v using nested generalizing w level with
  | leaf v leaf =>
    rcases leaf.same_iff.mp same with rfl | ⟨x, y, rfl, rfl, text⟩
    · rfl
    · have finite : x.IsFinite := plain
      rw [writeAt, writeAt, floatText_eq_text finite, floatText_eq_text (finite.of_text text), text]
  | list items ih =>
    obtain ⟨others, rfl, related⟩ := same_list_iff.mp same
    rw [writeAt, writeAt, writeAll_congr related fun v mem w => ih v mem (plainAll_iff.mp plain v mem)]
  | map entries ih =>
    obtain ⟨fields, moved, rfl, related, same⟩ := same_map_iff.mp same
    obtain ⟨texts, distinct, each⟩ := plain
    exact writeAt_map_congr rfl texts distinct related same
      fun e mem level w => ih e mem (plainEntries_iff.mp each e mem)
  | tuple items => exact plain.elim
  | set items => exact plain.elim

/-! Text in quotes. -/

/-- The characters that are not written as they are. -/
def escapes : List Char := '"' :: '\\' :: (List.range 0x20).map Char.ofNat

theorem mem_escapes_of_low {c : Char} (low : c.toNat < 0x20) : c ∈ escapes := by
  refine List.mem_cons_of_mem _ (List.mem_cons_of_mem _ (List.mem_map.mpr ⟨c.toNat, ?_, ?_⟩))
  · exact List.mem_range.mpr low
  · exact Char.ofNat_toNat c

theorem charText_of_not_mem {c : Char} (other : c ∉ escapes) : charText false c = [c] := by
  have quote : c ≠ '"' := fun same => other (same ▸ List.mem_cons_self)
  have slash : c ≠ '\\' := fun same => other (by simp [same, escapes])
  have high : ¬ c.toNat < 0x20 := fun low => other (mem_escapes_of_low low)
  have breaks : c ≠ '\n' ∧ c ≠ '\r' ∧ c ≠ '\t' := by
    refine ⟨?_, ?_, ?_⟩ <;> (rintro rfl; exact high (by decide))
  rw [charText, if_neg quote, if_neg slash, if_neg breaks.1, if_neg breaks.2.1, if_neg breaks.2.2,
    if_neg (by omega), if_neg (by omega), if_neg (by simp [high])]

theorem charText_of_mem : ∀ c ∈ escapes,
    charText false c = '\\' :: (charText false c).tail := by
  have all : escapes.all (fun c => charText false c == '\\' :: (charText false c).tail) = true := by
    with_unfolding_all decide
  exact fun c mem => beq_iff_eq.mp (List.all_eq_true.mp all c mem)

theorem charText_prefix_free : ∀ c ∈ escapes, ∀ d ∈ escapes,
    charText false c <+: charText false d → c = d := by
  have all : escapes.all (fun c => escapes.all fun d =>
      !(charText false c).isPrefixOf (charText false d) || c == d) = true := by
    with_unfolding_all decide
  intro c own d also before
  have apart := List.all_eq_true.mp (List.all_eq_true.mp all c own) d also
  rw [List.isPrefixOf_iff_prefix.mpr before] at apart
  exact beq_iff_eq.mp apart

/-- A character is told by what it is written as, whatever comes after it. -/
theorem charText_append_inj {c d : Char}
    (same : charText false c ++ rest = charText false d ++ more) : c = d ∧ rest = more := by
  have own : c = d := by
    by_cases escaped : c ∈ escapes <;> by_cases also : d ∈ escapes
    · have either : charText false c <+: charText false d ∨ charText false d <+: charText false c :=
        List.prefix_or_prefix_of_prefix ⟨rest, same⟩ ⟨more, rfl⟩
      rcases either with shorter | longer
      · exact charText_prefix_free c escaped d also shorter
      · exact (charText_prefix_free d also c escaped longer).symm
    · rw [charText_of_mem c escaped, charText_of_not_mem also] at same
      exact absurd (List.cons.inj same).1 (fun same => also (same ▸ by simp [escapes]))
    · rw [charText_of_mem d also, charText_of_not_mem escaped] at same
      exact absurd (List.cons.inj same).1.symm (fun same => escaped (same ▸ by simp [escapes]))
    · rw [charText_of_not_mem escaped, charText_of_not_mem also] at same
      exact (List.cons.inj same).1
  exact ⟨own, List.append_cancel_left (own ▸ same)⟩

/-- No character starts like the closing quote. -/
theorem charText_ne_quote {c : Char} : charText false c ++ rest ≠ '"' :: more := by
  by_cases escaped : c ∈ escapes
  · rw [charText_of_mem c escaped]
    simp
  · rw [charText_of_not_mem escaped]
    intro same
    exact escaped ((List.cons.inj same).1 ▸ List.mem_cons_self)

theorem flatMap_charText_inj {cs ds : List Char}
    (same : cs.flatMap (charText false) ++ '"' :: rest = ds.flatMap (charText false) ++ '"' :: more) :
    cs = ds ∧ rest = more := by
  induction cs generalizing ds with
  | nil =>
    cases ds with
    | nil => exact ⟨rfl, (List.cons.inj same).2⟩
    | cons d ds =>
      rw [List.flatMap_cons, List.append_assoc] at same
      exact absurd same.symm charText_ne_quote
  | cons c cs ih =>
    cases ds with
    | nil =>
      rw [List.flatMap_cons, List.append_assoc] at same
      exact absurd same charText_ne_quote
    | cons d ds =>
      simp only [List.flatMap_cons, List.append_assoc] at same
      obtain ⟨rfl, others⟩ := charText_append_inj same
      obtain ⟨rfl, ends⟩ := ih others
      exact ⟨rfl, ends⟩

theorem stringText_append_inj {k l : String}
    (same : stringText false k ++ rest = stringText false l ++ more) : k = l ∧ rest = more := by
  simp only [stringText, List.cons_append, List.append_assoc, List.nil_append, List.cons.injEq,
    true_and] at same
  exact (flatMap_charText_inj same).imp_left String.toList_inj.mp

/-! Numbers go on as far as their characters do. -/

/-- The text ends, or goes on with what is no part of a number. -/
def Bounded (rest : List Char) : Prop := ∀ c ∈ rest.head?, isNumeric c = false

theorem append_inj_of_bounded (first : ∀ c ∈ s, isNumeric c = true)
    (second : ∀ c ∈ t, isNumeric c = true) (ends : Bounded rest) (also : Bounded more)
    (same : s ++ rest = t ++ more) : s = t ∧ rest = more := by
  have cut {s rest : List Char} (own : ∀ c ∈ s, isNumeric c = true) (ends : Bounded rest) :
      (s ++ rest).takeWhile isNumeric = s := by
    rw [List.takeWhile_append_of_pos own]
    cases rest with
    | nil => simp
    | cons c rest => simp [ends c rfl]
  have number : s = t := by rw [← cut first ends, same, cut second also]
  exact ⟨number, List.append_cancel_left (number ▸ same)⟩

/-! Items between brackets are told one after the other. -/

/-- What is written is told by its text, whatever is written otherwise and whatever comes
after the two texts. -/
def Told (writes : α → List Char → Prop) (R : α → α → Prop) (a : α) : Prop :=
  ∀ b s t rest more, writes a s → writes b t → Bounded rest → Bounded more →
    s ++ rest = t ++ more → R a b ∧ rest = more

def separated (texts : List (List Char)) : List Char := (texts.intersperse [',']).flatten

theorem separated_cons : separated (s :: texts) = s ++ texts.flatMap (',' :: ·) := by
  rw [separated, flatten_intersperse]
  rfl

section items

variable {writes : α → List Char → Prop} {R : α → α → Prop} {items others : List α}
  {texts words : List (List Char)} {closing : Char}

theorem bounded_rest (closes : isNumeric closing = false) :
    Bounded (texts.flatMap (',' :: ·) ++ closing :: rest) := by
  cases texts with
  | nil => simpa [Bounded] using closes
  | cons t texts => simp [Bounded, isNumeric]

theorem told_rest (closes : isNumeric closing = false) (comma : closing ≠ ',')
    (each : ∀ a ∈ items, Told writes R a) (left : List.Forall₂ writes items texts)
    (right : List.Forall₂ writes others words)
    (same : texts.flatMap (',' :: ·) ++ closing :: rest = words.flatMap (',' :: ·) ++ closing :: more) :
    List.Forall₂ R items others ∧ rest = more := by
  induction left generalizing others words with
  | nil =>
    cases right with
    | nil => exact ⟨.nil, (List.cons.inj same).2⟩
    | cons => exact absurd (List.cons.inj same).1 comma
  | cons own left ih =>
    cases right with
    | nil => exact absurd (List.cons.inj same).1.symm comma
    | cons also right =>
      obtain ⟨first, later⟩ := List.forall_mem_cons.mp each
      simp only [List.flatMap_cons, List.cons_append, List.append_assoc, List.cons.injEq,
        true_and] at same
      obtain ⟨related, same⟩ :=
        first _ _ _ _ _ own also (bounded_rest closes) (bounded_rest closes) same
      exact (ih later right same).imp_left (.cons related)

theorem told_items (closes : isNumeric closing = false) (comma : closing ≠ ',')
    (starts : ∀ a s rest more, writes a s → s ++ rest ≠ closing :: more)
    (each : ∀ a ∈ items, Told writes R a) (left : List.Forall₂ writes items texts)
    (right : List.Forall₂ writes others words)
    (same : separated texts ++ closing :: rest = separated words ++ closing :: more) :
    List.Forall₂ R items others ∧ rest = more := by
  cases left with
  | nil =>
    cases right with
    | nil => exact ⟨.nil, (List.cons.inj same).2⟩
    | cons also right =>
      rw [separated_cons, List.append_assoc] at same
      exact absurd same.symm (starts _ _ _ _ also)
  | cons own left =>
    rw [separated_cons, List.append_assoc] at same
    cases right with
    | nil => exact absurd same (starts _ _ _ _ own)
    | cons also right =>
      rw [separated_cons, List.append_assoc] at same
      obtain ⟨first, later⟩ := List.forall_mem_cons.mp each
      obtain ⟨related, same⟩ :=
        first _ _ _ _ _ own also (bounded_rest closes) (bounded_rest closes) same
      exact (told_rest closes comma later left right same).imp_left (.cons related)

end items

/-! What the texts of values look like. -/

def Written (v : Value) (s : List Char) : Prop :=
  Plain v ∧ ∃ level, writeAt .canonical level v = .ok s

def WrittenEntry (e : Value × Value) (s : List Char) : Prop :=
  ∃ key t, e.1 = .str key ∧ Written e.2 t ∧ s = stringText false key ++ ':' :: t

theorem enclose_canonical {opening closing : Char} {texts : List (List Char)} :
    enclose .canonical level opening closing texts = opening :: separated texts ++ [closing] := by
  cases texts <;> simp [enclose, separated, lineBreak, Style.canonical]

section texts

variable {items : List Value} {entries : List (Value × Value)}

theorem writeAll_eq_ok_iff :
    writeAll style level items = .ok texts ↔
      List.Forall₂ (fun v t => writeAt style level v = .ok t) items texts := by
  induction items generalizing texts with
  | nil => cases texts <;> simp [writeAll]
  | cons v items ih =>
    simp only [writeAll, bind_eq_ok_iff, ih, List.forall₂_cons_left_iff, pure, Except.pure,
      Except.ok.injEq]
    grind

/-- A mapping is sorted by its keys, where the style says so, before any of them becomes text. -/
theorem writeAt_map_eq_ok_iff :
    writeAt style level (.map entries) = .ok s ↔ ∃ ordered texts,
      (if style.sorted then (sortByKey (writeEntries style (level + 1) entries)).mapError
          Fault.unordered else .ok (writeEntries style (level + 1) entries)) = .ok ordered ∧
      List.Forall₂ (fun e t => entryText style e = .ok t) ordered texts ∧
      s = enclose style level '\x7b' '\x7d' texts := by
  rw [writeAt]
  split <;> simp only [bind_eq_ok_iff, mapM_eq_ok_iff, pure, Except.pure, Except.ok.injEq,
    @eq_comm _ _ s, exists_and_left]

/-- The entries of a mapping are written in some order. -/
theorem entries_of_writeAt (made : writeAt style level (.map entries) = .ok s) :
    ∃ moved texts, moved.Perm entries ∧
      List.Forall₂ (fun e t => entryText style (e.1, writeAt style (level + 1) e.2) = .ok t)
        moved texts ∧
      s = enclose style level '\x7b' '\x7d' texts := by
  obtain ⟨ordered, texts, done, all, whole⟩ := writeAt_map_eq_ok_iff.mp made
  have same : ordered.Perm (writeEntries style (level + 1) entries) := by
    split at done
    · exact sortByKey_perm_of_ok (mapError_eq_ok_iff.mp done)
    · exact .of_eq (Except.ok.inj done).symm
  rw [writeEntries_eq_map] at same
  obtain ⟨moved, order, rfl⟩ := exists_perm_of_perm_map same
  exact ⟨moved, texts, order, List.forall₂_map_left_iff.mp all, whole⟩

theorem written_list (written : Written (.list items) s) :
    ∃ texts, List.Forall₂ Written items texts ∧ s = '[' :: separated texts ++ [']'] := by
  obtain ⟨plain, level, made⟩ := written
  simp only [writeAt, bind_eq_ok_iff, writeAll_eq_ok_iff, pure, Except.pure, Except.ok.injEq,
    enclose_canonical] at made
  obtain ⟨texts, all, rfl⟩ := made
  have each := (List.forall₂_and_left _ _).mpr ⟨plainAll_iff.mp plain, all⟩
  exact ⟨texts, each.imp fun v t own => ⟨own.1, _, own.2⟩, rfl⟩

theorem entryText_eq_ok_iff {key : String} {text : Except Fault (List Char)} :
    entryText style (.str key, text) = .ok s ↔ ∃ t, text = .ok t ∧
      s = stringText style.ascii key ++ ':' :: ((if style.indent.isSome then [' '] else []) ++ t) := by
  simp only [entryText, keyText, bind_eq_ok_iff, Except.ok.injEq, exists_eq_left', pure, Except.pure,
    List.append_assoc, List.cons_append, @eq_comm _ _ s]

/-- The entries of a mapping are written in the order of their keys. -/
theorem written_map (written : Written (.map entries) s) :
    ∃ moved texts, moved.Perm entries ∧ List.Forall₂ WrittenEntry moved texts ∧
      s = '\x7b' :: separated texts ++ ['\x7d'] := by
  obtain ⟨⟨names, -, plain⟩, level, made⟩ := written
  obtain ⟨moved, texts, order, all, rfl⟩ := entries_of_writeAt made
  refine ⟨moved, texts, order, ?_, enclose_canonical⟩
  have members : ∀ e ∈ moved, (∃ key, e.1 = .str key) ∧ Plain e.2 := fun e mem =>
    ⟨names e (order.mem_iff.mp mem), plainEntries_iff.mp plain e (order.mem_iff.mp mem)⟩
  refine ((List.forall₂_and_left _ _).mpr ⟨members, all⟩).imp ?_
  rintro e s ⟨⟨⟨key, named⟩, plain⟩, text⟩
  rw [named, entryText_eq_ok_iff] at text
  obtain ⟨t, value, rfl⟩ := text
  exact ⟨key, t, named, ⟨plain, _, value⟩, rfl⟩

end texts

/-- What the text of a value starts with; all numbers count as one. -/
def lead : Value → Char
  | .null => 'n'
  | .bool b => if b then 't' else 'f'
  | .int _ | .float _ => '0'
  | .str _ => '"'
  | .list _ => '['
  | _ => '\x7b'

theorem written_null (written : Written .null s) : s = "null".toList := by
  obtain ⟨-, level, made⟩ := written
  exact (Except.ok.inj made).symm

theorem written_bool {b : Bool} (written : Written (.bool b) s) : s = boolText b := by
  obtain ⟨-, level, made⟩ := written
  exact (Except.ok.inj made).symm

theorem intText_eq_ok {n : Int} (made : intText n = .ok s) : s = integer n := by
  rw [intText] at made
  split at made
  · simp only [reduceCtorEq] at made
  · exact (Except.ok.inj made).symm

theorem written_int {n : Int} (written : Written (.int n) s) : s = integer n := by
  obtain ⟨-, level, made⟩ := written
  rw [writeAt] at made
  exact intText_eq_ok made

theorem written_float {x : Binary64} (written : Written (.float x) s) :
    s = x.text ∧ Binary64.Pointed s := by
  obtain ⟨finite, level, made⟩ := written
  rw [writeAt, floatText_eq_text finite] at made
  obtain rfl := Except.ok.inj made
  exact ⟨rfl, Binary64.text_pointed finite⟩

theorem written_str {k : String} (written : Written (.str k) s) : s = stringText false k := by
  obtain ⟨-, level, made⟩ := written
  exact (Except.ok.inj made).symm

theorem isNumeric_of_written (number : lead v = '0') (written : Written v s) :
    s ≠ [] ∧ ∀ c ∈ s, isNumeric c = true := by
  cases v with
  | int n =>
    obtain rfl := written_int written
    exact ⟨integer_ne_nil, fun c => isNumeric_of_mem_integer⟩
  | float x =>
    obtain ⟨-, pointed⟩ := written_float written
    exact ⟨fun none => by simpa [none] using pointed.pointed, pointed.numeric⟩
  | bool b => cases b <;> simp [lead] at number
  | _ => simp [lead] at number

theorem written_lead (written : Written v s) :
    ∃ c rest, s = c :: rest ∧ (if isNumeric c = true then '0' else c) = lead v := by
  by_cases number : lead v = '0'
  · obtain ⟨filled, numeric⟩ := isNumeric_of_written number written
    obtain ⟨c, rest, rfl⟩ := List.exists_cons_of_ne_nil filled
    exact ⟨c, rest, rfl, by rw [if_pos (numeric c List.mem_cons_self), number]⟩
  cases v with
  | null => exact ⟨_, _, written_null written, rfl⟩
  | bool b => cases b <;> exact ⟨_, _, written_bool written, rfl⟩
  | str k => exact ⟨_, _, written_str written, rfl⟩
  | list items =>
    obtain ⟨texts, -, rfl⟩ := written_list written
    exact ⟨_, _, rfl, rfl⟩
  | map entries =>
    obtain ⟨moved, texts, -, -, rfl⟩ := written_map written
    exact ⟨_, _, rfl, rfl⟩
  | int n => exact absurd rfl number
  | float x => exact absurd rfl number
  | _ => exact written.1.elim

theorem written_ne_closing (written : Written v s) : s ++ rest ≠ ']' :: more := by
  obtain ⟨c, _, rfl, first⟩ := written_lead written
  intro same
  obtain rfl : c = ']' := (List.cons.inj same).1
  cases v with
  | bool b => cases b <;> simp [lead, isNumeric] at first
  | _ => simp [lead, isNumeric] at first

theorem writtenEntry_ne_closing {e : Value × Value} (written : WrittenEntry e s) :
    s ++ rest ≠ '\x7d' :: more := by
  obtain ⟨key, t, -, -, rfl⟩ := written
  simp [stringText]

/-- The text of an entry tells its key, and its value as the value's own text does. -/
theorem told_entry {e : Value × Value} (told : Told Written Same e.2) :
    Told WrittenEntry (fun a b => a.1 = b.1 ∧ Same a.2 b.2) e := by
  rintro f _ _ rest more ⟨key, s, named, own, rfl⟩ ⟨other, t, also, second, rfl⟩ ends alsoEnds same
  simp only [List.append_assoc, List.cons_append] at same
  obtain ⟨rfl, values⟩ := stringText_append_inj same
  obtain ⟨value, after⟩ :=
    told f.2 s t rest more own second ends alsoEnds (List.cons.inj values).2
  exact ⟨⟨named.trans also.symm, value⟩, after⟩

/-- Values with texts that start alike are of one kind. -/
theorem lead_eq (own : Written v s) (also : Written w t) (same : s ++ rest = t ++ more) :
    lead v = lead w := by
  obtain ⟨c, _, rfl, first⟩ := written_lead own
  obtain ⟨d, _, rfl, second⟩ := written_lead also
  obtain rfl : c = d := (List.cons.inj same).1
  exact first.symm.trans second

theorem list_of_lead (kind : lead w = '[') : ∃ others, w = .list others := by
  cases w with
  | list others => exact ⟨others, rfl⟩
  | bool b => cases b <;> simp [lead] at kind
  | _ => simp [lead] at kind

theorem map_of_lead (plain : Plain w) (kind : lead w = '\x7b') : ∃ fields, w = .map fields := by
  cases w with
  | map fields => exact ⟨fields, rfl⟩
  | bool b => cases b <;> simp [lead] at kind
  | _ => first | exact plain.elim | simp [lead] at kind

theorem told_number (number : lead v = '0') : Told Written Same v := by
  intro w s t rest more own also ends alsoEnds same
  have alike : lead w = '0' := number ▸ (lead_eq own also same).symm
  obtain ⟨rfl, after⟩ := append_inj_of_bounded (isNumeric_of_written number own).2
    (isNumeric_of_written alike also).2 ends alsoEnds same
  refine ⟨?_, after⟩
  -- Only the text of a floating point number has a point or an exponent.
  cases v with
  | int n =>
    obtain rfl := written_int own
    cases w with
    | int m => exact congrArg Value.int (integer_inj.mp (written_int also))
    | float y => exact absurd rfl (written_float also).2.ne_integer
    | bool b => cases b <;> simp [lead] at alike
    | _ => simp [lead] at alike
  | float x =>
    obtain ⟨rfl, pointed⟩ := written_float own
    cases w with
    | int m => exact absurd (written_int also) pointed.ne_integer
    | float y => exact (written_float also).1
    | bool b => cases b <;> simp [lead] at alike
    | _ => simp [lead] at alike
  | bool b => cases b <;> simp [lead] at number
  | _ => simp [lead] at number

theorem told_leaf (leaf : v.IsLeaf) : Told Written Same v := by
  by_cases number : lead v = '0'
  · exact told_number number
  intro w s t rest more own also ends alsoEnds same
  have kind : lead v = lead w := lead_eq own also same
  cases v with
  | null =>
    obtain rfl : w = .null := by
      cases w with
      | null => rfl
      | bool b => cases b <;> simp [lead] at kind
      | _ => simp [lead] at kind
    obtain rfl := written_null own
    obtain rfl := written_null also
    exact ⟨rfl, List.append_cancel_left same⟩
  | bool b =>
    obtain rfl : w = .bool b := by
      cases w with
      | bool other => cases b <;> cases other <;> first | rfl | simp [lead] at kind
      | _ => cases b <;> simp [lead] at kind
    obtain rfl := written_bool own
    obtain rfl := written_bool also
    exact ⟨rfl, List.append_cancel_left same⟩
  | str k =>
    obtain ⟨l, rfl⟩ : ∃ l, w = .str l := by
      cases w with
      | str l => exact ⟨l, rfl⟩
      | bool b => cases b <;> simp [lead] at kind
      | _ => simp [lead] at kind
    obtain rfl := written_str own
    obtain rfl := written_str also
    exact (stringText_append_inj same).imp_left (congrArg _)
  | _ => first | exact leaf.elim | exact absurd rfl number | exact own.1.elim

/-- The text of a value tells the value, whatever comes after it. -/
theorem told_value (v : Value) : Told Written Same v := by
  induction v using nested with
  | leaf v leaf => exact told_leaf leaf
  | list items ih =>
    intro w s t rest more own also ends alsoEnds same
    obtain ⟨others, rfl⟩ := list_of_lead (lead_eq own also same).symm
    obtain ⟨texts, left, rfl⟩ := written_list own
    obtain ⟨words, right, rfl⟩ := written_list also
    simp only [List.cons_append, List.append_assoc, List.nil_append, List.cons.injEq,
      true_and] at same
    obtain ⟨related, after⟩ :=
      told_items rfl (by decide) (fun _ _ _ _ => written_ne_closing) ih left right same
    exact ⟨same_list_iff.mpr ⟨others, rfl, related⟩, after⟩
  | map entries ih =>
    intro w s t rest more own also ends alsoEnds same
    obtain ⟨fields, rfl⟩ := map_of_lead also.1 (lead_eq own also same).symm
    obtain ⟨moved, texts, order, left, rfl⟩ := written_map own
    obtain ⟨other, words, again, right, rfl⟩ := written_map also
    simp only [List.cons_append, List.append_assoc, List.nil_append, List.cons.injEq,
      true_and] at same
    obtain ⟨related, after⟩ := told_items rfl (by decide) (fun _ _ _ _ => writtenEntry_ne_closing)
      (fun e mem => told_entry (ih e (order.mem_iff.mp mem))) left right same
    obtain ⟨found, own, back⟩ := List.perm_comp_forall₂ order.symm related
    exact ⟨same_map_iff.mpr ⟨fields, found, rfl, own, back.trans again⟩, after⟩
  | tuple items => exact fun _ _ _ _ _ own => own.1.elim
  | set items => exact fun _ _ _ _ _ own => own.1.elim

end OverlayBuild.Json

namespace OverlayBuild.BuildResult

open Value Json

/-- Manifests that can be written have one text exactly when they are the same up to the
order of the keys of mappings, at every depth. -/
theorem serialize_canonical {v w : Value} {text other : String} (plain : Plain v) (also : Plain w)
    (done : serialize v = .ok text) (alsoDone : serialize w = .ok other) :
    text = other ↔ Same v w := by
  have written {v : Value} {text : String} (done : serialize v = .ok text) :
      writeAt .canonical 0 v = .ok text.toList := by
    rw [serialize, write] at done
    cases made : writeAt .canonical 0 v with
    | error cause => simp [made, Except.map] at done
    | ok cs => rw [made] at done; rw [← Except.ok.inj done, String.toList_ofList]
  constructor
  · rintro rfl
    have bounded : Bounded [] := fun c mem => absurd mem (Option.not_mem_none c)
    exact (told_value v w _ _ [] [] ⟨plain, 0, written done⟩ ⟨also, 0, written alsoDone⟩
      bounded bounded rfl).1
  · intro same
    rw [serialize, write, writeAt_same plain same] at done
    exact Except.ok.inj (done.symm.trans alsoDone)

def ones : List (Value × String) :=
  [(.int 1, "1"), (.float (.ofInt 1), "1.0"), (.bool true, "true"), (.str "1", "\"1\"")]

def inTwoOrders : Value × Value :=
  let of := (Value.str "of", Value.list (ones.map (·.1)))
  let a := (Value.str "a", Value.null)
  (.map [of, a], .map [a, of])

theorem serialize_canonical_of_ones :
    Same inTwoOrders.1 inTwoOrders.2 ∧ ones.Pairwise fun v w => ¬ Same v.1 w.1 := by
  have ordered : serialize inTwoOrders.1 = .ok "\x7b\"a\":null,\"of\":[1,1.0,true,\"1\"]\x7d" ∧
      serialize inTwoOrders.2 = serialize inTwoOrders.1 := by decide +kernel
  have finite : (Binary64.ofInt 1).IsFinite := by
    rw [show Binary64.ofInt 1 = .finite false (2 ^ 52) (-52) by decide +kernel]
    trivial
  have plain : Plain inTwoOrders.1 ∧ Plain inTwoOrders.2 := by
    simp [inTwoOrders, ones, Plain, PlainAll, PlainEntries, TextKeys, finite]
  refine ⟨(serialize_canonical plain.1 plain.2 ordered.1 (ordered.2.trans ordered.1)).mp rfl, ?_⟩
  have each : ∀ one ∈ ones, Plain one.1 ∧ serialize one.1 = .ok one.2 := by
    have written : ∀ one ∈ ones, serialize one.1 = .ok one.2 := by decide +kernel
    exact fun one mem => ⟨plainAll_iff.mp plain.1.2.2.1 _ (List.mem_map_of_mem mem), written one mem⟩
  have texts : ones.Pairwise fun v w => v.2 ≠ w.2 := by decide
  exact texts.imp_of_mem fun first second differ same =>
    differ ((serialize_canonical (each _ first).1 (each _ second).1 (each _ first).2
      (each _ second).2).mpr same)

end OverlayBuild.BuildResult
