import OverlayBuild.Proofs.Json.Readable

/-! A style for ASCII writes nothing else, whatever the value holds. -/
namespace OverlayBuild.Json

open Text Value

variable {style : Style} {level : Nat} {v key : Value} {cs : List Char} {texts : List (List Char)}

def IsAscii (cs : List Char) : Prop := ∀ c ∈ cs, c.toNat < 0x80

instance : Decidable (IsAscii cs) := List.decidableBAll (fun c : Char => c.toNat < 0x80) cs

theorem IsAscii.nil : IsAscii [] := List.forall_mem_nil _

theorem IsAscii.append {ds : List Char} (front : IsAscii cs) (back : IsAscii ds) :
    IsAscii (cs ++ ds) :=
  List.forall_mem_append.mpr ⟨front, back⟩

theorem IsAscii.cons {c : Char} (small : c.toNat < 0x80) (rest : IsAscii cs) : IsAscii (c :: cs) :=
  List.forall_mem_cons.mpr ⟨small, rest⟩

theorem IsAscii.replicate {c : Char} (small : c.toNat < 0x80) (k : Nat) :
    IsAscii (List.replicate k c) := by
  intro d mem
  rw [List.eq_of_mem_replicate mem]
  exact small

/-! Text and numbers. -/

theorem ascii_unit (n : Nat) : IsAscii (unit n) := by
  have digit : ∀ d < 16, (digitChar d).toNat < 0x80 := by decide
  have digits : IsAscii ((digits 16 n).map digitChar) :=
    List.forall_mem_map.mpr fun d mem => digit d (lt_of_mem_digits (by decide) mem)
  exact .cons (by decide) (.cons (by decide) (.append (.replicate (by decide) _) digits))

theorem ascii_escapeNumber (n : Nat) : IsAscii (escapeNumber n) := by
  rw [escapeNumber]
  split
  · exact ascii_unit n
  · exact (ascii_unit _).append (ascii_unit _)

theorem ascii_charText (c : Char) : IsAscii (charText true c) := by
  unfold charText
  split_ifs with _ _ _ _ _ _ _ control
  iterate 7 decide
  · exact ascii_escapeNumber c.toNat
  · have small : c.toNat < 0x7f := by
      simp only [not_or, true_and] at control
      omega
    exact .cons (by omega) .nil

theorem ascii_stringText (s : String) : IsAscii (stringText true s) :=
  .append (.cons (by decide) (List.forall_mem_flatMap.mpr fun c _ => ascii_charText c)) (by decide)

theorem toNat_lt_of_isNumeric {c : Char} (numeric : isNumeric c = true) : c.toNat < 0x80 := by
  simp only [isNumeric, Bool.or_eq_true, decide_eq_true_eq] at numeric
  rcases numeric with (((digit | rfl) | rfl) | rfl) | rfl
  · simp only [Char.isDigit, Bool.and_eq_true, decide_eq_true_eq] at digit
    have high : c.toNat ≤ 57 := UInt32.le_iff_toNat_le.mp digit.2
    omega
  all_goals decide

theorem ascii_intText {n : Int} (written : intText n = .ok cs) : IsAscii cs := by
  obtain rfl := intText_eq_ok written
  exact fun c mem => toNat_lt_of_isNumeric (isNumeric_of_mem_integer mem)

theorem ascii_floatText (x : Binary64) : IsAscii (floatText x) := by
  cases x with
  | nan => decide
  | infinite negative => cases negative <;> decide
  | finite negative m e =>
    have finite : (Binary64.finite negative m e).IsFinite := trivial
    exact fun c mem => toNat_lt_of_isNumeric ((Binary64.text_pointed finite).numeric c mem)

theorem ascii_boolText (b : Bool) : IsAscii (boolText b) := by
  cases b <;> decide

/-! Containers. -/

theorem ascii_keyText (ascii : style.ascii = true) (written : keyText style key = .ok cs) :
    IsAscii cs := by
  have bare {cs : List Char} (own : IsAscii cs) : IsAscii ('"' :: cs ++ ['"']) :=
    .append (.cons (by decide) own) (by decide)
  cases key with
  | str s =>
    obtain rfl := Except.ok.inj written
    rw [ascii]
    exact ascii_stringText s
  | null =>
    obtain rfl := Except.ok.inj written
    decide
  | bool b =>
    obtain rfl := Except.ok.inj written
    exact bare (ascii_boolText b)
  | int n =>
    rw [keyText] at written
    obtain ⟨cs, number, rfl⟩ := map_eq_ok_iff.mp written
    exact bare (ascii_intText number)
  | float x =>
    obtain rfl := Except.ok.inj written
    exact bare (ascii_floatText x)
  | _ => contradiction

theorem ascii_lineBreak (style : Style) (level : Nat) : IsAscii (lineBreak style level) := by
  rw [lineBreak]
  split
  · exact .nil
  · exact .cons (by decide) (.replicate (by decide) _)

theorem ascii_enclose {opening closing : Char} (first : opening.toNat < 0x80)
    (last : closing.toNat < 0x80) (each : ∀ t ∈ texts, IsAscii t) :
    IsAscii (enclose style level opening closing texts) := by
  have comma : IsAscii (',' :: lineBreak style (level + 1)) :=
    .cons (by decide) (ascii_lineBreak _ _)
  rw [enclose]
  split
  next => exact .cons first (.cons last .nil)
  next =>
    refine .append (.append (.append (.cons first (ascii_lineBreak _ _)) ?_) (ascii_lineBreak _ _))
      (.cons last .nil)
    cases texts with
    | nil => exact .nil
    | cons t texts =>
      obtain ⟨own, later⟩ := List.forall_mem_cons.mp each
      rw [flatten_intersperse]
      exact own.append (List.forall_mem_flatMap.mpr fun t mem => comma.append (later t mem))

theorem ascii_entryText {e : Value × Except Fault (List Char)} (ascii : style.ascii = true)
    (written : entryText style e = .ok cs) (value : ∀ t, e.2 = .ok t → IsAscii t) : IsAscii cs := by
  obtain ⟨k, named, rest⟩ := bind_eq_ok_iff.mp written
  obtain ⟨t, own, whole⟩ := bind_eq_ok_iff.mp rest
  obtain rfl := Except.ok.inj whole
  have gap : IsAscii (':' :: if style.indent.isSome then [' '] else []) := by split <;> decide
  exact ((ascii_keyText ascii named).append gap).append (value t own)

/-- All that is written is ASCII. -/
theorem ascii_of_writeAt (ascii : style.ascii = true) (written : writeAt style level v = .ok cs) :
    IsAscii cs := by
  induction v using nested generalizing level cs with
  | leaf v leaf =>
    cases v with
    | null =>
      obtain rfl := Except.ok.inj written
      decide
    | bool b =>
      obtain rfl := Except.ok.inj written
      exact ascii_boolText b
    | int n => exact ascii_intText written
    | float x =>
      obtain rfl := Except.ok.inj written
      exact ascii_floatText x
    | str s =>
      obtain rfl := Except.ok.inj written
      rw [ascii]
      exact ascii_stringText s
    | bytes bs | date d | datetime t | loop up => contradiction
    | list items | tuple items | map entries | set items => exact leaf.elim
  | list items ih | tuple items ih =>
    obtain ⟨texts, all, whole⟩ := bind_eq_ok_iff.mp written
    obtain rfl := Except.ok.inj whole
    refine ascii_enclose (by decide) (by decide) fun t mem => ?_
    obtain ⟨v, held, own⟩ := exists_left (writeAll_eq_ok_iff.mp all) mem
    exact ih v held own
  | map entries ih =>
    obtain ⟨moved, texts, order, all, rfl⟩ := entries_of_writeAt written
    refine ascii_enclose (by decide) (by decide) fun t mem => ?_
    obtain ⟨e, held, own⟩ := exists_left all mem
    exact ascii_entryText ascii own fun t value => ih e (order.mem_iff.mp held) value
  | set items => contradiction

end OverlayBuild.Json
