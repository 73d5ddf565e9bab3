import OverlayBuild.Proofs.Json.Readable
import OverlayBuild.Proofs.Json.Reader
import OverlayBuild.Proofs.Value.Every
import OverlayBuild.Proofs.Value.Mapping

/-! Text, lists and mappings are read back from their JSON, in every layout that keeps the order
of the entries. -/
namespace OverlayBuild.Json

open Text Value

variable {style : Style} {level : Nat} {ascii : Bool} {taken : List Nat} {c : Char}
  {cs ds : List Char} {m n p : Scan × State} {state next : State} {around : List Frame} {v : Value}
  {items : List Value} {entries : List (Value × Value)} {texts : List (List Char)}

def Leads (m : Scan × State) (cs : List Char) (n : Scan × State) : Prop :=
  cs.foldlM advance m = some n

theorem Leads.cons (first : advance m c = some n) (rest : Leads n cs p) : Leads m (c :: cs) p := by
  rw [Leads, List.foldlM_cons, first]
  exact rest

theorem Leads.append (first : Leads m cs n) (rest : Leads n ds p) : Leads m (cs ++ ds) p := by
  rw [Leads, List.foldlM_append, first]
  exact rest

/-! Text. -/

/-- The units of characters stand for these characters. -/
theorem ofUnits?_units (cs : List Char) : ofUnits? (cs.flatMap units) = some cs := by
  induction cs with
  | nil => rfl
  | cons c cs ih =>
    rw [List.flatMap_cons, units]
    have limit : c.toNat < 0x110000 := toNat_lt_limit
    split
    next =>
      have scalar : c.toNat < 0xd800 ∨ 0xdfff < c.toNat := c.valid.imp_right And.left
      rw [List.singleton_append, ofUnits?.eq_def]
      simp only [if_pos scalar, ih, Char.ofNat_toNat, Option.map_some]
    next wide =>
      have number : 0x10000 + (0xd800 + (c.toNat - 0x10000) / 0x400 - 0xd800) * 0x400 +
          (0xdc00 + (c.toNat - 0x10000) % 0x400 - 0xdc00) = c.toNat := by omega
      rw [List.cons_append, List.singleton_append, ofUnits?.eq_def]
      dsimp only
      rw [if_neg (by omega), if_pos (by omega), ih, number, Char.ofNat_toNat, Option.map_some]

theorem leads_unit {k : Nat} (small : k < 0x10000) :
    Leads (.text taken, state) (unit k) (.text (taken ++ [k]), state) := by
  have small : k < 16 ^ (3 + 1) := small
  obtain ⟨ds, spelled, length, digits, value⟩ := fixedHex_spec small
  match ds, length with
  | [a, b, c, d], _ =>
    simp only [List.forall_mem_cons] at digits
    obtain ⟨first, second, third, fourth, -⟩ := digits
    rw [unit, spelled, ← value]
    simp [Leads, advance, Scan.step, hexValue?_digitChar, first, second, third, fourth]

theorem leads_escapeNumber (c : Char) :
    Leads (.text taken, state) (escapeNumber c.toNat) (.text (taken ++ units c), state) := by
  have limit : c.toNat < 0x110000 := toNat_lt_limit
  rw [escapeNumber, units]
  split
  next narrow => exact leads_unit narrow
  next =>
    rw [← List.singleton_append, ← List.append_assoc]
    exact (leads_unit (by omega)).append (leads_unit (by omega))

theorem leads_escape {d : Char} (stands : escaped? d = some c) :
    Leads (.text taken, state) ['\\', d] (.text (taken ++ units c), state) := by
  have other : d ≠ 'u' := by
    rintro rfl
    contradiction
  simp [Leads, advance, Scan.step, stands, other]

theorem leads_charText (ascii : Bool) (c : Char) :
    Leads (.text taken, state) (charText ascii c) (.text (taken ++ units c), state) := by
  have named {k : Nat} {d : Char} (number : c.toNat = k) (stands : escaped? d = some (Char.ofNat k)) :
      Leads (.text taken, state) ['\\', d] (.text (taken ++ units c), state) :=
    leads_escape (by rw [stands, ← number, Char.ofNat_toNat])
  unfold charText
  split_ifs with quote slash newline home tab feed back control
  · exact named (congrArg Char.toNat quote) rfl
  · exact named (congrArg Char.toNat slash) rfl
  · exact named (congrArg Char.toNat newline) rfl
  · exact named (congrArg Char.toNat home) rfl
  · exact named (congrArg Char.toNat tab) rfl
  · exact named feed rfl
  · exact named back rfl
  · exact leads_escapeNumber c
  · have high : ¬ c.toNat < 0x20 := fun low => control (.inl low)
    simp [Leads, advance, Scan.step, quote, slash, high]

theorem leads_flatMap_charText (cs : List Char) :
    Leads (.text taken, state) (cs.flatMap (charText ascii))
      (.text (taken ++ cs.flatMap units), state) := by
  induction cs generalizing taken with
  | nil =>
    rw [List.flatMap_nil, List.flatMap_nil, List.append_nil]
    rfl
  | cons c cs ih =>
    rw [List.flatMap_cons, List.flatMap_cons, ← List.append_assoc]
    exact (leads_charText ascii c).append ih

/-- Text in quotes is one token. -/
theorem leads_stringText {s : String} (takes : state.step (.leaf (.str s)) = some next) :
    Leads (.between, state) (stringText ascii s) (.between, next) := by
  have opens : advance (.between, state) '"' = some (.text [], state) := rfl
  have closes : Leads (.text ([] ++ s.toList.flatMap units), state) ['"'] (.between, next) := by
    simp [Leads, advance, Scan.step, ofUnits?_units, takes]
  exact .append (.cons opens (leads_flatMap_charText s.toList)) closes

/-! Layout. -/

theorem leads_spaces (spaces : ∀ c ∈ cs, isSpace c = true) :
    Leads (.between, state) cs (.between, state) := by
  induction cs with
  | nil => rfl
  | cons c cs ih =>
    obtain ⟨own, later⟩ := List.forall_mem_cons.mp spaces
    have stays : advance (.between, state) c = some (.between, state) := by
      simp [advance, Scan.step, Scan.start, own]
    exact .cons stays (ih later)

theorem leads_lineBreak (style : Style) (level : Nat) :
    Leads (.between, state) (lineBreak style level) (.between, state) := by
  refine leads_spaces fun c mem => ?_
  rw [lineBreak] at mem
  split at mem
  · contradiction
  · rcases List.mem_cons.mp mem with rfl | blank
    · rfl
    · rw [List.eq_of_mem_replicate blank]
      rfl

theorem leads_mark {t : Token} (mark : Scan.start c = some (.between, [t]))
    (takes : state.step t = some next) : Leads (.between, state) [c] (.between, next) := by
  simp [Leads, advance, Scan.step, mark, takes]

/-! Values. -/

def Awaits (state : State) (around : List Frame) : Prop :=
  ∀ t, t ≠ .closeList → state.step t = State.ofValue around t

theorem awaits_value (around : List Frame) : Awaits (.value around) around := fun _ _ => rfl

theorem awaits_list (around : List Frame) : Awaits (.list around) (.items [] :: around) := by
  intro t other
  cases t <;> first | rfl | contradiction

/-- The text is that of the value, wherever a value may come. -/
def Spells (v : Value) (cs : List Char) : Prop :=
  ∀ state around, Awaits state around → Leads (.between, state) cs (.between, .after v around)

structure Way (α : Type) where
  /-- After the first bracket. -/
  opened : State
  /-- After items and a comma. -/
  next : List α → State
  /-- After items and one more. -/
  last : List α → α → State
  /-- After the last bracket. -/
  closed : List α → State
  closer : Token
  takes_comma : ∀ before a, (last before a).step .comma = some (next (before ++ [a]))
  closes_empty : opened.step closer = some (closed [])
  closes : ∀ before a, (last before a).step closer = some (closed (before ++ [a]))

namespace Way

variable {α : Type} {w : Way α} {as : List α}

def Takes (w : Way α) (a : α) (cs : List Char) : Prop :=
  Leads (.between, w.opened) cs (.between, w.last [] a) ∧
    ∀ before, Leads (.between, w.next before) cs (.between, w.last before a)

/-- From one item over those that follow, and over the bracket after them. -/
theorem leads_rest (style : Style) (level : Nat)
    (mark : Scan.start c = some (.between, [w.closer])) (before : List α) (a : α)
    (takes : List.Forall₂ w.Takes as texts) :
    Leads (.between, w.last before a)
      (texts.flatMap (',' :: lineBreak style (level + 1) ++ ·) ++ lineBreak style level ++ [c])
      (.between, w.closed (before ++ a :: as)) := by
  induction takes generalizing before a with
  | nil => exact (leads_lineBreak style level).append (leads_mark mark (w.closes before a))
  | @cons b t as texts own _ ih =>
    have comma : Leads (.between, w.last before a) [','] (.between, w.next (before ++ [a])) :=
      leads_mark rfl (w.takes_comma before a)
    have item := (comma.append (leads_lineBreak style (level + 1))).append (own.2 (before ++ [a]))
    have rest := item.append (ih (before ++ [a]) b)
    simpa using rest

theorem leads_enclose {opening closing : Char} {opener : Token}
    (mark : Scan.start opening = some (.between, [opener]))
    (other : Scan.start closing = some (.between, [w.closer]))
    (opens : state.step opener = some w.opened) (takes : List.Forall₂ w.Takes as texts) :
    Leads (.between, state) (enclose style level opening closing texts) (.between, w.closed as) := by
  have start := leads_mark mark opens
  cases takes with
  | nil => exact start.append (leads_mark other w.closes_empty)
  | cons own rest =>
    have item := (start.append (leads_lineBreak style (level + 1))).append own.1
    have whole := item.append (leads_rest style level other [] _ rest)
    simpa [enclose, flatten_intersperse] using whole

def list (around : List Frame) : Way Value where
  opened := .list around
  next before := .value (.items before :: around)
  last before v := .after v (.items before :: around)
  closed items := .after (.list items) around
  closer := .closeList
  takes_comma _ _ := rfl
  closes_empty := rfl
  closes _ _ := rfl

def entry (e : String × Value) : Value × Value := (.str e.1, e.2)

theorem insert_entry (before : List (String × Value)) (e : String × Value) :
    insert (.str e.1) e.2 (ofPairs (before.map entry)) = ofPairs ((before ++ [e]).map entry) := by
  simp [ofPairs, entry]

def map (around : List Frame) : Way (String × Value) where
  opened := .map around
  next before := .key (ofPairs (before.map entry)) around
  last before e := .after e.2 (.entries (ofPairs (before.map entry)) e.1 :: around)
  closed entries := .after (.map (ofPairs (entries.map entry))) around
  closer := .closeMap
  takes_comma before e := by rw [State.step, insert_entry]
  closes_empty := rfl
  closes before e := by rw [State.step, insert_entry]

theorem list_takes (spells : Spells v cs) : (list around).Takes v cs :=
  ⟨spells _ _ (awaits_list around), fun _ => spells _ _ (awaits_value _)⟩

theorem map_takes {e : String × Value} (spells : Spells e.2 cs)
    (spaces : ∀ c ∈ ds, isSpace c = true) :
    (map around).Takes e (stringText ascii e.1 ++ ':' :: (ds ++ cs)) := by
  have follows (before : List (Value × Value)) (state : State)
      (takes : state.step (.leaf (.str e.1)) = some (.colon before e.1 around)) :
      Leads (.between, state) (stringText ascii e.1 ++ ':' :: (ds ++ cs))
        (.between, .after e.2 (.entries before e.1 :: around)) := by
    have colon : Leads (.between, .colon before e.1 around) [':']
        (.between, .value (.entries before e.1 :: around)) := leads_mark rfl rfl
    have value := spells _ _ (awaits_value (.entries before e.1 :: around))
    exact (leads_stringText takes).append (colon.append ((leads_spaces spaces).append value))
  exact ⟨follows _ _ rfl, fun before => follows _ _ rfl⟩

end Way

/-- Text, and lists and mappings of it that have each key only once. -/
def IsTextual : Value → Prop
  | .str _ | .list _ => True
  | .map entries => TextKeys entries ∧ (entries.map (·.1)).Nodup
  | _ => False

theorem exists_entries (texts : TextKeys entries) :
    ∃ named : List (String × Value), entries = named.map Way.entry := by
  induction entries with
  | nil => exact ⟨[], rfl⟩
  | cons e entries ih =>
    obtain ⟨⟨key, own⟩, texts⟩ := List.forall_mem_cons.mp texts
    obtain ⟨named, rfl⟩ := ih texts
    exact ⟨(key, e.2) :: named, by rw [List.map_cons, Way.entry, ← own]⟩

/-- What is written without sorting is the text of the value. -/
theorem spells_of_writeAt (unsorted : style.sorted = false) (textual : Every IsTextual v)
    (written : writeAt style level v = .ok cs) : Spells v cs := by
  induction v using nested generalizing level cs with
  | leaf v leaf =>
    have own := leaf.every_iff.mp textual
    cases v with
    | str s =>
      obtain rfl := Except.ok.inj written
      intro state around awaits
      exact leads_stringText (awaits _ nofun)
    | null | bool b | int n | float x | bytes bs | date d | datetime t | loop up => exact own.elim
    | list items | tuple items | map entries | set items => exact leaf.elim
  | list items ih =>
    obtain ⟨-, each⟩ := every_list_iff.mp textual
    obtain ⟨texts, all, whole⟩ := bind_eq_ok_iff.mp written
    obtain rfl := Except.ok.inj whole
    have own : ∀ v ∈ items, ∀ t, writeAt style (level + 1) v = .ok t → Spells v t :=
      fun v mem t => ih v mem (each v mem)
    have spelled := (List.forall₂_and_left _ _).mpr ⟨own, writeAll_eq_ok_iff.mp all⟩
    intro state around awaits
    have takes : List.Forall₂ (Way.list around).Takes items texts :=
      spelled.imp fun v t both => Way.list_takes (both.1 t both.2)
    exact Way.leads_enclose rfl rfl (awaits .openList nofun) takes
  | map entries ih =>
    obtain ⟨⟨texts, distinct⟩, each⟩ := every_map_iff.mp textual
    -- Entries are put one after the other, and all are kept as their keys differ.
    have kept := ofPairs_of_nodup texts distinct
    obtain ⟨named, rfl⟩ := exists_entries texts
    obtain ⟨ordered, texts, done, all, rfl⟩ := writeAt_map_eq_ok_iff.mp written
    rw [if_neg (by simp [unsorted]), writeEntries_eq_map] at done
    obtain rfl := Except.ok.inj done
    have own : ∀ e ∈ named, ∀ t, writeAt style (level + 1) e.2 = .ok t → Spells e.2 t :=
      fun e mem t => ih (Way.entry e) (List.mem_map_of_mem mem) (each _ (List.mem_map_of_mem mem)).2
    have all := List.forall₂_map_left_iff.mp (List.forall₂_map_left_iff.mp all)
    have spelled := (List.forall₂_and_left _ _).mpr ⟨own, all⟩
    intro state around awaits
    have takes : List.Forall₂ (Way.map around).Takes named texts := by
      refine spelled.imp fun e s both => ?_
      obtain ⟨t, value, rfl⟩ := entryText_eq_ok_iff.mp both.2
      exact Way.map_takes (both.1 t value) (by split <;> simp [isSpace])
    rw [← kept]
    exact Way.leads_enclose rfl rfl (awaits .openMap nofun) takes
  | tuple items => exact textual.own.elim
  | set items => exact textual.own.elim

/-- White space after a value is no part of it. -/
theorem Spells.read (spells : Spells v cs) (spaces : ∀ c ∈ ds, isSpace c = true) :
    Json.read (cs ++ ds) = some v := by
  have blank : ∀ c ∈ ds ++ ['\n'], isSpace c = true :=
    List.forall_mem_append.mpr ⟨spaces, List.forall_mem_singleton.mpr rfl⟩
  have whole : Leads (.between, .value []) (cs ++ (ds ++ ['\n'])) (.between, .after v []) :=
    (spells _ _ (awaits_value [])).append (leads_spaces blank)
  rw [Json.read, List.append_assoc, whole]
  rfl

/-- Not JSON: a comma before a bracket, half of a pair of units, a zero before other digits, and
a name that there is not. -/
example : ∀ s ∈ ["[\"a\",]", "\"\\ud83d\"", "01", "NaN"], (Json.read s.toList).isNone := by
  decide +kernel

end OverlayBuild.Json
