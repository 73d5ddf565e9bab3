import OverlayBuild.Tree

/-! How paths lead through a tree. A path that leads anywhere leads to the place that it
names, and only the directories of the tree decide how far it leads. So the entries of a
directory are reached alike in all trees with the same directories. -/
namespace OverlayBuild.Tree

variable {t other : Tree} {working here l : Location} {parts : List String} {p : Path}

theorem reach_cons (t : Tree) (here : Location) (part : String) (parts : List String) :
    t.reach here (part :: parts) = (t.reach here [part]).bind (t.reach · parts) := by
  simp only [reach]
  cases t.get? here with
  | none => rfl
  | some entry =>
    cases entry with
    | file content => rfl
    | directory =>
      simp only
      split <;> rfl

theorem reach_append (t : Tree) (here : Location) (parts more : List String) :
    t.reach here (parts ++ more) = (t.reach here parts).bind (t.reach · more) := by
  induction parts generalizing here with
  | nil => rfl
  | cons part parts ih =>
    rw [List.cons_append, reach_cons, reach_cons t here part parts]
    cases t.reach here [part] with
    | error refusal => rfl
    | ok next => exact ih next

theorem reach_singleton_eq_ok_iff {part : String} :
    t.reach here [part] = .ok l ↔
      t.get? here = some .directory ∧ part.utf8ByteSize ≤ maxNameBytes ∧
        l = follow here part := by
  simp only [reach]
  split
  · rename_i missing; simp [missing]
  · rename_i file; simp [file]
  · rename_i directory
    split
    · rename_i long; simp [directory, Nat.not_le.mpr long]
    · rename_i short; simp [directory, Nat.not_lt.mp short, eq_comm]

theorem foldl_follow_of_reach (reached : t.reach here parts = .ok l) :
    l = parts.foldl follow here := by
  induction parts generalizing here with
  | nil => exact (Except.ok.inj reached).symm
  | cons part parts ih =>
    rw [reach_cons] at reached
    cases first : t.reach here [part] with
    | error refusal => rw [first] at reached; contradiction
    | ok next =>
      rw [first] at reached
      obtain ⟨-, -, rfl⟩ := reach_singleton_eq_ok_iff.mp first
      exact ih reached

theorem resolve_of_locate (located : t.locate working p = .ok l) : l = resolve working p :=
  foldl_follow_of_reach located

/-- What a path leads to is a directory, and it stands where the path says. -/
theorem isDirectory_iff :
    t.isDirectory working p = true ↔
      t.locate working p = .ok (resolve working p) ∧
        t.get? (resolve working p) = some .directory := by
  simp only [isDirectory, look]
  constructor
  · intro directory
    cases located : t.locate working p with
    | error refusal => simp [located, Except.bind] at directory
    | ok place =>
      obtain rfl := resolve_of_locate located
      refine ⟨rfl, ?_⟩
      cases found : t.get? (resolve working p) with
      | none => simp [located, Except.bind, find, found] at directory
      | some entry =>
        cases entry with
        | directory => rfl
        | file content => simp [located, Except.bind, find, found] at directory
  · rintro ⟨located, found⟩
    simp [located, Except.bind, find, found]

/-! Trees with the same directories. -/

def SameDirectories (t other : Tree) : Prop :=
  ∀ l, t.get? l = some .directory ↔ other.get? l = some .directory

theorem SameDirectories.symm (same : SameDirectories t other) : SameDirectories other t :=
  fun l => (same l).symm

theorem SameDirectories.reach (same : SameDirectories t other)
    (reached : t.reach here parts = .ok l) : other.reach here parts = .ok l := by
  induction parts generalizing here with
  | nil => exact reached
  | cons part parts ih =>
    rw [reach_cons] at reached ⊢
    cases first : t.reach here [part] with
    | error refusal => rw [first] at reached; contradiction
    | ok next =>
      obtain ⟨directory, rest⟩ := reach_singleton_eq_ok_iff.mp first
      rw [reach_singleton_eq_ok_iff.mpr ⟨(same here).mp directory, rest⟩]
      rw [first] at reached
      exact ih reached

theorem SameDirectories.isDirectory (same : SameDirectories t other) (working : Location)
    (p : Path) : t.isDirectory working p = other.isDirectory working p := by
  rw [Bool.eq_iff_iff, isDirectory_iff, isDirectory_iff]
  constructor
  · rintro ⟨located, directory⟩
    exact ⟨same.reach located, (same _).mp directory⟩
  · rintro ⟨located, directory⟩
    exact ⟨same.symm.reach located, (same _).mpr directory⟩

/-! Entries of a directory. -/

/-- A name that leads from a directory to an entry of it. -/
structure IsName (name : String) : Prop where
  nonempty : name ≠ ""
  one_dot : name ≠ "."
  two_dots : name ≠ ".."
  short : name.utf8ByteSize ≤ maxNameBytes

variable {name : String}

theorem IsName.follow (named : IsName name) (here : Location) :
    follow here name = here ++ [name] := by
  simp [Tree.follow, named.nonempty, named.one_dot, named.two_dots]

theorem locate_child (directory : t.isDirectory working p = true) (named : IsName name) :
    t.locate working (p.child name) = .ok (resolve working p ++ [name]) := by
  obtain ⟨located, found⟩ := isDirectory_iff.mp directory
  have start : t.reach (base working p) p.parts = .ok (resolve working p) := located
  show t.reach (base working p) (p.parts ++ [name]) = _
  rw [reach_append, start, ← named.follow]
  exact reach_singleton_eq_ok_iff.mpr ⟨found, named.short, rfl⟩

theorem look_child (directory : t.isDirectory working p = true) (named : IsName name) :
    t.look working (p.child name) = t.find (resolve working p ++ [name]) := by
  rw [look, locate_child directory named]
  rfl

theorem present_child (directory : t.isDirectory working p = true) (named : IsName name) :
    t.present working (p.child name) = (t.get? (resolve working p ++ [name])).isSome := by
  rw [present, look_child directory named, find]
  cases t.get? (resolve working p ++ [name]) <;> rfl

theorem content?_child (directory : t.isDirectory working p = true) (named : IsName name) :
    t.content? working (p.child name) =
      match t.get? (resolve working p ++ [name]) with
      | some (.file content) => some content
      | _ => none := by
  rw [content?, look_child directory named, find]
  cases t.get? (resolve working p ++ [name]) with
  | none => rfl
  | some entry => cases entry <;> rfl

theorem write_child (directory : t.isDirectory working p = true) (named : IsName name)
    (content : List UInt8) :
    t.write working (p.child name) content =
      t.writeAt (resolve working p ++ [name]) content := by
  rw [write, locate_child directory named]
  rfl

theorem writeAt_of_not_directory (free : t.get? l ≠ some .directory) (content : List UInt8) :
    t.writeAt l content = .ok (t.put l (.file content)) := by
  rw [writeAt]
  split
  · contradiction
  · rfl

theorem remove_child {content : List UInt8} (directory : t.isDirectory working p = true)
    (named : IsName name) (found : t.get? (resolve working p ++ [name]) = some (.file content)) :
    t.remove working (p.child name) = .ok (t.erase (resolve working p ++ [name])) := by
  rw [remove, locate_child directory named]
  simp [bind, Except.bind, find, found, pure, Except.pure]

end OverlayBuild.Tree
