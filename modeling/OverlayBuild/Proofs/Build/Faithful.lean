import OverlayBuild.Build.Machine
import OverlayBuild.Proofs.Build.Alone

/-! How a build goes alone, phase by phase, if the program writes nothing. It ends as alone
if the program also finds what it reads as it does alone. -/
namespace OverlayBuild.Build

open OverlayBuild.Tree

def Host.Keeps (host : Host) : Prop :=
  ∀ command tree l, (host.execute command tree).2.get? l = tree.get? l

/-- What the program does for a request is a function of its command and of some places. -/
def Host.Reads (host : Host) (config : Config) (r : Request) (own : Location → Prop) : Prop :=
  ∀ tree other : Tree, (∀ l, own l → tree.get? l = other.get? l) →
    (host.execute (r.commandUnder config) tree).1 = (host.execute (r.commandUnder config) other).1

/-- A place is the root of a request or below it. -/
def Request.Contains (r : Request) (working : Location) (l : Location) : Prop :=
  r.place working <+: l

/-- The program writes nothing and reads nothing but the files of the root. -/
structure Host.Confined (host : Host) (config : Config) (requests : List Request) : Prop where
  keeps : host.Keeps
  reads : ∀ r ∈ requests, host.Reads config r (r.Contains host.working)

theorem Host.Keeps.spares {host : Host} (keeps : host.Keeps) (config : Config) (r : Request) :
    host.Spares config r :=
  fun tree l => .inl (keeps _ tree l)

theorem Host.Reads.mono {host : Host} {config : Config} {r : Request}
    {own more : Location → Prop} (reads : host.Reads config r own) (le : ∀ l, own l → more l) :
    host.Reads config r more :=
  fun tree other alike => reads tree other fun l owns => alike l (le l owns)

section faithful

variable (host : Host) (config : Config) (tree : Tree) (r : Request)

structure Enters : Prop where
  directory : tree.isDirectory host.working r.root = true
  known : (Restrictor.ofName? r.restrictor).isNone = false
  staged : r.spec.isSome = true

structure Unchecked (names : List String) : Prop where
  rest : occupant? host tree r =
    (names.map r.root.child).find? fun file => tree.present host.working file
  listed : ∀ name ∈ names, name ∈ kustomizationNames

/-- The end that a build has alone, and its run of the program. -/
structure EndsAlone (outcome : Outcome) (calls : List Call) : Prop where
  outcome : outcome = (build host config tree r).outcome
  calls : calls = (build host config tree r).call.toList

/-- How a build has ended: as alone if it was `quiet`, and in any case refused for a
kustomization only where there was one at the start. -/
structure Ends (quiet : Prop) (outcome : Outcome) (calls : List Call) : Prop where
  alone : quiet → EndsAlone host config tree r outcome calls
  occupied : ∀ path, outcome = .error (.occupied path) →
    ∃ name ∈ kustomizationNames, tree.present host.working (r.root.child name) = true

/-- Where a build is and what it has run fit how it goes alone, in the tree of the start. -/
def Faithful (quiet : Prop) : Phase → List Call → Prop
  | .entering, calls => calls = []
  | .waiting _, calls => Enters host tree r ∧ calls = []
  | .checking _ names, calls => Enters host tree r ∧ Unchecked host tree r names ∧ calls = []
  | .opening _ content, calls | .writing _ content, calls =>
    Enters host tree r ∧ occupant? host tree r = none ∧
      r.rendered config.multiline = .ok content ∧ calls = []
  | .queued hold, calls | .running hold, calls =>
    ¬ Refused host tree r ∧ r.Writable config.multiline ∧ hold.isSome = r.spec.isSome ∧ calls = []
  | .cleaning _ outcome, calls | .removing _ outcome, calls =>
    Enters host tree r ∧ Ends host config tree r quiet outcome calls
  | .done outcome, calls => Ends host config tree r quiet outcome calls

end faithful

variable {host : Host} {config : Config} {tree after : Tree} {own : Location → Prop}
  {r : Request} {names : List String} {name : String}

theorem Enters.not_refused (enters : Enters host tree r) (vacant : occupant? host tree r = none) :
    ¬ Refused host tree r :=
  not_refused_iff.mpr ⟨enters.directory, enters.known, fun _ => vacant⟩

theorem Enters.room (enters : Enters host tree r) (vacant : occupant? host tree r = none) :
    tree.get? (r.stagedPlace host.working) = none :=
  (occupant?_eq_none_iff enters.directory).mp vacant _ stagedName_mem

theorem endsAlone_elsewhere (missing : tree.isDirectory host.working r.root = false) :
    EndsAlone host config tree r (.error (.notDirectory (r.root.describe host.workingPath))) [] := by
  refine ⟨?_, ?_⟩ <;> simp [build, missing]

theorem endsAlone_unlisted (directory : tree.isDirectory host.working r.root = true)
    (unknown : (Restrictor.ofName? r.restrictor).isNone = true) :
    EndsAlone host config tree r (.error (.restrictor r.restrictor)) [] := by
  refine ⟨?_, ?_⟩ <;> simp [build, directory, unknown]

theorem endsAlone_occupied {file : Path} (enters : Enters host tree r)
    (occupied : occupant? host tree r = some file) :
    EndsAlone host config tree r (.error (.occupied (file.describe host.workingPath))) [] := by
  obtain ⟨spec, staged⟩ := Option.isSome_iff_exists.mp enters.staged
  refine ⟨?_, ?_⟩ <;> simp [build, enters.directory, enters.known, staged, buildSpec, occupied]

theorem endsAlone_unrendered {cause : Spec.Fault} (enters : Enters host tree r)
    (vacant : occupant? host tree r = none)
    (unwritten : r.rendered config.multiline = .error cause) :
    EndsAlone host config tree r (.error (.spec cause)) [] := by
  obtain ⟨spec, staged⟩ := Option.isSome_iff_exists.mp enters.staged
  have ended := build_unwritten enters.directory enters.known staged vacant unwritten
  exact ⟨by rw [ended], by rw [ended]; rfl⟩

/-- The program's run ends the build as alone in a tree that is alike where it matters: in
what the program reads, and in what is recorded as staged. -/
theorem endsAlone_run (keeps : host.Keeps) (reads : host.Reads config r own)
    (admitted : ¬ Refused host tree r) (writable : r.Writable config.multiline)
    (same : SameDirectories tree after)
    (alike : ∀ l, l = r.stagedPlace host.working ∨ own l →
      after.get? l = (prepared host config tree r).get? l) :
    EndsAlone host config tree r (host.run config after r).outcome
      (host.run config after r).call.toList := by
  obtain ⟨directory, -, vacant⟩ := not_refused_iff.mp admitted
  obtain ⟨outcome, called⟩ := build_outcome admitted writable (keeps.spares config r)
  have result := reads after (prepared host config tree r) fun l owns => alike l (.inr owns)
  have there : (prepared host config tree r).isDirectory host.working r.root = true := by
    rw [prepared]
    split
    · rename_i staged
      have room := (occupant?_eq_none_iff directory).mp (vacant staged) _ stagedName_mem
      exact (sameDirectories_put _ (r.stagedPlace_ne_nil _) room).isDirectory _ _ ▸ directory
    · exact directory
  have staged : host.staged? after r = host.staged? (prepared host config tree r) r := by
    have here := alike _ (.inl rfl)
    simp only [Request.stagedPlace, Request.place] at here
    rw [Host.staged?, Host.staged?, Request.stagedFile,
      content?_child (same.isDirectory _ _ ▸ directory) isName_stagedName,
      content?_child there isName_stagedName, here]
  have sameRun : (host.run config after r).outcome =
        (host.run config (prepared host config tree r) r).outcome ∧
      (host.run config after r).call = (host.run config (prepared host config tree r) r).call := by
    simp only [Host.run, result, staged, and_self]
  exact ⟨sameRun.1.trans outcome.symm, by rw [sameRun.2, called]⟩

theorem unchecked_all : Unchecked host tree r kustomizationNames := ⟨rfl, fun _ mem => mem⟩

theorem Unchecked.skip (unchecked : Unchecked host tree r (name :: names))
    (vacant : tree.present host.working (r.root.child name) = false) :
    Unchecked host tree r names := by
  refine ⟨?_, fun other mem => unchecked.listed other (List.mem_cons_of_mem _ mem)⟩
  rw [unchecked.rest, List.map_cons, List.find?_cons_of_neg (by simp [vacant])]

theorem Unchecked.found (unchecked : Unchecked host tree r (name :: names))
    (taken : tree.present host.working (r.root.child name) = true) :
    occupant? host tree r = some (r.root.child name) := by
  rw [unchecked.rest, List.map_cons, List.find?_cons_of_pos (by simp [taken])]

theorem Unchecked.vacant (unchecked : Unchecked host tree r names)
    (vacant : ∀ name ∈ names, tree.present host.working (r.root.child name) = false) :
    occupant? host tree r = none := by
  rw [unchecked.rest, List.find?_eq_none]
  simpa using vacant

theorem outcomeOf_ne_occupied (shown path : String) (result : Except StartFault Completed) :
    outcomeOf shown result ≠ .error (.occupied path) := by
  rw [outcomeOf]
  cases Command.result shown result with
  | error cause => exact fun same => nomatch same
  | ok output =>
    change (Output.resources output).mapError Fault.output ≠ _
    cases Output.resources output with
    | error cause => exact fun same => nomatch same
    | ok resources => exact fun same => nomatch same

/-- A build is refused for a kustomization only where there is one. -/
theorem present_of_occupied {path : String} (spares : host.Spares config r)
    (ended : (build host config tree r).outcome = .error (.occupied path)) :
    ∃ name ∈ kustomizationNames, tree.present host.working (r.root.child name) = true := by
  by_cases missing : tree.isDirectory host.working r.root = false
  · rw [← (endsAlone_elsewhere missing).outcome] at ended
    cases ended
  have directory : tree.isDirectory host.working r.root = true := by simpa using missing
  by_cases unknown : (Restrictor.ofName? r.restrictor).isNone = true
  · rw [← (endsAlone_unlisted directory unknown).outcome] at ended
    cases ended
  by_cases refused : Refused host tree r
  · rcases refused with elsewhere | unlisted | ⟨-, taken⟩
    · exact absurd elsewhere missing
    · exact absurd (restrictor_isNone_iff.mpr unlisted) unknown
    · exact taken
  cases rendered : r.rendered config.multiline with
  | error cause =>
    cases staged : r.spec with
    | none => simp [Request.rendered, staged] at rendered
    | some spec =>
      obtain ⟨-, listed, vacant⟩ := not_refused_iff.mp refused
      have enters : Enters host tree r := ⟨directory, listed, by simp [staged]⟩
      rw [← (endsAlone_unrendered enters (vacant enters.staged) rendered).outcome] at ended
      cases ended
  | ok content =>
    rw [(build_outcome refused ⟨content, rendered⟩ spares).1] at ended
    exact absurd ended (outcomeOf_ne_occupied _ _ _)

theorem Ends.faithful {quiet : Prop} {outcome : Outcome} {calls : List Call} {hold : Option Hold}
    (ended : Ends host config tree r quiet outcome calls) (admitted : ¬ Refused host tree r)
    (held : hold.isSome = r.spec.isSome) :
    Faithful host config tree r quiet (.ended hold outcome) calls := by
  obtain ⟨directory, listed, -⟩ := not_refused_iff.mp admitted
  cases hold with
  | none => exact ended
  | some hold => exact ⟨⟨directory, listed, held.symm⟩, ended⟩

theorem EndsAlone.ends {quiet : Prop} {outcome : Outcome} {calls : List Call}
    (ended : EndsAlone host config tree r outcome calls) (keeps : host.Keeps) :
    Ends host config tree r quiet outcome calls :=
  ⟨fun _ => ended, fun _ refused =>
    present_of_occupied (keeps.spares config r) (ended.outcome.symm.trans refused)⟩

end OverlayBuild.Build
