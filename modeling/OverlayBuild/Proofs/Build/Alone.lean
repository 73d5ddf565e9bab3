import Mathlib.Algebra.Group.Int.Defs
import OverlayBuild.Build.Program
import OverlayBuild.Proofs.Tree

/-! A build on its own leaves the tree as it was. What it stages goes into a place where
nothing stood, and goes away again however the program ends. -/
namespace OverlayBuild.Build

open OverlayBuild.Tree

variable {host : Host} {config : Config} {tree : Tree} {r : Request}

def Request.document (r : Request) (multiline : Yaml.Multiline) : List UInt8 :=
  match r.rendered multiline with
  | .ok content => content.toUTF8.toList
  | .error _ => []

/-- The specification of a request, if it has one, can be written as text. -/
def Request.Writable (r : Request) (multiline : Yaml.Multiline) : Prop :=
  ∃ content, r.rendered multiline = .ok content

theorem Request.rendered_eq {spec : Spec} (staged : r.spec = some spec)
    (multiline : Yaml.Multiline) : r.rendered multiline = spec.yaml multiline := by
  simp [Request.rendered, staged]

theorem Request.stagedPlace_ne_nil (r : Request) (working : Location) :
    r.stagedPlace working ≠ [] := by
  simp [stagedPlace]

theorem isName_of_mem {name : String} (mem : name ∈ kustomizationNames) : IsName name := by
  simp only [kustomizationNames, List.mem_cons, List.not_mem_nil, or_false] at mem
  rcases mem with rfl | rfl | rfl <;> exact ⟨by decide, by decide, by decide, by decide⟩

theorem stagedName_mem : stagedName ∈ kustomizationNames := by simp [kustomizationNames]

theorem isName_stagedName : IsName stagedName := isName_of_mem stagedName_mem

theorem restrictor_isNone_iff :
    (Restrictor.ofName? r.restrictor).isNone = true ↔ r.restrictor ∉ restrictorNames := by
  simp only [Restrictor.ofName?, Option.isNone_iff_eq_none, List.find?_eq_none, restrictorNames,
    List.mem_map, beq_iff_eq, not_exists, not_and]

/-- A request is refused before anything is done for it. -/
def Refused (host : Host) (tree : Tree) (r : Request) : Prop :=
  tree.isDirectory host.working r.root = false ∨ r.restrictor ∉ restrictorNames ∨
    (r.spec.isSome = true ∧
      ∃ name ∈ kustomizationNames, tree.present host.working (r.root.child name) = true)

theorem occupant?_eq_none_iff (directory : tree.isDirectory host.working r.root = true) :
    occupant? host tree r = none ↔
      ∀ name ∈ kustomizationNames, tree.get? (r.place host.working ++ [name]) = none := by
  simp only [occupant?, List.find?_eq_none, List.forall_mem_map]
  refine forall₂_congr fun name mem => ?_
  rw [present_child directory (isName_of_mem mem)]
  simp [Request.place]

theorem occupant?_isSome_iff :
    (occupant? host tree r).isSome = true ↔
      ∃ name ∈ kustomizationNames, tree.present host.working (r.root.child name) = true := by
  simp [occupant?, List.find?_isSome]

/-- A request that is not refused has a root in which there is room to stage. -/
theorem not_refused_iff : ¬ Refused host tree r ↔
    tree.isDirectory host.working r.root = true ∧
      (Restrictor.ofName? r.restrictor).isNone = false ∧
        (r.spec.isSome = true → occupant? host tree r = none) := by
  simp only [Refused, not_or, not_and]
  refine and_congr (by simp) (and_congr ?_ (imp_congr_right fun _ => ?_))
  · rw [← restrictor_isNone_iff, Bool.not_eq_true]
  · rw [← occupant?_isSome_iff, Option.not_isSome_iff_eq_none]

/-- The program may delete what is staged for a request, and changes nothing else. -/
def Host.Spares (host : Host) (config : Config) (r : Request) : Prop :=
  ∀ tree l, (host.execute (r.commandUnder config) tree).2.get? l = tree.get? l ∨
    (r.spec.isSome = true ∧ l = r.stagedPlace host.working ∧
      (host.execute (r.commandUnder config) tree).2.get? l = none)

/-- The tree that the program finds. -/
def prepared (host : Host) (config : Config) (tree : Tree) (r : Request) : Tree :=
  if r.spec.isSome then
    tree.put (r.stagedPlace host.working) (.file (r.document config.multiline))
  else tree

theorem sameDirectories_put {l : Location} (content : List UInt8) (inside : l ≠ [])
    (free : tree.get? l = none) : SameDirectories tree (tree.put l (.file content)) := by
  intro place
  rw [get?_put _ _ _ _ inside]
  split
  · rename_i same; simp [same, free]
  · exact Iff.rfl

section unstage

variable {run : Run} (directory : tree.isDirectory host.working r.root = true)
  (vacant : tree.get? (r.stagedPlace host.working) = none) {content : List UInt8}
  (spared : ∀ l,
    run.tree.get? l = (tree.put (r.stagedPlace host.working) (.file content)).get? l ∨
      (l = r.stagedPlace host.working ∧ run.tree.get? l = none))

include vacant spared in
theorem sameDirectories_of_spared : SameDirectories tree run.tree := by
  intro l
  rw [sameDirectories_put content (r.stagedPlace_ne_nil _) vacant l]
  rcases spared l with same | ⟨rfl, gone⟩
  · rw [same]
  · rw [gone, get?_put _ _ _ _ (r.stagedPlace_ne_nil _)]
    simp

include spared in
theorem get?_stagedPlace_of_spared :
    run.tree.get? (r.stagedPlace host.working) = some (.file content) ∨
      run.tree.get? (r.stagedPlace host.working) = none := by
  rcases spared (r.stagedPlace host.working) with same | ⟨-, gone⟩
  · rw [same, get?_put _ _ _ _ (r.stagedPlace_ne_nil _)]
    simp
  · exact .inr gone

include spared in
theorem get?_of_spared {l : Location} (elsewhere : l ≠ r.stagedPlace host.working) :
    run.tree.get? l = tree.get? l := by
  rcases spared l with same | ⟨here, -⟩
  · rw [same, get?_put _ _ _ _ (r.stagedPlace_ne_nil _), if_neg elsewhere]
  · contradiction

include directory vacant spared in
/-- The staged file goes away, whether the program has deleted it or not. -/
theorem unstage_restores :
    (unstage host r run).outcome = run.outcome ∧ (unstage host r run).call = run.call ∧
      ∀ l, (unstage host r run).tree.get? l = tree.get? l := by
  have there : run.tree.isDirectory host.working r.root = true :=
    (sameDirectories_of_spared vacant spared).isDirectory _ _ ▸ directory
  have place : run.tree.present host.working r.stagedFile =
      (run.tree.get? (r.stagedPlace host.working)).isSome :=
    present_child there isName_stagedName
  rcases get?_stagedPlace_of_spared spared with kept | gone
  · have removed : run.tree.remove host.working r.stagedFile =
        .ok (run.tree.erase (r.stagedPlace host.working)) :=
      remove_child there isName_stagedName kept
    simp only [unstage, place, kept, removed, Option.isSome_some, if_true]
    refine ⟨trivial, trivial, fun l => ?_⟩
    rw [get?_erase _ _ _ (r.stagedPlace_ne_nil _)]
    split
    · rename_i here; rw [here, vacant]
    · rename_i elsewhere; exact get?_of_spared spared elsewhere
  · simp only [unstage, place, gone, Option.isSome_none, Bool.false_eq_true, if_false]
    refine ⟨trivial, trivial, fun l => ?_⟩
    by_cases here : l = r.stagedPlace host.working
    · rw [here, gone, vacant]
    · exact get?_of_spared spared here

end unstage

theorem document_eq {content : String} (written : r.rendered config.multiline = .ok content) :
    r.document config.multiline = content.toUTF8.toList := by
  simp [Request.document, written]

/-- A specification that is not refused and can be written is staged for the program. -/
theorem build_staged {spec : Spec} {content : String}
    (directory : tree.isDirectory host.working r.root = true)
    (known : (Restrictor.ofName? r.restrictor).isNone = false) (staged : r.spec = some spec)
    (vacant : occupant? host tree r = none)
    (written : r.rendered config.multiline = .ok content) :
    build host config tree r = unstage host r (host.run config (prepared host config tree r) r) := by
  have free : tree.get? (r.stagedPlace host.working) = none :=
    (occupant?_eq_none_iff directory).mp vacant _ stagedName_mem
  have put : tree.write host.working r.stagedFile content.toUTF8.toList =
      .ok (prepared host config tree r) := by
    rw [prepared, if_pos (by simp [staged]), document_eq written, Request.stagedFile,
      write_child directory isName_stagedName]
    exact writeAt_of_not_directory (by simpa [Request.stagedPlace, Request.place] using free ▸ nofun) _
  rw [Request.rendered_eq staged] at written
  simp only [build, directory, known, staged, buildSpec, vacant, written, put, Bool.not_true,
    Bool.false_eq_true, if_false]

theorem build_plain (directory : tree.isDirectory host.working r.root = true)
    (known : (Restrictor.ofName? r.restrictor).isNone = false) (plain : r.spec = none) :
    build host config tree r = host.run config tree r := by
  simp [build, directory, known, plain]

/-- A specification that is not written leaves the tree alone, whatever the program. -/
theorem build_unwritten {spec : Spec} {cause : Spec.Fault}
    (directory : tree.isDirectory host.working r.root = true)
    (known : (Restrictor.ofName? r.restrictor).isNone = false) (staged : r.spec = some spec)
    (vacant : occupant? host tree r = none)
    (unwritten : r.rendered config.multiline = .error cause) :
    build host config tree r = ⟨.error (.spec cause), tree, none⟩ := by
  rw [Request.rendered_eq staged] at unwritten
  simp [build, directory, known, staged, buildSpec, vacant, unwritten]

/-- A refused request leaves the tree alone, whatever the program. -/
theorem build_refused (refused : Refused host tree r) :
    ∃ fault, ∀ program config, build ⟨host.working, program⟩ config tree r =
      ⟨.error fault, tree, none⟩ := by
  by_cases directory : tree.isDirectory host.working r.root = true
  · by_cases known : (Restrictor.ofName? r.restrictor).isNone = true
    · exact ⟨.restrictor r.restrictor, fun _ _ => by simp [build, directory, known]⟩
    · have listed : ¬ r.restrictor ∉ restrictorNames := mt restrictor_isNone_iff.mpr known
      simp only [Refused, directory, Bool.true_eq_false, listed, false_or] at refused
      obtain ⟨staged, taken⟩ := refused
      obtain ⟨spec, hasSpec⟩ := Option.isSome_iff_exists.mp staged
      obtain ⟨file, occupied⟩ := Option.isSome_iff_exists.mp (occupant?_isSome_iff.mpr taken)
      refine ⟨.occupied (file.describe host.workingPath), fun program config => ?_⟩
      have same : occupant? ⟨host.working, program⟩ tree r = some file := occupied
      simp [build, directory, known, hasSpec, buildSpec, same]
      rfl
  · exact ⟨.notDirectory (r.root.describe host.workingPath), fun _ _ => by
      simp [build, directory]; rfl⟩

/-- A build in which the program has no part: it is the same whatever the program is. -/
def NeverStarts (host : Host) (config : Config) (tree : Tree) (r : Request) : Prop :=
  (build host config tree r).call = none ∧
    ∀ program, build ⟨host.working, program⟩ config tree r = build host config tree r

/-- A build in which the program is run on one tree: a program that does the same there
makes the same of the whole build. -/
def StartsOnceOn (host : Host) (config : Config) (tree : Tree) (r : Request) (found : Tree) :
    Prop :=
  (∀ completed, (host.execute (r.commandUnder config) found).1 = .ok completed →
    (build host config tree r).call = some ⟨r.commandUnder config, host.staged? found r⟩) ∧
  (∀ fault, (host.execute (r.commandUnder config) found).1 = .error fault →
    (build host config tree r).call = none) ∧
  ∀ program, program (r.commandUnder config) found = host.execute (r.commandUnder config) found →
    build ⟨host.working, program⟩ config tree r = build host config tree r

theorem neverStarts_of_refused (refused : Refused host tree r) : NeverStarts host config tree r := by
  obtain ⟨fault, ended⟩ := build_refused refused
  have here : build host config tree r = ⟨.error fault, tree, none⟩ := ended host.execute config
  exact ⟨by rw [here], fun program => by rw [here, ended program config]⟩

theorem neverStarts_of_unwritten {spec : Spec} {cause : Spec.Fault}
    (admitted : ¬ Refused host tree r) (staged : r.spec = some spec)
    (unwritten : r.rendered config.multiline = .error cause) : NeverStarts host config tree r := by
  obtain ⟨directory, known, vacant⟩ := not_refused_iff.mp admitted
  have free := vacant (by simp [staged])
  have here := build_unwritten directory known staged free unwritten
  refine ⟨by rw [here], fun program => ?_⟩
  rw [here]
  exact build_unwritten directory known staged free unwritten

/-- What a build makes of the program's one run, given that it comes to it. -/
theorem build_of_admitted (admitted : ¬ Refused host tree r)
    (writable : r.Writable config.multiline) :
    build host config tree r =
      if r.spec.isSome then unstage host r (host.run config (prepared host config tree r) r)
      else host.run config (prepared host config tree r) r := by
  obtain ⟨directory, known, vacant⟩ := not_refused_iff.mp admitted
  cases staged : r.spec with
  | none => simpa [prepared, staged] using build_plain directory known staged
  | some spec =>
    obtain ⟨content, written⟩ := writable
    simpa using build_staged directory known staged (vacant (by simp [staged])) written

theorem unstage_call (run : Run) : (unstage host r run).call = run.call := by
  unfold unstage
  split
  · split <;> rfl
  · rfl

theorem startsOnceOn_of_admitted (admitted : ¬ Refused host tree r)
    (writable : r.Writable config.multiline) :
    StartsOnceOn host config tree r (prepared host config tree r) := by
  have ended := build_of_admitted admitted writable
  have call : (build host config tree r).call =
      (host.run config (prepared host config tree r) r).call := by
    rw [ended]
    split
    · exact unstage_call _
    · rfl
  refine ⟨fun completed started => ?_, fun fault failed => ?_, fun program alike => ?_⟩
  · rw [call, Host.run]
    simp [started]
  · rw [call, Host.run]
    simp [failed]
  · have same : Host.run ⟨host.working, program⟩ config (prepared host config tree r) r =
        host.run config (prepared host config tree r) r := by
      simp only [Host.run, alike]
      rfl
    rw [ended, ← same]
    exact build_of_admitted admitted writable

theorem run_spared (spares : host.Spares config r) (staged : r.spec.isSome = true)
    (l : Location) :
    (host.run config (prepared host config tree r) r).tree.get? l =
        (tree.put (r.stagedPlace host.working) (.file (r.document config.multiline))).get? l ∨
      (l = r.stagedPlace host.working ∧
        (host.run config (prepared host config tree r) r).tree.get? l = none) := by
  have kept := spares (prepared host config tree r) l
  simp only [staged, true_and] at kept
  simpa [Host.run, prepared, staged] using kept

/-- The clean-up changes nothing about how a build ends. -/
theorem build_outcome (admitted : ¬ Refused host tree r) (writable : r.Writable config.multiline)
    (spares : host.Spares config r) :
    (build host config tree r).outcome = (host.run config (prepared host config tree r) r).outcome ∧
      (build host config tree r).call = (host.run config (prepared host config tree r) r).call := by
  obtain ⟨directory, -, vacant⟩ := not_refused_iff.mp admitted
  rw [build_of_admitted admitted writable]
  split
  · rename_i staged
    have room := (occupant?_eq_none_iff directory).mp (vacant staged) _ stagedName_mem
    obtain ⟨outcome, call, -⟩ := unstage_restores directory room (run_spared spares staged)
    exact ⟨outcome, call⟩
  · exact ⟨rfl, rfl⟩

/-- The program's run alone keeps all but what was staged for it. -/
theorem build_get? (spares : host.Spares config r) (l : Location) :
    (build host config tree r).tree.get? l = tree.get? l := by
  by_cases refused : Refused host tree r
  · obtain ⟨fault, ended⟩ := build_refused refused
    rw [show build host config tree r = ⟨.error fault, tree, none⟩ from ended host.execute config]
  obtain ⟨directory, known, vacant⟩ := not_refused_iff.mp refused
  cases staged : r.spec with
  | none =>
    rw [build_plain directory known staged]
    rcases spares tree l with same | ⟨isSpec, -⟩
    · exact same
    · simp [staged] at isSpec
  | some spec =>
    have free := vacant (by simp [staged])
    cases written : r.rendered config.multiline with
    | error cause => rw [build_unwritten directory known staged free written]
    | ok content =>
      rw [build_staged directory known staged free written]
      have room := (occupant?_eq_none_iff directory).mp free _ stagedName_mem
      exact (unstage_restores directory room (run_spared spares (by simp [staged]))).2.2 l

/-- Every file and directory is as it was after a build, whatever the program does that
spares them. It has no part in a build that is refused, or whose specification cannot be
written, and is started once in all others. -/
theorem build_restores_tree (spares : host.Spares config r) :
    (∀ l, (build host config tree r).tree.get? l = tree.get? l) ∧
    (Refused host tree r ∨ ¬ r.Writable config.multiline → NeverStarts host config tree r) ∧
    (¬ Refused host tree r → r.Writable config.multiline →
      StartsOnceOn host config tree r (prepared host config tree r)) := by
  refine ⟨build_get? spares, fun hindered => ?_, startsOnceOn_of_admitted⟩
  by_cases refused : Refused host tree r
  · exact neverStarts_of_refused refused
  · have unwritable := hindered.resolve_left refused
    cases staged : r.spec with
    | none => exact absurd ⟨"", by simp [Request.rendered, staged]⟩ unwritable
    | some spec =>
      cases written : r.rendered config.multiline with
      | error cause => exact neverStarts_of_unwritten refused staged written
      | ok content => exact absurd ⟨content, written⟩ unwritable

/-! A directory with nothing in it, and overlays that set one count of replicas there. -/

def emptyRoot : Tree := ⟨[(["root"], .directory)]⟩

def bareConfig : Config := ⟨defaultProgram, [], .quoted⟩

def replicaSpec (count : Int) : Spec :=
  ⟨[], [], [], [], [], [], "", "", "", [⟨"web", count⟩], [], [], []⟩

def replicaRequest (count : Int) : Request :=
  ⟨some (replicaSpec count), ⟨.working, ["root"]⟩, ""⟩

/-- A program that prints nothing and deletes what it finds staged. -/
def deletingHost : Host :=
  ⟨[], fun _ tree => (.ok ⟨[], [], 0⟩, tree.erase ["root", stagedName])⟩

theorem deletingHost_spares (count : Int) :
    deletingHost.Spares bareConfig (replicaRequest count) := by
  intro tree l
  simp only [deletingHost, get?_erase _ _ _ (List.cons_ne_nil _ _)]
  split
  · rename_i here; exact .inr ⟨rfl, here, rfl⟩
  · exact .inl rfl

theorem replicaRequest_admitted (count : Int) :
    ¬ Refused deletingHost emptyRoot (replicaRequest count) := by
  have directory : emptyRoot.isDirectory [] ⟨.working, ["root"]⟩ = true := by decide
  have vacant : ∀ name ∈ kustomizationNames,
      emptyRoot.present [] (Path.child ⟨.working, ["root"]⟩ name) = false := by decide
  rintro (elsewhere | unlisted | ⟨-, name, mem, taken⟩)
  · exact absurd (directory.symm.trans elsewhere) nofun
  · exact unlisted (List.mem_cons_self : "" ∈ restrictorNames)
  · exact absurd ((vacant name mem).symm.trans taken) nofun

theorem replicaRequest_writable : (replicaRequest 3).Writable .quoted := by
  obtain ⟨content, written⟩ : ∃ content, (replicaSpec 3).yaml .quoted = .ok content :=
    ⟨_, if_neg (by decide +kernel)⟩
  exact ⟨content, (Request.rendered_eq rfl _).trans written⟩

theorem build_restores_tree_of_deletion :
    deletingHost.Spares bareConfig (replicaRequest 3) ∧
    (∀ l, (build deletingHost bareConfig emptyRoot (replicaRequest 3)).tree.get? l =
      emptyRoot.get? l) ∧
    (build deletingHost bareConfig emptyRoot (replicaRequest 3)).call.isSome = true := by
  have spares := deletingHost_spares 3
  obtain ⟨kept, -, started⟩ := build_restores_tree spares
  have once := started (replicaRequest_admitted 3) replicaRequest_writable
  exact ⟨spares, kept, by rw [once.1 _ rfl]; rfl⟩

theorem oversized_count_unwritten :
    (replicaSpec (10 ^ 4300)).yaml bareConfig.multiline = .error .oversized :=
  if_pos (by decide +kernel)

/-- A count of 4301 digits is not written out, so the program is not started although
nothing is in its way. -/
theorem oversized_count_never_starts :
    ¬ Refused deletingHost emptyRoot (replicaRequest (10 ^ 4300)) ∧
    (∀ command tree, (deletingHost.execute command tree).1 = .ok ⟨[], [], 0⟩) ∧
    (build deletingHost bareConfig emptyRoot (replicaRequest (10 ^ 4300))).call = none := by
  have staged : (replicaRequest (10 ^ 4300)).spec = some (replicaSpec (10 ^ 4300)) := rfl
  have unwritten := (Request.rendered_eq staged _).trans oversized_count_unwritten
  refine ⟨replicaRequest_admitted _, fun _ _ => rfl, ?_⟩
  exact (neverStarts_of_unwritten (replicaRequest_admitted _) staged unwritten).1

end OverlayBuild.Build
