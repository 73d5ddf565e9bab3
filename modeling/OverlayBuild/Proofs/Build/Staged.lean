import OverlayBuild.Proofs.Build.Alone
import OverlayBuild.Proofs.Build.Context

/-! What builds have staged while they run together. As long as programs write nothing and no
error ends a build, the tree is the one that was there at first, with just the staged files
laid over it, each in a place where nothing stood. -/
namespace OverlayBuild.Build

open OverlayBuild.Tree

/-- What a build has staged of a document: nothing at first, then an empty file. -/
def Phase.staged? (document : List UInt8) : Phase → Option (List UInt8)
  | .writing _ _ => some []
  | .queued (some _) | .running (some _) | .cleaning _ _ | .removing _ _ => some document
  | _ => none

def State.staged? (working : Location) (s : State) (i : Nat) : Option (Location × List UInt8) :=
  (s.request? i).bind fun r => (s.phase? i).bind fun p =>
    (p.staged? (r.document s.context.config.multiline)).map fun bytes => (r.stagedPlace working, bytes)

/-- A tree with the staged files laid over it. -/
structure Laid (working : Location) (tree : Tree) (s : State) : Prop where
  staged : ∀ i l bytes, s.staged? working i = some (l, bytes) →
    tree.get? l = none ∧ s.tree.get? l = some (.file bytes)
  kept : ∀ l, (∀ i bytes, s.staged? working i ≠ some (l, bytes)) → s.tree.get? l = tree.get? l

variable {working : Location} {tree : Tree} {s next : State} {i k : Nat} {p q : Phase}
  {r : Request} {call : Option Call} {l : Location} {bytes document : List UInt8}

theorem staged?_of_phase? (asked : s.request? i = some r) (known : s.phase? i = some p) :
    s.staged? working i = (p.staged? (r.document s.context.config.multiline)).map
      fun bytes => (r.stagedPlace working, bytes) := by
  simp [State.staged?, asked, known]

/-- Only builds that have a directory to themselves have staged anything. -/
theorem inside?_of_staged? (staged : p.staged? document = some bytes) :
    ∃ hold, p.standing.inside? = some hold := by
  cases p with
  | writing hold content | cleaning hold outcome | removing hold outcome => exact ⟨hold, rfl⟩
  | queued hold | running hold =>
    cases hold with
    | none => exact absurd staged nofun
    | some hold => exact ⟨hold, rfl⟩
  | entering | waiting hold | checking hold names | opening hold content | done outcome =>
    exact absurd staged nofun

theorem staged?_ended (hold : Option Hold) (outcome : Outcome) :
    (Phase.ended hold outcome).staged? document = (Phase.running hold).staged? document := by
  cases hold <;> rfl

theorem stager (staged : s.staged? working i = some (l, bytes)) :
    ∃ r p, s.request? i = some r ∧ s.phase? i = some p ∧
      p.staged? (r.document s.context.config.multiline) = some bytes ∧
        l = r.stagedPlace working := by
  simp only [State.staged?, Option.bind_eq_some_iff, Option.map_eq_some_iff, Prod.mk.injEq] at staged
  obtain ⟨r, asked, p, known, written, staged, rfl, rfl⟩ := staged
  exact ⟨r, p, asked, known, staged, rfl⟩

/-- No one else has staged anything in a directory that a build has to itself. -/
theorem Shared.stager_unique {config : Config} {hold : Hold} (shared : Shared working config s)
    (asked : s.request? i = some r) (inside : (s.standing i).inside? = some hold)
    (staged : s.staged? working k = some (r.stagedPlace working, bytes)) : k = i := by
  obtain ⟨other, p, askedToo, known, written, place⟩ := stager staged
  obtain ⟨held, insideToo⟩ := inside?_of_staged? written
  have stands : (s.standing k).inside? = some held := by
    rw [State.standing_of_phase? known]; exact insideToo
  obtain ⟨own, ownAsked, -, ownKey⟩ := shared.resolved i hold (by simp [Standing.hold?, inside])
  obtain ⟨its, itsAsked, -, itsKey⟩ := shared.resolved k held (by simp [Standing.hold?, stands])
  obtain rfl := Option.some.inj (asked.symm.trans ownAsked)
  obtain rfl := Option.some.inj (askedToo.symm.trans itsAsked)
  have same : r.place working = other.place working := (List.append_inj' place rfl).1
  exact shared.inside k i held hold stands inside (by rw [ownKey, itsKey, same])

theorem Advances.staged? (asked : s.request? i = some r) (advances : Advances s next i q call) :
    next.staged? working k =
      if k = i then (q.staged? (r.document s.context.config.multiline)).map
        fun bytes => (r.stagedPlace working, bytes)
      else s.staged? working k := by
  rw [State.staged?, advances.request?, advances.phase?, advances.config]
  by_cases same : k = i
  · subst same; simp [asked]
  · simp [same, State.staged?]

namespace Laid

theorem sameDirectories (laid : Laid working tree s) : SameDirectories tree s.tree := by
  intro l
  by_cases staged : ∃ i bytes, s.staged? working i = some (l, bytes)
  · obtain ⟨i, bytes, staged⟩ := staged
    obtain ⟨vacant, file⟩ := laid.staged i l bytes staged
    simp [vacant, file]
  · rw [laid.kept l fun i bytes here => staged ⟨i, bytes, here⟩]

/-- A step that neither stages nor removes anything. -/
theorem still (laid : Laid working tree s) (asked : s.request? i = some r)
    (known : s.phase? i = some p) (advances : Advances s next i q call)
    (same : q.staged? (r.document s.context.config.multiline) =
      p.staged? (r.document s.context.config.multiline))
    (entries : ∀ l, next.tree.get? l = s.tree.get? l) : Laid working tree next := by
  have staged (k : Nat) : next.staged? working k = s.staged? working k := by
    rw [advances.staged? asked]
    split
    · rename_i own
      rw [own, staged?_of_phase? asked known, same]
    · rfl
  refine ⟨fun k l bytes here => ?_, fun l absent => ?_⟩
  · rw [entries]
    exact laid.staged k l bytes (staged k ▸ here)
  · rw [entries]
    exact laid.kept l fun k bytes => staged k ▸ absent k bytes

/-- A step that changes what a build has staged, in a place that is its own. -/
theorem change (laid : Laid working tree s) (asked : s.request? i = some r)
    (known : s.phase? i = some p) (advances : Advances s next i q call)
    (vacant : tree.get? (r.stagedPlace working) = none)
    (alone : ∀ k bytes, s.staged? working k = some (r.stagedPlace working, bytes) → k = i)
    (entries : ∀ l, next.tree.get? l = if l = r.stagedPlace working then
      (q.staged? (r.document s.context.config.multiline)).map .file else s.tree.get? l) :
    Laid working tree next := by
  have staged (k : Nat) : next.staged? working k = _ := advances.staged? asked
  refine ⟨fun k l bytes here => ?_, fun l absent => ?_⟩
  · rw [staged] at here
    split at here
    · obtain ⟨written, stages, same⟩ := Option.map_eq_some_iff.mp here
      obtain ⟨rfl, rfl⟩ := Prod.mk.inj same
      exact ⟨vacant, by rw [entries, if_pos rfl, stages]; rfl⟩
    · rename_i other
      have elsewhere : l ≠ r.stagedPlace working := fun same => other (alone k bytes (same ▸ here))
      rw [entries, if_neg elsewhere]
      exact laid.staged k l bytes here
  -- Where nothing is staged, either the build has taken its file away or it is not its place.
  · rw [entries]
    split
    · rename_i same
      have nothing : q.staged? (r.document s.context.config.multiline) = none := by
        refine Option.eq_none_iff_forall_ne_some.mpr fun bytes stages => absent i bytes ?_
        rw [staged, if_pos rfl, stages, same]
        rfl
      rw [nothing, same, vacant]
      rfl
    · rename_i elsewhere
      refine laid.kept l fun k bytes here => ?_
      by_cases own : k = i
      · rw [own, staged?_of_phase? asked known] at here
        obtain ⟨written, -, same⟩ := Option.map_eq_some_iff.mp here
        exact elsewhere (Prod.mk.inj same).1.symm
      · exact absent k bytes (by rw [staged, if_neg own]; exact here)

end Laid

end OverlayBuild.Build
