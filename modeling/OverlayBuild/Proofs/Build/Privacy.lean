import OverlayBuild.Proofs.Build.Faithful
import OverlayBuild.Proofs.Build.Staged

/-! The invariant of builds that share a context, if the program writes nothing: the tree is
the one of the start but for what is staged, and each build of a specification has gone as it
goes alone, but for what the program may have found when it ran. -/
namespace OverlayBuild.Build

open OverlayBuild.Tree

variable {host : Host} {config : Config} {tree : Tree} {requests : List Request}
  {s next : State} {i k : Nat} {p q : Phase} {r : Request} {call : Option Call}
  {hold : Hold} {after : Tree} {calls : List Call}

structure Private (host : Host) (config : Config) (tree : Tree) (requests : List Request)
    (s : State) : Prop where
  asks : ∀ k, s.request? k = requests[k]?
  configured : s.context.config = config
  guarded : Guarded s
  resolved : Resolved host.working s
  laid : Laid host.working tree s
  faithful : ∀ i r p, s.request? i = some r → s.phase? i = some p → r.spec.isSome = true →
    Faithful host config tree r False p (s.callsOf i)

namespace Private

variable (priv : Private host config tree requests s)

include priv

theorem shared : Shared host.working config s := priv.configured ▸ priv.guarded.shared priv.resolved

theorem alone (asked : s.request? i = some r) (known : s.phase? i = some p)
    (inside : p.standing.inside? = some hold) {bytes : List UInt8}
    (staged : s.staged? host.working k = some (r.stagedPlace host.working, bytes)) : k = i :=
  priv.shared.stager_unique asked (by rw [State.standing_of_phase? known, inside]) staged

/-- Before it has staged anything, a build finds its directory as it was. -/
theorem untouched (asked : s.request? i = some r) (known : s.phase? i = some p)
    (inside : p.standing.inside? = some hold)
    (nothing : p.staged? (r.document config.multiline) = none) (name : String) :
    s.tree.get? (r.place host.working ++ [name]) = tree.get? (r.place host.working ++ [name]) := by
  refine priv.laid.kept _ fun k bytes staged => ?_
  obtain ⟨other, -, -, -, -, place⟩ := stager staged
  have same : r.place host.working = other.place host.working := (List.append_inj' place rfl).1
  rw [place, Request.stagedPlace, ← same] at staged
  obtain rfl := priv.alone asked known inside staged
  rw [staged?_of_phase? asked known, priv.configured, nothing] at staged
  contradiction

theorem directory (enters : tree.isDirectory host.working r.root = true) :
    s.tree.isDirectory host.working r.root = true :=
  priv.laid.sameDirectories.isDirectory _ _ ▸ enters

theorem present_eq (asked : s.request? i = some r) (known : s.phase? i = some p)
    (inside : p.standing.inside? = some hold)
    (nothing : p.staged? (r.document config.multiline) = none)
    (enters : tree.isDirectory host.working r.root = true) {name : String}
    (listed : name ∈ kustomizationNames) :
    s.tree.present host.working (r.root.child name) =
      tree.present host.working (r.root.child name) := by
  have same := priv.untouched asked known inside nothing name
  simp only [Request.place] at same
  rw [present_child (priv.directory enters) (isName_of_mem listed),
    present_child enters (isName_of_mem listed), same]

/-- The kustomizations that a build still looks for are there as at the start. -/
theorem present_unchecked {names : List String} {name : String} (asked : s.request? i = some r)
    (known : s.phase? i = some (.checking hold names)) (enters : Enters host tree r)
    (unchecked : Unchecked host tree r names) (mem : name ∈ names) :
    tree.present host.working (r.root.child name) =
      s.tree.present host.working (r.root.child name) :=
  (priv.present_eq asked known rfl rfl enters.directory (unchecked.listed name mem)).symm

/-- What a build has staged is there. -/
theorem get?_staged (asked : s.request? i = some r) (known : s.phase? i = some p)
    {bytes : List UInt8} (staged : p.staged? (r.document config.multiline) = some bytes) :
    tree.get? (r.stagedPlace host.working) = none ∧
      s.tree.get? (r.stagedPlace host.working) = some (.file bytes) :=
  priv.laid.staged i _ _ (by rw [staged?_of_phase? asked known, priv.configured, staged]; rfl)

/-- A build that runs the program finds a place as alone, unless another has staged there. -/
theorem found {place : Location} (asked : s.request? i = some r) (known : s.phase? i = some p)
    (staged : p.staged? (r.document config.multiline) =
      if r.spec.isSome then some (r.document config.multiline) else none)
    (undisturbed : ∀ k bytes, s.staged? host.working k = some (place, bytes) → k = i) :
    s.tree.get? place = (prepared host config tree r).get? place := by
  by_cases own : place = r.stagedPlace host.working ∧ r.spec.isSome = true
  · rw [if_pos own.2] at staged
    rw [own.1, (priv.get?_staged asked known staged).2, prepared, if_pos own.2,
      get?_put _ _ _ _ (r.stagedPlace_ne_nil _), if_pos rfl]
  · have before : (prepared host config tree r).get? place = tree.get? place := by
      rw [prepared]
      split
      · rename_i isSpec
        rw [get?_put _ _ _ _ (r.stagedPlace_ne_nil _), if_neg fun here => own ⟨here, isSpec⟩]
      · rfl
    rw [before]
    refine priv.laid.kept _ fun k bytes there => ?_
    -- What is staged here is its own, and so in its own place.
    obtain rfl := undisturbed k bytes there
    rw [staged?_of_phase? asked known, priv.configured, staged] at there
    split at there
    · rename_i isSpec
      obtain ⟨here, -⟩ := Prod.mk.inj (Option.some.inj there)
      exact own ⟨here.symm, isSpec⟩
    · contradiction

theorem write_own (enters : Enters host tree r) (bytes : List UInt8)
    (room : tree.get? (r.stagedPlace host.working) = none) :
    s.tree.write host.working r.stagedFile bytes =
      .ok (s.tree.put (r.stagedPlace host.working) (.file bytes)) := by
  have free : s.tree.get? (r.stagedPlace host.working) ≠ some .directory := fun directory => by
    have before := (priv.laid.sameDirectories _).mpr directory
    rw [room] at before
    contradiction
  rw [Request.stagedFile, write_child (priv.directory enters.directory) isName_stagedName]
  exact writeAt_of_not_directory free bytes

theorem present_own (enters : Enters host tree r) {bytes : List UInt8}
    (there : s.tree.get? (r.stagedPlace host.working) = some (.file bytes)) :
    s.tree.present host.working r.stagedFile = true := by
  rw [Request.stagedFile, present_child (priv.directory enters.directory) isName_stagedName]
  exact Option.isSome_of_eq_some there

theorem remove_own (enters : Enters host tree r) {bytes : List UInt8}
    (there : s.tree.get? (r.stagedPlace host.working) = some (.file bytes)) :
    s.tree.remove host.working r.stagedFile =
      .ok (s.tree.erase (r.stagedPlace host.working)) :=
  remove_child (priv.directory enters.directory) isName_stagedName there

/-- What a build does when it writes what it has in its place. -/
theorem laid_put (asked : s.request? i = some r) (known : s.phase? i = some p)
    (inside : p.standing.inside? = some hold) (advances : Advances s next i q call)
    (vacant : tree.get? (r.stagedPlace host.working) = none) {bytes : List UInt8}
    (staged : q.staged? (r.document config.multiline) = some bytes)
    (put : next.tree = s.tree.put (r.stagedPlace host.working) (.file bytes)) :
    Laid host.working tree next := by
  refine priv.laid.change asked known advances vacant
    (fun k bytes there => priv.alone asked known inside there) fun l => ?_
  rw [put, get?_put _ _ _ _ (r.stagedPlace_ne_nil _), priv.configured, staged]
  rfl

theorem laid_erase (asked : s.request? i = some r) (known : s.phase? i = some p)
    (inside : p.standing.inside? = some hold) (advances : Advances s next i q call)
    (vacant : tree.get? (r.stagedPlace host.working) = none)
    (nothing : q.staged? (r.document config.multiline) = none)
    (erased : next.tree = s.tree.erase (r.stagedPlace host.working)) :
    Laid host.working tree next := by
  refine priv.laid.change asked known advances vacant
    (fun k bytes there => priv.alone asked known inside there) fun l => ?_
  rw [erased, get?_erase _ _ _ (r.stagedPlace_ne_nil _), priv.configured, nothing]
  rfl

/-- A step of a build that has gone as alone goes as alone, if the program's run does. -/
theorem move {quiet : Prop} (keeps : host.Keeps) (asked : s.request? i = some r)
    (known : s.phase? i = some p) (advances : Advances s next i q call)
    (moves : Moves host config r s.tree p q after call) (moved : next.tree = after)
    (faithful : Faithful host config tree r quiet p calls)
    (alone : ∀ hold, p = .running hold → quiet → EndsAlone host config tree r
      (host.run config s.tree r).outcome (host.run config s.tree r).call.toList) :
    Faithful host config tree r quiet q (calls ++ call.toList) ∧
      Laid host.working tree next := by
  have same := priv.laid.sameDirectories
  have still := priv.laid.still asked known advances
  have stays (untouched : after = s.tree) (l : Location) : next.tree.get? l = s.tree.get? l := by
    rw [moved, untouched]
  -- Refusals to write or remove do not come up: the place is free, or the file is there.
  cases moves with
  | elsewhere missing =>
    obtain rfl : calls = [] := faithful
    exact ⟨(endsAlone_elsewhere ((same.isDirectory _ _).trans missing)).ends keeps,
      still rfl (stays rfl)⟩
  | unlisted directory unknown =>
    obtain rfl : calls = [] := faithful
    exact ⟨(endsAlone_unlisted ((same.isDirectory _ _).trans directory) unknown).ends keeps,
      still rfl (stays rfl)⟩
  | plain directory listed plain queued =>
    obtain rfl : calls = [] := faithful
    have admitted : ¬ Refused host tree r :=
      not_refused_iff.mpr ⟨(same.isDirectory _ _).trans directory, listed, by simp [plain]⟩
    have writable : r.Writable config.multiline := ⟨"", by simp [Request.rendered, plain]⟩
    rcases queued with rfl | rfl
    · exact ⟨⟨admitted, writable, by simp [plain], rfl⟩, still rfl (stays rfl)⟩
    · exact ⟨⟨admitted, writable, by simp [plain], rfl⟩, still rfl (stays rfl)⟩
  | join hold directory listed staged here joined =>
    obtain rfl : calls = [] := faithful
    have enters : Enters host tree r :=
      ⟨(same.isDirectory _ _).trans directory, listed, staged⟩
    rcases joined with rfl | rfl
    · exact ⟨⟨enters, rfl⟩, still rfl (stays rfl)⟩
    · exact ⟨⟨enters, unchecked_all, rfl⟩, still rfl (stays rfl)⟩
  | enter =>
    obtain ⟨enters, rfl⟩ := faithful
    exact ⟨⟨enters, unchecked_all, rfl⟩, still rfl (stays rfl)⟩
  | vacant free =>
    obtain ⟨enters, unchecked, rfl⟩ := faithful
    have before := priv.present_unchecked asked known enters unchecked List.mem_cons_self
    exact ⟨⟨enters, unchecked.skip (before.trans free), rfl⟩, still rfl (stays rfl)⟩
  | occupied taken =>
    obtain ⟨enters, unchecked, rfl⟩ := faithful
    have before := priv.present_unchecked asked known enters unchecked List.mem_cons_self
    exact ⟨(endsAlone_occupied enters (unchecked.found (before.trans taken))).ends keeps,
      still rfl (stays rfl)⟩
  | rendered vacant written =>
    obtain ⟨enters, unchecked, rfl⟩ := faithful
    have free := unchecked.vacant fun name mem =>
      (priv.present_unchecked asked known enters unchecked mem).trans (vacant name mem)
    exact ⟨⟨enters, free, written, rfl⟩, still rfl (stays rfl)⟩
  | unrendered vacant unwritten =>
    obtain ⟨enters, unchecked, rfl⟩ := faithful
    have free := unchecked.vacant fun name mem =>
      (priv.present_unchecked asked known enters unchecked mem).trans (vacant name mem)
    exact ⟨(endsAlone_unrendered enters free unwritten).ends keeps, still rfl (stays rfl)⟩
  | opened put =>
    obtain ⟨enters, vacant, written, rfl⟩ := faithful
    rw [priv.write_own enters [] (enters.room vacant)] at put
    obtain rfl := Except.ok.inj put
    exact ⟨⟨enters, vacant, written, rfl⟩,
      priv.laid_put asked known rfl advances (enters.room vacant) rfl moved⟩
  | unopened refused =>
    obtain ⟨enters, vacant, -⟩ := faithful
    rw [priv.write_own enters [] (enters.room vacant)] at refused
    contradiction
  | written put queued =>
    obtain ⟨enters, vacant, written, rfl⟩ := faithful
    rw [priv.write_own enters _ (enters.room vacant), ← document_eq written] at put
    obtain rfl := Except.ok.inj put
    have admitted := enters.not_refused vacant
    rcases queued with rfl | rfl
    · exact ⟨⟨admitted, ⟨_, written⟩, by simp [enters.staged], rfl⟩,
        priv.laid_put asked known rfl advances (enters.room vacant) rfl moved⟩
    · exact ⟨⟨admitted, ⟨_, written⟩, by simp [enters.staged], rfl⟩,
        priv.laid_put asked known rfl advances (enters.room vacant) rfl moved⟩
  | unwritten refused =>
    obtain ⟨enters, vacant, -⟩ := faithful
    rw [priv.write_own enters _ (enters.room vacant)] at refused
    contradiction
  | turn =>
    obtain ⟨admitted, writable, held, rfl⟩ := faithful
    refine ⟨⟨admitted, writable, held, rfl⟩, still ?_ (stays rfl)⟩
    rename_i hold
    cases hold <;> rfl
  | run =>
    rename_i hold
    obtain ⟨admitted, -, held, rfl⟩ := faithful
    have ended : Ends host config tree r quiet (host.run config s.tree r).outcome
        (host.run config s.tree r).call.toList :=
      ⟨alone hold rfl, fun path refused => absurd refused (outcomeOf_ne_occupied _ _ _)⟩
    exact ⟨ended.faithful admitted held,
      still (staged?_ended _ _) fun l => by rw [moved]; exact keeps _ _ l⟩
  | gone gone =>
    obtain ⟨enters, -⟩ := faithful
    have there := (priv.get?_staged asked known rfl).2
    rw [priv.present_own enters there] at gone
    contradiction
  | left left =>
    obtain ⟨enters, ended⟩ := faithful
    exact ⟨⟨enters, by simpa using ended⟩, still rfl (stays rfl)⟩
  | removed removed =>
    obtain ⟨enters, ended⟩ := faithful
    obtain ⟨room, there⟩ := priv.get?_staged asked known rfl
    rw [priv.remove_own enters there] at removed
    obtain rfl := Except.ok.inj removed
    refine ⟨?_, priv.laid_erase asked known rfl advances room rfl moved⟩
    simpa [Faithful] using ended
  | unremoved refused =>
    obtain ⟨enters, -⟩ := faithful
    have there := (priv.get?_staged asked known rfl).2
    rw [priv.remove_own enters there] at refused
    contradiction

/-- A build without a specification stages nothing. -/
theorem laid_plain (keeps : host.Keeps) (asked : s.request? i = some r)
    (known : s.phase? i = some p) (advances : Advances s next i q call)
    (moves : Moves host config r s.tree p q after call) (moved : next.tree = after)
    (plain : r.spec = none) : Laid host.working tree next := by
  have outside (hold : Hold) : p.standing.hold? ≠ some hold := fun uses => by
    obtain ⟨own, ownAsked, isSpec, -⟩ := priv.resolved i hold
      (by rw [State.standing_of_phase? known]; exact uses)
    obtain rfl := Option.some.inj (asked.symm.trans ownAsked)
    simp [plain] at isSpec
  have still := priv.laid.still asked known advances
  have stays (untouched : after = s.tree) (l : Location) : next.tree.get? l = s.tree.get? l := by
    rw [moved, untouched]
  cases moves with
  | elsewhere | unlisted => exact still rfl (stays rfl)
  | plain _ _ _ queued => rcases queued with rfl | rfl <;> exact still rfl (stays rfl)
  | join _ _ _ staged => simp [plain] at staged
  | turn =>
    rename_i hold
    cases hold with
    | none => exact still rfl (stays rfl)
    | some hold => exact absurd rfl (outside hold)
  | run => exact still (staged?_ended _ _) fun l => by rw [moved]; exact keeps _ _ l
  | enter | vacant | occupied | rendered | unrendered | opened | unopened | written | unwritten
    | gone | left | removed | unremoved => exact absurd rfl (outside _)

theorem step (keeps : host.Keeps) (stepped : s.step host i = some next) :
    Private host config tree requests next := by
  obtain ⟨r, p, asked, known, q, call, moves, advances⟩ := takes_of_step stepped
  rw [priv.configured] at moves
  have forward : Laid host.working tree next ∧ (r.spec.isSome = true →
      Faithful host config tree r False q (s.callsOf i ++ call.toList)) := by
    cases spec : r.spec with
    | none => exact ⟨priv.laid_plain keeps asked known advances moves rfl spec, nofun⟩
    | some spec =>
      have faithful := priv.faithful i r p asked known (by simp [spec])
      obtain ⟨onward, laid⟩ :=
        priv.move keeps asked known advances moves rfl faithful fun _ _ => False.elim
      exact ⟨laid, fun _ => onward⟩
  refine ⟨fun k => (advances.request? k).trans (priv.asks k),
    advances.config.trans priv.configured, priv.guarded.step stepped,
    priv.resolved.advance known asked advances fun hold => moves.hold?, forward.1,
    fun k other phase otherAsked otherKnown isSpec => ?_⟩
  rw [advances.request?] at otherAsked
  rw [advances.phase?] at otherKnown
  rw [advances.callsOf]
  by_cases own : k = i
  · subst own
    obtain rfl := Option.some.inj (asked.symm.trans otherAsked)
    obtain rfl : q = phase := by simpa using otherKnown
    simpa using forward.2 isSpec
  · simp only [own, if_false, List.append_nil] at otherKnown ⊢
    exact priv.faithful k other phase otherAsked otherKnown isSpec

theorem advance (keeps : host.Keeps) (i : Nat) :
    Private host config tree requests ((s.step host i).getD s) := by
  cases stepped : s.step host i with
  | none => exact priv
  | some next => exact priv.step keeps stepped

theorem follow (keeps : host.Keeps) (schedule : List Nat) :
    Private host config tree requests (s.follow host schedule) := by
  induction schedule generalizing s with
  | nil => exact priv
  | cons i schedule ih => exact ih (priv.advance keeps i)

end Private

theorem private_start (host : Host) (config : Config) (tree : Tree) (requests : List Request) :
    Private host config tree requests (.start tree (.new config) requests) := by
  have entering (k : Nat) (p : Phase)
      (known : (State.start tree (.new config) requests).phase? k = some p) : p = .entering := by
    simp only [State.phase?, State.start, List.getElem?_map, Option.map_map] at known
    obtain ⟨r, -, same⟩ := Option.map_eq_some_iff.mp known
    exact same.symm
  have unstaged (k : Nat) (l : Location) (bytes : List UInt8) :
      (State.start tree (.new config) requests).staged? host.working k ≠ some (l, bytes) := by
    intro staged
    obtain ⟨r, p, -, known, written, -⟩ := stager staged
    rw [entering k p known] at written
    contradiction
  refine ⟨fun k => ?_, rfl, guarded_start tree config requests, resolved_start _ _ _ _,
    ⟨fun k l bytes staged => absurd staged (unstaged k l bytes), fun _ _ => rfl⟩,
    fun k r p asked known isSpec => ?_⟩
  · simp only [State.request?, State.start, List.getElem?_map, Option.map_map]
    exact Option.map_id_apply
  · rw [entering k p known]
    rfl

end OverlayBuild.Build
