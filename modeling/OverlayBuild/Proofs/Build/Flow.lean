import OverlayBuild.Build.Flow
import OverlayBuild.Proofs.Build.Alone

/-! Staging an overlay comes to the same as writing its kustomization into the base directory
and building that: the program is run in the same way on the same files, and what is made of
its end differs in the name of the flow only. -/
namespace OverlayBuild.Build

open OverlayBuild.Tree

variable {host : Host} {config : Config} {tree : Tree} {base : Path} {spec : Spec}

namespace Flow

variable {component other : Component} {fault : Fault} {outcome : Outcome}

def Fault.text : Fault → String
  | .compose cause => cause.message
  | .build _ cause => cause.message
  | .result _ cause => cause.message

def Fault.under (component : Component) : Fault → Fault
  | .compose cause => .compose cause
  | .build _ cause => .build component cause
  | .result _ cause => .result component cause

theorem category?_under : (fault.under component).category? = fault.category? := by
  cases fault <;> rfl

theorem text_under : (fault.under component).text = fault.text := by
  cases fault <;> rfl

/-- A fault of a build's outcome is shown under the name of the flow, where it has a
category. -/
theorem message_of_finish (failed : finish component outcome = .error fault) :
    fault.message = named component fault.category? fault.text := by
  cases outcome with
  | error cause =>
    obtain rfl := Except.error.inj failed
    rfl
  | ok resources =>
    rw [finish] at failed
    cases made : BuildResult.ofResources resources with
    | ok result =>
      rw [made] at failed
      contradiction
    | error cause =>
      rw [made] at failed
      obtain rfl := Except.error.inj failed
      rfl

theorem finish_under (outcome : Outcome) :
    finish component outcome = (finish other outcome).mapError (Fault.under component) := by
  cases outcome with
  | error cause => rfl
  | ok resources =>
    simp only [finish]
    cases BuildResult.ofResources resources <;> rfl

theorem finish_eq_error_under (failed : finish other outcome = .error fault) :
    finish component outcome = .error (fault.under component) := by
  rw [finish_under, failed]
  rfl

end Flow

/-- The program changes no file. -/
def Host.ReadsOnly (host : Host) : Prop :=
  ∀ command tree l, (host.execute command tree).2.get? l = tree.get? l

theorem Host.ReadsOnly.spares (reads : host.ReadsOnly) (r : Request) : host.Spares config r :=
  fun _ l => .inl (reads _ _ l)

structure Free (host : Host) (tree : Tree) (base : Path) : Prop where
  directory : tree.isDirectory host.working base = true
  vacant : ∀ name ∈ kustomizationNames, tree.present host.working (base.child name) = false

theorem Free.admitted (free : Free host tree base) (spec : Spec) :
    ¬ Refused host tree (.overlay spec base) := by
  rintro (elsewhere | unlisted | ⟨-, name, mem, taken⟩)
  · exact absurd (free.directory.symm.trans elsewhere) nofun
  · exact unlisted (List.mem_map_of_mem (List.mem_cons_self : Restrictor.rootOnly ∈ Restrictor.all))
  · exact absurd ((free.vacant name mem).symm.trans taken) nofun

def kustomizationPlace (host : Host) (base : Path) : Location :=
  resolve host.working base ++ [stagedName]

theorem Free.get?_place (free : Free host tree base) :
    tree.get? (kustomizationPlace host base) = none := by
  have absent := free.vacant _ stagedName_mem
  rw [present_child free.directory isName_stagedName] at absent
  simpa [kustomizationPlace] using absent

/-- Nothing hinders a kustomization from being written to a free directory. -/
theorem Free.write (free : Free host tree base) (content : List UInt8) :
    tree.write host.working (base.child stagedName) content =
      .ok (tree.put (kustomizationPlace host base) (.file content)) := by
  rw [write_child free.directory isName_stagedName]
  exact writeAt_of_not_directory (free.get?_place ▸ nofun) content

theorem Free.build_written (free : Free host tree base) (content : List UInt8) :
    build host config (tree.put (kustomizationPlace host base) (.file content))
        (.kustomization base Restrictor.rootOnly.name) =
      host.run config (tree.put (kustomizationPlace host base) (.file content))
        (.kustomization base Restrictor.rootOnly.name) := by
  have inside : kustomizationPlace host base ≠ [] := by simp [kustomizationPlace]
  have same := sameDirectories_put content inside free.get?_place
  have known : (Restrictor.ofName? Restrictor.rootOnly.name).isNone = false := by decide
  exact build_plain (same.isDirectory _ _ ▸ free.directory) known rfl

/-- A staged overlay ends as the kustomization ends that it stands for. -/
theorem Free.build_overlay (free : Free host tree base) (reads : host.ReadsOnly)
    {content : String} (written : spec.yaml config.multiline = .ok content) :
    (build host config tree (.overlay spec base)).outcome =
        (build host config (tree.put (kustomizationPlace host base) (.file content.toUTF8.toList))
          (.kustomization base Restrictor.rootOnly.name)).outcome ∧
      (build host config tree (.overlay spec base)).call =
        (build host config (tree.put (kustomizationPlace host base) (.file content.toUTF8.toList))
          (.kustomization base Restrictor.rootOnly.name)).call := by
  have rendered : (Request.overlay spec base).rendered config.multiline = .ok content := written
  obtain ⟨outcome, call⟩ :=
    build_outcome (free.admitted spec) ⟨content, rendered⟩ (reads.spares (.overlay spec base))
  have found : prepared host config tree (.overlay spec base) =
      tree.put (kustomizationPlace host base) (.file content.toUTF8.toList) := by
    show tree.put _ (.file (Request.document _ _)) = _
    rw [document_eq rendered]
    rfl
  rw [outcome, call, found, free.build_written]
  exact ⟨rfl, rfl⟩

/-- A specification that cannot be written is the end of its build. -/
theorem Free.build_unwritten (free : Free host tree base) {cause : Spec.Fault}
    (unwritten : spec.yaml config.multiline = .error cause) :
    build host config tree (.overlay spec base) = ⟨.error (.spec cause), tree, none⟩ := by
  obtain ⟨directory, known, vacant⟩ := not_refused_iff.mp (free.admitted spec)
  exact Build.build_unwritten directory known rfl (vacant rfl) unwritten

/-- An overlay and the same kustomization on disk end alike: in one result, or in one fault
whose message names the flow that met it. -/
structure EndsAlike (overlay kustomization : Flow.Run) : Prop where
  call : overlay.call = kustomization.call
  result : ∀ result, kustomization.result = .ok result → overlay.result = .ok result
  fault : ∀ fault, kustomization.result = .error fault →
    overlay.result = .error (fault.under .overlay) ∧
      (fault.under .overlay).category? = fault.category? ∧
        fault.message = Flow.named .kustomization fault.category? fault.text ∧
          (fault.under .overlay).message = Flow.named .overlay fault.category? fault.text

theorem endsAlike_of_build {overlay kustomization : Run}
    (outcome : overlay.outcome = kustomization.outcome)
    (call : overlay.call = kustomization.call) :
    EndsAlike (.ofBuild .overlay overlay) (.ofBuild .kustomization kustomization) where
  call := call
  result result made := by
    show Flow.finish .overlay overlay.outcome = .ok result
    have made : Flow.finish .kustomization kustomization.outcome = .ok result := made
    rw [outcome, Flow.finish_under, made]
    rfl
  fault fault failed := by
    have failed : Flow.finish .kustomization kustomization.outcome = .error fault := failed
    have also : Flow.finish .overlay overlay.outcome = .error (fault.under .overlay) :=
      outcome ▸ Flow.finish_eq_error_under failed
    have message := Flow.message_of_finish also
    rw [Flow.category?_under, Flow.text_under] at message
    exact ⟨also, Flow.category?_under, Flow.message_of_finish failed, message⟩

/-- The overlay of attributes is built like the kustomization that it stands for, written to
the base directory first. Where it cannot be written, the overlay fails for that reason and
the program is not run. -/
theorem overlay_builds_like_kustomization {attributes : Value} {notices : List Notice}
    (composed : compose attributes = .ok (spec, notices)) (free : Free host tree base)
    (reads : host.ReadsOnly) :
    (∀ content, spec.yaml config.multiline = .ok content →
      ∃ written, tree.write host.working (base.child stagedName) content.toUTF8.toList =
          .ok written ∧
        EndsAlike (buildAttributes host config tree attributes base)
          (buildKustomization host config written base Restrictor.rootOnly.name)) ∧
    ∀ cause, spec.yaml config.multiline = .error cause →
      (buildAttributes host config tree attributes base).result =
          .error (.build .overlay (.spec cause)) ∧
        (Flow.Fault.build .overlay (.spec cause)).message = cause.message ∧
        (buildAttributes host config tree attributes base).call = none := by
  have own : buildAttributes host config tree attributes base =
      buildOverlay host config tree spec base := by
    rw [buildAttributes, composed]
  rw [own]
  constructor
  · intro content written
    obtain ⟨outcome, call⟩ := free.build_overlay reads written
    exact ⟨_, free.write _, endsAlike_of_build outcome call⟩
  · intro cause unwritten
    rw [buildOverlay, free.build_unwritten unwritten]
    exact ⟨rfl, rfl, rfl⟩

def shopAttributes : Value := .map [(.str "namespace", .str "shop")]

def shopSpec : Spec := ⟨[], [], [], [], [], [], "", "", "shop", [], [], [], []⟩

def shopDocument : String :=
  "---\napiVersion: kustomize.config.k8s.io/v1beta1\nkind: Kustomization\nnamespace: shop\n"

def printingHost : Host :=
  ⟨[], fun _ tree =>
    (.ok ⟨(tree.content? [] ⟨.working, ["root", stagedName]⟩).getD [], [], 0⟩, tree)⟩

theorem printingHost_readsOnly : printingHost.ReadsOnly := fun _ _ _ => rfl

theorem emptyRoot_free : Free printingHost emptyRoot ⟨.working, ["root"]⟩ := ⟨by decide, by decide⟩

theorem compose_shop : compose shopAttributes = .ok (shopSpec, []) := rfl

theorem shopSpec_yaml : shopSpec.yaml bareConfig.multiline = .ok shopDocument :=
  (if_neg (by decide +kernel)).trans (congrArg Except.ok (by decide +kernel))

theorem shop_overlay_builds_like_kustomization :
    compose shopAttributes = .ok (shopSpec, []) ∧
    Free printingHost emptyRoot ⟨.working, ["root"]⟩ ∧ printingHost.ReadsOnly ∧
    shopSpec.yaml bareConfig.multiline = .ok shopDocument ∧
    ∃ written, emptyRoot.write [] ⟨.working, ["root", stagedName]⟩ shopDocument.toUTF8.toList =
        .ok written ∧
      EndsAlike
        (buildAttributes printingHost bareConfig emptyRoot shopAttributes ⟨.working, ["root"]⟩)
        (buildKustomization printingHost bareConfig written ⟨.working, ["root"]⟩ "") :=
  ⟨compose_shop, emptyRoot_free, printingHost_readsOnly, shopSpec_yaml,
    (overlay_builds_like_kustomization compose_shop emptyRoot_free printingHost_readsOnly).1 _
      shopSpec_yaml⟩

end OverlayBuild.Build
