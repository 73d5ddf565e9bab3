import OverlayBuild.Proofs.Build.Flow
import OverlayBuild.Proofs.Resource.Document
import OverlayBuild.Proofs.Resource.Result

/-! Which failures of a flow are reported: told in a category, under the name of the flow. What
the flow itself refuses is. Of what the program does, output that cannot be parsed should be as
well, but it is only where it is no YAML; bytes that are no text, scalars that do not fit their
tag, and documents that are not looked at closely enough escape as they are. -/
namespace OverlayBuild.Build

open Text

variable {host : Host} {config : Config} {tree : Tree} {r : Request}

/-- Bytes that are no text. -/
def Garbled (bytes : List UInt8) : Prop := ∃ cause, Utf8.decode bytes = .error cause

/-- The documents of an output that are not empty. -/
def Documents (output : List UInt8) (documents : List Value) : Prop :=
  ∃ text all, Utf8.decode output = .ok text ∧ Yaml.readAll .manifest text = .ok all ∧
    documents = all.filter (!·.isNull)

inductive Unforeseen : Except StartFault Completed → Prop
  /-- The command itself is malformed. -/
  | malformed {cause : StartFault} (own : ∀ error, cause ≠ .system error) :
      Unforeseen (.error cause)
  /-- What a program that failed has to say is no text. -/
  | reports {completed : Completed} (failed : completed.status ≠ 0)
      (garbled : Garbled completed.output ∨ Garbled completed.errors) : Unforeseen (.ok completed)
  | output {completed : Completed} (ended : completed.status = 0)
      (garbled : Garbled completed.output) : Unforeseen (.ok completed)
  /-- A scalar does not fit its tag, or a mapping in its place leads back to itself. -/
  | scalar {completed : Completed} {text : List Char} {cause : Yaml.Mismatch}
      (ended : completed.status = 0) (decoded : Utf8.decode completed.output = .ok text)
      (read : Yaml.readAll .manifest text = .error (.mismatch cause)) : Unforeseen (.ok completed)
  /-- The first document that is no resource has metadata that is no mapping, or a number in
  the way that is too long to be shown. -/
  | document {completed : Completed} {before after : List Value} {document : Value}
      {cause : Resource.Fault} (ended : completed.status = 0)
      (documents : Documents completed.output (before ++ document :: after))
      (described : ∀ d ∈ before, ∃ r, Resource.ofDocument d = .ok r)
      (odd : Resource.ofDocument document = .error cause) (uncategorised : cause.category? = none) :
      Unforeseen (.ok completed)
  /-- The first resource that does not fit has a manifest that cannot be written. -/
  | manifest {completed : Completed} {documents : List Value} {before after : List Resource}
      {resource : Resource} {cause : Json.Fault} (ended : completed.status = 0)
      (read : Documents completed.output documents)
      (described : documents.mapM Resource.ofDocument = .ok (before ++ resource :: after))
      (accepted : BuildResult.Accepted before) (new : resource.id ∉ before.map Resource.id)
      (unwritten : BuildResult.serialize resource.manifest = .error cause) :
      Unforeseen (.ok completed)

/-! One stage after the other. -/

section stages

variable {shown : String} {result : Except StartFault Completed} {completed : Completed}
  {bytes output : List UInt8} {component : Flow.Component}

end stages

/-! Whole flows. -/

/-- A request that is refused, or whose specification can be written and whose program comes
to an end that is foreseen. -/
def Foreseen (host : Host) (config : Config) (tree : Tree) (r : Request) : Prop :=
  Refused host tree r ∨ (r.Writable config.multiline ∧
    ¬ Unforeseen (host.execute (r.commandUnder config) (prepared host config tree r)).1)

end OverlayBuild.Build
