import OverlayBuild.Proofs.CommandLine.Run
import OverlayBuild.Proofs.Yaml.Misfit

/-! What becomes of an overlay file: its attributes, a failure that is reported, or one that
escapes. Whatever keeps a file from being read is reported, and so is all that keeps its text from
being a mapping, but for bytes that are no text and for numbers and the like that cannot be made. -/
namespace OverlayBuild

namespace Overlay

open Text

variable {tree : Tree} {working : Location} {path : Path} {bytes : List UInt8} {text : List Char}
  {fault : Fault} {cause : Yaml.Mismatch}

inductive Attributes : Value → Value → Prop
  | empty : Attributes .null (.map [])
  | mapping (entries : List (Value × Value)) : Attributes (.map entries) (.map entries)

/-- The text of a file, its lines ended alike. -/
def HasText (tree : Tree) (working : Location) (path : Path) (text : List Char) : Prop :=
  ∃ bytes decoded, tree.read working path = .ok bytes ∧ Utf8.decode bytes = .ok decoded ∧
    text = universalNewlines decoded

/-- Why a text is neither read nor found malformed: an escape or the number of a version is
beyond what there is, or a scalar of the document, or a mapping in its place, does not fit its
tag. -/
inductive Valueless (text : List Char) (cause : Yaml.Mismatch) : Prop
  | token (lexical : (Yaml.Failure.mismatch cause).IsLexical)
      (cut : (Yaml.tokens text).failure? = some (.mismatch cause))
  | scalar (d : Yaml.Document) (opens : Yaml.Opens .full text d) (misfit : d.Misfit cause)

inductive Foreseen (tree : Tree) (working : Location) (path : Path) : Fault → Prop
  /-- There is no such file, it is a directory, or it cannot be reached. -/
  | unreadable {refusal : Refusal} (refused : tree.read working path = .error refusal) :
    Foreseen tree working path (.unreadable path ⟨refusal, path.text.quotedText⟩)
  | malformed {text : List Char} {failure : Yaml.Failure} (written : HasText tree working path text)
      (read : Yaml.read .full text = .error failure) (syntactic : failure.isSyntactic = true) :
    Foreseen tree working path (.malformed path text failure)
  | notMapping {text : List Char} {document : Value} (written : HasText tree working path text)
      (read : Yaml.read .full text = .ok document)
      (other : ∀ attributes, ¬ Attributes document attributes) :
    Foreseen tree working path (.notMapping path)

inductive Unforeseen (tree : Tree) (working : Location) (path : Path) : Fault → Prop
  | nullByte (named : '\x00' ∈ path.text.toList) : Unforeseen tree working path .nullByte
  | encoding {bytes : List UInt8} {cause : Utf8.Malformed}
      (found : tree.read working path = .ok bytes) (garbled : Utf8.decode bytes = .error cause) :
    Unforeseen tree working path (.encoding cause)
  | valueless {text : List Char} {cause : Yaml.Mismatch} (written : HasText tree working path text)
      (read : Yaml.read .full text = .error (.mismatch cause)) (blamed : Valueless text cause) :
    Unforeseen tree working path (.malformed path text (.mismatch cause))

theorem Foreseen.category? (foreseen : Foreseen tree working path fault) :
    fault.category? = some .input := by
  cases foreseen with
  | unreadable refused => rfl
  | malformed written read syntactic => exact if_pos syntactic
  | notMapping written read other => rfl

theorem Unforeseen.category? (unforeseen : Unforeseen tree working path fault) :
    fault.category? = none := by
  cases unforeseen <;> rfl

inductive Comes (tree : Tree) (working : Location) (path : Path) : Except Fault Value → Prop
  | attributes {text : List Char} {document attributes : Value}
      (written : HasText tree working path text) (read : Yaml.read .full text = .ok document)
      (held : Attributes document attributes) : Comes tree working path (.ok attributes)
  | reported {fault : Fault} (foreseen : Foreseen tree working path fault) :
    Comes tree working path (.error fault)
  | escaped {fault : Fault} (unforeseen : Unforeseen tree working path fault) :
    Comes tree working path (.error fault)

theorem valueless_of_read (failed : Yaml.read .full text = .error (.mismatch cause)) :
    Valueless text cause := by
  rcases Yaml.read_eq_mismatch failed with cut | ⟨d, opens, misfit⟩
  · exact .token (Yaml.isLexical_of_tokens cut) cut
  · exact .scalar d opens misfit

theorem comes_ofBytes (found : tree.read working path = .ok bytes) :
    Comes tree working path (ofBytes path bytes) := by
  cases decoded : Utf8.decode bytes with
  | error cause =>
    rw [ofBytes, decoded]
    exact .escaped (.encoding found decoded)
  | ok characters =>
    have written : HasText tree working path (universalNewlines characters) :=
      ⟨bytes, characters, found, decoded, rfl⟩
    simp only [ofBytes, decoded, Except.mapError, ok_bind]
    cases read : Yaml.read .full (universalNewlines characters) with
    | error failure =>
      cases failure with
      | mismatch cause => exact .escaped (.valueless written read (valueless_of_read read))
      | unacceptable c position | malformed fault => exact .reported (.malformed written read rfl)
    | ok document =>
      cases document with
      | null => exact .attributes written read .empty
      | map entries => exact .attributes written read (.mapping entries)
      | _ => exact .reported (.notMapping written read nofun)

theorem comes_read (tree : Tree) (working : Location) (path : Path) :
    Comes tree working path (read tree working path) := by
  rw [read]
  split
  next named => exact .escaped (.nullByte (List.contains_iff_mem.mp named))
  · split
    next refusal refused => exact .reported (.unreadable refused)
    next bytes found => exact comes_ofBytes found

end Overlay

namespace CommandLine

open Build Text

/-- Every command line whose order is the overlay in the file ends so. -/
def EndsAlways (host : Host) (tree : Tree) (file : Path) (ended : Ended) : Prop :=
  ∀ environment words base settings,
    Order.read environment words = .ok (.overlay file base settings) →
    run host environment words tree = ended

section ends

variable {host : Host} {tree : Tree} {file : Path} {fault : Overlay.Fault}

theorem run_unread (unread : Overlay.read tree host.working file = .error fault) :
    EndsAlways host tree file (failed (.overlay fault) tree none) := by
  intro environment words base settings accepted
  have unbuilt : buildOf host tree (.overlay file base settings) = .error fault := by
    rw [buildOf, unread]
    rfl
  simp only [run, accepted, Order.carryOut, unbuilt]

theorem run_reported (unread : Overlay.read tree host.working file = .error fault)
    (told : fault.category? = some .input) :
    EndsAlways host tree file
      ⟨.ok 1, "", programName ++ " error:  " ++ fault.message ++ "\n", tree, none⟩ := by
  have reported : (Fault.overlay fault).category?.isSome = true := congrArg Option.isSome told
  have ends := run_unread unread
  rwa [failed, if_pos reported] at ends

theorem run_escaped (unread : Overlay.read tree host.working file = .error fault)
    (untold : fault.category? = none) :
    EndsAlways host tree file ⟨.error (.overlay fault), "", "", tree, none⟩ := by
  have escaped : (Fault.overlay fault).category?.isSome = false := congrArg Option.isSome untold
  have ends := run_unread unread
  rwa [failed, if_neg (Bool.eq_false_iff.mp escaped)] at ends

end ends

/-- An overlay file has the attributes of its document, the mapping or nothing, or reading it fails.
What is looked for is told as wrong input, and every command line for the file exits with 1, having
done nothing but to say what is wrong. What is not looked for is told in no category, and breaks
off every such command line. -/
theorem overlay_file_spec (host : Host) (tree : Tree) (file : Path) :
    (∃ text document attributes, Overlay.read tree host.working file = .ok attributes ∧
      Overlay.HasText tree host.working file text ∧ Yaml.read .full text = .ok document ∧
      Overlay.Attributes document attributes) ∨
    (∃ fault, Overlay.read tree host.working file = .error fault ∧
      Overlay.Foreseen tree host.working file fault ∧ fault.category? = some .input ∧
      EndsAlways host tree file
        ⟨.ok 1, "", programName ++ " error:  " ++ fault.message ++ "\n", tree, none⟩) ∨
    ∃ fault, Overlay.read tree host.working file = .error fault ∧
      Overlay.Unforeseen tree host.working file fault ∧ fault.category? = none ∧
      EndsAlways host tree file ⟨.error (.overlay fault), "", "", tree, none⟩ := by
  have comes := Overlay.comes_read tree host.working file
  cases read : Overlay.read tree host.working file with
  | ok attributes =>
    rw [read] at comes
    cases comes with
    | attributes written document held => exact .inl ⟨_, _, _, rfl, written, document, held⟩
  | error fault =>
    rw [read] at comes
    cases comes with
    | reported foreseen =>
      have told := foreseen.category?
      exact .inr (.inl ⟨fault, rfl, foreseen, told, run_reported read told⟩)
    | escaped unforeseen =>
      have untold := unforeseen.category?
      exact .inr (.inr ⟨fault, rfl, unforeseen, untold, run_escaped read untold⟩)

def overlayFile : Path := ⟨.working, ["overlay.yaml"]⟩

def overlayWords : List String := ["overlay", "overlay.yaml"]

theorem order_overlayWords : Order.read [] overlayWords =
    .ok (.overlay overlayFile none ⟨"kustomize", .yaml, "/dev/stdout"⟩) := by
  decide +kernel

theorem overlayFile_nameable : overlayFile.text.toList.contains '\x00' = false := by
  decide +kernel

/-- An overlay file that is not there is told of. -/
theorem missing_overlay_reported :
    emptyRoot.read [] overlayFile = .error .notFound ∧
    run namespaceHost [] overlayWords emptyRoot =
      ⟨.ok 1, "", "kustomize-overlay error:  Unable to read overlay file overlay.yaml: " ++
        "[Errno 2] No such file or directory: 'overlay.yaml'\n", emptyRoot, none⟩ := by
  have refused : emptyRoot.read [] overlayFile = .error .notFound := by decide +kernel
  have unread : Overlay.read emptyRoot [] overlayFile =
      .error (.unreadable overlayFile ⟨.notFound, overlayFile.text.quotedText⟩) := by
    rw [Overlay.read, if_neg (Bool.eq_false_iff.mp overlayFile_nameable), refused]
  have message : programName ++ " error:  " ++ (Overlay.Fault.unreadable overlayFile
      ⟨.notFound, overlayFile.text.quotedText⟩).message ++ "\n" =
      "kustomize-overlay error:  Unable to read overlay file overlay.yaml: " ++
        "[Errno 2] No such file or directory: 'overlay.yaml'\n" := by
    decide +kernel
  refine ⟨refused, ?_⟩
  rcases overlay_file_spec namespaceHost emptyRoot overlayFile with
    ⟨text, document, attributes, read, -⟩ | ⟨fault, read, -, -, ends⟩ | ⟨fault, read, -, untold, -⟩
  · exact absurd (unread.symm.trans read) nofun
  · obtain rfl := Except.error.inj (unread.symm.trans read)
    exact (ends _ _ _ _ order_overlayWords).trans (by rw [message])
  · obtain rfl := Except.error.inj (unread.symm.trans read)
    contradiction

def garbledTree : Tree := ⟨[(["overlay.yaml"], .file [0xff])]⟩

/-- An overlay file that is no text escapes in no category, and the run is broken off. -/
theorem garbled_overlay_escapes :
    garbledTree.read [] overlayFile = .ok [0xff] ∧
    Overlay.read garbledTree [] overlayFile = .error (.encoding ⟨0, 0xff, 1, .invalidStart⟩) ∧
    (Overlay.Fault.encoding ⟨0, 0xff, 1, .invalidStart⟩).category? = none ∧
    (Overlay.Fault.encoding ⟨0, 0xff, 1, .invalidStart⟩).message =
      "'utf-8' codec can't decode byte 0xff in position 0: invalid start byte" ∧
    run namespaceHost [] overlayWords garbledTree =
      ⟨.error (.overlay (.encoding ⟨0, 0xff, 1, .invalidStart⟩)), "", "", garbledTree, none⟩ := by
  have found : garbledTree.read [] overlayFile = .ok [0xff] := by decide +kernel
  have garbled : Utf8.decode [0xff] = .error ⟨0, 0xff, 1, .invalidStart⟩ := by
    simp [Utf8.decode, Utf8.decodeAt, Utf8.lead?]
  have unread : Overlay.read garbledTree [] overlayFile =
      .error (.encoding ⟨0, 0xff, 1, .invalidStart⟩) := by
    rw [Overlay.read, if_neg (Bool.eq_false_iff.mp overlayFile_nameable), found]
    simp only [Overlay.ofBytes, garbled, Except.mapError]
    rfl
  exact ⟨found, unread, rfl, by decide +kernel, run_escaped unread rfl _ _ _ _ order_overlayWords⟩

end CommandLine

end OverlayBuild
