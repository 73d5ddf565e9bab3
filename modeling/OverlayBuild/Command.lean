import OverlayBuild.Shell.Words
import OverlayBuild.Text.Utf8
import OverlayBuild.Tree

/-! Commands: external programs with their arguments, how they are shown, and what is
made of the way they end. -/
namespace OverlayBuild

open Text

structure Command where
  /-- The program and its arguments. -/
  words : List String
  /-- Where the program runs, if that is not the working directory. -/
  directory : Option Path
  /-- Variables that are set on top of the environment. -/
  environment : List (String × String)
  deriving DecidableEq, Repr

structure Completed where
  output : List UInt8
  errors : List UInt8
  /-- The exit status; below zero the number of the signal that ended it. -/
  status : Int
  deriving DecidableEq, Repr

inductive StartFault where
  | system (error : SystemError)
  | noProgram
  | nullByte
  | variableName
  deriving DecidableEq, Repr

namespace Command

def line (c : Command) : String := Shell.join c.words

/-- The command as messages show it, after its directory if it has one. -/
def describe (c : Command) (working : Path) : String :=
  match c.directory with
  | some directory => "(" ++ directory.describe working ++ ") " ++ c.line
  | none => c.line

inductive Fault where
  | notStarted (command : String) (error : SystemError)
  /-- The command itself is malformed. -/
  | malformed (cause : StartFault)
  | failed (command : String) (status : Int) (reports : List (List Char))
  | encoding (cause : Utf8.Malformed)
  deriving DecidableEq, Repr

def startMessage : StartFault → String
  | .system error => error.message
  | .noProgram => "create_subprocess_exec() missing 1 required positional argument: 'program'"
  | .nullByte => "embedded null byte"
  | .variableName => "illegal environment variable name"

def Fault.message : Fault → String
  | .notStarted command error =>
    "Command '" ++ command ++ "' could not be started: " ++ error.message
  | .malformed cause => startMessage cause
  | .failed command status reports =>
    let head := "Command '" ++ command ++ "' failed with return code "
      ++ String.ofList (integer status)
    String.ofList (joinWith ['\n'] (head.toList :: reports))
  | .encoding cause => cause.message

def decoded (bytes : List UInt8) : Except Fault (List Char) :=
  (Utf8.decode bytes).mapError .encoding

/-- What a program wrote, as a part of a message: nothing where it wrote nothing. -/
def report (bytes : List UInt8) : Except Fault (List (List Char)) :=
  if bytes = [] then .ok [] else (decoded bytes).map fun cs => [trimEnd cs]

def result (shown : String) : Except StartFault Completed → Except Fault (List UInt8)
  | .error (.system error) => .error (.notStarted shown error)
  | .error cause => .error (.malformed cause)
  | .ok completed =>
    if completed.status = 0 then .ok completed.output
    else do
      let output ← report completed.output
      let errors ← report completed.errors
      throw (.failed shown completed.status (output ++ errors))

def textResult (shown : String) (result : Except StartFault Completed) :
    Except Fault (List Char) := do
  decoded (← Command.result shown result)

/-- Faults of the command as it is run; the others are not foreseen. -/
def Fault.isReported : Fault → Bool
  | .notStarted _ _ | .failed _ _ _ => true
  | .malformed _ | .encoding _ => false

end Command

end OverlayBuild
