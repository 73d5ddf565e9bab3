import OverlayBuild.Build.Request
import OverlayBuild.CommandLine.Grammar
import OverlayBuild.Report.Format

/-! The commands of the command line: what they take, and how that is explained. -/
namespace OverlayBuild.CommandLine

open Build Report

def programName : String := "kustomize-overlay"

inductive Screen where
  | main
  | build
  | overlay
  deriving DecidableEq, Repr

namespace Screen

def commands : List Screen := [.build, .overlay]

def name : Screen → String
  | .main => programName
  | .build => "build"
  | .overlay => "overlay"

def title : Screen → String
  | .main => programName
  | s => programName ++ " " ++ s.name

end Screen

def logLevels : List String := ["DEBUG", "INFO", "WARNING", "ERROR", "CRITICAL"]

def helpFlag : Flag := ⟨["-h", "--help"], .help⟩

def logLevel : String := "--log-level"
def loadRestrictor : String := "--load-restrictor"
def basePath : String := "--base-path"
def program : String := "--kustomize-bin"
def output : String := "--output"
def outputFile : String := "--output-file"

def buildFlags : List Flag := [
  ⟨[program], .value none⟩,
  ⟨[output, "-o"], .value (some (Format.all.map Format.name))⟩,
  ⟨[outputFile], .value none⟩]

def Screen.grammar : Screen → Grammar
  | .main =>
    ⟨[helpFlag, ⟨[logLevel], .value (some logLevels)⟩], "command",
      some (Screen.commands.map Screen.name), true⟩
  | .build =>
    ⟨[helpFlag, ⟨[loadRestrictor], .value (some restrictorNames)⟩] ++ buildFlags, "path",
      none, false⟩
  | .overlay =>
    ⟨[helpFlag, ⟨[basePath], .value none⟩] ++ buildFlags, "overlay_file", none, false⟩

def braced (choices : List String) : String :=
  "\x7b" ++ String.intercalate "," choices ++ "\x7d"

def formats : String := braced (Format.all.map Format.name)

def commandNames : String := braced (Screen.commands.map Screen.name)

def indent (columns : Nat) : String := String.ofList (List.replicate columns ' ')

def unlines (lines : List String) : String := String.join (lines.map (· ++ "\n"))

/-- The parts of a usage, each on a line of its own, below one another. -/
def layUsage (screen : Screen) (parts : List String) : String :=
  let opening := "usage: " ++ screen.title ++ " "
  unlines ((parts.zipIdx).map fun (part, i) =>
    (if i = 0 then opening else indent opening.length) ++ part)

def Screen.usage : Screen → String
  | .main => layUsage .main [
      "[-h]",
      "[--log-level " ++ braced logLevels ++ "]",
      commandNames ++ " ..."]
  | .build => layUsage .build [
      "[-h] [--load-restrictor " ++ braced restrictorNames ++ "]",
      "[--kustomize-bin KUSTOMIZE_BIN]",
      "[--output " ++ formats ++ "]",
      "[--output-file OUTPUT_FILE]",
      "path"]
  | .overlay => layUsage .overlay [
      "[-h] [--base-path BASE_PATH]",
      "[--kustomize-bin KUSTOMIZE_BIN]",
      "[--output " ++ formats ++ "]",
      "[--output-file OUTPUT_FILE]",
      "overlay_file"]

def helpColumn : Nat := 24

/-- A term and what it means. A long term has a line of its own. -/
def entry (term : String) (lines : List String) : List String :=
  let term := "  " ++ term
  if term.length + 2 ≤ helpColumn then
    match lines with
    | [] => [term]
    | first :: rest =>
      (term ++ indent (helpColumn - term.length) ++ first) :: rest.map (indent helpColumn ++ ·)
  else term :: lines.map (indent helpColumn ++ ·)

def description : Screen → List String
  | .main => [
      "Command line utility for building kustomizations and identifying their",
      "resources in apply order."]
  | .build => [
      "Runs kustomize build on a directory containing a kustomization and prints the",
      "resource ids, the ids grouped into apply tiers and the manifest of each",
      "resource."]
  | .overlay => [
      "Composes a kustomization from the attributes in the overlay file",
      "(common_labels, resources, patches, images, config_map_generator and so on)",
      "and builds it."]

def argumentHelp : Screen → List String
  | .main =>
    entry commandNames ["Command"]
      ++ entry "  build" ["Build a local kustomization and identify its resources"]
      ++ entry "  overlay" ["Build an overlay described in a YAML file"]
  | .build => entry "path" ["Path to the kustomization directory"]
  | .overlay => entry "overlay_file" ["Path to the overlay attributes"]

def buildFlagHelp : List String :=
  entry "--kustomize-bin KUSTOMIZE_BIN" [
      "Path to the kustomize binary, defaults to",
      "$KUSTOMIZE_BIN or kustomize"]
    ++ entry ("--output " ++ formats ++ ", -o " ++ formats) ["Output format of the command"]
    ++ entry "--output-file OUTPUT_FILE" [
      "Output file for the results of the command, `-` for",
      "stdout"]

def flagHelp : Screen → List String
  | .main => entry ("--log-level " ++ braced logLevels) []
  | .build =>
    entry ("--load-restrictor " ++ braced restrictorNames) [
        "Set to 'none' to allow loading files outside the",
        "kustomization root"]
      ++ buildFlagHelp
  | .overlay =>
    entry "--base-path BASE_PATH" [
        "Directory relative overlay paths refer to, defaults to",
        "the directory of the overlay file"]
      ++ buildFlagHelp

def Screen.help (screen : Screen) : String :=
  screen.usage ++ "\n"
    ++ unlines (description screen) ++ "\n"
    ++ unlines ("positional arguments:" :: argumentHelp screen) ++ "\n"
    ++ unlines ("options:" :: entry "-h, --help" ["show this help message and exit"]
      ++ flagHelp screen)

end OverlayBuild.CommandLine
