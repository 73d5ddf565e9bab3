import OverlayBuild.Text.Basic
import OverlayBuild.Text.Quoted

/-! Reading command lines. A grammar has flags, which may be abbreviated, and one argument,
which may take all that follows it. Two dashes end the flags. -/
namespace OverlayBuild.CommandLine

open Text

inductive Need where
  /-- To be told how the command is used. -/
  | help
  /-- A value, one of some choices or any. -/
  | value (choices : Option (List String))
  deriving DecidableEq, Repr

structure Flag where
  names : List String
  need : Need
  deriving DecidableEq, Repr

structure Grammar where
  flags : List Flag
  argument : String
  choices : Option (List String)
  /-- Whether the argument takes all that follows it. -/
  takesRest : Bool
  deriving DecidableEq, Repr

inductive Misuse where
  | ambiguous (word : String) (names : List String)
  | noValue (name : String)
  | needless (name value : String)
  | invalidChoice (name value : String) (choices : List String)
  | missing (name : String)
  | unrecognized (words : List String)
  deriving DecidableEq, Repr

def Misuse.message : Misuse → String
  | .ambiguous word names =>
    "ambiguous option: " ++ word ++ " could match " ++ String.intercalate ", " names
  | .noValue name => "argument " ++ name ++ ": expected one argument"
  | .needless name value =>
    "argument " ++ name ++ ": ignored explicit argument " ++ value.quotedText
  | .invalidChoice name value choices =>
    "argument " ++ name ++ ": invalid choice: " ++ value.quotedText ++ " (choose from "
      ++ String.intercalate ", " (choices.map String.quotedText) ++ ")"
  | .missing name => "the following arguments are required: " ++ name
  | .unrecognized words => "unrecognized arguments: " ++ String.intercalate " " words

inductive Stop where
  | help
  | misuse (cause : Misuse)
  deriving DecidableEq, Repr

structure Attached where
  /-- Whether an equals sign stands before it. -/
  equals : Bool
  value : List Char
  deriving DecidableEq, Repr

inductive Kind where
  | argument
  | separator
  | flag (flag : Flag) (attached : Option Attached)
  | unknown
  deriving DecidableEq, Repr

def Flag.title (f : Flag) : String := String.intercalate "/" f.names

/-- Digits with at most one point among them, which digits follow. -/
def isUnsignedNumeral (cs : List Char) : Bool :=
  let isDigit (c : Char) : Bool := (digitValue? c).isSome
  match cs.dropWhile isDigit with
  | [] => cs != []
  | '.' :: fraction => fraction != [] && fraction.all isDigit
  | _ => false

/-- A numeral with a minus sign, which is no flag. A line break may end it. -/
def isNegative (cs : List Char) : Bool :=
  match cs with
  | '-' :: rest =>
    isUnsignedNumeral rest || (rest.getLast? == some '\n' && isUnsignedNumeral rest.dropLast)
  | _ => false

namespace Grammar

variable (g : Grammar)

def names : List (String × Flag) := g.flags.flatMap fun f => f.names.map (·, f)

def matching (word : String) : List (String × Flag × Option Attached) :=
  let cs := word.toList
  match cs with
  | '-' :: '-' :: _ =>
    let stem := cs.takeWhile (· != '=')
    let attached := (cs.dropWhile (· != '=')).tail?.map (⟨true, ·⟩)
    (g.names.filter fun n => stem.isPrefixOf n.1.toList).map fun n => (n.1, n.2, attached)
  | '-' :: c :: value =>
    (g.names.filter fun n => n.1.toList == ['-', c]).map fun n => (n.1, n.2, some ⟨false, value⟩)
  | _ => []

/-- The flag whose name a word is, up to an equals sign. -/
def named? (word : String) : Option (Flag × Option Attached) :=
  match g.names.lookup word with
  | some f => some (f, none)
  | none =>
    let cs := word.toList
    match cs.dropWhile (· != '=') with
    | [] => none
    | _ :: value =>
      (g.names.lookup (String.ofList (cs.takeWhile (· != '=')))).map
        fun f => (f, some ⟨true, value⟩)

/-- What a word is that stands before any two dashes. -/
def kindOf (word : String) : Except Misuse Kind :=
  match word.toList with
  | [] | ['-'] => .ok .argument
  | '-' :: cs =>
    match g.named? word with
    | some (f, attached) => .ok (.flag f attached)
    | none =>
      match g.matching word with
      | [(_, f, attached)] => .ok (.flag f attached)
      | [] =>
        if isNegative ('-' :: cs) || cs.contains ' ' then .ok .argument else .ok .unknown
      | many => .error (.ambiguous word (many.map (·.1)))
  | _ => .ok .argument

def kinds : List String → Except Misuse (List (String × Kind))
  | [] => .ok []
  | word :: words =>
    if word = "--" then .ok ((word, .separator) :: words.map (·, .argument))
    else do
      let kind ← g.kindOf word
      return (word, kind) :: (← kinds words)

end Grammar

structure Reading where
  values : List (String × String)
  arguments : Option (List String)
  /-- Words that nothing takes. -/
  extras : List String
  deriving DecidableEq, Repr

def checkChoice (name value : String) : Option (List String) → Except Stop Unit
  | none => .ok ()
  | some choices =>
    if choices.contains value then .ok () else .error (.misuse (.invalidChoice name value choices))

namespace Reading

def empty : Reading := ⟨[], none, []⟩

/-- A flag is known by its first name; its last value counts. -/
def set (r : Reading) (f : Flag) (choices : Option (List String)) (value : String) :
    Except Stop Reading := do
  checkChoice f.title value choices
  return { r with values := Dictionary.insert (f.names.headD "") value r.values }

def skip (r : Reading) (word : String) : Reading := { r with extras := r.extras ++ [word] }

def value? (r : Reading) (name : String) : Option String := r.values.lookup name

end Reading

namespace Grammar

variable (g : Grammar)

/-- Checks the flags that stand in one word behind a short one that takes no value.
`hasNext` says whether an argument follows the word. -/
def checkCluster (hasNext : Bool) (f : Flag) (equals : Bool) : List Char → Except Misuse Unit
  | [] => .error (.needless f.title "")
  | c :: cs =>
    if equals || c == '-' then .error (.needless f.title (String.ofList (c :: cs)))
    else match g.names.lookup (String.ofList ['-', c]) with
      | none => .ok ()
      | some next =>
        match next.need, cs with
        | .value _, [] => if hasNext then .ok () else .error (.noValue next.title)
        | .value _, _ => .ok ()
        | .help, [] => .ok ()
        | .help, '=' :: value => .error (.needless next.title (String.ofList value))
        | .help, cs => checkCluster hasNext next false cs

def isNextArgument : List (String × Kind) → Bool
  | (_, .argument) :: _ => true
  | _ => false

/-- Takes the argument, with all that follows it where the grammar says so. -/
def takeAll (r : Reading) (words : List String) : Except Stop Reading := do
  checkChoice g.argument (words.headD "") g.choices
  return { r with arguments := some words }

def readFrom (r : Reading) : List (String × Kind) → Except Stop Reading
  | [] => .ok r
  | (word, .unknown) :: rest => readFrom (r.skip word) rest
  | (_, .flag ⟨_, .help⟩ none) :: _ => .error .help
  | (_, .flag ⟨names, .help⟩ (some attached)) :: rest =>
    match g.checkCluster (isNextArgument rest) ⟨names, .help⟩ attached.equals attached.value with
    | .ok () => .error .help
    | .error cause => .error (.misuse cause)
  | (_, .flag ⟨names, .value choices⟩ (some attached)) :: rest => do
    readFrom (← r.set ⟨names, .value choices⟩ choices (String.ofList attached.value)) rest
  | (_, .flag ⟨names, .value choices⟩ none) :: (value, .argument) :: rest => do
    readFrom (← r.set ⟨names, .value choices⟩ choices value) rest
  | (_, .flag f none) :: _ => .error (.misuse (.noValue f.title))
  | (word, .argument) :: rest =>
    if r.arguments.isSome then readFrom (r.skip word) rest
    else if g.takesRest then g.takeAll r (word :: rest.map (·.1))
    else
      let r := { r with arguments := some [word] }
      match rest with
      | (_, .separator) :: rest => readFrom r rest
      | rest => readFrom r rest
  | (word, .separator) :: rest =>
    if r.arguments.isSome then readFrom (r.skip word) rest
    else match rest with
      | (argument, .argument) :: rest =>
        if g.takesRest then g.takeAll r (word :: argument :: rest.map (·.1))
        else readFrom { r with arguments := some [argument] } rest
      | rest => readFrom (r.skip word) rest

def read (words : List String) : Except Stop Reading := do
  let kinds ← (g.kinds words).mapError .misuse
  let r ← g.readFrom .empty kinds
  if r.arguments.isNone then throw (.misuse (.missing g.argument))
  return r

end Grammar

end OverlayBuild.CommandLine
