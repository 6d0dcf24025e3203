import ResponseShapes.Entries
import ResponseShapes.Log
import ResponseShapes.Text.Digits
import ResponseShapes.Text.Quotation

/-!
# Commands and flags

The words of the command line. Flags take no values; a long flag may be cut short as long as no other flag begins in
the same way, and short flags may be run together behind one dash. Two dashes alone separate flags from what is
taken as it is.
-/

namespace ResponseShapes

/-- What the program can do. -/
inductive Command
  | generate | wire | rewrite | build
  deriving DecidableEq, Repr

namespace Command

/-- All commands. -/
def all : List Command :=
  [generate, wire, rewrite, build]

/-- The word for a command. -/
def word : Command → String
  | generate => "generate"
  | wire => "wire"
  | rewrite => "rewrite"
  | build => "build"

/-- The command that a word names. -/
def ofWord? (word : String) : Option Command :=
  all.find? fun c => c.word = word

end Command

/-- A flag. -/
inductive Flag
  | help | verbose
  /-- Sources stay as they are. -/
  | trial
  /-- A build happens even if nothing changed. -/
  | force
  deriving DecidableEq, Repr

namespace Flag

/-- The ways to write a flag. -/
def spellings : Flag → List String
  | help => ["-h", "--help"]
  | verbose => ["-v", "--verbose"]
  | trial => ["--dry-run"]
  | force => ["--force"]

/-- The flag as errors name it. -/
def label (f : Flag) : String :=
  String.intercalate "/" f.spellings

/-- The flags that are known behind a command or, given none, in front of it. -/
def known : Option Command → List Flag
  | some .rewrite => [help, verbose, trial]
  | some .build => [help, verbose, force]
  | _ => [help, verbose]

/-- All ways to write some flags. -/
def table (flags : List Flag) : Entries Flag :=
  flags.flatMap fun f => f.spellings.map fun s => (s, f)

end Flag

/-- What is wrong with arguments. -/
inductive UsageFault
  /-- An argument may be the short form of several flags. -/
  | ambiguous (argument : String) (candidates : List String)
  /-- A flag has a value, or is run together with what is no flag. -/
  | unexpectedValue (flag : Flag) (value : String)
  | commandMissing
  | commandUnknown (word : String)
  | unrecognized (arguments : List String)
  deriving DecidableEq, Repr

namespace UsageFault

/-- What is said about a fault. -/
def message : UsageFault → String
  | ambiguous argument candidates =>
    "ambiguous option: " ++ argument ++ " could match " ++ String.intercalate ", " candidates
  | unexpectedValue flag value =>
    "argument " ++ flag.label ++ ": ignored explicit argument " ++ Text.quoted value
  | commandMissing => "the following arguments are required: command"
  | commandUnknown word =>
    "argument command: invalid choice: " ++ Text.quoted word ++ " (choose from " ++
      String.intercalate ", " (Command.all.map fun c => Text.quoted c.word) ++ ")"
  | unrecognized arguments => "unrecognized arguments: " ++ String.intercalate " " arguments

end UsageFault

/-- An argument by its form. -/
inductive Argument
  | operand (text : String)
  /-- Two dashes alone. -/
  | separator
  /-- A flag as it is spelled in full, and the value that stands with it. -/
  | flag (f : Flag) (spelling : String) (value : Option String)
  | unknown (text : String)
  deriving DecidableEq, Repr

namespace Argument

/-- The argument as it was given; flags are not asked for. -/
def text : Argument → String
  | operand t => t
  | separator => "--"
  | flag _ spelling _ => spelling
  | unknown t => t

/-- Whether a text is a negative number: digits with at most one point, behind which there are digits. A line feed at
    its end does not matter. -/
def isNegativeNumber (arg : String) : Bool :=
  match arg.toList with
  | '-' :: cs =>
    let cs := if cs.getLast? = some '\n' then cs.dropLast else cs
    let isDigit (c : Char) := (Text.digitValue? c).isSome
    match cs.dropWhile isDigit with
    | [] => !cs.isEmpty
    | '.' :: ds => !ds.isEmpty && ds.all isDigit
    | _ => false
  | _ => false

/-- A text up to its first equality sign, and what stands behind that. -/
def splitValue (arg : String) : String × Option String :=
  let cs := arg.toList
  match cs.dropWhile (· != '=') with
  | [] => (arg, none)
  | _ :: value => (String.ofList (cs.takeWhile (· != '=')), some (String.ofList value))

/-- The flags that an argument with two dashes may be the short form of. -/
def longCandidates (flags : Entries Flag) (arg : String) : List Argument :=
  let (name, value) := splitValue arg
  (flags.filter fun e => name.toList.isPrefixOf e.1.toList).map fun e => .flag e.2 e.1 value

/-- The flags that an argument with one dash may begin with. -/
def shortCandidates (flags : Entries Flag) (arg : String) : List Argument :=
  flags.filterMap fun e =>
    if e.1.toList = arg.toList.take 2 then some (.flag e.2 e.1 (some (String.ofList (arg.toList.drop 2))))
    else if arg.toList.isPrefixOf e.1.toList then some (.flag e.2 e.1 none)
    else none

/-- The flag that is spelled in front of an equality sign. -/
def valued? (flags : Entries Flag) (arg : String) : Option Argument :=
  match splitValue arg with
  | (name, some value) => (Entries.get? name flags).map fun f => .flag f name (some value)
  | (_, none) => none

/-- What an argument is that begins with a dash and is no flag in full. -/
def ofDashed (flags : Entries Flag) (arg : String) : Except UsageFault Argument :=
  match (if arg.toList.take 2 = ['-', '-'] then longCandidates else shortCandidates) flags arg with
  | [a] => .ok a
  | a :: b :: more => .error (.ambiguous arg ((a :: b :: more).map text))
  | [] => .ok (if isNegativeNumber arg || arg.toList.contains ' ' then .operand arg else .unknown arg)

/-- What an argument is. -/
def ofText (flags : Entries Flag) (arg : String) : Except UsageFault Argument :=
  match arg.toList with
  | '-' :: cs =>
    match Entries.get? arg flags with
    | some f => .ok (.flag f arg none)
    | none =>
      if cs.isEmpty then .ok (.operand arg)
      else
        match valued? flags arg with
        | some a => .ok a
        | none => ofDashed flags arg
  | _ => .ok (.operand arg)

/-- What arguments are; behind a separator they are taken as they are. -/
def ofTexts (flags : Entries Flag) : List String → Except UsageFault (List Argument)
  | [] => .ok []
  | arg :: args =>
    if arg = "--" then .ok (.separator :: args.map operand)
    else do
      let a ← ofText flags arg
      return a :: (← ofTexts flags args)

/-- The short flags that are run together behind a short flag. -/
def runTogether (flags : Entries Flag) (f : Flag) : List Char → Except UsageFault (List Flag)
  | [] => .ok [f]
  | c :: cs =>
    match Entries.get? (String.ofList ['-', c]) flags with
    | some g => (runTogether flags g cs).map (f :: ·)
    | none => .error (.unexpectedValue f (String.ofList (c :: cs)))

/-- The flags that a spelling with a value stands for. -/
def flagsOf (flags : Entries Flag) (f : Flag) (spelling : String) : Option String → Except UsageFault (List Flag)
  | none => .ok [f]
  | some value =>
    if value.isEmpty || spelling.toList.take 2 = ['-', '-'] then .error (.unexpectedValue f value)
    else runTogether flags f value.toList

end Argument

end ResponseShapes
