import ResponseShapes.CommandLine.Flag

/-!
# Invocations

The arguments of the program: flags, a command, and behind it flags and the path of a project. What is not understood
is collected and refused at the end, so that every other fault is found first.
-/

namespace ResponseShapes

/-- What the program is asked to do. -/
structure Invocation where
  command : Command
  path : String
  verbose : Bool
  trial : Bool
  force : Bool
  deriving DecidableEq, Repr

/-- Why nothing is done. -/
inductive Refusal
  /-- The arguments are at fault; the command is given if the fault stands behind it. -/
  | usage (command : Option Command) (fault : UsageFault)
  /-- Help is asked for. -/
  | help (command : Option Command)
  deriving DecidableEq, Repr

namespace Refusal

/-- The program with the command that the arguments stand behind. -/
def program (command : Option Command) : String :=
  programName ++ ((command.map fun c => " " ++ c.word).getD "")

/-- What is said about a fault. -/
def message : Refusal → String
  | usage command fault => program command ++ ": error: " ++ fault.message
  | help command => "usage: " ++ program command

end Refusal

/-- What was read so far of the arguments in front of a command or behind it. -/
structure ReadArguments where
  flags : List Flag
  /-- The path, once it is given. -/
  path : Option String
  /-- The arguments that are not understood. -/
  extras : List String
  deriving DecidableEq, Repr

namespace ReadArguments

/-- Nothing was read. -/
def empty : ReadArguments :=
  { flags := [], path := none, extras := [] }

/-- Adds an argument that is not understood. -/
def addExtra (r : ReadArguments) (text : String) : ReadArguments :=
  { r with extras := r.extras ++ [text] }

/-- Adds the flags that an argument stands for; help ends the reading. -/
def addFlags (command : Option Command) (flags : Entries Flag) (r : ReadArguments) (f : Flag) (spelling : String)
    (value : Option String) : Except Refusal ReadArguments :=
  match Argument.flagsOf flags f spelling value with
  | .error fault => .error (.usage command fault)
  | .ok fs => if fs.contains .help then .error (.help command) else .ok { r with flags := r.flags ++ fs }

/-- Reads the arguments behind a command. The first operand is the path; a separator counts as an argument only when
    it neither precedes the path nor follows it at once. -/
def behind (command : Option Command) (flags : Entries Flag) (r : ReadArguments) :
    List Argument → Except Refusal ReadArguments
  | [] => .ok r
  | .flag f spelling value :: rest => do
    behind command flags (← r.addFlags command flags f spelling value) rest
  | .unknown text :: rest => behind command flags (r.addExtra text) rest
  | .separator :: rest => behind command flags (if r.path.isSome then r.addExtra "--" else r) rest
  | .operand text :: rest =>
    if r.path.isSome then behind command flags (r.addExtra text) rest
    else
      match rest with
      | .separator :: more => behind command flags { r with path := some text } more
      | more => behind command flags { r with path := some text } more

/-- Reads the arguments in front of a command, and gives the number of those behind it together with its word. -/
def inFront (flags : Entries Flag) (r : ReadArguments) :
    List Argument → Except Refusal (ReadArguments × String × Nat)
  | [] => .error (.usage none .commandMissing)
  | .flag f spelling value :: rest => do
    inFront flags (← r.addFlags none flags f spelling value) rest
  | .unknown text :: rest => inFront flags (r.addExtra text) rest
  | .separator :: rest => if rest.isEmpty then .error (.usage none .commandMissing) else .ok (r, "--", rest.length)
  | .operand text :: rest => .ok (r, text, rest.length)

end ReadArguments

namespace Invocation

/-- What arguments are, as seen in front of a command or behind it. -/
def argumentsOf (command : Option Command) (args : List String) : Except Refusal (List Argument) :=
  match Argument.ofTexts (Flag.table (Flag.known command)) args with
  | .ok as => .ok as
  | .error fault => .error (.usage command fault)

/-- Reads the arguments behind a command. -/
def readBehind (c : Command) (args : List String) : Except Refusal ReadArguments := do
  ReadArguments.empty.behind (some c) (Flag.table (Flag.known (some c))) (← argumentsOf (some c) args)

/-- The invocation by what was read in front of a command and behind it. -/
def ofRead (c : Command) (front back : ReadArguments) : Except Refusal Invocation :=
  let extras := front.extras ++ back.extras
  let flags := front.flags ++ back.flags
  if extras.isEmpty then
    .ok
      { command := c, path := back.path.getD "."
        verbose := flags.contains .verbose, trial := flags.contains .trial, force := flags.contains .force }
  else .error (.usage none (.unrecognized extras))

/-- Reads the arguments of the program. -/
def ofArguments (args : List String) : Except Refusal Invocation := do
  let (front, word, count) ←
    ReadArguments.empty.inFront (Flag.table (Flag.known none)) (← argumentsOf none args)
  match Command.ofWord? word with
  | none => .error (.usage none (.commandUnknown word))
  | some c => ofRead c front (← readBehind c (args.drop (args.length - count)))

end Invocation

end ResponseShapes
