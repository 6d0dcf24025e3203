import ResponseShapes.CommandLine.Invocation
import ResponseShapes.Pass.Project

/-!
# Replies

What the program prints for its arguments and the code with which it ends: zero when the work is done, one when the
project or its settings do not allow it, and two when the arguments are at fault.
-/

namespace ResponseShapes

variable [Recovery]

/-- The code with which the program ends, what it prints, and what it prints about its work. -/
structure Reply where
  code : Nat
  out : String
  err : String
  deriving DecidableEq, Repr

/-- Whether the settings themselves are at fault, and not a value in them that cannot be read. -/
def SettingsError.isRefusal : SettingsError → Bool
  | .fault .malformed => true
  | .fault _ => false
  | notMapping => true
  | timeout => true

/-- What is said about an interruption that the program expects. -/
def Interruption.refusal? : Interruption → Option String
  | .settings e => if e.isRefusal then some ("Invalid configuration: " ++ e.message ++ "\n") else none
  | .disk e =>
    if e.cause = .missing || e.cause = .notDirectory then some (e.message ++ "\n") else none
  | .encoding _ => none
  | .edits _ => none
  | .digits _ => none
  | i => some (i.message ++ "\n")

namespace Invocation

/-- A path as it is seen from the directory where the program runs, if it lies below. -/
def shownPath (here p : Path) : String :=
  ((Path.below? here p).getD p).toString

/-- What is printed about a trial run. -/
def trialText (here : Path) (changed : List Path) : String :=
  "Controllers that would change (dry-run):\n" ++
    (if changed.isEmpty then "  (none)\n"
     else String.join (changed.map fun p => "  " ++ shownPath here p ++ "\n"))

/-- What is printed about a pass over markers. -/
def rewriteText (here : Path) (o : RewriteOutcome) : String :=
  if o.trial then trialText here o.changed
  else s!"Generated {o.declarations} declaration module(s), rewrote {o.changed.length} controller(s)\n"

/-- What is printed about a build. -/
def buildText : BuildOutcome → String
  | .generated declarations endpoints =>
    s!"Generated {declarations} declaration module(s) and wired {endpoints} controller(s)\n"
  | .locked => "Another generation is in progress; skipped\n"
  | .upToDate => "Generated responses already up to date\n"

/-- Does what is asked for, and gives what is printed about it. -/
def perform (now : Binary64) (owner : Nat) (i : Invocation) : Pass String := do
  match i.command with
  | .generate => return s!"Generated {← generate i.path} declaration module(s)\n"
  | .wire => return s!"Wired {← wire i.path} controller(s)\n"
  | .rewrite => return rewriteText (← Pass.disk).here (← rewrite i.path i.trial)
  | .build => return buildText (← build now owner i.path i.force)

end Invocation

namespace Reply

/-- The reply to an invocation by what came of it; an interruption that is not expected has none. -/
def ofResult (i : Invocation) (rows : List LogRow) : Except Interruption String → Except Interruption Reply
  | .ok out => .ok { code := 0, out, err := LogRow.lines i.verbose rows }
  | .error e =>
    match e.refusal? with
    | some text => .ok { code := 1, out := "", err := LogRow.lines i.verbose rows ++ text }
    | none => .error e

/-- The reply to arguments that are refused. -/
def ofRefusal : Refusal → Reply
  | .help command => { code := 0, out := (Refusal.help command).message ++ "\n", err := "" }
  | .usage command fault => { code := 2, out := "", err := (Refusal.usage command fault).message ++ "\n" }

/-- Runs the program with its arguments: what it replies, and the state that it leaves. -/
def ofArguments (now : Binary64) (owner : Nat) (args : List String) (d : Disk) :
    Except Interruption Reply × PassState :=
  let start : PassState := { disk := d, rows := [], progress := Progress.empty }
  match Invocation.ofArguments args with
  | .error r => (.ok (ofRefusal r), start)
  | .ok i =>
    let (result, state) := (i.perform now owner).run start
    (ofResult i state.rows result, state)

end Reply

end ResponseShapes
