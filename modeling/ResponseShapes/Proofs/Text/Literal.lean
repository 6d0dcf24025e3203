import Mathlib.Data.List.Basic
import ResponseShapes.Text.JsonString

/-! # What literals denote

A string literal, or a template without substitutions, denotes UTF-16 units, as TypeScript has it in strict code, where
an escape by an octal number is no escape. A character denotes its own units, an escape what it spells out, and a line
that is continued behind a backslash nothing. In a template lines may end, and every line end is a line feed. A literal
denotes one string at most (`Denotes.unique`). -/

namespace ResponseShapes.Literal

open Text

variable {cs rest : List Char} {us vs : List Nat} {c : Char}

/-! ### Escapes -/

/-- Characters that end a line of source text. -/
def endsLine (c : Char) : Bool :=
  c = '\n' || c = '\r' || c.toNat = 0x2028 || c.toNat = 0x2029

/-- The letters that stand for controls. -/
def controls : List (Char × Nat) :=
  [('b', 0x08), ('t', 0x09), ('n', 0x0A), ('v', 0x0B), ('f', 0x0C), ('r', 0x0D)]

/-- The units of the character with a number; a number between the ranges of characters is a unit itself. -/
def unitsOf (n : Nat) : List Nat :=
  if n < 0x10000 then [n] else [0xD800 + (n - 0x10000) / 0x400, 0xDC00 + (n - 0x10000) % 0x400]

/-- The number that hexadecimal digits write. -/
def hexNumber? (digits : List Char) : Option Nat :=
  (digits.mapM hexValue?).map (·.foldl (16 * · + ·) 0)

/-- The units of an escape by a single character, with what comes behind it. -/
def escapedChar? (c : Char) (cs : List Char) : Option (List Nat × List Char) :=
  if endsLine c then some ([], cs)
  else if c = '0' && !cs.head?.any Char.isDigit then some ([0], cs)
  else if c.isDigit || c = 'x' || c = 'u' then none
  else some (((controls.lookup c).map ([·])).getD (units c), cs)

/-- The units of an escape by a number between braces, of which the digits come first. -/
def bracedEscape? (cs : List Char) : Option (List Nat × List Char) :=
  match hexNumber? (cs.takeWhile (· != '\x7d')), cs.dropWhile (· != '\x7d') with
  | some n, _ :: rest => if cs.head? ≠ some '\x7d' && n ≤ 0x10FFFF then some (unitsOf n, rest) else none
  | _, _ => none

/-- The units of the escape that goes on behind a backslash, with what comes behind it. -/
def escape? : List Char → Option (List Nat × List Char)
  | '\r' :: '\n' :: cs => some ([], cs)
  | 'x' :: a :: b :: cs => (hexNumber? [a, b]).map fun n => ([n], cs)
  | 'u' :: '\x7b' :: cs => bracedEscape? cs
  | 'u' :: a :: b :: c :: d :: cs => (hexNumber? [a, b, c, d]).map fun n => ([n], cs)
  | c :: cs => escapedChar? c cs
  | [] => none

/-! ### Literals -/

/-- How a literal is quoted. -/
inductive Form
  | single
  | double
  | template
  deriving DecidableEq, Repr

/-- The quote at both ends. -/
def Form.quote : Form → Char
  | single => '\x27'
  | double => '\x22'
  | template => '\x60'

/-- The character stands for itself, in front of `rest`. -/
def Form.Bare (form : Form) (c : Char) (rest : List Char) : Prop :=
  c ≠ form.quote ∧ c ≠ '\\' ∧ c ≠ '\r' ∧ (form ≠ template → c ≠ '\n') ∧
    (form = template → c = '$' → rest.head? ≠ some '\x7b')

/-- The characters between the quotes denote the units. -/
inductive Content (form : Form) : List Char → List Nat → Prop
  | nil : Content form [] []
  | char {c : Char} {rest : List Char} {us : List Nat} (bare : form.Bare c rest) (next : Content form rest us) :
    Content form (c :: rest) (units c ++ us)
  | escape {cs rest : List Char} {vs us : List Nat} (spelled : escape? cs = some (vs, rest))
    (next : Content form rest us) : Content form ('\\' :: cs) (vs ++ us)
  | lineEnd {rest : List Char} {us : List Nat} (lines : form = .template) (single : rest.head? ≠ some '\n')
    (next : Content form rest us) : Content form ('\r' :: rest) (0x0A :: us)
  | lineEnds {rest : List Char} {us : List Nat} (lines : form = .template) (next : Content form rest us) :
    Content form ('\r' :: '\n' :: rest) (0x0A :: us)

/-- The literal is well formed and denotes the units. -/
def Denotes (form : Form) (literal : List Char) (us : List Nat) : Prop :=
  ∃ content, literal = form.quote :: content ++ [form.quote] ∧ Content form content us

variable {form : Form}

theorem Content.of_escape (h : Content form ('\\' :: cs) us) :
    ∃ vs rest us', escape? cs = some (vs, rest) ∧ us = vs ++ us' ∧ Content form rest us' := by
  cases h with
  | char bare next => exact absurd rfl bare.2.1
  | escape spelled next => exact ⟨_, _, _, spelled, rfl, next⟩

theorem Content.of_bare (hc : c ≠ '\\') (hreturn : c ≠ '\r') (h : Content form (c :: rest) us) :
    form.Bare c rest ∧ ∃ us', us = units c ++ us' ∧ Content form rest us' := by
  cases h with
  | char bare next => exact ⟨bare, _, rfl, next⟩
  | escape => exact absurd rfl hc
  | lineEnd => exact absurd rfl hreturn
  | lineEnds => exact absurd rfl hreturn

/-- Outside of templates no line ends by a carriage return. -/
theorem Content.ne_return (hform : form ≠ .template) (h : Content form (c :: rest) us) : c ≠ '\r' := by
  cases h with
  | char bare => exact bare.2.2.1
  | escape => decide
  | lineEnd lines => exact absurd lines hform
  | lineEnds lines => exact absurd lines hform

theorem Content.unique {us' : List Nat} (h : Content form cs us) (h' : Content form cs us') : us = us' := by
  induction h generalizing us' with
  | nil =>
    cases h'
    rfl
  | char bare next ih =>
    obtain ⟨-, us', rfl, next'⟩ := h'.of_bare bare.2.1 bare.2.2.1
    rw [ih next']
  | escape spelled next ih =>
    obtain ⟨vs', rest', us', spelled', rfl, next'⟩ := h'.of_escape
    obtain ⟨rfl, rfl⟩ := Prod.mk.inj (Option.some.inj (spelled.symm.trans spelled'))
    rw [ih next']
  | lineEnd lines single next ih =>
    cases h' with
    | char bare => exact absurd rfl bare.2.2.1
    | lineEnd _ _ next' => rw [ih next']
    | lineEnds => exact absurd rfl single
  | lineEnds lines next ih =>
    cases h' with
    | char bare => exact absurd rfl bare.2.2.1
    | lineEnd _ single => exact absurd rfl single
    | lineEnds _ next' => rw [ih next']

/-- A literal denotes one string at most. -/
theorem Denotes.unique {literal : List Char} {us' : List Nat} (h : Denotes form literal us)
    (h' : Denotes form literal us') : us = us' := by
  obtain ⟨content, rfl, hcontent⟩ := h
  obtain ⟨content', heq, hcontent'⟩ := h'
  obtain ⟨-, heq⟩ := List.cons.inj heq
  rw [List.append_cancel_right heq] at hcontent
  exact hcontent.unique hcontent'

end ResponseShapes.Literal
