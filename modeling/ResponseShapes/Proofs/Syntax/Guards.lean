import ResponseShapes.Proofs.Syntax.Gaps
import ResponseShapes.Syntax.Parser

/-! # Where parsers fail

`Guarded p opens`: the parser fails at each text behind whose gap the guard `opens` admits nothing, so one of several
alternatives can be told by what begins them. `Idles p a opens`: at such a text the parser does nothing, if it does not
fail, and gives `a`; what is behind it then is read at the same text. -/

namespace ResponseShapes.Syntax

open Syntax.Parser

variable {α β : Type} {p q : Parser α} {f : α → Parser β} {a : α} {cs rest : List Char} {opens opens' : List Char → Bool}
  {kind : Kind} {r : Role}

/-- The parser fails at the text. -/
def Rejects (p : Parser α) (cs : List Char) : Prop :=
  ∀ position breakable children, p { position, rest := cs, breakable, children } = none

/-- The parser fails at each text behind whose gap the guard admits nothing. -/
def Guarded (p : Parser α) (opens : List Char → Bool) : Prop :=
  ∀ cs rest, Skips cs rest → opens rest = false → Rejects p cs

/-- The parser fails or stays at each text behind whose gap the guard admits nothing. -/
def Idles (p : Parser α) (a : α) (opens : List Char → Bool) : Prop :=
  ∀ cs rest, Skips cs rest → opens rest = false → ∀ position breakable children,
    p { position, rest := cs, breakable, children } = none ∨
      p { position, rest := cs, breakable, children } = some (a, { position, rest := cs, breakable, children })

theorem bind_apply (p : Parser α) (f : α → Parser β) (c : Cursor) :
    (p >>= f) c = (p c).bind fun r => f r.1 r.2 := rfl

theorem orElse_apply (p q : Parser α) (c : Cursor) : (p <|> q) c = (p c <|> q c) := rfl

theorem get_bind (f : Cursor → Parser β) (c : Cursor) : (get >>= f) c = f c c := rfl

theorem guard_apply (holds : Prop) [Decidable holds] (c : Cursor) :
    (guard holds : Parser Unit) c = if holds then some ((), c) else none := by
  unfold guard
  split <;> rfl

theorem Rejects.bind (h : Rejects p cs) (f : α → Parser β) : Rejects (p >>= f) cs := fun position breakable children => by
  rw [bind_apply, h]
  rfl

theorem Rejects.discard (h : Rejects p cs) : Rejects (discard p) cs := fun position breakable children => by
  change ((p _).bind fun r => some ((), r.2)) = none
  rw [h]
  rfl

theorem Rejects.nodeOf {p : Parser Kind} (hskips : Skips cs rest) (h : Rejects p rest) : Rejects (nodeOf p) cs :=
  fun position breakable children => by
    change ((p { position := _, rest := (scanGap isSpace position .between cs).rest, breakable, children := [] }).bind _) =
      none
    rw [hskips.rest_eq, h]
    rfl

theorem Rejects.node {p : Parser Unit} (hskips : Skips cs rest) (h : Rejects p rest) (kind : Kind) :
    Rejects (node kind p) cs :=
  ((h.bind _).nodeOf hskips).discard

theorem Rejects.role {p : Parser Unit} (h : Rejects p cs) (r : Role) : Rejects (role r p) cs :=
  fun position breakable children => by
    change ((p { position, rest := cs, breakable, children := [] }).bind _) = none
    rw [h]
    rfl

theorem Rejects.orElse (hp : Rejects p cs) (hq : Rejects q cs) : Rejects (p <|> q) cs :=
  fun position breakable children => by
    rw [orElse_apply, hp, hq]
    rfl

/-- An alternative that fails leaves the text to the others. -/
theorem Rejects.oneOf_eq {p : Parser Unit} (h : Rejects p cs) (ps : List (Parser Unit)) (position : Nat) (breakable : Bool)
    (children : List Node) : oneOf (p :: ps) { position, rest := cs, breakable, children } =
      oneOf ps { position, rest := cs, breakable, children } := by
  change (p _ <|> oneOf ps _) = _
  rw [h]
  rfl

theorem oneOf_singleton (p : Parser Unit) (c : Cursor) : oneOf [p] c = p c := by
  change (p c <|> none) = p c
  cases p c <;> rfl

namespace Guarded

theorem rejects (h : Guarded p opens) (hskips : Skips cs rest) (hclosed : opens rest = false) : Rejects p cs :=
  h cs rest hskips hclosed

theorem mono (h : Guarded p opens) (hopens : ∀ cs, opens cs = true → opens' cs = true) : Guarded p opens' :=
  fun cs rest hskips hclosed => h cs rest hskips <| Bool.eq_false_iff.mpr fun hopen =>
    absurd (hopens rest hopen) (Bool.eq_false_iff.mp hclosed)

/-- A guard that nothing satisfies at the end of the text. -/
theorem nonempty (h : Guarded p opens) (hnil : opens [] = false) : Guarded p fun cs => !cs.isEmpty :=
  h.mono fun cs hcs => by
    cases cs with
    | nil => exact absurd hcs (Bool.eq_false_iff.mp hnil)
    | cons c cs => rfl

theorem failure (opens : List Char → Bool) : Guarded (failure : Parser α) opens :=
  fun _ _ _ _ _ _ _ => rfl

theorem bind (h : Guarded p opens) (f : α → Parser β) : Guarded (p >>= f) opens :=
  fun cs rest hskips hclosed => (h cs rest hskips hclosed).bind f

theorem discard (h : Guarded p opens) : Guarded (discard p) opens :=
  fun cs rest hskips hclosed => (h cs rest hskips hclosed).discard

theorem bind_idle {opens' : List Char → Bool} (hp : Idles p a opens) (hf : Guarded (f a) opens') :
    Guarded (p >>= f) fun cs => opens cs || opens' cs := by
  intro cs rest hskips hclosed position breakable children
  obtain ⟨hclosed, hclosed'⟩ := Bool.or_eq_false_iff.mp hclosed
  rw [bind_apply]
  obtain h | h := hp cs rest hskips hclosed position breakable children <;> rw [h]
  · rfl
  · exact hf cs rest hskips hclosed' position breakable children

/-- What stands behind a parser that reads nothing. -/
theorem behind (hp : Idles p a fun _ => false) (hf : Guarded (f a) opens) : Guarded (p >>= f) opens :=
  (bind_idle hp hf).mono fun _ hcs => (Bool.false_or _).symm.trans hcs

/-- What stands behind a parser that begins with the same. -/
theorem bind_either (hp : Idles p a opens) (hf : Guarded (f a) opens) : Guarded (p >>= f) opens :=
  (bind_idle hp hf).mono fun _ hcs => (Bool.or_self _).symm.trans hcs

theorem orElse (hp : Guarded p opens) (hq : Guarded q opens') :
    Guarded (p <|> q) fun cs => opens cs || opens' cs := fun cs rest hskips hclosed => by
  obtain ⟨hclosed, hclosed'⟩ := Bool.or_eq_false_iff.mp hclosed
  exact (hp cs rest hskips hclosed).orElse (hq cs rest hskips hclosed')

theorem oneOf_nil : Guarded (oneOf []) opens :=
  failure opens

theorem oneOf_cons {p : Parser Unit} {ps : List (Parser Unit)} (hp : Guarded p opens) (hps : Guarded (oneOf ps) opens) :
    Guarded (oneOf (p :: ps)) opens :=
  (hp.orElse hps).mono fun cs hcs => (Bool.or_self (opens cs)).symm.trans hcs

/-! ### Looking ahead -/

theorem ahead {f : List Char → Parser β}
    (h : ∀ cs rest, Skips cs rest → opens rest = false → Rejects (f rest) cs) : Guarded (ahead >>= f) opens := by
  intro cs rest hskips hclosed position breakable children
  change f (skipGap cs) _ = none
  rw [hskips.skipGap_eq]
  exact h cs rest hskips hclosed position breakable children

theorem check (holds : Prop) [Decidable holds] : Guarded (guard holds : Parser Unit) fun _ => holds :=
  fun cs rest _ hclosed position breakable children => by
    rw [guard_apply, if_neg (of_decide_eq_false hclosed)]

theorem signAhead (s : String) : Guarded (signAhead s) (startsWith s) :=
  ahead fun _ _ hskips hclosed => (check _).rejects hskips (decide_eq_false (Bool.eq_false_iff.mp hclosed))

/-! ### Lexemes -/

theorem gap_bind {f : Unit → Parser β} (h : ∀ rest, Solid rest → opens rest = false → Rejects (f ()) rest) :
    Guarded (gap >>= f) opens := by
  intro cs rest hskips hclosed position breakable children
  change f () { position := _, rest := (scanGap isSpace position .between cs).rest, breakable, children := _ } = none
  rw [hskips.rest_eq]
  exact h rest hskips.solid hclosed _ _ _

theorem leaf (kind : Kind) (length : List Char → Nat) : Guarded (leaf kind length) fun cs => 0 < length cs :=
  gap_bind fun rest _ hclosed position breakable children => by
    rw [get_bind]
    dsimp only
    rw [bind_apply, guard_apply, if_neg (of_decide_eq_false hclosed)]
    rfl

theorem signUnless (s : String) (excluded : List Char) : Guarded (signUnless s excluded) (startsWith s) :=
  gap_bind fun rest _ hclosed position breakable children => by
    rw [get_bind]
    dsimp only
    rw [bind_apply, guard_apply, if_neg (Bool.eq_false_iff.mp hclosed)]
    rfl

theorem sign (s : String) : Guarded (sign s) (startsWith s) :=
  signUnless s []

theorem word (w : String) : Guarded (word w) fun cs => wordAt cs = w :=
  gap_bind fun rest _ hclosed position breakable children => by
    rw [get_bind, bind_apply, guard_apply, if_neg (of_decide_eq_false hclosed)]
    rfl

theorem keptWord (kind : Kind) (words : List String) :
    Guarded (keptWord kind words) fun cs => words.contains (wordAt cs) :=
  (leaf kind _).mono fun cs hcs => by
    by_contra hnot
    rw [if_neg hnot] at hcs
    cases hcs

theorem keptSign (s : String) : Guarded (keptSign s) (startsWith s) :=
  (leaf .token _).mono fun cs hcs => by
    by_contra hnot
    rw [if_neg hnot] at hcs
    cases hcs

/-! ### Constructs -/

theorem nodeOf {p : Parser Kind} (h : Guarded p opens) : Guarded (nodeOf p) opens :=
  fun _ rest hskips hclosed => (h rest rest (.of_solid hskips.solid) hclosed).nodeOf hskips

theorem node {p : Parser Unit} (h : Guarded p opens) (kind : Kind) : Guarded (node kind p) opens :=
  (h.bind _).nodeOf.discard

theorem role {p : Parser Unit} (h : Guarded p opens) (r : Role) : Guarded (role r p) opens :=
  fun cs rest hskips hclosed => (h cs rest hskips hclosed).role r

theorem extend {p : Parser Unit} (h : Guarded p opens) (kind : Kind) (r : Option Role) :
    Guarded (extend kind r p) opens :=
  fun cs rest hskips hclosed position breakable children => by
    cases children with
    | nil => rfl
    | cons operand others =>
      change ((p { position, rest := cs, breakable, children := [_] }).bind _) = none
      rw [h cs rest hskips hclosed]
      rfl

theorem withBreaks {p : Parser Unit} (h : Guarded p opens) (breakable : Bool) : Guarded (withBreaks breakable p) opens :=
  fun cs rest hskips hclosed position outer children => by
    change ((p { position, rest := cs, breakable, children }).bind _) = none
    rw [h cs rest hskips hclosed]
    rfl

theorem enclosed (opening closing : String) (p : Parser Unit) :
    Guarded (enclosed opening closing p) (startsWith opening) :=
  ((sign opening).bind _).withBreaks false

end Guarded

namespace Idles

theorem bind {b : β} (hp : Idles p a opens) (hf : Idles (f a) b opens') :
    Idles (p >>= f) b fun cs => opens cs || opens' cs := by
  intro cs rest hskips hclosed position breakable children
  obtain ⟨hclosed, hclosed'⟩ := Bool.or_eq_false_iff.mp hclosed
  rw [bind_apply]
  obtain h | h := hp cs rest hskips hclosed position breakable children <;> rw [h]
  · exact Or.inl rfl
  · exact hf cs rest hskips hclosed' position breakable children

theorem orElse_pure (h : Guarded p opens) (a : α) : Idles (p <|> pure a) a opens := by
  intro cs rest hskips hclosed position breakable children
  rw [orElse_apply, h cs rest hskips hclosed]
  exact Or.inr rfl

theorem optional {p : Parser Unit} (h : Guarded p opens) : Idles (Parser.optional p) () opens :=
  orElse_pure h ()

theorem tried {p : Parser Unit} (h : Guarded p opens) : Idles (tried p) false opens :=
  orElse_pure (h.bind _) false

theorem atMost {p : Parser Unit} (h : Guarded p opens) (n : Nat) : Idles (atMost n p) () opens := by
  cases n with
  | zero => exact fun _ _ _ _ _ _ _ => Or.inr rfl
  | succ n => exact orElse_pure (h.bind _) ()

theorem many {p : Parser Unit} (h : Guarded p opens) : Idles (many p) () opens :=
  fun cs rest hskips hclosed position breakable children =>
    atMost h cs.length cs rest hskips hclosed position breakable children

theorem check (holds : Prop) [Decidable holds] : Idles (guard holds : Parser Unit) () fun _ => false := by
  intro cs rest _ _ position breakable children
  rw [guard_apply]
  split
  · exact Or.inr rfl
  · exact Or.inl rfl

theorem sameStatement (afterExpression : Bool) : Idles (sameStatement afterExpression) () fun _ => false :=
  fun cs rest hskips hclosed position breakable children =>
    check _ cs rest hskips hclosed position breakable children

end Idles

end ResponseShapes.Syntax
