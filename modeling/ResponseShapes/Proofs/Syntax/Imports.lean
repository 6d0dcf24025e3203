import ResponseShapes.Proofs.Syntax.Classes
import ResponseShapes.Proofs.Syntax.Specifiers

/-! # Reading imports of names

The statement that lists specifiers in braces is read as an import of these specifiers, in order, from its module
(`Reads.importBody`, `importOf_eq`), with its semicolon or, at the end of the text, without one. -/

namespace ResponseShapes.Syntax

open Syntax.Parser Grammar

variable {text rest gap module closing : List Char} {breakable : Bool} {phrase : Phrases} {p : ImportSpecifier}
  {ps : List ImportSpecifier} {n : Node}

/-! ### How imports are written -/

/-- Specifiers in braces. -/
def bracesText (p : ImportSpecifier) (ps : List ImportSpecifier) : List Char :=
  "\x7b".toList ++ ((" ".toList ++ p.text.toList ++ ((ps.flatMap fun q => ",".toList ++ (" ".toList ++ q.text.toList)) ++ [])) ++
    (" ".toList ++ "\x7d".toList))

/-- The module from which something comes. -/
def sourceText (module : List Char) : List Char :=
  " ".toList ++ "from".toList ++ (" ".toList ++ module)

/-- The import of specifiers from a module. -/
def namesImport (p : ImportSpecifier) (ps : List ImportSpecifier) (module closing : List Char) : List Char :=
  "import".toList ++ (" ".toList ++ bracesText p ps ++ sourceText module ++ closing)

/-- A statement ends with a semicolon, or with the text. -/
def StatementEnd (closing rest : List Char) : Prop :=
  closing = ";".toList ∨ closing = [] ∧ rest = []

theorem isWord_import : IsWord "import".toList :=
  isWord_of_all (by decide) (by decide)

theorem isWord_from : IsWord "from".toList :=
  isWord_of_all (by decide) (by decide)

/-! ### Nodes of imports -/

/-- The node lists the specifiers. -/
def ListsNames (text : List Char) (ps : List ImportSpecifier) : Node → Prop :=
  IsConstruct .namedImports fun ns => List.Forall₂ (IsSpecifier text) ps ns.reverse

/-- The list of the specifiers and their module are the children of the statement, the latest first. -/
def ImportParts (text : List Char) (ps : List ImportSpecifier) (module : List Char) (ns : List Node) : Prop :=
  ∃ x y, ns = [y, x] ∧ IsConstruct .importClause (One (ListsNames text ps)) x ∧ Plays .source (Spells text .string module) y

/-! ### Reading imports -/

/-- What an import is besides its place. -/
def importBody (phrase : Phrases) : Parser Unit := do
  Parser.word "import"
  oneOf
    [do
      Parser.optional do
        keptWord .token ["type", "typeof"]
        guard ((← Parser.ahead).head?.any fun c => isWordStart c || c == '\x7b' || c == '*')
        guard (wordAt (← Parser.ahead) != "from")
      importStatement.clause
      sourceClause,
     do
      keptWord .token ["type", "typeof"]
      importStatement.clause
      sourceClause,
     do
      importStatement.clause
      sourceClause,
     node .importRequireClause do
      Parser.optional (do keptWord .token ["type"]; guard ((← Parser.ahead).head?.any isWordStart))
      anyName .identifier
      Parser.sign "="
      Parser.word "require"
      Parser.enclosed "(" ")" (Parser.role .source stringLiteral),
     Parser.role .source stringLiteral]
  importAttributes phrase
  Parser.semicolon

theorem importStatement_eq (phrase : Phrases) : importStatement phrase = node .importStatement (importBody phrase) := rfl

theorem Reads.namedImports (hp : Listed p) (hps : ∀ q ∈ ps, Listed q) (rest : List Char) :
    Reads text (Parser.node .namedImports (Parser.enclosed "\x7b" "\x7d" (Parser.commaSeparated (specifier .importSpecifier))))
      breakable (bracesText p ps) rest () (One (ListsNames text (p :: ps))) := by
  have hblank : " ".toList.all isSpace = true := by decide
  have hclosing : Skips (" ".toList ++ "\x7d".toList ++ rest) ("\x7d".toList ++ rest) := by
    rw [List.append_assoc]
    exact (isGap_blanks hblank).skips (solid_closer (by decide) rest)
  have hend : Closes (" ".toList ++ "\x7d".toList ++ rest) := by
    rw [List.append_assoc]
    exact .blank hblank (closes_cons (by decide) rest)
  have hlist : Reads text (Parser.commaSeparated (specifier .importSpecifier)) false
      (" ".toList ++ p.text.toList ++ ((ps.flatMap fun q => ",".toList ++ (" ".toList ++ q.text.toList)) ++ []))
      (" ".toList ++ "\x7d".toList ++ rest) () fun ns => List.Forall₂ (IsSpecifier text) (p :: ps) ns.reverse :=
    commaSeparated (fun q hq rest hrest => listed (List.forall_mem_cons.mpr ⟨hp, hps⟩ q hq) hrest)
      (.stop (((Guarded.sign ",").rejects hclosing rfl).bind _) rfl) hend
  have hsolid : Solid (bracesText p ps ++ rest) := solid_cons (by decide) (by decide) _
  exact node_bare hsolid (enclosed hsolid hblank (solid_closer (by decide) rest) hlist)

theorem Reads.clause (hp : Listed p) (hps : ∀ q ∈ ps, Listed q) (rest : List Char) :
    Reads text importStatement.clause breakable (" ".toList ++ bracesText p ps) rest ()
      (One (IsConstruct .importClause (One (ListsNames text (p :: ps))))) := by
  have hsolid : Solid (bracesText p ps ++ rest) := solid_cons (by decide) (by decide) _
  exact node (by decide) hsolid (.oneOf_skip (((Guarded.leaf _ _).rejects (.of_solid hsolid) rfl).bind _)
    (oneOf_here (oneOf_here (namedImports hp hps rest) _) _))

theorem rejects_importAttribute (hsolid : Solid rest) (hword : wordLength rest = 0) :
    Rejects (node .importAttribute do oneOf [Parser.word "with", Parser.word "assert"]; phrase .expression) rest := by
  have hempty : wordAt rest = "" := by rw [wordAt, hword]; rfl
  have hnone : ∀ {w : String}, w ≠ "" → Rejects (Parser.word w) rest := fun hw =>
    (Guarded.word _).rejects (.of_solid hsolid) (decide_eq_false (hempty ▸ hw.symm))
  exact ((Rejects.orElse (hnone (by decide)) (.orElse (hnone (by decide)) fun _ _ _ => rfl)).bind _).node (.of_solid hsolid) _

theorem Reads.importEnd (h : StatementEnd closing rest) :
    Reads text (do importAttributes phrase; Parser.semicolon : Parser Unit) breakable closing rest () (· = []) := by
  rcases h with rfl | ⟨rfl, rfl⟩
  · exact after_stay (.optional (rejects_importAttribute (solid_semicolon rest) rfl)) semicolon
  · exact after_stay (.optional (rejects_importAttribute solid_nil rfl)) (of_stays fun _ _ _ => rfl)

theorem Reads.sourceClause (hmodule : IsString module) (rest : List Char) :
    Reads text Grammar.sourceClause breakable (sourceText module) rest () (One (Plays .source (Spells text .string module))) := by
  have hblank : " ".toList.all isSpace = true := by decide
  have hstring : Reads text (Parser.role .source stringLiteral) breakable (" ".toList ++ module) rest ()
      (One (Plays .source (Spells text .string module))) :=
    (leaf hblank hmodule.ne_nil (hmodule.solid _) (hmodule.length_eq _)).role_leaf (by decide)
  have hspace : endsWord (" ".toList ++ module ++ rest) = true := endsWord_space _
  exact silent_bind (Reads.word hblank isWord_from hspace) hstring

theorem Reads.importBody (hp : Listed p) (hps : ∀ q ∈ ps, Listed q) (hmodule : IsString module) (hends : StatementEnd closing rest) :
    Reads text (Syntax.importBody phrase) breakable (namesImport p ps module closing) rest ()
      (ImportParts text (p :: ps) module) := by
  have hopening : Skips (" ".toList ++ bracesText p ps ++ sourceText module ++ (closing ++ rest))
      (bracesText p ps ++ (sourceText module ++ (closing ++ rest))) := by
    simp only [List.append_assoc]
    exact (isGap_blanks (by decide)).skips (solid_cons (by decide) (by decide) _)
  have hclause : Reads text (do importStatement.clause; Grammar.sourceClause) breakable
      (" ".toList ++ bracesText p ps ++ sourceText module) (closing ++ rest) () (ImportParts text (p :: ps) module) := by
    refine (Reads.clause hp hps _).bind (Reads.sourceClause hmodule _) ?_
    rintro _ _ ⟨x, rfl, hx⟩ ⟨y, rfl, hy⟩
    exact ⟨x, y, rfl, hx, hy⟩
  have hnames : Reads text (do
      Parser.optional do
        keptWord .token ["type", "typeof"]
        guard ((← Parser.ahead).head?.any fun c => isWordStart c || c == '\x7b' || c == '*')
        guard (wordAt (← Parser.ahead) != "from")
      importStatement.clause
      Grammar.sourceClause) breakable (" ".toList ++ bracesText p ps ++ sourceText module) (closing ++ rest) ()
      (ImportParts text (p :: ps) module) :=
    after_stay (.optional (((Guarded.keptWord _ _).rejects hopening rfl).bind _)) hclause
  have hspace : endsWord (" ".toList ++ bracesText p ps ++ sourceText module ++ closing ++ rest) = true := endsWord_space _
  exact silent_bind (word_bare isWord_import hspace) ((oneOf_here hnames _).bind_silent (importEnd hends))

end ResponseShapes.Syntax
