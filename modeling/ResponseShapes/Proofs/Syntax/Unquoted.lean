import ResponseShapes.Syntax.Source

/-! # What is read between quotes

The reader of a literal takes escaped apostrophes back, then escaped double quotes, then escaped backslashes, each over
the whole text. A backslash that one of these readings leaves behind may stand in front of a character that another one
looks for, and yet the three together read the text once from left to right (`unescape_all`): of a run of backslashes
before a quote the last one goes with the quote, and the halving of the others comes out the same. -/

namespace ResponseShapes.Syntax

variable {c quote : Char} {cs cs' : List Char}

/-- Characters that the reader takes back when they are escaped. -/
def isTakenBack (c : Char) : Bool :=
  c = '\\' || c = '\x27' || c = '\x22'

/-- Takes back what is escaped, in one reading from left to right. -/
def unescaped : List Char → List Char
  | '\\' :: c :: cs => if isTakenBack c then c :: unescaped cs else '\\' :: c :: unescaped cs
  | c :: cs => c :: unescaped cs
  | [] => []

/-! ### One reading after the other -/

theorem unescape_cons (c : Char) (h : c ≠ '\\') : unescape quote (c :: cs) = c :: unescape quote cs := by
  rw [unescape]
  exact fun _ _ hslash => absurd hslash h

theorem unescape_backslash (quote : Char) (hquote : quote ≠ '\\') :
    unescape quote ('\\' :: cs) = if cs.head? = some quote then unescape quote cs else '\\' :: unescape quote cs := by
  cases cs with
  | nil => rfl
  | cons d cs =>
    rw [unescape, List.head?_cons]
    by_cases hd : d = quote
    · subst hd
      rw [if_pos rfl, if_pos rfl, unescape_cons d hquote]
    · rw [if_neg hd, if_neg (by simpa using hd)]

theorem unescape_backslashes : unescape '\\' ('\\' :: '\\' :: cs) = '\\' :: unescape '\\' cs := by
  rw [unescape, if_pos rfl]

theorem unescape_escape (c : Char) (h : c ≠ '\\') : unescape '\\' ('\\' :: c :: cs) = '\\' :: c :: unescape '\\' cs := by
  rw [unescape, if_neg h, unescape_cons c h]

theorem unescaped_cons (h : c ≠ '\\') : unescaped (c :: cs) = c :: unescaped cs := by
  rw [unescaped]
  exact fun _ _ hslash => absurd hslash h

/-- Two backslashes are read as one backslash, whatever quote stands behind them. -/
theorem unescape_all_backslashes (cs : List Char) :
    unescape '\\' (unescape '\x22' (unescape '\x27' ('\\' :: '\\' :: cs))) =
      '\\' :: unescape '\\' (unescape '\x22' (unescape '\x27' cs)) := by
  rw [unescape_backslash '\x27' (by decide), List.head?_cons, if_neg (by decide), unescape_backslash '\x27' (by decide)]
  split
  · -- The second backslash goes with the apostrophe, and the first one is left.
    rename_i hhead
    obtain ⟨ds, rfl⟩ := List.head?_eq_some_iff.mp hhead
    have hquote : '\x27' ≠ '\\' := by decide
    rw [unescape_cons _ hquote, unescape_backslash '\x22' (by decide), List.head?_cons, if_neg (by decide),
      unescape_cons _ hquote, unescape_escape _ hquote, unescape_cons _ hquote]
  · rw [unescape_backslash '\x22' (by decide), List.head?_cons, if_neg (by decide), unescape_backslash '\x22' (by decide)]
    split
    · rename_i hhead
      obtain ⟨ds, hds⟩ := List.head?_eq_some_iff.mp hhead
      have hquote : '\x22' ≠ '\\' := by decide
      rw [hds, unescape_cons _ hquote, unescape_escape _ hquote, unescape_cons _ hquote]
    · exact unescape_backslashes

/-- Taking back escaped apostrophes, double quotes and backslashes one after the other is one reading. -/
theorem unescape_all (cs : List Char) : unescape '\\' (unescape '\x22' (unescape '\x27' cs)) = unescaped cs := by
  induction cs using unescaped.induct with
  | case1 c cs h ih =>
    rw [unescaped, if_pos h, ← ih]
    simp only [isTakenBack, Bool.or_eq_true, decide_eq_true_eq] at h
    obtain (rfl | rfl) | rfl := h
    · exact unescape_all_backslashes cs
    · have hquote : '\x27' ≠ '\\' := by decide
      rw [unescape_backslash '\x27' (by decide), List.head?_cons, if_pos rfl, unescape_cons _ hquote,
        unescape_cons _ hquote, unescape_cons _ hquote]
    · have hquote : '\x22' ≠ '\\' := by decide
      rw [unescape_backslash '\x27' (by decide), List.head?_cons, if_neg (by decide), unescape_cons _ hquote,
        unescape_backslash '\x22' (by decide), List.head?_cons, if_pos rfl, unescape_cons _ hquote,
        unescape_cons _ hquote]
  | case2 c cs h ih =>
    rw [unescaped, if_neg h, ← ih]
    simp only [isTakenBack, Bool.or_eq_true, decide_eq_true_eq, not_or] at h
    obtain ⟨⟨hslash, hsingle⟩, hdouble⟩ := h
    rw [unescape_backslash '\x27' (by decide), List.head?_cons, if_neg (by simpa using hsingle), unescape_cons c hslash,
      unescape_backslash '\x22' (by decide), List.head?_cons, if_neg (by simpa using hdouble), unescape_cons c hslash,
      unescape_escape c hslash]
  | case3 c cs h ih =>
    by_cases hslash : c = '\\'
    · cases cs with
      | nil =>
        subst hslash
        rfl
      | cons d cs => exact (h d cs hslash rfl).elim
    · rw [unescaped_cons hslash, unescape_cons c hslash, unescape_cons c hslash, unescape_cons c hslash, ih]
  | case4 => rfl

/-! ### Literals -/

theorem stripQuotes_quoted (hquote : quote = '\x27' ∨ quote = '\x22' ∨ quote = '\x60') (cs : List Char) :
    stripQuotes (quote :: cs ++ [quote]) = cs := by
  have hopening : (quote == '\x27' || quote == '\x22' || quote == '\x60') = true := by
    obtain rfl | rfl | rfl := hquote <;> rfl
  cases cs with
  | nil => simp [stripQuotes, hopening]
  | cons c cs =>
    have hlast : ((c :: (cs ++ [quote])).getLast? == some quote) = true := by
      rw [← List.cons_append, List.getLast?_concat, beq_self_eq_true]
    rw [List.cons_append, List.cons_append, stripQuotes, hlast, hopening, Bool.and_self, if_pos rfl, ← List.cons_append]
    exact List.dropLast_concat

/-- A literal is read as what is left of its characters when the escapes are taken back. -/
theorem unquote_quoted (hquote : quote = '\x27' ∨ quote = '\x22' ∨ quote = '\x60') (cs : List Char) :
    unquote (quote :: cs ++ [quote]) = unescaped cs := by
  rw [unquote, stripQuotes_quoted hquote, unescape_all]

/-! ### Characters that are read as they are -/

/-- The characters are read as they are, whatever comes behind them. -/
def Verbatim (cs : List Char) : Prop :=
  ∀ rest, unescaped (cs ++ rest) = cs ++ unescaped rest

theorem verbatim_nil : Verbatim [] := fun _ => rfl

theorem Verbatim.append (h : Verbatim cs) (h' : Verbatim cs') : Verbatim (cs ++ cs') := fun rest => by
  rw [List.append_assoc, h, h', List.append_assoc]

theorem verbatim_flatMap {α : Type} {xs : List α} {f : α → List Char} (h : ∀ x ∈ xs, Verbatim (f x)) :
    Verbatim (xs.flatMap f) := by
  induction xs with
  | nil => exact verbatim_nil
  | cons x xs ih =>
    obtain ⟨hx, hxs⟩ := List.forall_mem_cons.mp h
    exact hx.append (ih hxs)

theorem Verbatim.unescaped_eq (h : Verbatim cs) : unescaped cs = cs := by
  have := h []
  rwa [List.append_nil, unescaped, List.append_nil] at this

theorem verbatim_of_ne (h : ∀ c ∈ cs, c ≠ '\\') : Verbatim cs := by
  rw [← List.flatMap_singleton' cs]
  exact verbatim_flatMap fun c hc rest => unescaped_cons (h c hc)

theorem verbatim_escape (h : isTakenBack c = false) : Verbatim ['\\', c] := fun rest => by
  rw [List.cons_append, List.singleton_append, unescaped, h]
  rfl

end ResponseShapes.Syntax
