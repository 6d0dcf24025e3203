import Mathlib.Data.List.Forall2
import Mathlib.Data.List.Infix
import Mathlib.Data.List.TakeWhile
import ResponseShapes.Project.Glob

/-! # What a glob stands for

Without the blanks around it and a dot with a slash at its start, a glob is read in one way as a list of parts, each as
long as possible, and each part stands for a piece of a path. The glob describes a path exactly if the path can be cut
into pieces for the parts (`describes_iff`). A part without two stars stands for pieces with as many slashes as are
written in it, so without two stars the glob has the slashes of every path that it describes. -/

namespace ResponseShapes

variable {cs core trimmed : List Char} {passed : Char → Bool} {p : List Char → Bool}

/-! ### Blanks around a text -/

namespace Text

/-- All that stands between the blanks at both ends of a text. -/
def Trimmed (cs trimmed : List Char) : Prop :=
  ∃ before after, cs = before ++ trimmed ++ after ∧ (∀ c ∈ before, isBlank c = true) ∧
    (∀ c ∈ after, isBlank c = true) ∧ (∀ c ∈ trimmed.head?, isBlank c = false) ∧
    ∀ c ∈ trimmed.getLast?, isBlank c = false

theorem dropWhile_append_of_all {before rest : List Char} (hbefore : ∀ c ∈ before, passed c = true)
    (hrest : ∀ c ∈ rest.head?, passed c = false) : (before ++ rest).dropWhile passed = rest := by
  rw [List.dropWhile_append_of_pos hbefore]
  cases rest with
  | nil => rfl
  | cons c rest => exact List.dropWhile_cons_of_neg (by simp [hrest c rfl])

theorem exists_dropWhile (passed : Char → Bool) (cs : List Char) :
    ∃ before, cs = before ++ cs.dropWhile passed ∧ (∀ c ∈ before, passed c = true) ∧
      ∀ c ∈ (cs.dropWhile passed).head?, passed c = false := by
  refine ⟨cs.takeWhile passed, List.takeWhile_append_dropWhile.symm, fun c => List.mem_takeWhile_imp, fun c hc => ?_⟩
  have := List.head?_dropWhile_not passed cs
  rw [Option.mem_def.mp hc] at this
  simpa using this

theorem trimmed_iff : Trimmed cs trimmed ↔ trimmed = trimChars cs := by
  constructor
  · rintro ⟨before, after, rfl, hbefore, hafter, hfirst, hlast⟩
    by_cases hnil : trimmed = []
    · -- All characters are blanks.
      subst hnil
      have hdrop : (before ++ [] ++ after).dropWhile isBlank = [] := by
        rw [List.append_nil]
        exact List.dropWhile_eq_nil_iff.mpr (List.forall_mem_append.mpr ⟨hbefore, hafter⟩)
      rw [trimChars, hdrop]
      rfl
    · have hhead : ∀ c ∈ (trimmed ++ after).head?, isBlank c = false := by
        rwa [List.head?_append_of_ne_nil _ hnil]
      rw [trimChars, List.append_assoc, dropWhile_append_of_all hbefore hhead, dropEndWhile, List.reverse_append,
        dropWhile_append_of_all (by simpa using hafter) (by rwa [List.head?_reverse]), List.reverse_reverse]
  · rintro rfl
    obtain ⟨before, hbefore, hblank, hfirst⟩ := exists_dropWhile isBlank cs
    obtain ⟨after, hafter, hblank', hlast⟩ := exists_dropWhile isBlank (cs.dropWhile isBlank).reverse
    rw [List.reverse_eq_iff, List.reverse_append] at hafter
    rw [← List.getLast?_reverse] at hlast
    refine ⟨before, after.reverse, ?_, hblank, by simpa using hblank', fun c hc => ?_, hlast⟩
    · rw [trimChars, dropEndWhile, List.append_assoc, ← hafter, ← hbefore]
    · have hc' : ((cs.dropWhile isBlank).reverse.dropWhile isBlank).reverse.head? = some c := hc
      exact hfirst c (by rw [hafter, List.head?_append, hc']; rfl)

end Text

/-! ### Parts -/

namespace GlobToken

variable {t : GlobToken} {ts : List GlobToken} {rest : List Char}

/-- How a part is written. -/
def written : GlobToken → List Char
  | directories => ['*', '*', '/']
  | anything => ['*', '*']
  | withinName => ['*']
  | one => ['?']
  | literal c => [c]

/-- No longer part begins where this one does, when `rest` comes behind it. -/
def Longest : GlobToken → List Char → Prop
  | directories, _ => True
  | anything, rest => rest.head? ≠ some '/'
  | withinName, rest => rest.head? ≠ some '*'
  | one, _ => True
  | literal c, _ => c ≠ '*' ∧ c ≠ '?'

/-- The characters are read from left to right as these parts. -/
inductive Reads : List Char → List GlobToken → Prop
  | nil : Reads [] []
  | cons {t : GlobToken} {ts : List GlobToken} {rest : List Char} (longest : t.Longest rest) (next : Reads rest ts) :
    Reads (t.written ++ rest) (t :: ts)

theorem reads_iff : Reads cs ts ↔ ts = ofChars cs := by
  constructor
  · intro h
    induction h with
    | nil => rfl
    | @cons t ts rest longest next ih =>
      subst ih
      cases t with
      | directories => rfl
      | anything =>
        rw [written, List.cons_append, List.singleton_append, ofChars]
        rintro cs rfl
        exact longest rfl
      | withinName =>
        rw [written, List.singleton_append, ofChars]
        · rintro cs rfl
          exact longest rfl
        · rintro cs rfl
          exact longest rfl
      | one => rfl
      | literal c =>
        obtain ⟨hstar, hmark⟩ := longest
        rw [written, List.singleton_append, ofChars]
        all_goals simp_all
  · rintro rfl
    induction cs using ofChars.induct with
    | case1 cs ih => exact .cons (t := directories) trivial ih
    | case2 cs hslash ih =>
      rw [ofChars.eq_2 _ hslash]
      refine .cons (t := anything) (fun hhead => ?_) ih
      obtain ⟨cs', rfl⟩ := List.head?_eq_some_iff.mp hhead
      exact hslash cs' rfl
    | case3 cs hslash hstar ih =>
      rw [ofChars.eq_3 _ hslash hstar]
      refine .cons (t := withinName) (fun hhead => ?_) ih
      obtain ⟨cs', rfl⟩ := List.head?_eq_some_iff.mp hhead
      exact hstar cs' rfl
    | case4 cs ih => exact .cons (t := one) trivial ih
    | case5 c cs h1 h2 h3 h4 ih =>
      rw [ofChars.eq_5 _ _ h1 h2 h3 h4]
      exact .cons (t := literal c) ⟨h3, h4⟩ ih
    | case6 => exact .nil

/-- A path can be cut into pieces for the parts. -/
def Stands : GlobToken → List Char → Prop
  | directories, piece => piece = [] ∨ ∃ names, piece = names ++ ['/']
  | anything, _ => True
  | withinName, piece => '/' ∉ piece
  | one, piece => ∃ c, c ≠ '/' ∧ piece = [c]
  | literal c, piece => piece = [c]

/-- A path is made of a piece for each part. -/
def Expand (ts : List GlobToken) (path : List Char) : Prop :=
  ∃ pieces, List.Forall₂ Stands ts pieces ∧ path = pieces.flatten

theorem expand_nil : Expand [] cs ↔ cs = [] := by
  simp [Expand]

theorem expand_cons : Expand (t :: ts) cs ↔ ∃ piece rest, cs = piece ++ rest ∧ t.Stands piece ∧ Expand ts rest := by
  constructor
  · rintro ⟨pieces, hpieces, rfl⟩
    obtain ⟨piece, others, hpiece, hothers, rfl⟩ := List.forall₂_cons_left_iff.mp hpieces
    exact ⟨piece, others.flatten, List.flatten_cons, hpiece, others, hothers, rfl⟩
  · rintro ⟨piece, rest, rfl, hpiece, pieces, hpieces, rfl⟩
    exact ⟨piece :: pieces, .cons hpiece hpieces, List.flatten_cons.symm⟩

/-! ### Paths -/

theorem afterRun_iff : afterRun passed p cs = true ↔
    ∃ piece rest, cs = piece ++ rest ∧ (∀ c ∈ piece, passed c = true) ∧ p rest = true := by
  induction cs with
  | nil =>
    rw [afterRun]
    constructor
    · exact fun h => ⟨[], [], rfl, List.forall_mem_nil _, h⟩
    · rintro ⟨piece, rest, heq, -, h⟩
      rwa [(List.append_eq_nil_iff.mp heq.symm).2] at h
  | cons c cs ih =>
    rw [afterRun, Bool.or_eq_true, Bool.and_eq_true, ih]
    constructor
    · rintro (h | ⟨hc, piece, rest, rfl, hpiece, h⟩)
      · exact ⟨[], c :: cs, rfl, List.forall_mem_nil _, h⟩
      · exact ⟨c :: piece, rest, rfl, List.forall_mem_cons.mpr ⟨hc, hpiece⟩, h⟩
    · rintro ⟨piece, rest, heq, hpiece, h⟩
      cases piece with
      | nil => exact .inl (by rwa [heq])
      | cons d piece =>
        obtain ⟨rfl, rfl⟩ := List.cons.inj heq
        obtain ⟨hc, hpiece⟩ := List.forall_mem_cons.mp hpiece
        exact .inr ⟨hc, piece, rest, rfl, hpiece, h⟩

theorem afterSlash_iff : afterSlash p cs = true ↔
    ∃ names rest, cs = names ++ '/' :: rest ∧ '\n' ∉ names ∧ p rest = true := by
  induction cs with
  | nil => simp [afterSlash]
  | cons c cs ih =>
    rw [afterSlash, Bool.or_eq_true, Bool.and_eq_true, Bool.and_eq_true, ih, decide_eq_true_iff, decide_eq_true_iff]
    constructor
    · rintro (⟨rfl, h⟩ | ⟨hc, names, rest, rfl, hnames, h⟩)
      · exact ⟨[], cs, rfl, List.not_mem_nil, h⟩
      · exact ⟨c :: names, rest, rfl, List.not_mem_cons_of_ne_of_not_mem hc.symm hnames, h⟩
    · rintro ⟨names, rest, heq, hnames, h⟩
      cases names with
      | nil =>
        obtain ⟨rfl, rfl⟩ := List.cons.inj heq
        exact .inl ⟨rfl, h⟩
      | cons d names =>
        obtain ⟨rfl, rfl⟩ := List.cons.inj heq
        rw [List.mem_cons, not_or] at hnames
        exact .inr ⟨Ne.symm hnames.1, names, rest, rfl, hnames.2, h⟩

/-- A part that stands for the runs of some characters. -/
theorem afterRun_expand (hrun : ∀ piece rest, cs = piece ++ rest → ((∀ c ∈ piece, passed c = true) ↔ t.Stands piece))
    (hrest : ∀ piece rest, cs = piece ++ rest → (p rest = true ↔ Expand ts rest)) :
    afterRun passed p cs = true ↔ Expand (t :: ts) cs := by
  rw [afterRun_iff, expand_cons]
  exact exists_congr fun piece => exists_congr fun rest => and_congr_right fun heq =>
    and_congr (hrun piece rest heq) (hrest piece rest heq)

/-- A part that stands for single characters. -/
theorem expand_single {holds : Char → Prop} (hone : ∀ piece, t.Stands piece ↔ ∃ c, holds c ∧ piece = [c]) :
    Expand (t :: ts) cs ↔ ∃ c rest, cs = c :: rest ∧ holds c ∧ Expand ts rest := by
  rw [expand_cons]
  constructor
  · rintro ⟨piece, rest, rfl, hpiece, h⟩
    obtain ⟨c, hc, rfl⟩ := (hone piece).mp hpiece
    exact ⟨c, rest, rfl, hc, h⟩
  · rintro ⟨c, rest, rfl, hc, h⟩
    exact ⟨[c], rest, rfl, (hone [c]).mpr ⟨c, hc, rfl⟩, h⟩

/-- A path without line feeds is described exactly if there is a piece of it for each part. -/
theorem describes_iff_expand (hline : '\n' ∉ cs) : describes ts cs = true ↔ Expand ts cs := by
  induction ts generalizing cs with
  | nil =>
    rw [expand_nil, describes, Bool.or_eq_true, List.isEmpty_iff, decide_eq_true_iff]
    exact or_iff_left fun h => hline (by simp [h])
  | cons t ts ih =>
    -- What is left of the path behind a piece has no line feeds either.
    have hrest (piece rest : List Char) (heq : cs = piece ++ rest) : describes ts rest = true ↔ Expand ts rest :=
      ih fun hmem => hline (heq ▸ List.mem_append_right piece hmem)
    cases t with
    | directories =>
      rw [describes, Bool.or_eq_true, afterSlash_iff, expand_cons]
      constructor
      · rintro (h | ⟨names, rest, rfl, -, h⟩)
        · exact ⟨[], cs, rfl, .inl rfl, (ih hline).mp h⟩
        · have heq : names ++ '/' :: rest = names ++ ['/'] ++ rest := List.append_cons names '/' rest
          exact ⟨names ++ ['/'], rest, heq, .inr ⟨names, rfl⟩, (hrest _ _ heq).mp h⟩
      · rintro ⟨piece, rest, heq, rfl | ⟨names, rfl⟩, h⟩
        · exact .inl (heq ▸ (hrest _ _ heq).mpr h)
        · refine .inr ⟨names, rest, by simpa using heq, fun hmem => hline ?_, (hrest _ _ heq).mpr h⟩
          rw [heq]
          simp [hmem]
    | anything =>
      refine afterRun_expand (fun piece rest heq => iff_of_true (fun c hc => decide_eq_true ?_) trivial) hrest
      rintro rfl
      exact hline (heq ▸ List.mem_append_left rest hc)
    | withinName =>
      refine afterRun_expand (fun piece rest heq => ?_) hrest
      simp only [decide_eq_true_iff]
      exact ⟨fun h hmem => h '/' hmem rfl, fun h c hc hslash => h (hslash ▸ hc)⟩
    | one =>
      rw [expand_single fun piece => Iff.rfl]
      cases cs with
      | nil => simp [describes]
      | cons d cs =>
        rw [describes, Bool.and_eq_true, decide_eq_true_iff, hrest [d] cs rfl]
        simp
    | literal c =>
      have hone (piece : List Char) : (literal c).Stands piece ↔ ∃ d, d = c ∧ piece = [d] := by
        rw [exists_eq_left, Stands]
      rw [expand_single hone]
      cases cs with
      | nil => simp [describes]
      | cons d cs =>
        rw [describes, Bool.and_eq_true, decide_eq_true_iff, hrest [d] cs rfl]
        simp

/-! ### Slashes -/

theorem Reads.eq_written (h : Reads cs ts) : cs = ts.flatMap written := by
  induction h with
  | nil => rfl
  | cons _ _ ih => rw [List.flatMap_cons, ← ih]

theorem Stands.count_slash {piece : List Char} (h : t.Stands piece) (hstars : ¬ ['*', '*'] <+: t.written) :
    piece.count '/' = t.written.count '/' := by
  cases t with
  | directories => exact absurd ⟨['/'], rfl⟩ hstars
  | anything => exact absurd (List.prefix_refl _) hstars
  | withinName => exact List.count_eq_zero.mpr h
  | one =>
    obtain ⟨c, hslash, rfl⟩ := h
    exact List.count_eq_zero.mpr (by simpa using hslash.symm)
  | literal c => rw [show piece = [c] from h, written]

theorem Expand.count_slash (h : Expand ts cs) (hstars : ∀ t ∈ ts, ¬ ['*', '*'] <+: t.written) :
    cs.count '/' = (ts.flatMap written).count '/' := by
  induction ts generalizing cs with
  | nil => rw [expand_nil.mp h, List.flatMap_nil]
  | cons t ts ih =>
    obtain ⟨piece, rest, rfl, hpiece, hrest⟩ := expand_cons.mp h
    obtain ⟨ht, hts⟩ := List.forall_mem_cons.mp hstars
    rw [List.flatMap_cons, List.count_append, List.count_append, hpiece.count_slash ht, ih hrest hts]

end GlobToken

/-! ### Globs -/

/-- What is left of a glob without the blanks around it and one dot with a slash at its start. -/
def Glob.Stripped (cs core : List Char) : Prop :=
  ∃ trimmed, Text.Trimmed cs trimmed ∧ (trimmed = '.' :: '/' :: core ∨ trimmed = core ∧ ¬ ['.', '/'] <+: core)

theorem Glob.exists_stripped (pattern : String) : ∃ core, (∀ other, Stripped pattern.toList other ↔ other = core) ∧
    (ofString pattern).tokens = GlobToken.ofChars core := by
  unfold ofString Stripped
  simp only [Text.trimmed_iff, exists_eq_left]
  split
  · rename_i core htrimmed
    refine ⟨core, fun other => ?_, rfl⟩
    rw [htrimmed]
    constructor
    · rintro (h | ⟨rfl, hdot⟩)
      · simpa using h.symm
      · exact absurd ⟨core, rfl⟩ hdot
    · rintro rfl
      exact .inl rfl
  · rename_i hdot
    refine ⟨Text.trimChars pattern.toList, fun other => ?_, rfl⟩
    constructor
    · rintro (h | ⟨rfl, -⟩)
      · exact absurd h (hdot other)
      · rfl
    · rintro rfl
      exact .inr ⟨rfl, fun ⟨core, h⟩ => hdot core h.symm⟩

/-- A glob without the blanks around it and without one dot and slash at its start is read in one way as parts, and it
    describes exactly the paths that are made of a piece for each part. If two stars stand nowhere in it, it has as many
    slashes as each of these paths. -/
theorem Glob.describes_iff (pattern : String) {path : String} (hline : '\n' ∉ path.toList) :
    ∃ core ts, (∀ other, Stripped pattern.toList other ↔ other = core) ∧ (∀ other, GlobToken.Reads core other ↔ other = ts) ∧
      ((ofString pattern).describes path = true ↔ GlobToken.Expand ts path.toList) ∧
      (¬ ['*', '*'] <:+: core → (ofString pattern).describes path = true → path.toList.count '/' = core.count '/') := by
  obtain ⟨core, hcore, htokens⟩ := exists_stripped pattern
  have hdescribes : (ofString pattern).describes path = true ↔ GlobToken.Expand (GlobToken.ofChars core) path.toList := by
    rw [describes, htokens]
    exact GlobToken.describes_iff_expand hline
  have hreads : core = (GlobToken.ofChars core).flatMap GlobToken.written := (GlobToken.reads_iff.mpr rfl).eq_written
  refine ⟨core, GlobToken.ofChars core, hcore, fun other => GlobToken.reads_iff, hdescribes, fun hstars h => ?_⟩
  have hparts : ∀ t ∈ GlobToken.ofChars core, ¬ ['*', '*'] <+: t.written := by
    intro t ht hstart
    refine hstars (hstart.isInfix.trans ?_)
    rw [hreads]
    exact List.infix_of_mem_flatten (List.mem_map_of_mem ht)
  rw [(hdescribes.mp h).count_slash hparts, ← hreads]

/-- Three stars and a slash are two stars, a star and a slash. -/
theorem Glob.describes_iff_stars : '\n' ∉ "a/b/c.ts".toList ∧
    ∃ core ts, (∀ other, Stripped "\t./***/c.ts ".toList other ↔ other = core) ∧
      GlobToken.Reads core (.anything :: .withinName :: "/c.ts".toList.map .literal) ∧
      (∀ other, GlobToken.Reads core other ↔ other = ts) ∧ GlobToken.Expand ts "a/b/c.ts".toList := by
  have hline : '\n' ∉ "a/b/c.ts".toList := by decide
  obtain ⟨core, ts, hcore, hts, hiff, -⟩ := Glob.describes_iff "\t./***/c.ts " hline
  obtain rfl : "***/c.ts".toList = core := (hcore _).mp ⟨_, Text.trimmed_iff.mpr rfl, .inl (by decide)⟩
  refine ⟨hline, _, ts, hcore, GlobToken.reads_iff.mpr (by decide), hts, hiff.mp (by decide +kernel)⟩

end ResponseShapes
