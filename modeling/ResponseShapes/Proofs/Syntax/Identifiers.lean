import ResponseShapes.Proofs.Syntax.Names
import ResponseShapes.Text.Case

/-! # What goes on with a word

A word is a first character and what goes on with it (`isWord_iff`): characters of words, and characters that are
escaped by their numbers. So a text behind a word makes a longer word exactly if it goes on with a word itself
(`IsWord.append_iff`), and what a word goes on with still does so when its first letter becomes a capital
(`GoesOn.capitalize`). -/

namespace ResponseShapes.Syntax

variable {c : Char} {cs ds w f rest : List Char}

/-- The characters go on with a word: characters of words, and characters escaped by their numbers. -/
inductive GoesOn : List Char → Prop
  | nil : GoesOn []
  | part {c : Char} {cs : List Char} (hc : isWordPart c = true) (next : GoesOn cs) : GoesOn (c :: cs)
  | escape {h₁ h₂ h₃ h₄ : Char} {cs : List Char} (hex : [h₁, h₂, h₃, h₄].all isHexDigit = true) (next : GoesOn cs) :
    GoesOn ('\\' :: 'u' :: h₁ :: h₂ :: h₃ :: h₄ :: cs)
  | braced {ds cs : List Char} (some : ds ≠ []) (hex : ds.all isHexDigit = true) (next : GoesOn cs) :
    GoesOn ('\\' :: 'u' :: '\x7b' :: (ds ++ '\x7d' :: cs))

/-! ### What the reader of words takes -/

theorem ne_backslash_of_isHexDigit (h : isHexDigit c = true) : c ≠ '\\' := by
  rintro rfl
  exact absurd h (by decide)

theorem wordTail_escaped_cons (hc : c ≠ '\\') (cs : List Char) : wordTail true (c :: cs) =
    if isHexDigit c then 1 + wordTail true cs else if c == '\x7d' then 1 + wordTail false cs else 0 := by
  conv_lhs => unfold wordTail
  split <;> simp_all

theorem wordTail_escaped (hds : ds.all isHexDigit = true) (cs : List Char) :
    wordTail true (ds ++ '\x7d' :: cs) = ds.length + 1 + wordTail false cs := by
  induction ds with
  | nil =>
    rw [List.nil_append, wordTail_escaped_cons (by decide)]
    exact congrArg (· + _) (Nat.zero_add 1).symm
  | cons d ds ih =>
    obtain ⟨hd, hds⟩ := Bool.and_eq_true_iff.mp hds
    rw [List.cons_append, wordTail_escaped_cons (ne_backslash_of_isHexDigit hd), if_pos hd, ih hds, List.length_cons]
    omega

theorem closesEscape_iff : closesEscape cs = true ↔
    ∃ ds rest, cs = ds ++ '\x7d' :: rest ∧ ds ≠ [] ∧ ds.all isHexDigit = true := by
  have hbrace : isHexDigit '\x7d' = false := by decide
  constructor
  · intro h
    rw [closesEscape, Bool.and_eq_true, beq_iff_eq] at h
    obtain ⟨hhead, hclose⟩ := h
    obtain ⟨rest, hrest⟩ := List.head?_eq_some_iff.mp hclose
    refine ⟨cs.takeWhile isHexDigit, rest, ?_, ?_, List.all_takeWhile⟩
    · rw [← hrest, List.takeWhile_append_dropWhile]
    · cases cs with
      | nil => cases hhead
      | cons c cs =>
        rw [List.head?_cons, Option.any_some] at hhead
        rw [List.takeWhile_cons_of_pos hhead]
        exact List.cons_ne_nil _ _
  · rintro ⟨ds, rest, rfl, hne, hds⟩
    have hall : ∀ d ∈ ds, isHexDigit d = true := List.all_eq_true.mp hds
    rw [closesEscape, List.dropWhile_append_of_pos hall, List.dropWhile_cons_of_neg (Bool.eq_false_iff.mp hbrace)]
    obtain ⟨d, ds, rfl⟩ := List.exists_cons_of_ne_nil hne
    rw [List.cons_append, List.head?_cons, Option.any_some, hall d List.mem_cons_self]
    rfl

theorem wordTail_braced (hne : ds ≠ []) (hds : ds.all isHexDigit = true) (cs : List Char) :
    wordTail false ('\\' :: 'u' :: '\x7b' :: (ds ++ '\x7d' :: cs)) = ds.length + 4 + wordTail false cs := by
  rw [wordTail, closesEscape_iff.mpr ⟨ds, cs, rfl, hne, hds⟩, wordTail_escaped hds]
  change 3 + _ = _
  omega

theorem wordTail_escape {h₁ h₂ h₃ h₄ : Char} (hex : [h₁, h₂, h₃, h₄].all isHexDigit = true) (cs : List Char) :
    wordTail false ('\\' :: 'u' :: h₁ :: h₂ :: h₃ :: h₄ :: cs) = 6 + wordTail false cs := by
  have hbrace : h₁ ≠ '\x7b' := by
    rintro rfl
    exact absurd hex (by simp [show isHexDigit '\x7b' = false by decide])
  rw [wordTail, hex]
  · rfl
  · exact hbrace

/-- What goes on with a word is read as a part of it, whatever follows. -/
theorem GoesOn.wordTail_append (h : GoesOn w) (rest : List Char) :
    wordTail false (w ++ rest) = w.length + wordTail false rest := by
  induction h with
  | nil => exact (Nat.zero_add _).symm
  | part hc next ih =>
    rw [List.cons_append, wordTail_cons (ne_backslash_of_isWordPart hc), if_pos hc, ih, List.length_cons]
    omega
  | escape hex next ih =>
    simp only [List.cons_append, List.length_cons]
    rw [wordTail_escape hex, ih]
    omega
  | braced hne hex next ih =>
    simp only [List.cons_append, List.append_assoc, List.length_cons, List.length_append]
    rw [wordTail_braced hne hex, ih]
    omega

/-- What is read as the rest of a word goes on with it. -/
theorem goesOn_take (cs : List Char) : GoesOn (cs.take (wordTail false cs)) := by
  -- An escape takes several characters at once, so the induction is on the length.
  induction hlength : cs.length using Nat.strongRecOn generalizing cs with
  | ind n ih =>
    subst hlength
    unfold wordTail
    split
    · rename_i cs
      split
      · exact .nil
      · rename_i hcloses
        rw [Bool.false_or, Bool.not_eq_true', Bool.not_eq_false] at hcloses
        obtain ⟨ds, rest, rfl, hne, hds⟩ := closesEscape_iff.mp hcloses
        have hnext := ih rest.length (by simp only [List.length_cons, List.length_append]; omega) rest rfl
        rw [wordTail_escaped hds, Nat.add_comm 3, List.take_succ_cons, List.take_succ_cons, List.take_succ_cons,
          Nat.add_assoc, List.take_length_add_append, Nat.add_comm 1, List.take_succ_cons]
        exact .braced hne hds hnext
    · rename_i h₁ h₂ h₃ h₄ cs _
      split
      · rename_i hex
        have hnext := ih cs.length (by simp only [List.length_cons]; omega) cs rfl
        rw [Nat.add_comm 6]
        simp only [List.take_succ_cons]
        exact .escape (Bool.and_eq_true_iff.mp hex).2 hnext
      · exact .nil
    · rename_i c cs _ _
      rw [if_neg Bool.false_ne_true]
      split
      · rename_i hc
        have hnext := ih cs.length (Nat.lt_succ_self _) cs rfl
        rw [Nat.add_comm 1, List.take_succ_cons]
        exact .part hc hnext
      · exact .nil
    · exact .nil

theorem goesOn_iff : GoesOn w ↔ wordTail false w = w.length := by
  refine ⟨fun h => ?_, fun h => ?_⟩
  · have := h.wordTail_append []
    rwa [List.append_nil] at this
  · have := goesOn_take w
    rwa [h, List.take_length] at this

/-- Of two ways to divide a text, the one that divides it at a character that the front of the other one lacks comes
    later. -/
theorem exists_of_append {lexeme next : List Char} (hc : c ∉ lexeme) (h : lexeme ++ next = f ++ c :: cs) :
    ∃ f', f = lexeme ++ f' ∧ next = f' ++ c :: cs := by
  obtain ⟨f', rfl, rfl⟩ | ⟨f', rfl, hf'⟩ := List.append_eq_append_iff.mp h
  · exact ⟨f', rfl, rfl⟩
  · cases f' with
    | nil => exact ⟨[], by simp, hf'.symm⟩
    | cons d f' =>
      obtain ⟨rfl, -⟩ := List.cons.inj hf'
      exact absurd (List.mem_append_right _ List.mem_cons_self) hc

namespace GoesOn

theorem append_iff (h : GoesOn w) : GoesOn (w ++ f) ↔ GoesOn f := by
  rw [goesOn_iff, goesOn_iff, h.wordTail_append, List.length_append, Nat.add_right_inj]

theorem of_all (h : w.all isWordPart = true) : GoesOn w := by
  induction w with
  | nil => exact .nil
  | cons c w ih =>
    obtain ⟨hc, hw⟩ := Bool.and_eq_true_iff.mp h
    exact .part hc (ih hw)

/-- Nothing escaped reaches into a text that begins with a character of no escape. -/
theorem of_append (hc : c ∉ ['\\', 'u', '\x7b', '\x7d']) (hhex : isHexDigit c = false) (h : GoesOn (f ++ c :: cs)) :
    GoesOn f := by
  have hdigits : ∀ {ds : List Char}, ds.all isHexDigit = true → c ∉ ds := fun hds hmem =>
    Bool.eq_false_iff.mp hhex (List.all_eq_true.mp hds c hmem)
  -- No escape holds the character `c`, so one that begins in front of it ends there too.
  generalize htext : f ++ c :: cs = text at h
  induction h generalizing f with
  | nil => exact absurd htext (List.append_ne_nil_of_right_ne_nil _ (List.cons_ne_nil _ _))
  | @part d rest hd next ih =>
    cases f with
    | nil => exact .nil
    | cons e f =>
      obtain ⟨rfl, rfl⟩ := List.cons.inj htext
      exact .part hd (ih rfl)
  | @escape h₁ h₂ h₃ h₄ rest hex next ih =>
    have hlexeme : c ∉ ['\\', 'u', h₁, h₂, h₃, h₄] := fun hmem => by
      rcases List.mem_append.mp (show c ∈ ['\\', 'u'] ++ [h₁, h₂, h₃, h₄] from hmem) with hmem | hmem
      · exact hc (List.mem_append_left ['\x7b', '\x7d'] hmem)
      · exact hdigits hex hmem
    obtain ⟨f', rfl, hrest⟩ := exists_of_append hlexeme htext.symm
    exact .escape hex (ih hrest.symm)
  | @braced ds rest hne hds next ih =>
    have hlexeme : c ∉ '\\' :: 'u' :: '\x7b' :: (ds ++ ['\x7d']) := fun hmem => by
      rw [List.mem_cons, List.mem_cons, List.mem_cons, List.mem_append] at hmem
      simp only [List.mem_cons, List.not_mem_nil, or_false, not_or] at hc
      rcases hmem with h | h | h | h | h
      · exact hc.1 h
      · exact hc.2.1 h
      · exact hc.2.2.1 h
      · exact hdigits hds h
      · exact hc.2.2.2 (List.mem_singleton.mp h)
    have hbraced : ∀ next, '\\' :: 'u' :: '\x7b' :: (ds ++ ['\x7d']) ++ next = '\\' :: 'u' :: '\x7b' :: (ds ++ '\x7d' :: next) :=
      fun next => by simp only [List.cons_append, List.append_assoc, List.nil_append]
    obtain ⟨f', rfl, hrest⟩ := exists_of_append hlexeme ((hbraced rest).trans htext.symm)
    rw [hbraced]
    exact .braced hne hds (ih hrest.symm)

end GoesOn

/-! ### Words -/

theorem isWord_iff : IsWord w ↔ (∃ c cs, w = c :: cs ∧ (isWordStart c = true ∨ c = '\\')) ∧ GoesOn w := by
  constructor
  · intro h
    obtain ⟨c, cs, rfl, hc⟩ := h.exists_cons
    have hlength := h.length_eq [] rfl
    rw [List.append_nil, wordLength] at hlength
    split at hlength
    · exact ⟨⟨c, cs, rfl, hc⟩, goesOn_iff.mpr hlength⟩
    · exact absurd hlength.symm (Nat.succ_ne_zero _)
  · rintro ⟨⟨c, cs, rfl, hc⟩, hgoes⟩
    refine ⟨List.cons_ne_nil _ _, fun rest hrest => ?_⟩
    have hstart : (isWordStart c || (c == '\\' && (cs ++ rest).head? == some 'u')) = true := by
      rcases hc with hc | rfl
      · rw [hc, Bool.true_or]
      · cases hgoes with
        | part hpart => exact absurd hpart (by decide)
        | escape => rfl
        | braced => rfl
    rw [List.cons_append, wordLength, if_pos hstart, ← List.cons_append, hgoes.wordTail_append, wordTail_of_endsWord hrest,
      Nat.add_zero]

/-- A word is read where the reader of words takes something. -/
theorem isWord_take (h : 0 < wordLength cs) : IsWord (cs.take (wordLength cs)) := by
  cases cs with
  | nil => cases h
  | cons c cs =>
    have hgoes := goesOn_take (c :: cs)
    rw [wordLength] at h ⊢
    split at h
    · rename_i hstart
      rw [if_pos hstart]
      refine isWord_iff.mpr ⟨⟨c, cs.take (wordTail false (c :: cs) - 1), List.take_cons h, ?_⟩, hgoes⟩
      rw [Bool.or_eq_true, Bool.and_eq_true, beq_iff_eq] at hstart
      exact hstart.imp id And.left
    · cases h

namespace IsWord

theorem goesOn (h : IsWord w) : GoesOn w :=
  (isWord_iff.mp h).2

/-- A text behind a word makes a longer word exactly if it goes on with a word. -/
theorem append_iff (h : IsWord w) : IsWord (w ++ f) ↔ GoesOn f := by
  rw [isWord_iff, h.goesOn.append_iff]
  refine and_iff_right ?_
  obtain ⟨c, cs, rfl, hc⟩ := h.exists_cons
  exact ⟨c, cs ++ f, rfl, hc⟩

end IsWord

/-! ### Capitals -/

/-- A character of words that is no small letter of ASCII. -/
def isCapitalPart (c : Char) : Bool :=
  isWordPart c && !c.isLower

theorem isCapitalPart_of_isUpper (h : c.isUpper = true) : isCapitalPart c = true := by
  have hall : ∀ n < 0x80, (Char.ofNat n).isUpper = true → isCapitalPart (Char.ofNat n) = true := by
    decide +kernel
  have hlow : c.toNat < 0x80 := by
    delta Char.isUpper at h
    rw [decide_eq_true_eq] at h
    exact Nat.lt_of_le_of_lt (UInt32.le_iff_toNat_le.mp h.2) (by decide)
  have := hall c.toNat hlow
  rw [Char.ofNat_toNat] at this
  exact this h

theorem isCapitalPart_of_le (hhigh : 0x80 ≤ c.toNat) (hspace : isSpace c = false) : isCapitalPart c = true := by
  have hsigns : (":;\x60\x22\x27@#.,|^&<=>+-*/\\%?!~()[]\x7b\x7d".toList.all fun d => d.toNat < 0x80) = true := rfl
  have hsign : isSign c = false := by
    rw [isSign, Bool.eq_false_iff]
    exact fun hmem => Nat.not_lt.mpr hhigh (of_decide_eq_true (List.all_eq_true.mp hsigns c (List.contains_iff_mem.mp hmem)))
  have hlower : c.isLower = false := by
    delta Char.isLower
    rw [Bool.and_eq_false_iff]
    right
    rw [decide_eq_false_iff_not, UInt32.le_iff_toNat_le]
    exact fun hle => absurd (Nat.le_trans hhigh hle) (by decide)
  rw [isCapitalPart, isWordPart, hspace, hsign, hlower, decide_eq_true (Nat.le_trans (by decide) hhigh)]
  rfl

theorem isCapitalPart_run {r : Text.CaseRun} (hr : r ∈ Text.upperRuns) {n : Nat} (hfirst : r.first ≤ n) (hlast : n ≤ r.last)
    (hstride : (n - r.first) % r.stride = 0) : isCapitalPart (Char.ofNat (Int.ofNat n + r.offset).toNat) = true := by
  have hall : ∀ r ∈ Text.upperRuns.toList, ∀ k < (r.last - r.first) / r.stride + 1,
      (Char.ofNat (Int.ofNat (r.first + r.stride * k) + r.offset).toNat).isUpper = true ∨
        0x80 ≤ (Char.ofNat (Int.ofNat (r.first + r.stride * k) + r.offset).toNat).toNat ∧
          isSpace (Char.ofNat (Int.ofNat (r.first + r.stride * k) + r.offset).toNat) = false := by
    decide +kernel
  have hk : (n - r.first) / r.stride < (r.last - r.first) / r.stride + 1 :=
    Nat.lt_succ_of_le (Nat.div_le_div_right (Nat.sub_le_sub_right hlast _))
  have hn : r.first + r.stride * ((n - r.first) / r.stride) = n := by
    rw [Nat.mul_div_cancel' (Nat.dvd_of_mod_eq_zero hstride)]
    omega
  have himage := hall r (Array.mem_toList_iff.mpr hr) _ hk
  rw [hn] at himage
  exact himage.elim isCapitalPart_of_isUpper fun hhigh => isCapitalPart_of_le hhigh.1 hhigh.2

/-- The capital form of a character of words has such characters, and no small letter of ASCII. -/
theorem isCapitalPart_upperChar (h : isWordPart c = true) :
    Text.upperChar c ≠ [] ∧ (Text.upperChar c).all isCapitalPart = true := by
  have hascii : ∀ n < 0x80, isWordPart (Char.ofNat n) = true → isCapitalPart (Char.ofNat n).toUpper = true := by
    decide +kernel
  have hsequences : ∀ p ∈ Text.upperSequences.toList, p.2 ≠ [] ∧ (p.2.map Char.ofNat).all isCapitalPart = true := by
    decide +kernel
  unfold Text.upperChar
  split
  · rename_i hlow
    have := hascii c.toNat hlow
    rw [Char.ofNat_toNat] at this
    exact ⟨List.cons_ne_nil _ _, by rw [List.all_cons, this h]; rfl⟩
  rename_i hhigh
  split
  · rename_i m cs hfind
    obtain ⟨hne, hall⟩ := hsequences (m, cs) (Array.mem_toList_iff.mpr (Array.mem_of_find?_eq_some hfind))
    exact ⟨fun hnil => hne (List.map_eq_nil_iff.mp hnil), hall⟩
  refine ⟨List.cons_ne_nil _ _, ?_⟩
  rw [List.all_cons, List.all_nil, Bool.and_true]
  unfold Text.throughRuns
  split
  · rename_i r hfind
    have hfound := Array.find?_some hfind
    simp only [Bool.and_eq_true, decide_eq_true_eq, beq_iff_eq] at hfound
    exact isCapitalPart_run (Array.mem_of_find?_eq_some hfind) hfound.1.1 hfound.1.2 hfound.2
  · rw [Char.ofNat_toNat]
    exact isCapitalPart_of_le (Nat.not_lt.mp hhigh) (isSpace_of_isWordPart h)

/-- What goes on with a word does so with a capital at its front. -/
theorem GoesOn.capitalize {name : String} (h : GoesOn name.toList) : GoesOn (Text.capitalize name).toList := by
  unfold Text.capitalize
  split
  · exact h
  · rename_i c cs hname
    rw [hname] at h
    rw [String.toList_ofList]
    cases h with
    | part hc next =>
      have hall : (Text.upperChar c).all isWordPart = true := List.all_eq_true.mpr fun d hd =>
        (Bool.and_eq_true_iff.mp (List.all_eq_true.mp (isCapitalPart_upperChar hc).2 d hd)).1
      exact (GoesOn.of_all hall).append_iff.mpr next
    | escape hex next => exact .escape hex next
    | braced hne hex next => exact .braced hne hex next

/-- A word with a capital at its front is not written in small letters of ASCII alone. -/
theorem IsWord.exists_not_isLower {name : String} (h : IsWord name.toList) :
    ∃ c ∈ (Text.capitalize name).toList, c.isLower = false := by
  obtain ⟨c, cs, hname, hc⟩ := h.exists_cons
  unfold Text.capitalize
  rw [hname]
  dsimp only
  rw [String.toList_ofList]
  rcases hc with hc | rfl
  · obtain ⟨hne, hall⟩ := isCapitalPart_upperChar (Bool.and_eq_true_iff.mp hc).1
    obtain ⟨d, ds, hd⟩ := List.exists_cons_of_ne_nil hne
    refine ⟨d, List.mem_append_left _ (hd ▸ List.mem_cons_self), ?_⟩
    rw [hd, List.all_cons, Bool.and_eq_true, isCapitalPart, Bool.and_eq_true, Bool.not_eq_true'] at hall
    exact hall.1.2
  · exact ⟨'\\', List.mem_cons_self, by decide⟩

/-- Special words are written in small letters of ASCII. -/
theorem isName_of_not_isLower (h : IsWord w) (hc : c ∈ w) (hlower : c.isLower = false) : IsName w := by
  have hall : ∀ s ∈ specialWords, s.toList.all Char.isLower = true := by
    decide
  refine ⟨h, fun hmem => ?_⟩
  have := hall _ hmem
  rw [String.toList_ofList, List.all_eq_true] at this
  exact Bool.eq_false_iff.mp hlower (this c hc)

end ResponseShapes.Syntax
