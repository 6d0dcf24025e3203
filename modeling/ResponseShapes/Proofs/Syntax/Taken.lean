import ResponseShapes.Proofs.Syntax.Leaves
import ResponseShapes.Proofs.Syntax.Reads

/-! # What parsers have taken

A parser that succeeds has moved over some characters and added some nodes (`Step`). What is skipped in front of
something is a gap in front of other texts as well (`exists_gap`), so what a lexeme was read from can be read again
elsewhere. -/

namespace ResponseShapes.Syntax

open Syntax.Parser

variable {α β : Type} {text cs ds ws body gap rest : List Char} {c c' c'' : Cursor} {ns ns' : List Node} {position : Nat}
  {e : Char}

/-! ### Gaps -/

/-- A line comment goes to the end of its line. -/
theorem scanGap_line_end (hbody : ∀ d ∈ body, isLineBreak d = false ∧ d ≠ '\r') (he : isLineBreak e = true ∨ e = '\r')
    (cs : List Char) (start position : Nat) : scanGap isSpace position (.line start) (body ++ e :: cs) =
      (scanGap isSpace (position + body.length + 1) .between cs).withComment start (position + body.length) := by
  induction body generalizing position with
  | nil =>
    have hend : (isLineBreak e || e == '\r') = true := by simpa using he
    have hspace : isSpace e = true := by
      rcases he with he | rfl
      · simp only [isLineBreak, Bool.or_eq_true, beq_iff_eq] at he
        rcases he with (rfl | rfl) | rfl <;> decide
      · decide
    rw [List.nil_append, scanGap, if_pos hend, if_pos hspace]
    rfl
  | cons d body ih =>
    obtain ⟨⟨hline, hreturn⟩, hbody⟩ := List.forall_mem_cons.mp hbody
    have hend : (isLineBreak d || d == '\r') = false := by rw [hline, Bool.false_or, beq_eq_false_iff_ne.mpr hreturn]
    have hposition : position + (body.length + 1) = position + 1 + body.length := by omega
    rw [List.cons_append, scanGap, hend, if_neg Bool.false_ne_true, ih hbody, List.length_cons, hposition]

/-- A line comment without an end of its line goes to the end of the text. -/
theorem scanGap_line_of_all (hbody : ∀ d ∈ body, isLineBreak d = false ∧ d ≠ '\r') (start position : Nat) :
    scanGap isSpace position (.line start) body =
      { comments := [(start, position + body.length)], position := position + body.length, rest := [] } := by
  induction body generalizing position with
  | nil => rfl
  | cons d body ih =>
    obtain ⟨⟨hline, hreturn⟩, hbody⟩ := List.forall_mem_cons.mp hbody
    have hend : (isLineBreak d || d == '\r') = false := by rw [hline, Bool.false_or, beq_eq_false_iff_ne.mpr hreturn]
    have hposition : position + 1 + body.length = position + (body.length + 1) := by omega
    rw [scanGap, hend, if_neg Bool.false_ne_true, ih hbody, hposition]
    rfl

/-- The end of a line, or none. -/
theorem exists_line (cs : List Char) : ∃ body, (∀ d ∈ body, isLineBreak d = false ∧ d ≠ '\r') ∧
    (cs = body ∨ ∃ e ds, cs = body ++ e :: ds ∧ (isLineBreak e = true ∨ e = '\r')) := by
  induction cs with
  | nil => exact ⟨[], List.forall_mem_nil _, .inl rfl⟩
  | cons d cs ih =>
    by_cases hd : isLineBreak d = true ∨ d = '\r'
    · exact ⟨[], List.forall_mem_nil _, .inr ⟨d, cs, rfl, hd⟩⟩
    · obtain ⟨body, hbody, hcs⟩ := ih
      rw [not_or, Bool.not_eq_true] at hd
      refine ⟨d :: body, List.forall_mem_cons.mpr ⟨hd, hbody⟩, hcs.imp (congrArg (d :: ·)) ?_⟩
      rintro ⟨e, ds, rfl, he⟩
      exact ⟨e, ds, rfl, he⟩

/-- A block comment goes to its end, whatever follows; one without an end is none. -/
theorem scanGap_block (cs : List Char) :
    (∀ start opening position,
      scanGap isSpace position (.block start opening) cs = { comments := [], position := start, rest := opening }) ∨
    ∃ body ds, cs = body ++ '*' :: '/' :: ds ∧ ∀ start opening position rest,
      scanGap isSpace position (.block start opening) (body ++ '*' :: '/' :: rest) =
        (scanGap isSpace (position + body.length + 2) .between rest).withComment start (position + body.length + 2) := by
  induction cs with
  | nil => exact .inl fun _ _ _ => rfl
  | cons d cs ih =>
    by_cases hend : d = '*' ∧ ∃ ds, cs = '/' :: ds
    · obtain ⟨rfl, ds, rfl⟩ := hend
      exact .inr ⟨[], ds, rfl, fun _ _ _ _ => rfl⟩
    · have hstep : ∀ {cs' : List Char}, cs'.head? = cs.head? → ∀ start opening position,
          scanGap isSpace position (.block start opening) (d :: cs') = scanGap isSpace (position + 1) (.block start opening) cs' := by
        intro cs' hhead start opening position
        have hnot : ∀ ds, d = '*' → cs' ≠ '/' :: ds := by
          rintro ds rfl rfl
          cases cs with
          | nil => cases hhead
          | cons d' cs => exact hend ⟨rfl, cs, congrArg (· :: cs) (Option.some.inj hhead).symm⟩
        conv_lhs => unfold scanGap
        split <;> simp_all
      rcases ih with ih | ⟨body, ds, rfl, ih⟩
      · exact .inl fun start opening position => (hstep rfl start opening position).trans (ih _ _ _)
      · refine .inr ⟨d :: body, ds, rfl, fun start opening position rest => ?_⟩
        have hhead : (body ++ '*' :: '/' :: rest).head? = (body ++ '*' :: '/' :: ds).head? := by cases body <;> rfl
        rw [List.cons_append, hstep hhead, ih, List.length_cons]
        congr 2 <;> omega

/-- A gap behind a comment that ends the line. -/
theorem isGap_line (hbody : ∀ d ∈ body, isLineBreak d = false ∧ d ≠ '\r') (he : isLineBreak e = true ∨ e = '\r')
    (hgap : IsGap gap) : IsGap ('/' :: '/' :: (body ++ e :: gap)) := by
  intro rest hrest position
  obtain ⟨comments, hscan⟩ := hgap rest hrest (position + 2 + body.length + 1)
  refine ⟨(position, position + 2 + body.length) :: comments, ?_⟩
  rw [List.cons_append, List.cons_append, List.append_assoc, List.cons_append, scanGap, scanGap_line_end hbody he, hscan,
    Gap.withComment]
  congr 1
  simp only [List.length_append, List.length_cons]
  omega

/-- A gap behind a block comment. -/
theorem isGap_block (hbody : ∀ start opening position rest,
      scanGap isSpace position (.block start opening) (body ++ '*' :: '/' :: rest) =
        (scanGap isSpace (position + body.length + 2) .between rest).withComment start (position + body.length + 2))
    (hgap : IsGap gap) : IsGap ('/' :: '*' :: (body ++ '*' :: '/' :: gap)) := by
  intro rest hrest position
  obtain ⟨comments, hscan⟩ := hgap rest hrest (position + 2 + body.length + 2)
  refine ⟨(position, position + 2 + body.length + 2) :: comments, ?_⟩
  rw [List.cons_append, List.cons_append, List.append_assoc, List.cons_append, List.cons_append, scanGap, hbody, hscan,
    Gap.withComment]
  congr 1
  simp only [List.length_append, List.length_cons]
  omega

theorem scanGap_of_not_comment (hspace : isSpace e = false) (hcomment : e = '/' → ∀ d ∈ cs.head?, d ≠ '/' ∧ d ≠ '*')
    (position : Nat) :
    scanGap isSpace position .between (e :: cs) = { comments := [], position, rest := e :: cs } := by
  conv_lhs => unfold scanGap
  split <;> simp_all

/-- What is skipped of the text is this gap. In front of something it is a gap in front of other texts as well. -/
structure BeginsWith (position : Nat) (cs gap : List Char) : Prop where
  eq_append : cs = gap ++ (scanGap isSpace position .between cs).rest
  position_eq : (scanGap isSpace position .between cs).position = position + gap.length
  solid : Solid (scanGap isSpace position .between cs).rest
  isGap : (scanGap isSpace position .between cs).rest ≠ [] → IsGap gap

theorem BeginsWith.of_solid (h : Solid cs) (position : Nat) : BeginsWith position cs [] := by
  have hscan := h position
  constructor <;> rw [hscan]
  · rfl
  · rfl
  · exact h
  · exact fun _ => isGap_blanks rfl

/-- A blank or a comment in front is a part of the gap. -/
theorem BeginsWith.behind {front : List Char} {position' : Nat} (hlength : position' = position + front.length)
    (hscan : ∀ cs, (scanGap isSpace position .between (front ++ cs)).rest = (scanGap isSpace position' .between cs).rest ∧
      (scanGap isSpace position .between (front ++ cs)).position = (scanGap isSpace position' .between cs).position)
    (hfront : IsGap gap → IsGap (front ++ gap)) (h : BeginsWith position' cs gap) :
    BeginsWith position (front ++ cs) (front ++ gap) := by
  obtain ⟨hrest, hposition⟩ := hscan cs
  constructor
  · rw [hrest, List.append_assoc, ← h.eq_append]
  · rw [hposition, h.position_eq, hlength, List.length_append, Nat.add_assoc]
  · exact hrest.symm ▸ h.solid
  · exact fun hne => hfront (h.isGap (hrest ▸ hne))

theorem BeginsWith.of_blank (hspace : isSpace e = true) (h : BeginsWith (position + 1) cs gap) :
    BeginsWith position (e :: cs) (e :: gap) := by
  have hblank : [e].all isSpace = true := by rwa [List.all_cons, List.all_nil, Bool.and_true]
  have hscan (ds : List Char) :
      scanGap isSpace position .between ([e] ++ ds) = scanGap isSpace (position + 1) .between ds := by
    rw [List.singleton_append, scanGap_cons _ (ne_slash_of_isSpace hspace), if_pos hspace]
  exact behind rfl (fun ds => by rw [hscan]; exact ⟨rfl, rfl⟩) (fun hgap => hgap.behind hblank) h

theorem BeginsWith.of_line (hbody : ∀ d ∈ body, isLineBreak d = false ∧ d ≠ '\r') (he : isLineBreak e = true ∨ e = '\r')
    (h : BeginsWith (position + 2 + body.length + 1) cs gap) :
    BeginsWith position ('/' :: '/' :: (body ++ e :: cs)) ('/' :: '/' :: (body ++ e :: gap)) := by
  have hfront (ds : List Char) : ('/' :: '/' :: body ++ [e]) ++ ds = '/' :: '/' :: (body ++ e :: ds) := by simp
  rw [← hfront, ← hfront]
  refine behind (by simp only [List.length_append, List.length_cons, List.length_nil]; omega) (fun ds => ?_) (fun hgap => ?_) h
  · rw [hfront, scanGap, scanGap_line_end hbody he]
    exact ⟨rfl, rfl⟩
  · rw [hfront]
    exact isGap_line hbody he hgap

/-- A line comment at the end of the text is no gap in front of other texts. -/
theorem BeginsWith.of_lastLine (hbody : ∀ d ∈ body, isLineBreak d = false ∧ d ≠ '\r') (position : Nat) :
    BeginsWith position ('/' :: '/' :: body) ('/' :: '/' :: body) := by
  constructor <;> rw [scanGap, scanGap_line_of_all hbody]
  · exact (List.append_nil _).symm
  · simp only [List.length_cons]
    omega
  · exact solid_nil
  · exact fun h => absurd rfl h

theorem BeginsWith.of_block (hbody : ∀ start opening position rest,
      scanGap isSpace position (.block start opening) (body ++ '*' :: '/' :: rest) =
        (scanGap isSpace (position + body.length + 2) .between rest).withComment start (position + body.length + 2))
    (h : BeginsWith (position + 2 + body.length + 2) cs gap) :
    BeginsWith position ('/' :: '*' :: (body ++ '*' :: '/' :: cs)) ('/' :: '*' :: (body ++ '*' :: '/' :: gap)) := by
  have hfront (ds : List Char) : ('/' :: '*' :: body ++ ['*', '/']) ++ ds = '/' :: '*' :: (body ++ '*' :: '/' :: ds) := by simp
  rw [← hfront, ← hfront]
  refine behind (by simp only [List.length_append, List.length_cons, List.length_nil]; omega) (fun ds => ?_) (fun hgap => ?_) h
  · rw [hfront, scanGap, hbody]
    exact ⟨rfl, rfl⟩
  · rw [hfront]
    exact isGap_block hbody hgap

theorem exists_gap (position : Nat) (cs : List Char) : ∃ gap, BeginsWith position cs gap := by
  induction hlength : cs.length using Nat.strongRecOn generalizing cs position with
  | ind n ih =>
    subst hlength
    cases cs with
    | nil => exact ⟨[], .of_solid solid_nil position⟩
    | cons d cs =>
      by_cases hspace : isSpace d = true
      · obtain ⟨gap, hgap⟩ := ih cs.length (Nat.lt_succ_self _) (position + 1) cs rfl
        exact ⟨d :: gap, hgap.of_blank hspace⟩
      rw [Bool.not_eq_true] at hspace
      by_cases hcomment : d = '/' → ∀ d' ∈ cs.head?, d' ≠ '/' ∧ d' ≠ '*'
      · exact ⟨[], .of_solid (scanGap_of_not_comment hspace hcomment) position⟩
      simp only [Classical.not_imp, not_forall, Option.mem_def, not_and_or, not_not] at hcomment
      obtain ⟨rfl, d', hhead, hd'⟩ := hcomment
      obtain ⟨cs, rfl⟩ := List.head?_eq_some_iff.mp hhead
      rcases hd' with rfl | rfl
      · -- A line comment.
        obtain ⟨body, hbody, rfl | ⟨e, ds, rfl, he⟩⟩ := exists_line cs
        · exact ⟨_, .of_lastLine hbody position⟩
        · obtain ⟨gap, hgap⟩ := ih ds.length (by simp only [List.length_cons, List.length_append]; omega)
            (position + 2 + body.length + 1) ds rfl
          exact ⟨_, hgap.of_line hbody he⟩
      · -- A block comment; without an end it is none.
        rcases scanGap_block cs with hopen | ⟨body, ds, rfl, hbody⟩
        · exact ⟨[], .of_solid (fun position => by rw [scanGap]; exact hopen _ _ _) position⟩
        · obtain ⟨gap, hgap⟩ := ih ds.length (by simp only [List.length_cons, List.length_append]; omega)
            (position + 2 + body.length + 2) ds rfl
          exact ⟨_, hgap.of_block hbody⟩

/-- A gap that is not empty ends a word in front of it. -/
theorem IsGap.endsWord (h : IsGap gap) (hne : gap ≠ []) (rest : List Char) : endsWord (gap ++ rest) = true := by
  obtain ⟨d, gap, rfl⟩ := List.exists_cons_of_ne_nil hne
  have hd : isSpace d = true ∨ d = '/' := by
    by_contra hnot
    rw [not_or, Bool.not_eq_true] at hnot
    obtain ⟨comments, hscan⟩ := h [] solid_nil 0
    rw [List.append_nil, solid_cons hnot.1 hnot.2] at hscan
    cases hscan
  have hpart : isWordPart d = false ∧ d ≠ '\\' := by
    rcases hd with hd | rfl
    · refine ⟨by simp [isWordPart, hd], ?_⟩
      rintro rfl
      exact absurd hd (by decide)
    · decide
  simp [Syntax.endsWord, hpart]

/-- Nothing that begins with no gap stands behind another gap. -/
theorem IsGap.eq_nil (h : IsGap gap) (hrest : Solid rest) (hsolid : Solid (gap ++ rest)) : gap = [] := by
  have hlength := (h.skips hrest).rest_eq 0
  rw [hsolid 0] at hlength
  exact List.append_left_eq_self.mp hlength

/-! ### Lexemes -/

theorem isWord_of_read (hpos : 0 < ws.length) (h : wordLength (ws ++ rest) = ws.length) : IsWord ws := by
  have hword : IsWord ((ws ++ rest).take (wordLength (ws ++ rest))) := isWord_take (h ▸ hpos)
  rwa [h, List.take_left' rfl] at hword

/-- What is read as the contents of a string is read so in front of every text. -/
theorem stringTail_take {quote : Char} (hquote : quote ≠ '\\') {n : Nat} (h : stringTail quote cs = some n) :
    0 < n ∧ n ≤ cs.length ∧ ∀ rest, stringTail quote (cs.take n ++ rest) = some n := by
  have hhead : ∀ {cs : List Char} {m : Nat} (rest : List Char), 0 < m → m ≤ cs.length →
      (cs.take m ++ rest).head? = cs.head? := by
    intro cs m rest hpos hle
    cases cs with
    | nil => exact absurd hle (by simp only [List.length_nil]; omega)
    | cons d cs => rw [List.take_cons hpos]; rfl
  fun_induction stringTail quote cs generalizing n with
  | case1 => cases h
  | case2 cs ih =>
    obtain ⟨m, hm, rfl⟩ := Option.map_eq_some_iff.mp h
    obtain ⟨hpos, hle, htake⟩ := ih hm
    refine ⟨by omega, by simp only [List.length_cons]; omega, fun rest => ?_⟩
    simp only [List.take_succ_cons, List.cons_append, stringTail, htake, Option.map_some]
  | case3 d cs hline ih =>
    obtain ⟨m, hm, rfl⟩ := Option.map_eq_some_iff.mp h
    obtain ⟨hpos, hle, htake⟩ := ih hm
    refine ⟨by omega, by simp only [List.length_cons]; omega, fun rest => ?_⟩
    rw [List.take_succ_cons, List.take_succ_cons, List.cons_append, List.cons_append, stringTail, htake, Option.map_some]
    intro cs' hd hcs'
    have hfirst := hhead rest hpos hle
    rw [hcs', List.head?_cons] at hfirst
    obtain ⟨cs'', rfl⟩ := List.head?_eq_some_iff.mp hfirst.symm
    exact hline cs'' hd rfl
  | case4 cs hreturn hslash =>
    cases h
    refine ⟨Nat.one_pos, by simp, fun rest => ?_⟩
    rw [List.take_succ_cons, List.take_zero, List.singleton_append]
    cases rest <;> simp [stringTail, hquote]
  | case5 => cases h
  | case6 d cs hreturn hslash hne hline ih =>
    obtain ⟨m, hm, rfl⟩ := Option.map_eq_some_iff.mp h
    obtain ⟨hpos, hle, htake⟩ := ih hm
    have hback : d ≠ '\\' := by
      rintro rfl
      cases cs with
      | nil => cases hm
      | cons d cs => exact hslash d cs rfl rfl
    refine ⟨by omega, by simp only [List.length_cons]; omega, fun rest => ?_⟩
    rw [List.take_succ_cons, List.cons_append, stringTail, if_neg hne, if_neg hline, htake, Option.map_some]
    · exact fun _ hd _ => hback hd
    · exact fun _ _ hd _ => hback hd

theorem stringLength_le (cs : List Char) : stringLength cs ≤ cs.length := by
  cases cs with
  | nil => exact Nat.le_refl _
  | cons quote cs =>
    rw [stringLength]
    split
    · rename_i hquote
      cases htail : stringTail quote cs with
      | none => exact Nat.zero_le _
      | some n =>
        have hback : quote ≠ '\\' := by rintro rfl; exact absurd hquote (by decide)
        exact Nat.succ_le_succ (stringTail_take hback htail).2.1
    · exact Nat.zero_le _

theorem isString_of_read (hpos : 0 < ws.length) (h : stringLength (ws ++ rest) = ws.length) : IsString ws := by
  obtain ⟨quote, cs, rfl⟩ := List.exists_cons_of_ne_nil (List.length_pos_iff.mp hpos)
  rw [List.cons_append, stringLength] at h
  split at h
  · rename_i hquote
    have hback : quote ≠ '\\' := by rintro rfl; exact absurd hquote (by decide)
    cases htail : stringTail quote (cs ++ rest) with
    | none => rw [htail] at h; cases h
    | some n =>
      rw [htail] at h
      obtain rfl : n = cs.length := Nat.succ.inj h
      obtain ⟨-, -, htake⟩ := stringTail_take hback htail
      refine ⟨⟨quote, cs, rfl, by simpa using hquote⟩, fun rest' => ?_⟩
      rw [List.take_left' rfl] at htake
      rw [List.cons_append, stringLength, if_pos hquote, htake]
      rfl
  · cases h

theorem wordLength_le (cs : List Char) : wordLength cs ≤ cs.length := by
  have htail : ∀ cs, wordTail false cs ≤ cs.length := fun cs => by
    by_contra hlong
    have hgoes := goesOn_take cs
    rw [List.take_of_length_le (by omega), goesOn_iff] at hgoes
    omega
  cases cs with
  | nil => exact Nat.le_refl _
  | cons d cs =>
    rw [wordLength]
    split
    · exact htail _
    · exact Nat.zero_le _

/-! ### Steps -/

/-- From one cursor to the other some characters were moved over, and some nodes were added, the latest first. -/
structure Step (c c' : Cursor) (cs : List Char) (ns : List Node) : Prop where
  rest : c.rest = cs ++ c'.rest
  position : c'.position = c.position + cs.length
  children : c'.children = ns ++ c.children

namespace Step

theorem refl (c : Cursor) : Step c c [] [] :=
  ⟨rfl, rfl, rfl⟩

theorem trans (h : Step c c' cs ns) (h' : Step c' c'' ds ns') : Step c c'' (cs ++ ds) (ns' ++ ns) where
  rest := by rw [h.rest, h'.rest, List.append_assoc]
  position := by rw [h'.position, h.position, List.length_append, Nat.add_assoc]
  children := by rw [h'.children, h.children, List.append_assoc]

theorem drop (h : Step c c' cs ns) (htext : c.rest = text.drop c.position) : c'.rest = text.drop c'.position := by
  rw [h.position, ← List.drop_drop, ← htext, h.rest, List.drop_left]

/-- What was moved over stands in the text between the cursors. -/
theorem slice (h : Step c c' cs ns) (htext : c.rest = text.drop c.position) :
    (text.drop c.position).take (c'.position - c.position) = cs := by
  rw [← htext, h.rest, h.position, Nat.add_sub_cancel_left, List.take_left' rfl]

end Step

theorem bind_eq_some {p : Parser α} {f : α → Parser β} {b : β} :
    (p >>= f) c = some (b, c'') ↔ ∃ a c', p c = some (a, c') ∧ f a c' = some (b, c'') := by
  rw [bind_apply, Option.bind_eq_some_iff]
  exact Prod.exists

theorem orElse_eq_some {p q : Parser α} {a : α} (h : (p <|> q) c = some (a, c')) :
    p c = some (a, c') ∨ p c = none ∧ q c = some (a, c') := by
  rw [orElse_apply] at h
  cases hp : p c with
  | none => exact .inr ⟨rfl, by rwa [hp] at h⟩
  | some r => exact .inl (by rwa [hp] at h)

theorem oneOf_eq_some {ps : List (Parser Unit)} (h : oneOf ps c = some ((), c')) : ∃ p ∈ ps, p c = some ((), c') := by
  induction ps with
  | nil => cases h
  | cons p ps ih =>
    rcases orElse_eq_some (show (p <|> oneOf ps) c = _ from h) with hp | ⟨-, hps⟩
    · exact ⟨p, List.mem_cons_self, hp⟩
    · obtain ⟨q, hq, hqc⟩ := ih hps
      exact ⟨q, List.mem_cons_of_mem _ hq, hqc⟩

theorem optional_eq_some {p : Parser Unit} (h : Parser.optional p c = some ((), c')) :
    p c = some ((), c') ∨ p c = none ∧ c' = c :=
  (orElse_eq_some h).imp_right <| And.imp_right fun hc => (congrArg Prod.snd (Option.some.inj hc)).symm

theorem guard_eq_some {holds : Prop} [Decidable holds] (h : (guard holds : Parser Unit) c = some ((), c')) :
    holds ∧ c' = c := by
  rw [guard_apply] at h
  split at h
  · exact ⟨‹_›, (congrArg Prod.snd (Option.some.inj h)).symm⟩
  · cases h

theorem ahead_eq_some {cs : List Char} (h : Parser.ahead c = some (cs, c')) : cs = skipGap c.rest ∧ c' = c := by
  cases h
  exact ⟨rfl, rfl⟩

theorem step_gap (h : Parser.gap c = some ((), c')) :
    ∃ gap comments, Step c c' gap comments ∧ Notes comments ∧ Solid c'.rest ∧ (c'.rest ≠ [] → IsGap gap) := by
  cases h
  obtain ⟨gap, hrest, hposition, hsolid, hgap⟩ := exists_gap c.position c.rest
  exact ⟨gap, _, ⟨hrest, hposition, rfl⟩, notes_commentNodes _, hsolid, hgap⟩

theorem step_leaf {kind : Kind} {length : List Char → Nat} (hlength : ∀ cs, length cs ≤ cs.length)
    (h : leaf kind length c = some ((), c')) : ∃ gap w comments,
      Step c c' (gap ++ w) (.mk kind none (c.position + gap.length) (c.position + gap.length + w.length) [] :: comments) ∧
      Notes comments ∧ IsGap gap ∧ 0 < w.length ∧ length (w ++ c'.rest) = w.length := by
  obtain ⟨_, c₁, hgap, hread⟩ := bind_eq_some.mp h
  obtain ⟨gap, comments, hstep, hnotes, -, hisGap⟩ := step_gap hgap
  rw [get_bind] at hread
  obtain ⟨_, c₂, hguard, hadvance⟩ := bind_eq_some.mp hread
  obtain ⟨hpos, rfl⟩ := guard_eq_some hguard
  cases hadvance
  have htake : (c₂.rest.take (length c₂.rest)).length = length c₂.rest := List.length_take_of_le (hlength _)
  have hw : Step c₂ { c₂ with
      position := c₂.position + length c₂.rest, rest := c₂.rest.drop (length c₂.rest)
      children := .mk kind none c₂.position (c₂.position + length c₂.rest) [] :: c₂.children }
      (c₂.rest.take (length c₂.rest)) [.mk kind none c₂.position (c₂.position + length c₂.rest) []] :=
    ⟨(List.take_append_drop _ _).symm, by rw [htake], rfl⟩
  refine ⟨gap, c₂.rest.take (length c₂.rest), comments, ?_, hnotes, hisGap fun hnil => ?_, by rwa [htake], ?_⟩
  · have := hstep.trans hw
    rw [htake, ← hstep.position]
    exact this
  · rw [hnil] at hpos
    exact absurd hpos (Nat.not_lt.mpr (hlength []))
  · rw [htake]
    exact congrArg length (List.take_append_drop _ _)

theorem step_word {w : String} (hw : w ≠ "") (h : word w c = some ((), c')) : ∃ gap comments,
    Step c c' (gap ++ w.toList) comments ∧ Notes comments ∧ IsGap gap ∧ wordLength (w.toList ++ c'.rest) = w.toList.length := by
  obtain ⟨_, c₁, hgap, hread⟩ := bind_eq_some.mp h
  obtain ⟨gap, comments, hstep, hnotes, -, hisGap⟩ := step_gap hgap
  rw [get_bind] at hread
  obtain ⟨_, c₂, hguard, hadvance⟩ := bind_eq_some.mp hread
  obtain ⟨hwordAt, rfl⟩ := guard_eq_some hguard
  cases hadvance
  have htake : c₂.rest.take (wordLength c₂.rest) = w.toList := by rw [← hwordAt, wordAt, String.toList_ofList]
  have hlength : w.length = wordLength c₂.rest := by
    rw [← String.length_toList, ← htake, List.length_take_of_le (wordLength_le _)]
  have hrest : w.toList ++ c₂.rest.drop w.length = c₂.rest := by rw [← htake, hlength, List.take_append_drop]
  refine ⟨gap, comments, ?_, hnotes, hisGap fun hnil => ?_, ?_⟩
  · have hmoved : Step c₂ { c₂ with position := c₂.position + w.length, rest := c₂.rest.drop w.length } w.toList [] :=
      ⟨hrest.symm, by rw [String.length_toList], rfl⟩
    exact hstep.trans hmoved
  · rw [hnil] at hwordAt
    exact hw hwordAt.symm
  · exact (congrArg wordLength hrest).trans (hlength.symm.trans String.length_toList.symm)

/-- What is read of a sign. -/
theorem step_sign {s : String} {excluded : List Char} (h : signUnless s excluded c = some ((), c')) :
    ∃ gap comments, Step c c' (gap ++ s.toList) comments ∧ Notes comments := by
  obtain ⟨_, c₁, hgap, hread⟩ := bind_eq_some.mp h
  obtain ⟨gap, comments, hstep, hnotes, -⟩ := step_gap hgap
  rw [get_bind] at hread
  obtain ⟨_, c₂, hstarts, hlater⟩ := bind_eq_some.mp hread
  obtain ⟨hstarting, rfl⟩ := guard_eq_some hstarts
  obtain ⟨_, c₃, hexcluded, hadvance⟩ := bind_eq_some.mp hlater
  obtain ⟨-, rfl⟩ := guard_eq_some hexcluded
  cases hadvance
  obtain ⟨cs, hcs⟩ := List.isPrefixOf_iff_prefix.mp hstarting
  have hrest : c₃.rest = s.toList ++ c₃.rest.drop s.length := by rw [← hcs, ← String.length_toList, List.drop_left]
  have hmoved : Step c₃ { c₃ with position := c₃.position + s.length, rest := c₃.rest.drop s.length } s.toList [] :=
    ⟨hrest, by rw [String.length_toList], rfl⟩
  exact ⟨gap, comments, hstep.trans hmoved, hnotes⟩

theorem of_role {p : Parser Unit} {r : Role} (h : role r p c = some ((), c')) : ∃ c₁,
    p { c with children := [] } = some ((), c₁) ∧
      c' = { c₁ with children := (c₁.children.map fun n => if n.kind = .comment then n else n.withRole r) ++ c.children } := by
  obtain ⟨⟨_, c₁⟩, hp, hc⟩ := Option.bind_eq_some_iff.mp (show (p { c with children := [] }).bind _ = _ from h)
  exact ⟨c₁, hp, (congrArg Prod.snd (Option.some.inj hc)).symm⟩

theorem of_nodeOf {p : Parser Kind} {kind : Kind} (h : nodeOf p c = some (kind, c')) : ∃ c₁ c₂,
    Parser.gap c = some ((), c₁) ∧ p { c₁ with children := [] } = some (kind, c₂) ∧
      c' = { c₂ with children := .mk kind none c₁.position c₂.position c₂.children.reverse :: c₁.children } := by
  obtain ⟨_, c₁, hgap, hread⟩ := bind_eq_some.mp h
  obtain ⟨⟨kind', c₂⟩, hp, hc⟩ := Option.bind_eq_some_iff.mp (show (p { c₁ with children := [] }).bind _ = _ from hread)
  cases hc
  exact ⟨c₁, c₂, hgap, hp, rfl⟩

theorem of_discard {p : Parser α} (h : discard p c = some ((), c')) : ∃ a, p c = some (a, c') := by
  obtain ⟨⟨a, c₁⟩, hp, hc⟩ := Option.bind_eq_some_iff.mp (show (p c).bind (fun r => some ((), r.2)) = _ from h)
  obtain rfl := (Prod.mk.inj (Option.some.inj hc)).2
  exact ⟨a, hp⟩

theorem of_node {p : Parser Unit} {kind : Kind} (h : node kind p c = some ((), c')) : ∃ c₁ c₂,
    Parser.gap c = some ((), c₁) ∧ p { c₁ with children := [] } = some ((), c₂) ∧
      c' = { c₂ with children := .mk kind none c₁.position c₂.position c₂.children.reverse :: c₁.children } := by
  obtain ⟨kind', hnode⟩ := of_discard h
  obtain ⟨c₁, c₂, hgap, hboth, hc⟩ := of_nodeOf hnode
  obtain ⟨_, c₃, hp, hkind⟩ := bind_eq_some.mp hboth
  cases hkind
  exact ⟨c₁, c₂, hgap, hp, hc⟩

/-- A construct is read behind a gap, with children of its own. -/
theorem step_node {p : Parser Unit} {kind : Kind} (h : node kind p c = some ((), c')) : ∃ c₁ c₂ front comments,
    Step c c₁ front comments ∧ Notes comments ∧ Solid c₁.rest ∧ p { c₁ with children := [] } = some ((), c₂) ∧
      ∀ cs ns, Step { c₁ with children := [] } c₂ cs ns →
        Step c c' (front ++ cs) (.mk kind none c₁.position c₂.position ns.reverse :: comments) := by
  obtain ⟨c₁, c₂, hgap, hread, rfl⟩ := of_node h
  obtain ⟨front, comments, hfront, hnotes, hsolid, -⟩ := step_gap hgap
  refine ⟨c₁, c₂, front, comments, hfront, hnotes, hsolid, hread, fun cs ns hstep => ⟨?_, ?_, ?_⟩⟩
  · rw [hfront.rest, show c₁.rest = cs ++ c₂.rest from hstep.rest, List.append_assoc]
  · change c₂.position = _
    rw [show c₂.position = c₁.position + cs.length from hstep.position, hfront.position, List.length_append, Nat.add_assoc]
  · rw [hstep.children, List.append_nil, hfront.children, List.cons_append]

/-! ### Added nodes -/

/-- The parser steps on, and the nodes that it adds besides comments satisfy `holds`. -/
def Adds (text : List Char) (holds : Node → Prop) (p : Parser α) : Prop :=
  ∀ c a c', c.rest = text.drop c.position → p c = some (a, c') →
    ∃ cs ns, Step c c' cs ns ∧ ∀ n ∈ ns, (n.kind = .comment ∧ n.role = none) ∨ holds n

namespace Adds

variable {holds holds' : Node → Prop} {p q : Parser α} {f : α → Parser β} {kind : Kind}

theorem silent (h : ∀ c a c', p c = some (a, c') → c' = c) : Adds text holds p := fun c a c' _ hp => by
  obtain rfl := h c a c' hp
  exact ⟨[], [], .refl _, List.forall_mem_nil _⟩

theorem pure (a : α) : Adds text holds (pure a) :=
  silent fun _ _ _ h => (congrArg Prod.snd (Option.some.inj h)).symm

theorem guard (condition : Prop) [Decidable condition] : Adds text holds (guard condition : Parser Unit) :=
  silent fun _ _ _ h => (guard_eq_some h).2

theorem ahead : Adds text holds Parser.ahead :=
  silent fun _ _ _ h => (ahead_eq_some h).2

theorem bind (hp : Adds text holds p) (hf : ∀ a, Adds text holds (f a)) : Adds text holds (p >>= f) :=
  fun c b c' htext h => by
    obtain ⟨a, c₁, hpc, hfc⟩ := bind_eq_some.mp h
    obtain ⟨cs, ns, hstep, hns⟩ := hp c a c₁ htext hpc
    obtain ⟨cs', ns', hstep', hns'⟩ := hf a c₁ b c' (hstep.drop htext) hfc
    exact ⟨_, _, hstep.trans hstep', List.forall_mem_append.mpr ⟨hns', hns⟩⟩

theorem orElse (hp : Adds text holds p) (hq : Adds text holds q) : Adds text holds (p <|> q) := fun c a c' htext h =>
  (orElse_eq_some h).elim (hp c a c' htext) fun h => hq c a c' htext h.2

theorem optional {p : Parser Unit} (h : Adds text holds p) : Adds text holds (Parser.optional p) :=
  h.orElse (pure ())

theorem oneOf {ps : List (Parser Unit)} (h : ∀ p ∈ ps, Adds text holds p) : Adds text holds (Parser.oneOf ps) :=
  fun c _ c' htext hps => by
    obtain ⟨p, hp, hpc⟩ := oneOf_eq_some hps
    exact h p hp c () c' htext hpc

theorem atMost {p : Parser Unit} (h : Adds text holds p) (n : Nat) : Adds text holds (Parser.atMost n p) := by
  induction n with
  | zero => exact pure ()
  | succ n ih => exact (h.bind fun _ => ih).orElse (pure ())

theorem many {p : Parser Unit} (h : Adds text holds p) : Adds text holds (Parser.many p) := fun c a c' htext hp =>
  h.atMost _ c a c' htext hp

theorem signUnless (s : String) (excluded : List Char) : Adds text holds (Parser.signUnless s excluded) :=
  fun _ _ _ _ h => by
    obtain ⟨gap, comments, hstep, hnotes⟩ := step_sign h
    exact ⟨_, _, hstep, fun n hn => .inl (hnotes n hn)⟩

theorem sign (s : String) : Adds text holds (Parser.sign s) :=
  signUnless s []

theorem word {w : String} (hw : w ≠ "") : Adds text holds (Parser.word w) := fun _ _ _ _ h => by
  obtain ⟨gap, comments, hstep, hnotes, -⟩ := step_word hw h
  exact ⟨_, _, hstep, fun n hn => .inl (hnotes n hn)⟩

theorem leaf {length : List Char → Nat} (hlength : ∀ cs, length cs ≤ cs.length)
    (hholds : ∀ n : Node, n.kind = kind → n.role = none → n.children = [] → holds n) :
    Adds text holds (Parser.leaf kind length) := fun _ _ _ _ h => by
  obtain ⟨gap, w, comments, hstep, hnotes, -⟩ := step_leaf hlength h
  exact ⟨_, _, hstep, List.forall_mem_cons.mpr ⟨.inr (hholds _ rfl rfl rfl), fun n hn => .inl (hnotes n hn)⟩⟩

theorem node {p : Parser Unit} (hp : Adds text holds p) (hholds : ∀ n : Node, n.kind = kind → n.role = none →
    (∀ m ∈ n.children, (m.kind = .comment ∧ m.role = none) ∨ holds m) → holds' n) : Adds text holds' (Parser.node kind p) :=
  fun _ _ _ htext h => by
    obtain ⟨c₁, c₂, front, comments, hfront, hnotes, -, hread, hnode⟩ := step_node h
    obtain ⟨cs, ns, hstep, hns⟩ := hp { c₁ with children := [] } () c₂ (hfront.drop htext) hread
    refine ⟨_, _, hnode cs ns hstep, List.forall_mem_cons.mpr ⟨.inr (hholds _ rfl rfl ?_), fun n hn => .inl (hnotes n hn)⟩⟩
    exact fun m hm => hns m (List.mem_reverse.mp hm)

theorem withBreaks {p : Parser Unit} (hp : Adds text holds p) (breakable : Bool) :
    Adds text holds (Parser.withBreaks breakable p) := fun c _ _ htext h => by
  obtain ⟨⟨_, c₁⟩, hpc, hc⟩ := Option.bind_eq_some_iff.mp (show (p { c with breakable }).bind _ = _ from h)
  cases hc
  obtain ⟨cs, ns, hstep, hns⟩ := hp { c with breakable } () c₁ htext hpc
  exact ⟨cs, ns, ⟨hstep.rest, hstep.position, hstep.children⟩, hns⟩

end Adds

end ResponseShapes.Syntax
