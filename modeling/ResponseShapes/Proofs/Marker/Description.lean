import Mathlib.Data.List.Basic
import ResponseShapes.Proofs.Endpoint.Agreement
import ResponseShapes.Proofs.Syntax.Spelled
import ResponseShapes.Proofs.Syntax.Unquoted
import ResponseShapes.Proofs.Text.Literal

/-! # Descriptions in new decorators

A new decorator has the description of the marker that it stands for. It is read of one literal and written as another,
and the two need not denote the same: the reader takes back escaped quotes and backslashes alone, so any other escape
loses its meaning, and the writer escapes quotes, backslashes and line feeds alone, so a carriage return stays. Nothing
else goes wrong. Where there is neither, the new literal denotes what the old one did, and where there is one of them
it does not (`decoratorText_description`). That other escapes cannot cancel out is a matter of length: for each of them
the reader leaves more than it denotes. -/

namespace ResponseShapes

open Literal Syntax Text

variable {cs rest : List Char} {us vs : List Nat} {c : Char} {form : Form}

/-! ### Escapes as the reader has them -/

theorem length_units_pos (c : Char) : 0 < (units c).length := by
  unfold units
  split <;> exact Nat.succ_pos _

theorem length_le_units (cs : List Char) : cs.length ≤ (cs.flatMap units).length := by
  induction cs with
  | nil => exact Nat.le_refl _
  | cons c cs ih =>
    have := length_units_pos c
    rw [List.flatMap_cons, List.length_append, List.length_cons]
    omega

theorem length_unitsOf_le (n : Nat) : (unitsOf n).length ≤ 2 := by
  unfold unitsOf
  split <;> simp

theorem ne_backslash_of_hexNumber {digits : List Char} {n : Nat} (h : hexNumber? digits = some n) :
    ∀ d ∈ digits, d ≠ '\\' := by
  obtain ⟨values, hvalues, -⟩ := Option.map_eq_some_iff.mp h
  clear h
  induction digits generalizing values with
  | nil => exact List.forall_mem_nil _
  | cons d digits ih =>
    rw [List.mapM_cons] at hvalues
    obtain ⟨value, hvalue, hvalues⟩ := Option.bind_eq_some_iff.mp hvalues
    obtain ⟨values', hvalues', -⟩ := Option.bind_eq_some_iff.mp hvalues
    refine List.forall_mem_cons.mpr ⟨?_, ih values' hvalues'⟩
    rintro rfl
    cases hvalue

theorem eq_of_isTakenBack (h : isTakenBack c = true) : c = '\\' ∨ c = '\x27' ∨ c = '\x22' := by
  simpa [isTakenBack, or_assoc] using h

/-- An escape by a single character denotes the character, or the reader leaves it as it is. -/
theorem escapedChar?_cases (h : escapedChar? c cs = some (vs, rest)) :
    cs = rest ∧ (isTakenBack c = true ∧ vs = units c ∨ isTakenBack c = false ∧ vs.length ≤ (units c).length) := by
  unfold escapedChar? at h
  split at h
  · rename_i hline
    obtain ⟨rfl, rfl⟩ := Prod.mk.inj (Option.some.inj h)
    refine ⟨rfl, .inr ⟨Bool.eq_false_iff.mpr fun hback => ?_, Nat.zero_le _⟩⟩
    obtain rfl | rfl | rfl := eq_of_isTakenBack hback <;> exact absurd hline (by decide)
  split at h
  · rename_i hzero
    obtain ⟨rfl, rfl⟩ := Prod.mk.inj (Option.some.inj h)
    rw [Bool.and_eq_true, decide_eq_true_iff] at hzero
    obtain rfl := hzero.1
    exact ⟨rfl, .inr ⟨by decide, length_units_pos _⟩⟩
  split at h
  · cases h
  obtain ⟨rfl, rfl⟩ := Prod.mk.inj (Option.some.inj h)
  refine ⟨rfl, ?_⟩
  cases hback : isTakenBack c with
  | true =>
    refine .inl ⟨rfl, ?_⟩
    obtain rfl | rfl | rfl := eq_of_isTakenBack hback <;> rfl
  | false =>
    refine .inr ⟨rfl, ?_⟩
    cases controls.lookup c with
    | none => exact Nat.le_refl _
    | some n => exact length_units_pos c

/-- The reader leaves the escape as it is, and it denotes no more units than are written. -/
def LeftAlone (cs rest : List Char) (vs : List Nat) : Prop :=
  ∃ c e, isTakenBack c = false ∧ cs = c :: e ++ rest ∧ (∀ d ∈ e, d ≠ '\\') ∧
    vs.length ≤ ((c :: e).flatMap units).length

theorem leftAlone_of_hexNumber {digits rest' : List Char} (hback : isTakenBack c = false)
    (h : (hexNumber? digits).map (fun n => ([n], rest')) = some (vs, rest)) :
    LeftAlone (c :: digits ++ rest') rest vs := by
  obtain ⟨n, hn, heq⟩ := Option.map_eq_some_iff.mp h
  obtain ⟨rfl, rfl⟩ := Prod.mk.inj heq
  exact ⟨c, digits, hback, rfl, ne_backslash_of_hexNumber hn, Nat.le_trans (by simp) (length_le_units _)⟩

theorem leftAlone_of_bracedEscape (h : bracedEscape? cs = some (vs, rest)) :
    LeftAlone ('u' :: '\x7b' :: cs) rest vs := by
  unfold bracedEscape? at h
  split at h
  case h_2 => cases h
  rename_i n d rest' hn hclosing
  split at h
  case isFalse => cases h
  obtain ⟨rfl, rfl⟩ := Prod.mk.inj (Option.some.inj h)
  have hbrace : d = '\x7d' := by
    have := List.head?_dropWhile_not (· != '\x7d') cs
    rw [hclosing] at this
    simpa using this
  have hcs : cs = cs.takeWhile (· != '\x7d') ++ d :: rest' := by rw [← hclosing, List.takeWhile_append_dropWhile]
  refine ⟨'u', '\x7b' :: cs.takeWhile (· != '\x7d') ++ [d], by decide, ?_, ?_, ?_⟩
  · rw [List.cons_append, List.cons_append, List.cons_append, List.append_assoc]
    exact congrArg (fun cs => 'u' :: '\x7b' :: cs) hcs
  · refine List.forall_mem_append.mpr ⟨List.forall_mem_cons.mpr ⟨by decide, ne_backslash_of_hexNumber hn⟩, ?_⟩
    exact List.forall_mem_singleton.mpr (hbrace ▸ by decide)
  · refine Nat.le_trans (Nat.le_trans (length_unitsOf_le n) ?_) (length_le_units _)
    simp

/-- An escape is one that the reader takes back, or the reader leaves it alone. -/
theorem escape?_cases (h : escape? cs = some (vs, rest)) :
    (∃ c, isTakenBack c = true ∧ cs = c :: rest ∧ vs = units c) ∨ LeftAlone cs rest vs := by
  unfold escape? at h
  split at h
  · obtain ⟨rfl, rfl⟩ := Prod.mk.inj (Option.some.inj h)
    exact .inr ⟨'\r', ['\n'], by decide, rfl, List.forall_mem_singleton.mpr (by decide), Nat.zero_le _⟩
  · exact .inr (leftAlone_of_hexNumber (by decide) h)
  · exact .inr (leftAlone_of_bracedEscape h)
  · exact .inr (leftAlone_of_hexNumber (by decide) h)
  · rename_i c cs _ _ _ _
    obtain ⟨rfl, ⟨hback, rfl⟩ | ⟨hback, hlength⟩⟩ := escapedChar?_cases h
    · exact .inl ⟨c, hback, rfl, rfl⟩
    · refine .inr ⟨c, [], hback, rfl, List.forall_mem_nil _, ?_⟩
      rwa [List.flatMap_singleton]
  · cases h

/-! ### What the reader makes of a literal -/

/-- Nothing but quotes and backslashes is escaped, and there is no carriage return. -/
def QuotesOnly : List Char → Prop
  | '\\' :: c :: cs => isTakenBack c = true ∧ QuotesOnly cs
  | c :: cs => c ≠ '\r' ∧ QuotesOnly cs
  | [] => True

theorem quotesOnly_cons (h : c ≠ '\\') : QuotesOnly (c :: cs) ↔ c ≠ '\r' ∧ QuotesOnly cs := by
  rw [QuotesOnly]
  exact fun _ _ hslash => absurd hslash h

theorem QuotesOnly.return_notMem (h : QuotesOnly cs) : '\r' ∉ cs := by
  induction cs using QuotesOnly.induct with
  | case1 c cs ih =>
    obtain ⟨hback, hcs⟩ := h
    have hc : c ≠ '\r' := by
      rintro rfl
      exact absurd hback (by decide)
    simp [ih hcs, hc.symm]
  | case2 c cs hslash ih =>
    rw [QuotesOnly.eq_2 _ _ hslash] at h
    simp [ih h.2, h.1.symm]
  | case3 => exact List.not_mem_nil

/-- The reader drops backslashes alone. -/
theorem mem_unescaped {d : Char} (hd : d ≠ '\\') : d ∈ unescaped cs ↔ d ∈ cs := by
  induction cs using unescaped.induct with
  | case1 c cs hback ih =>
    rw [unescaped, if_pos hback, List.mem_cons, ih, List.mem_cons, List.mem_cons, or_iff_right hd]
  | case2 c cs hback ih => rw [unescaped, if_neg hback, List.mem_cons, List.mem_cons, ih, List.mem_cons, List.mem_cons]
  | case3 c cs hslash ih => rw [unescaped.eq_2 _ _ hslash, List.mem_cons, ih, List.mem_cons]
  | case4 => exact Iff.rfl

/-- What the reader leaves of a literal is never shorter than what the literal denotes. They are the same if only quotes
    and backslashes are escaped; if not, there is a carriage return or the reader leaves more. -/
theorem content_unescaped (h : Content form cs us) :
    us.length ≤ ((unescaped cs).flatMap units).length ∧ (QuotesOnly cs → us = (unescaped cs).flatMap units) ∧
      (¬ QuotesOnly cs → '\r' ∈ cs ∨ us.length < ((unescaped cs).flatMap units).length) := by
  induction h with
  | nil => exact ⟨Nat.le_refl _, fun _ => rfl, fun h => absurd trivial h⟩
  | char bare next ih =>
    obtain ⟨-, hslash, hreturn, -⟩ := bare
    obtain ⟨hlength, hsame, hmore⟩ := ih
    rw [unescaped_cons hslash, quotesOnly_cons hslash, and_iff_right hreturn, List.flatMap_cons, List.length_append,
      List.length_append]
    refine ⟨Nat.add_le_add_left hlength _, fun h => congrArg _ (hsame h), fun h => ?_⟩
    exact (hmore h).imp (List.mem_cons_of_mem _) fun h => Nat.add_lt_add_left h _
  | escape spelled next ih =>
    obtain ⟨hlength, hsame, hmore⟩ := ih
    obtain ⟨c, hback, rfl, rfl⟩ | ⟨c, e, hback, rfl, he, hwritten⟩ := escape?_cases spelled
    · rw [unescaped, if_pos hback, QuotesOnly, and_iff_right hback, List.flatMap_cons, List.length_append,
        List.length_append]
      refine ⟨Nat.add_le_add_left hlength _, fun h => congrArg _ (hsame h), fun h => ?_⟩
      exact (hmore h).imp (fun h => List.mem_cons_of_mem _ (List.mem_cons_of_mem _ h)) fun h => Nat.add_lt_add_left h _
    · -- The backslash stays, so at least one unit is left over.
      rw [List.cons_append, unescaped, if_neg (by simp [hback]), verbatim_of_ne he, QuotesOnly]
      have hslash := length_units_pos '\\'
      simp only [List.flatMap_cons, List.flatMap_append, List.length_append] at hwritten ⊢
      refine ⟨by omega, fun h => absurd (hback.symm.trans h.1) Bool.false_ne_true, fun _ => .inr (by omega)⟩
  | lineEnd lines single next ih =>
    rw [unescaped_cons (by decide), quotesOnly_cons (by decide)]
    have hreturn := length_units_pos '\r'
    simp only [List.flatMap_cons, List.length_append, List.length_cons]
    exact ⟨by omega, fun h => absurd rfl h.1, fun _ => .inl List.mem_cons_self⟩
  | lineEnds lines next ih =>
    rw [unescaped_cons (by decide), unescaped_cons (by decide), quotesOnly_cons (by decide)]
    have hreturn := length_units_pos '\r'
    simp only [List.flatMap_cons, List.length_append, List.length_cons]
    exact ⟨by omega, fun h => absurd rfl h.1, fun _ => .inl List.mem_cons_self⟩

/-! ### New literals -/

/-- A text without carriage returns is written as a literal that denotes it. -/
theorem content_literalChar (h : '\r' ∉ cs) : Content .single (cs.flatMap literalChar) (cs.flatMap units) := by
  induction cs with
  | nil => exact .nil
  | cons c cs ih =>
    rw [List.mem_cons, not_or] at h
    rw [List.flatMap_cons, List.flatMap_cons]
    unfold literalChar
    split
    · rename_i hquote
      rw [Bool.or_eq_true, decide_eq_true_iff, decide_eq_true_iff] at hquote
      obtain rfl | rfl := hquote <;> exact .escape rfl (ih h.2)
    split
    · rename_i hline
      subst hline
      exact .escape rfl (ih h.2)
    · rename_i hquote hline
      simp only [Bool.or_eq_true, decide_eq_true_eq, not_or] at hquote
      exact .char ⟨hquote.2, hquote.1, Ne.symm h.1, fun _ => hline, fun hform => nomatch hform⟩ (ih h.2)

/-- A text that is written as a well-formed literal has no carriage returns. -/
theorem return_notMem_of_content (h : Content .single (cs.flatMap literalChar) us) : '\r' ∉ cs := by
  induction cs generalizing us with
  | nil => exact List.not_mem_nil
  | cons c cs ih =>
    rw [List.flatMap_cons] at h
    unfold literalChar at h
    split at h
    · rename_i hquote
      rw [Bool.or_eq_true, decide_eq_true_iff, decide_eq_true_iff] at hquote
      obtain ⟨vs, rest, us', hspelled, -, hnext⟩ := h.of_escape
      obtain rfl | rfl := hquote
      all_goals
        obtain ⟨-, rfl⟩ := Prod.mk.inj (Option.some.inj hspelled)
        simpa using ih hnext
    split at h
    · rename_i hline
      subst hline
      obtain ⟨vs, rest, us', hspelled, -, hnext⟩ := h.of_escape
      obtain ⟨-, rfl⟩ := Prod.mk.inj (Option.some.inj hspelled)
      simpa using ih hnext
    · rename_i hquote hline
      simp only [Bool.or_eq_true, decide_eq_true_eq, not_or] at hquote
      have hreturn : c ≠ '\r' := h.ne_return (by decide)
      obtain ⟨-, us', -, hnext⟩ := h.of_bare hquote.1 hreturn
      simpa [hreturn.symm] using ih hnext

/-- The literal that is written for a text is well formed if the text has no carriage returns, and denotes the text. -/
theorem denotes_literal_iff (text : String) :
    Denotes .single (literal text).toList us ↔ '\r' ∉ text.toList ∧ us = text.toList.flatMap units := by
  have hliteral : (literal text).toList = Form.single.quote :: text.toList.flatMap literalChar ++ [Form.single.quote] :=
    String.toList_ofList
  rw [hliteral]
  constructor
  · rintro ⟨content, heq, hcontent⟩
    obtain ⟨-, heq⟩ := List.cons.inj heq
    rw [← List.append_cancel_right heq] at hcontent
    have hreturn := return_notMem_of_content hcontent
    exact ⟨hreturn, hcontent.unique (content_literalChar hreturn)⟩
  · rintro ⟨hreturn, rfl⟩
    exact ⟨_, rfl, content_literalChar hreturn⟩

/-! ### The description of a marker -/

namespace MarkerOptions

variable {s : Source} {o : MarkerOptions}

/-- The value of the last property with the key of descriptions in the object that the marker is called with. -/
def DescribedBy (s : Source) (marker : Decorator) (value : Node) : Prop :=
  ∃ object others before property after key, marker.arguments = object :: others ∧ object.kind = .object ∧
    object.children = before ++ property :: after ∧ property.kind = .pair ∧ property.child? .key = some key ∧
    keyText s key = "description" ∧ property.child? .value = some value ∧
    ∀ p ∈ after, p.kind = .pair → ∀ key, p.child? .key = some key → keyText s key ≠ "description"

/-- A string or a template without substitutions. -/
def IsLiteral (value : Node) : Prop :=
  value.kind = .string ∨ value.kind = .templateString ∧ value.childrenOf .templateSubstitution = []

theorem value?_of_isLiteral {value : Node} (h : IsLiteral value) :
    value? s value = some (.text (s.stringValue value)) := by
  obtain hkind | ⟨hkind, hsubstitutions⟩ := h
  · rw [value?, hkind]
  · rw [value?, hkind, hsubstitutions]
    rfl

theorem set_description {key : String} (h : key ≠ "description") (v : OptionValue) :
    (o.set key v).description = o.description := by
  unfold set
  split
  · split <;> rfl
  · split
    · exact absurd rfl h
    all_goals rfl

theorem readProperty_description {p : Node}
    (h : p.kind = .pair → ∀ key, p.child? .key = some key → keyText s key ≠ "description") :
    (readProperty s o p).description = o.description := by
  unfold readProperty
  split
  case isFalse => rfl
  rename_i hpair
  split
  case h_2 => rfl
  rename_i key value hkey _
  split
  · exact set_description (h hpair key hkey) _
  · rfl

theorem foldl_readProperty_description {ps : List Node}
    (h : ∀ p ∈ ps, p.kind = .pair → ∀ key, p.child? .key = some key → keyText s key ≠ "description") :
    (ps.foldl (readProperty s) o).description = o.description := by
  induction ps generalizing o with
  | nil => rfl
  | cons p ps ih =>
    rw [List.foldl_cons, ih (List.forall_mem_cons.mp h).2, readProperty_description (List.forall_mem_cons.mp h).1]

/-- What a marker is named does not matter to its description. -/
theorem ofMarker_description (conventions : Conventions) (marker : Decorator) :
    (ofMarker conventions s marker).description = (ofArguments s marker.arguments).description := by
  unfold ofMarker
  simp only
  split <;> split <;> rfl

/-- The description of a marker is the text that is read of its literal. -/
theorem description_of_describedBy {marker : Decorator} {value : Node} (conventions : Conventions)
    (h : DescribedBy s marker value) (hliteral : IsLiteral value) :
    (ofMarker conventions s marker).description = some (s.stringValue value) := by
  obtain ⟨object, others, before, property, after, key, harguments, hobject, hchildren, hpair, hkey, htext, hvalue,
    hafter⟩ := h
  rw [ofMarker_description, harguments, ofArguments, if_pos hobject, hchildren, List.foldl_append, List.foldl_cons,
    foldl_readProperty_description hafter, readProperty, if_pos hpair, hkey, hvalue]
  simp only [value?_of_isLiteral hliteral, htext]
  rfl

end MarkerOptions

/-- Something is left of whatever is read. -/
theorem unescaped_ne_nil (h : cs ≠ []) : unescaped cs ≠ [] := by
  cases cs using unescaped.fun_cases with
  | case1 c cs hback =>
    rw [unescaped, if_pos hback]
    exact List.cons_ne_nil _ _
  | case2 c cs hback =>
    rw [unescaped, if_neg hback]
    exact List.cons_ne_nil _ _
  | case3 c cs hslash =>
    rw [unescaped.eq_2 _ _ hslash]
    exact List.cons_ne_nil _ _
  | case4 => exact absurd rfl h

/-- A description is read of a literal and written as a new one. The new one is well formed exactly if no carriage
    return stands between the old quotes, and denotes what the old one denotes exactly if, besides, nothing but quotes
    and backslashes is escaped there. -/
theorem decoratorText_description (docs : Documentation) (conventions : Conventions) (mapping : Mapping)
    {s : Source} {marker : Decorator} {value : Node} {o : MarkerOptions} {content : List Char}
    (hmarker : MarkerOptions.DescribedBy s marker value) (hliteral : MarkerOptions.IsLiteral value)
    (hwritten : s.charsOf value = form.quote :: content ++ [form.quote]) (hcontent : Content form content us)
    (hsome : content ≠ []) (ho : o.description = (MarkerOptions.ofMarker conventions s marker).description) :
    ∃ emitted : String,
      decoratorText docs mapping o = "@" ++ docs.decoratorFor mapping.status ++ "(\x7b type: " ++ mapping.reference ++
        (if mapping.isList then ", isArray: true" else "") ++ ", description: " ++ emitted ++ " \x7d)" ∧
      (∀ us', Denotes .single emitted.toList us' ↔ '\r' ∉ content ∧ us' = (unescaped content).flatMap units) ∧
      (Denotes .single emitted.toList us ↔ QuotesOnly content) := by
  have hquote : form.quote = '\x27' ∨ form.quote = '\x22' ∨ form.quote = '\x60' := by cases form <;> decide
  have htext : s.stringValue value = String.ofList (unescaped content) := by
    rw [Source.stringValue, hwritten, unquote_quoted hquote]
  have hgiven : givenName o.description = some (String.ofList (unescaped content)) := by
    have hnonempty : String.ofList (unescaped content) ≠ "" := by
      simpa using unescaped_ne_nil hsome
    rw [ho, MarkerOptions.description_of_describedBy conventions hmarker hliteral, htext, givenName]
    exact Option.filter_eq_some_iff.mpr ⟨rfl, by simpa using hnonempty⟩
  have hdenotes (us' : List Nat) : Denotes .single (literal (String.ofList (unescaped content))).toList us' ↔
      '\r' ∉ content ∧ us' = (unescaped content).flatMap units := by
    rw [denotes_literal_iff, String.toList_ofList, mem_unescaped (by decide)]
  refine ⟨literal (String.ofList (unescaped content)), ?_, hdenotes, ?_⟩
  · rw [decoratorText_eq, hgiven, Option.elim_some]
    simp only [String.append_assoc]
  · obtain ⟨-, hsame, hmore⟩ := content_unescaped hcontent
    rw [hdenotes]
    constructor
    · rintro ⟨hreturn, heq⟩
      by_contra hquotes
      obtain h | h := hmore hquotes
      · exact hreturn h
      · exact absurd (congrArg List.length heq) (Nat.ne_of_lt h)
    · exact fun h => ⟨h.return_notMem, hsame h⟩

/-! ### A description of two lines -/

namespace TwoLines

def conventions : Conventions :=
  (Settings.standard (Path.ofString "/project")).conventions

def docs : Documentation :=
  (Settings.standard (Path.ofString "/project")).documentation

/-- A handler of which the description has a line feed, written as an escape. -/
def source : Source :=
  Source.ofText ("export class UsersController \x7b\n" ++
    "  @InferAPIResponse(\x7b description: 'Line one\\nLine two' \x7d)\n  @Get()\n  findOne() \x7b\x7d\n\x7d\n")

def value : Node :=
  .mk .string (some .value) 66 86 []

/-- The marker of the handler. -/
def marker : Decorator :=
  { node := .mk .decorator none 33 89 []
    name := some "InferAPIResponse"
    isCall := true
    arguments :=
      [.mk .object none 51 88 [.mk .pair none 53 86 [.mk .propertyIdentifier (some .key) 53 64 [], value]]] }

def mapping : Mapping :=
  { endpoint := "Users", handler := "findOne", unit := "UsersService", member := "findOne"
    declaration := "UsersServiceFindOneResponse", reference := "UsersServiceResponse.findOne", isList := false
    status := .ok, verb := some "Get" }

/-- What the description denotes. -/
def units : List Nat :=
  "Line one\nLine two".toList.flatMap Text.units

/-- The options of the marker, as the source has it. -/
def options : MarkerOptions :=
  { MarkerOptions.empty with description := some "Line one\\nLine two" }

theorem describedBy : MarkerOptions.DescribedBy source marker value := by
  refine ⟨_, [], [], _, [], _, rfl, rfl, rfl, rfl, rfl, ?_, rfl, List.forall_mem_nil _⟩
  rw [MarkerOptions.keyText, if_neg (by decide), Source.textOf, Source.charsOf, Source.slice, source,
    Source.text_ofText]
  decide +kernel

theorem charsOf_value :
    source.charsOf value = Form.single.quote :: "Line one\\nLine two".toList ++ [Form.single.quote] := by
  rw [Source.charsOf, Source.slice, source, Source.text_ofText]
  decide +kernel

theorem description : options.description = (MarkerOptions.ofMarker conventions source marker).description := by
  rw [MarkerOptions.description_of_describedBy conventions describedBy (.inl rfl), Source.stringValue, charsOf_value]
  decide +kernel

end TwoLines

theorem decoratorText_description_twoLines :
    (TwoLines.source.classes.flatMap fun c => c.methods.flatMap fun m =>
      (markersOf TwoLines.conventions m.decorators).map (MarkerOptions.ofMarker TwoLines.conventions TwoLines.source)) =
        [TwoLines.options] ∧
    Denotes .single (TwoLines.source.charsOf TwoLines.value) TwoLines.units ∧
    ∃ emitted : String,
      decoratorText TwoLines.docs TwoLines.mapping TwoLines.options =
        "@ApiOkResponse(\x7b type: UsersServiceResponse.findOne, description: " ++ emitted ++ " \x7d)" ∧
      ¬ Denotes .single emitted.toList TwoLines.units := by
  have hreturn : '\r' ∉ "Line one\nLine two".toList := by decide
  have hcontent : Content .single "Line one\\nLine two".toList TwoLines.units := content_literalChar hreturn
  obtain ⟨emitted, htext, hdenotes, -⟩ := decoratorText_description TwoLines.docs TwoLines.conventions TwoLines.mapping
    TwoLines.describedBy (.inl rfl) TwoLines.charsOf_value hcontent (by decide) TwoLines.description
  have hother : ¬ Denotes .single emitted.toList TwoLines.units := fun h =>
    absurd ((hdenotes _).mp h).2 (by decide +kernel)
  exact ⟨by decide +kernel, ⟨_, TwoLines.charsOf_value, hcontent⟩, emitted, htext, hother⟩

end ResponseShapes
