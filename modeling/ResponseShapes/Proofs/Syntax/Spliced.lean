import ResponseShapes.Proofs.Edit.Frame
import ResponseShapes.Proofs.Syntax.Alike
import ResponseShapes.Proofs.Syntax.Decorated
import ResponseShapes.Syntax.Lexeme

/-! # Trees of edited texts

When decorators of a text are edited, the tree of the new text is the tree of the text before with these decorators
spliced: one that an edit covers is dropped or gives way to a new one, one behind which something is put in is followed
by a new one, and all other nodes are where the edits move them (`Spliced`). A comment may come to stand in another node
than before, so nothing is asked of comments. What no edit reaches into reads the same as before (`Spliced.alike`). -/

namespace ResponseShapes.Syntax

/-- What edits do to a node. -/
inductive Piece
  | kept
  | dropped
  /-- A new decorator stands in the place of the node. -/
  | replaced
  /-- A new decorator stands behind the node. -/
  | followed
  deriving DecidableEq, Repr

/-- Whether the text is a single word, as an identifier is. -/
def isWord (name : String) : Bool :=
  match name.toList with
  | c :: cs => isWordStart c && cs.all isWordPart
  | [] => false

namespace Node

/-- An edit covers the node. -/
def Covered (es : List (Edit Char)) (n : Node) : Prop :=
  ∃ e ∈ es, e.start = n.start ∧ n.stop ≤ e.stop

/-- What edits do to a node; only decorators are edited. -/
def pieceOf (es : List (Edit Char)) (n : Node) : Piece :=
  if n.kind = .decorator then
    match es.find? fun e => e.start = n.start && n.stop ≤ e.stop with
    | some e => if e.replacement.isEmpty then .dropped else .replaced
    | none => if es.any fun e => e.start = n.stop && e.stop = n.stop then .followed else .kept
  else .kept

/-- The node is a new decorator with one of the names. A name that is no word need not be read as one. -/
def Fresh (names : List String) (s' : Source) (n : Node) : Prop :=
  n.kind = .decorator ∧ n.role = none ∧
    ((∃ name ∈ names, (s'.decorator n).name = some name) ∨
      (s'.decorator n).name = none ∧ ∃ name ∈ names, isWord name = false)

instance (names : List String) (s' : Source) (n : Node) : Decidable (n.Fresh names s') :=
  inferInstanceAs (Decidable (_ ∧ _ ∧ (_ ∨ _ ∧ _)))

mutual

/-- The second node is the first one after the edits: it stands for the same, at the place to which the edits move it
    if they do not reach into it, and its children are those of the first one, spliced. Comments may stand anywhere. -/
def Spliced (es : List (Edit Char)) (names : List String) (s' : Source) : Node → Node → Prop
  | mk k r a b cs, n' => n'.kind = k ∧ n'.role = r ∧
    (Edit.Untouched es a b → n'.start = Edit.moved es a ∧ n'.stop = Edit.moved es a + (b - a)) ∧
    SplicedAll es names s' cs n'.parts

def SplicedAll (es : List (Edit Char)) (names : List String) (s' : Source) : List Node → List Node → Prop
  | [], ns' => ns' = []
  | n :: ns, ns' =>
    if n.isNote then SplicedAll es names s' ns ns'
    else
      match pieceOf es n with
      | .kept =>
        match ns' with
        | n' :: rest => n.Spliced es names s' n' ∧ SplicedAll es names s' ns rest
        | [] => False
      | .dropped => SplicedAll es names s' ns ns'
      | .replaced =>
        match ns' with
        | d :: rest => d.Fresh names s' ∧ SplicedAll es names s' ns rest
        | [] => False
      | .followed =>
        match ns' with
        | n' :: d :: rest => n.Spliced es names s' n' ∧ d.Fresh names s' ∧ SplicedAll es names s' ns rest
        | _ => False

end

mutual

def decideSpliced (es : List (Edit Char)) (names : List String) (s' : Source) :
    (n n' : Node) → Decidable (n.Spliced es names s' n')
  | mk k r a b cs, n' =>
    have := decideSplicedAll es names s' cs n'.parts
    decidable_of_iff (n'.kind = k ∧ n'.role = r ∧
      ((∀ e ∈ es, e.stop ≤ a ∨ b ≤ e.start) →
        n'.start = Edit.moved es a ∧ n'.stop = Edit.moved es a + (b - a)) ∧
      SplicedAll es names s' cs n'.parts) (by rw [Spliced, Edit.Untouched])

def decideSplicedAll (es : List (Edit Char)) (names : List String) (s' : Source) :
    (ns ns' : List Node) → Decidable (SplicedAll es names s' ns ns')
  | [], [] => .isTrue (by rw [SplicedAll])
  | [], _ :: _ => .isFalse (by simp [SplicedAll])
  | n :: ns, ns' =>
    if hnote : n.isNote = true then
      have := decideSplicedAll es names s' ns ns'
      decidable_of_iff (SplicedAll es names s' ns ns') (by simp [SplicedAll, hnote])
    else
      match hp : pieceOf es n, ns' with
      | .kept, n' :: rest =>
        have := decideSpliced es names s' n n'
        have := decideSplicedAll es names s' ns rest
        decidable_of_iff (n.Spliced es names s' n' ∧ SplicedAll es names s' ns rest) (by simp [SplicedAll, hp, hnote])
      | .dropped, ns' =>
        have := decideSplicedAll es names s' ns ns'
        decidable_of_iff (SplicedAll es names s' ns ns') (by simp [SplicedAll, hp])
      | .replaced, d :: rest =>
        have := decideSplicedAll es names s' ns rest
        decidable_of_iff (d.Fresh names s' ∧ SplicedAll es names s' ns rest) (by simp [SplicedAll, hp, hnote])
      | .followed, n' :: d :: rest =>
        have := decideSpliced es names s' n n'
        have := decideSplicedAll es names s' ns rest
        decidable_of_iff (n.Spliced es names s' n' ∧ d.Fresh names s' ∧ SplicedAll es names s' ns rest)
          (by simp [SplicedAll, hp, hnote])
      | .kept, [] => .isFalse (by simp [SplicedAll, hp, hnote])
      | .replaced, [] => .isFalse (by simp [SplicedAll, hp, hnote])
      | .followed, [] => .isFalse (by simp [SplicedAll, hp, hnote])
      | .followed, [_] => .isFalse (by simp [SplicedAll, hp, hnote])

end

instance (es : List (Edit Char)) (names : List String) (s' : Source) (ns ns' : List Node) :
    Decidable (SplicedAll es names s' ns ns') :=
  decideSplicedAll es names s' ns ns'

/-! ### Pieces -/

section Pieces
variable {es : List (Edit Char)} {n : Node}

theorem pieceOf_of_kind_ne (h : n.kind ≠ .decorator) : pieceOf es n = .kept := by
  unfold pieceOf
  rw [if_neg h]

theorem find?_covering : (es.find? fun e => e.start = n.start && n.stop ≤ e.stop) = none ↔ ¬n.Covered es := by
  simp [Covered]

variable (hkind : n.kind = .decorator)
include hkind

theorem pieceOf_of_covered (h : n.Covered es) : pieceOf es n = .dropped ∨ pieceOf es n = .replaced := by
  unfold pieceOf
  rw [if_pos hkind]
  split
  · split
    · exact Or.inl rfl
    · exact Or.inr rfl
  · rename_i hnone
    exact absurd h (find?_covering.mp hnone)

theorem pieceOf_of_replaced (h : n.Covered es)
    (hall : ∀ e ∈ es, e.start = n.start → n.stop ≤ e.stop → e.replacement ≠ []) : pieceOf es n = .replaced := by
  unfold pieceOf
  rw [if_pos hkind]
  split
  · rename_i e hfind
    have hcover := List.find?_some hfind
    simp only [Bool.and_eq_true, decide_eq_true_eq] at hcover
    rw [if_neg]
    rw [List.isEmpty_iff]
    exact hall e (List.mem_of_find?_eq_some hfind) hcover.1 hcover.2
  · rename_i hnone
    exact absurd h (find?_covering.mp hnone)

theorem pieceOf_of_not_covered (h : ¬n.Covered es) : pieceOf es n =
    if es.any fun e => e.start = n.stop && e.stop = n.stop then .followed else .kept := by
  unfold pieceOf
  rw [if_pos hkind, find?_covering.mpr h]

end Pieces

/-! ### Lists of spliced nodes -/

section Lists
variable {es : List (Edit Char)} {names : List String} {s' : Source} {n n' d : Node} {ns ns' ms ms' : List Node}

theorem splicedAll_note (h : n.isNote = true) :
    SplicedAll es names s' (n :: ns) ns' ↔ SplicedAll es names s' ns ns' := by
  rw [SplicedAll.eq_def]
  simp [h]

theorem splicedAll_cons (h : n.isNote = false) : SplicedAll es names s' (n :: ns) ns' ↔
    (pieceOf es n = .kept ∧ ∃ n' rest, ns' = n' :: rest ∧ n.Spliced es names s' n' ∧
        SplicedAll es names s' ns rest) ∨
      (pieceOf es n = .dropped ∧ SplicedAll es names s' ns ns') ∨
      (pieceOf es n = .replaced ∧ ∃ d rest, ns' = d :: rest ∧ d.Fresh names s' ∧ SplicedAll es names s' ns rest) ∨
      (pieceOf es n = .followed ∧ ∃ n' d rest, ns' = n' :: d :: rest ∧ n.Spliced es names s' n' ∧
        d.Fresh names s' ∧ SplicedAll es names s' ns rest) := by
  rw [SplicedAll.eq_def]
  cases hpiece : pieceOf es n with
  | kept => cases ns' <;> simp [hpiece, h]
  | dropped => simp [hpiece, h]
  | replaced => cases ns' <;> simp [hpiece, h]
  | followed =>
    cases ns' with
    | nil => simp [hpiece, h]
    | cons n' rest => cases rest <;> simp [hpiece, h]

theorem kind_of_pieceOf (h : pieceOf es n ≠ .kept) : n.kind = .decorator := by
  by_contra hne
  exact h (pieceOf_of_kind_ne hne)

theorem isNote_of_pieceOf (h : pieceOf es n ≠ .kept) : n.isNote = false :=
  isNote_of_decorator (kind_of_pieceOf h)

namespace SplicedAll

theorem nil : SplicedAll es names s' [] [] := by
  rw [SplicedAll]

theorem note (hnote : n.isNote = true) (hns : SplicedAll es names s' ns ns') : SplicedAll es names s' (n :: ns) ns' :=
  (splicedAll_note hnote).mpr hns

theorem kept (hnote : n.isNote = false) (hp : pieceOf es n = .kept) (hn : n.Spliced es names s' n')
    (hns : SplicedAll es names s' ns ns') : SplicedAll es names s' (n :: ns) (n' :: ns') :=
  (splicedAll_cons hnote).mpr (Or.inl ⟨hp, n', ns', rfl, hn, hns⟩)

theorem dropped (hp : pieceOf es n = .dropped) (hns : SplicedAll es names s' ns ns') :
    SplicedAll es names s' (n :: ns) ns' :=
  (splicedAll_cons (isNote_of_pieceOf (by rw [hp]; decide))).mpr (Or.inr (Or.inl ⟨hp, hns⟩))

theorem replaced (hp : pieceOf es n = .replaced) (hd : d.Fresh names s') (hns : SplicedAll es names s' ns ns') :
    SplicedAll es names s' (n :: ns) (d :: ns') :=
  (splicedAll_cons (isNote_of_pieceOf (by rw [hp]; decide))).mpr (Or.inr (Or.inr (Or.inl ⟨hp, d, ns', rfl, hd, hns⟩)))

theorem followed (hp : pieceOf es n = .followed) (hn : n.Spliced es names s' n') (hd : d.Fresh names s')
    (hns : SplicedAll es names s' ns ns') : SplicedAll es names s' (n :: ns) (n' :: d :: ns') :=
  (splicedAll_cons (isNote_of_pieceOf (by rw [hp]; decide))).mpr
    (Or.inr (Or.inr (Or.inr ⟨hp, n', d, ns', rfl, hn, hd, hns⟩)))

/-- Induction along the pieces of a spliced list. -/
@[elab_as_elim]
theorem induction {motive : (ns ns' : List Node) → SplicedAll es names s' ns ns' → Prop} (nil : motive [] [] nil)
    (note : ∀ n ns ns' (hnote : n.isNote = true) (hns : SplicedAll es names s' ns ns'),
      motive ns ns' hns → motive (n :: ns) ns' (note hnote hns))
    (kept : ∀ n n' ns ns' (hnote : n.isNote = false) (hp : pieceOf es n = .kept) (hn : n.Spliced es names s' n')
      (hns : SplicedAll es names s' ns ns'), motive ns ns' hns → motive (n :: ns) (n' :: ns') (kept hnote hp hn hns))
    (dropped : ∀ n ns ns' (hp : pieceOf es n = .dropped) (hns : SplicedAll es names s' ns ns'),
      motive ns ns' hns → motive (n :: ns) ns' (dropped hp hns))
    (replaced : ∀ n d ns ns' (hp : pieceOf es n = .replaced) (hd : d.Fresh names s')
      (hns : SplicedAll es names s' ns ns'), motive ns ns' hns → motive (n :: ns) (d :: ns') (replaced hp hd hns))
    (followed : ∀ n n' d ns ns' (hp : pieceOf es n = .followed) (hn : n.Spliced es names s' n')
      (hd : d.Fresh names s') (hns : SplicedAll es names s' ns ns'), motive ns ns' hns →
      motive (n :: ns) (n' :: d :: ns') (followed hp hn hd hns))
    (h : SplicedAll es names s' ns ns') : motive ns ns' h := by
  induction ns generalizing ns' with
  | nil =>
    have hnil := h
    rw [SplicedAll] at hnil
    subst hnil
    exact nil
  | cons n ns ih =>
    cases hnote : n.isNote with
    | true =>
      have hns := (splicedAll_note hnote).mp h
      exact note n ns ns' hnote hns (ih hns)
    | false =>
      rcases (splicedAll_cons hnote).mp h with ⟨hp, n', rest, rfl, hn, hns⟩ | ⟨hp, hns⟩ | ⟨hp, d, rest, rfl, hd, hns⟩ |
        ⟨hp, n', d, rest, rfl, hn, hd, hns⟩
      · exact kept n n' ns rest hnote hp hn hns (ih hns)
      · exact dropped n ns ns' hp hns (ih hns)
      · exact replaced n d ns rest hp hd hns (ih hns)
      · exact followed n n' d ns rest hp hn hd hns (ih hns)

theorem append (h : SplicedAll es names s' ns ns') (h' : SplicedAll es names s' ms ms') :
    SplicedAll es names s' (ns ++ ms) (ns' ++ ms') := by
  induction h using SplicedAll.induction with
  | nil => exact h'
  | note n ns ns' hnote _ ih => exact .note hnote ih
  | kept n n' ns ns' hnote hp hn _ ih => exact .kept hnote hp hn ih
  | dropped n ns ns' hp _ ih => exact .dropped hp ih
  | replaced n d ns ns' hp hd _ ih => exact .replaced hp hd ih
  | followed n n' d ns ns' hp hn hd _ ih => exact .followed hp hn hd ih

end SplicedAll

theorem Spliced.kind_eq (h : n.Spliced es names s' n') : n'.kind = n.kind := by
  cases n
  rw [Spliced] at h
  exact h.1

theorem Spliced.role_eq (h : n.Spliced es names s' n') : n'.role = n.role := by
  cases n
  rw [Spliced] at h
  exact h.2.1

theorem Spliced.place (h : n.Spliced es names s' n') (hfree : Edit.Untouched es n.start n.stop) :
    n'.start = Edit.moved es n.start ∧ n'.stop = Edit.moved es n.start + (n.stop - n.start) := by
  cases n
  rw [Spliced] at h
  exact h.2.2.1 hfree

theorem Spliced.parts (h : n.Spliced es names s' n') : SplicedAll es names s' n.children n'.parts := by
  cases n
  rw [Spliced] at h
  exact h.2.2.2

theorem SplicedAll.decorators (h : SplicedAll es names s' ns ns') :
    SplicedAll es names s' (ns.filter (·.kind == .decorator)) (ns'.filter (·.kind == .decorator)) := by
  induction h using SplicedAll.induction with
  | nil => exact .nil
  | note n ns ns' hnote _ ih =>
    rw [List.filter_cons_of_neg (by simp [(isNote_eq_true.mp hnote).1])]
    exact ih
  | kept n n' ns ns' hnote hp hn _ ih =>
    rw [List.filter_cons, List.filter_cons, hn.kind_eq]
    split
    · exact .kept hnote hp hn ih
    · exact ih
  | dropped n ns ns' hp _ ih =>
    have hk := kind_of_pieceOf (n := n) (by rw [hp]; decide)
    rw [List.filter_cons_of_pos (by simp [hk])]
    exact .dropped hp ih
  | replaced n d ns ns' hp hd _ ih =>
    have hk := kind_of_pieceOf (n := n) (by rw [hp]; decide)
    rw [List.filter_cons_of_pos (by simp [hk]), List.filter_cons_of_pos (by simp [hd.1])]
    exact .replaced hp hd ih
  | followed n n' d ns ns' hp hn hd _ ih =>
    have hk := kind_of_pieceOf (n := n) (by rw [hp]; decide)
    rw [List.filter_cons_of_pos (by simp [hk]), List.filter_cons_of_pos (by simp [hn.kind_eq, hk]),
      List.filter_cons_of_pos (by simp [hd.1])]
    exact .followed hp hn hd ih

section Others
variable {p : Node → Bool} (hsame : ∀ x x', x.Spliced es names s' x' → p x = p x')
  (hfresh : ∀ d, d.Fresh names s' → p d = false) (hnotes : ∀ x : Node, x.isNote = true → p x = false)
include hsame hfresh hnotes

theorem SplicedAll.find? (h : SplicedAll es names s' ns ns')
    (hdec : ∀ n ∈ ns, n.kind = .decorator → p n = false) :
    Option.Rel (Spliced es names s') (ns.find? p) (ns'.find? p) := by
  have hpiece : ∀ {n : Node} {ns : List Node}, (∀ n' ∈ n :: ns, n'.kind = .decorator → p n' = false) →
      pieceOf es n ≠ .kept → p n = false := fun hdec hp => hdec _ List.mem_cons_self (kind_of_pieceOf hp)
  induction h using SplicedAll.induction with
  | nil => exact .none
  | note n ns ns' hnote _ ih =>
    rw [List.find?_cons_of_neg (by simp [hnotes n hnote])]
    exact ih fun m hm => hdec m (List.mem_cons_of_mem _ hm)
  | kept n n' ns ns' _ hp hn _ ih =>
    rw [List.find?_cons, List.find?_cons, ← hsame n n' hn]
    cases p n with
    | true => exact .some hn
    | false => exact ih fun m hm => hdec m (List.mem_cons_of_mem _ hm)
  | dropped n ns ns' hp _ ih =>
    rw [List.find?_cons_of_neg (by simp [hpiece hdec (by rw [hp]; decide)])]
    exact ih fun m hm => hdec m (List.mem_cons_of_mem _ hm)
  | replaced n d ns ns' hp hd _ ih =>
    rw [List.find?_cons_of_neg (by simp [hpiece hdec (by rw [hp]; decide)]),
      List.find?_cons_of_neg (by simp [hfresh d hd])]
    exact ih fun m hm => hdec m (List.mem_cons_of_mem _ hm)
  | followed n n' d ns ns' hp hn hd _ ih =>
    have hpn := hpiece hdec (by rw [hp]; decide)
    rw [List.find?_cons_of_neg (by simp [hpn]), List.find?_cons_of_neg (by simp [← hsame n n' hn, hpn]),
      List.find?_cons_of_neg (by simp [hfresh d hd])]
    exact ih fun m hm => hdec m (List.mem_cons_of_mem _ hm)

theorem SplicedAll.filter (h : SplicedAll es names s' ns ns') (hdec : ∀ n, n.kind = .decorator → p n = false) :
    List.Forall₂ (Spliced es names s') (ns.filter p) (ns'.filter p) := by
  have hpiece : ∀ {n : Node}, pieceOf es n ≠ .kept → p n = false := fun hp => hdec _ (kind_of_pieceOf hp)
  induction h using SplicedAll.induction with
  | nil => exact .nil
  | note n ns ns' hnote _ ih =>
    rw [List.filter_cons_of_neg (by simp [hnotes n hnote])]
    exact ih
  | kept n n' ns ns' _ hp hn _ ih =>
    rw [List.filter_cons, List.filter_cons, ← hsame n n' hn]
    split
    · exact .cons hn ih
    · exact ih
  | dropped n ns ns' hp _ ih =>
    rw [List.filter_cons_of_neg (by simp [hpiece (n := n) (by rw [hp]; decide)])]
    exact ih
  | replaced n d ns ns' hp hd _ ih =>
    rw [List.filter_cons_of_neg (by simp [hpiece (n := n) (by rw [hp]; decide)]),
      List.filter_cons_of_neg (by simp [hfresh d hd])]
    exact ih
  | followed n n' d ns ns' hp hn hd _ ih =>
    have hpn : p n = false := hpiece (by rw [hp]; decide)
    rw [List.filter_cons_of_neg (by simp [hpn]), List.filter_cons_of_neg (by simp [← hsame n n' hn, hpn]),
      List.filter_cons_of_neg (by simp [hfresh d hd])]
    exact ih

end Others

theorem SplicedAll.mem (h : SplicedAll es names s' ns ns') {x : Node} (hx : x ∈ ns') : x.Fresh names s' ∨
    ∃ n ∈ ns, n.Spliced es names s' x ∧ (pieceOf es n = .kept ∨ pieceOf es n = .followed) := by
  have hlater : ∀ {n : Node} {ns : List Node} {x : Node},
      (x.Fresh names s' ∨ ∃ m ∈ ns, m.Spliced es names s' x ∧ (pieceOf es m = .kept ∨ pieceOf es m = .followed)) →
      x.Fresh names s' ∨ ∃ m ∈ n :: ns, m.Spliced es names s' x ∧ (pieceOf es m = .kept ∨ pieceOf es m = .followed) :=
    fun h => h.imp_right fun ⟨m, hm, hmx⟩ => ⟨m, List.mem_cons_of_mem _ hm, hmx⟩
  induction h using SplicedAll.induction with
  | nil => cases hx
  | note n ns ns' _ _ ih => exact hlater (ih hx)
  | kept n n' ns ns' _ hp hn _ ih =>
    rcases List.mem_cons.mp hx with rfl | hx
    · exact Or.inr ⟨n, List.mem_cons_self, hn, Or.inl hp⟩
    · exact hlater (ih hx)
  | dropped n ns ns' hp _ ih => exact hlater (ih hx)
  | replaced n d ns ns' hp hd _ ih =>
    rcases List.mem_cons.mp hx with rfl | hx
    · exact Or.inl hd
    · exact hlater (ih hx)
  | followed n n' d ns ns' hp hn hd _ ih =>
    rcases List.mem_cons.mp hx with rfl | hx
    · exact Or.inr ⟨n, List.mem_cons_self, hn, Or.inr hp⟩
    · rcases List.mem_cons.mp hx with rfl | hx
      · exact Or.inl hd
      · exact hlater (ih hx)

/-- Where a node gives way or is followed, a new one stands in the list. -/
theorem SplicedAll.exists_fresh (h : SplicedAll es names s' ns ns') (hn : n ∈ ns)
    (hp : pieceOf es n = .replaced ∨ pieceOf es n = .followed) : ∃ d ∈ ns', d.Fresh names s' := by
  induction h using SplicedAll.induction with
  | nil => cases hn
  | note m ns ns' hnote _ ih =>
    rcases List.mem_cons.mp hn with rfl | hn
    · have hedited : pieceOf es n ≠ .kept := by rcases hp with hp | hp <;> rw [hp] <;> decide
      rw [isNote_of_pieceOf hedited] at hnote
      cases hnote
    · exact ih hn
  | kept m m' ns ns' _ hm _ _ ih =>
    rcases List.mem_cons.mp hn with rfl | hn
    · rw [hm] at hp
      rcases hp with hp | hp <;> cases hp
    · obtain ⟨d, hd, hfresh⟩ := ih hn
      exact ⟨d, List.mem_cons_of_mem _ hd, hfresh⟩
  | dropped m ns ns' hm _ ih =>
    rcases List.mem_cons.mp hn with rfl | hn
    · rw [hm] at hp
      rcases hp with hp | hp <;> cases hp
    · exact ih hn
  | replaced m d ns ns' hm hd _ _ => exact ⟨d, List.mem_cons_self, hd⟩
  | followed m m' d ns ns' hm _ hd _ _ => exact ⟨d, List.mem_cons_of_mem _ List.mem_cons_self, hd⟩

theorem SplicedAll.all_kept (h : SplicedAll es names s' ns ns') (hnotes : ∀ n ∈ ns, n.isNote = false)
    (hkept : ∀ n ∈ ns, pieceOf es n = .kept) : List.Forall₂ (Spliced es names s') ns ns' := by
  induction h using SplicedAll.induction with
  | nil => exact .nil
  | note n ns ns' hnote _ _ =>
    rw [hnotes n List.mem_cons_self] at hnote
    cases hnote
  | kept n n' ns ns' _ hp hn _ ih =>
    exact .cons hn (ih (fun m hm => hnotes m (List.mem_cons_of_mem _ hm)) fun m hm =>
      hkept m (List.mem_cons_of_mem _ hm))
  | dropped n ns ns' hp _ _ =>
    rw [hkept n List.mem_cons_self] at hp
    cases hp
  | replaced n d ns ns' hp _ _ _ =>
    rw [hkept n List.mem_cons_self] at hp
    cases hp
  | followed n n' d ns ns' hp _ _ _ _ =>
    rw [hkept n List.mem_cons_self] at hp
    cases hp

theorem Spliced.child? (h : n.Spliced es names s' n') (r : Role)
    (hrole : ∀ x ∈ n.children, x.kind = .decorator → x.role = none) :
    Option.Rel (Spliced es names s') (n.child? r) (n'.child? r) := by
  rw [child?_eq n']
  refine SplicedAll.find? (fun x x' hx => by rw [hx.role_eq]) (fun d hd => ?_) (fun x hx => ?_) h.parts
    fun x hx hk => ?_
  · rw [hd.2.1]
    rfl
  · rw [(isNote_eq_true.mp hx).2]
    rfl
  · rw [hrole x hx hk]
    rfl

theorem Spliced.childrenOf (h : n.Spliced es names s' n') {k : Kind} (hk : k ≠ .decorator) (hk' : k ≠ .comment) :
    List.Forall₂ (Spliced es names s') (n.childrenOf k) (n'.childrenOf k) := by
  rw [childrenOf_eq n' hk']
  refine SplicedAll.filter (fun x x' hx => by rw [hx.kind_eq]) (fun d hd => ?_) (fun x hx => ?_) h.parts fun x hx => ?_
  · rw [hd.1]
    exact beq_false_of_ne hk.symm
  · rw [(isNote_eq_true.mp hx).1]
    exact beq_false_of_ne hk'.symm
  · rw [hx]
    exact beq_false_of_ne hk.symm

theorem Spliced.decorators (h : n.Spliced es names s' n') :
    SplicedAll es names s' (n.childrenOf .decorator) (n'.childrenOf .decorator) := by
  rw [childrenOf_eq n' (by decide)]
  exact h.parts.decorators

end Lists

/-! ### What no edit reaches into -/

section Untouched
variable {s s' : Source} {es : List (Edit Char)} {names : List String} {n : Node}

theorem pieceOf_of_untouched {lower upper : Nat} (hfree : Edit.Untouched es lower upper) (hlow : lower ≤ n.start)
    (hdec : n.kind = .decorator → n.start < n.stop ∧ n.stop < upper) :
    pieceOf es n = .kept := by
  by_cases hkind : n.kind = .decorator
  · obtain ⟨hlt, hlt'⟩ := hdec hkind
    have hcover : ¬n.Covered es := by
      rintro ⟨e, he, hstart, hstop⟩
      rcases hfree e he with h | h <;> omega
    rw [pieceOf_of_not_covered hkind hcover, if_neg]
    intro hany
    obtain ⟨e, he, hends⟩ := List.any_eq_true.mp hany
    simp only [Bool.and_eq_true, decide_eq_true_eq] at hends
    rcases hfree e he with h | h <;> omega
  · exact pieceOf_of_kind_ne hkind

/-- The second source holds each stretch that no edit reaches into where the edits move it. -/
def Carried (es : List (Edit Char)) (s s' : Source) : Prop :=
  ∀ a b, a ≤ b → b ≤ s.text.length → Edit.Untouched es a b →
    s'.slice (Edit.moved es a) (Edit.moved es a + (b - a)) = s.slice a b

theorem carried_of_apply (hfit : ∀ e ∈ es, e.Fits s.text.length) (hapart : es.Pairwise Edit.Apart)
    (happly : Edit.apply s.text es = .ok s'.text) : Carried es s s' := by
  intro a b hab hb hfree
  unfold Source.slice
  rw [Nat.add_sub_cancel_left]
  exact Edit.slice_apply hfit hapart happly hab hb hfree

mutual

/-- A node that no edit reaches into reads the same as before. -/
theorem Spliced.alike (hcarried : Carried es s s') : (n n' : Node) → n.Laid s.text →
    Edit.Untouched es n.start n.stop → n.Spliced es names s' n' → n.Alike s s' n'
  | mk k r a b cs, n', hlaid, hfree, h => by
    obtain ⟨hab, hb⟩ := hlaid.span
    obtain ⟨hstart, hstop⟩ := h.place hfree
    have hparts := SplicedAll.alikeAll hcarried cs n'.parts hlaid.children hfree h.parts
    have hslice := hcarried a b hab hb hfree
    rw [Alike]
    refine ⟨h.kind_eq, h.role_eq, ?_, hparts⟩
    unfold Source.charsOf
    rw [hstart, hstop]
    exact hslice

theorem SplicedAll.alikeAll (hcarried : Carried es s s') {lower upper : Nat} : (ns ns' : List Node) →
    LaidAll s.text lower upper ns → Edit.Untouched es lower upper → SplicedAll es names s' ns ns' →
    AlikeAll s s' ns ns'
  | [], ns', _, _, h => by
    rw [SplicedAll] at h
    rw [AlikeAll]
    exact h
  | n :: ns, ns', hlaid, hfree, h => by
    rw [LaidAll] at hlaid
    obtain ⟨⟨hlow, hup, hbegins, hdec⟩, hn, hns⟩ := hlaid
    have hspan := hn.span
    have hrest : Edit.Untouched es n.stop upper := hfree.mono (by omega) (Nat.le_refl _)
    cases hnote : n.isNote with
    | true =>
      have hspliced := (splicedAll_note hnote).mp h
      exact (alikeAll_note hnote).mpr (SplicedAll.alikeAll hcarried ns ns' hns hrest hspliced)
    | false =>
      have hkept : pieceOf es n = .kept := pieceOf_of_untouched hfree hlow fun hk =>
        ⟨(hbegins (isLead_of_decorator hk)).1, (hdec hk).2⟩
      rcases (splicedAll_cons hnote).mp h with ⟨-, n', rest, rfl, hspliced, hspliced'⟩ | ⟨hp, -⟩ | ⟨hp, -⟩ | ⟨hp, -⟩
      · exact (alikeAll_cons hnote).mpr ⟨Spliced.alike hcarried n n' hn (hfree.mono hlow hup) hspliced,
          SplicedAll.alikeAll hcarried ns rest hns hrest hspliced'⟩
      all_goals
        rw [hkept] at hp
        cases hp

end

end Untouched

end Node

end ResponseShapes.Syntax
