import Mathlib.Algebra.BigOperators.Group.List.Basic
import Mathlib.Algebra.GroupWithZero.Nat
import ResponseShapes.Proofs.Declaration.Order

/-! # Files of declarations

The file of a unit is named by the name of the unit in small letters, so two units share a file exactly if they differ
in case alone (`fileName_eq_iff`). Their modules are different texts all the same: a text ends with the name of its
lookup object, and no name in small letters is as long as one that ends with it (`eq_of_text_eq`). -/

namespace ResponseShapes

/-! ### Small letters -/

namespace Text

/-- How many characters the small form of a character has. -/
def lowerWidth (c : Char) : Nat :=
  if c = '\u0130' then 2 else 1

theorem length_lowerChar (before : List Char) (c : Char) (after : List Char) :
    (lowerChar before c after).length = lowerWidth c := by
  unfold lowerChar lowerWidth
  by_cases hascii : c.toNat < 0x80
  · have hne : c ≠ '\u0130' := by
      rintro rfl
      exact absurd hascii (by decide)
    rw [if_pos hascii, if_neg hne]
    rfl
  · rw [if_neg hascii]
    by_cases hsigma : c = '\u03A3'
    · subst hsigma
      rfl
    · simp only [beq_iff_eq, hsigma, if_false]
      split <;> rfl

theorem length_lowerFrom (before cs : List Char) : (lowerFrom before cs).length = (cs.map lowerWidth).sum := by
  induction cs generalizing before with
  | nil => rfl
  | cons c cs ih => rw [lowerFrom, List.length_append, length_lowerChar, ih, List.map_cons, List.sum_cons]

/-- A text with something in front has more small letters. -/
theorem lower_append_ne {x : List Char} {u u' : String} (hu : u'.toList = x ++ u.toList) (hx : x ≠ []) :
    lower u' ≠ lower u := by
  intro h
  have hlength := congrArg List.length (String.ofList_injective h)
  rw [length_lowerFrom, length_lowerFrom, hu, List.map_append, List.sum_append] at hlength
  obtain ⟨c, x, rfl⟩ := List.exists_cons_of_ne_nil hx
  have hwidth : 0 < lowerWidth c := by
    unfold lowerWidth
    split <;> decide
  rw [List.map_cons, List.sum_cons] at hlength
  omega

end Text

/-! ### Files and texts -/

variable {naming : Naming} {docs : Documentation} {unit unit' : String} {members members' : List Member}
  {m m' : DeclarationModule}

theorem Naming.fileName_eq_iff : fileName unit = fileName unit' ↔ Text.lower unit = Text.lower unit' := by
  unfold fileName
  exact String.append_left_inj _

namespace DeclarationModule

theorem ne_nil_of_of? (h : of? naming docs unit members = some m) : members ≠ [] := by
  rintro rfl
  cases h

theorem fileName_of? (h : of? naming docs unit members = some m) : m.fileName = Naming.fileName unit := by
  rw [of?_eq naming docs unit (ne_nil_of_of? h)] at h
  exact Option.some.inj h ▸ rfl

theorem suffix_lookupText (lookup : String) (members : List Member) :
    ' ' :: (lookup.toList ++ [';']) <:+ (lookupText lookup members).toList := by
  have hend : ∀ front : String, ' ' :: (lookup.toList ++ [';']) <:+ (front ++ " = typeof " ++ lookup ++ ";").toList :=
    fun front => ⟨front.toList ++ " = typeof".toList, by simp⟩
  exact hend _

/-- A module ends with the name of its lookup object. -/
theorem suffix_text (h : of? naming docs unit members = some m) :
    ' ' :: (unit.toList ++ (naming.responseSuffix.toList ++ [';', '\n'])) <:+ m.text.toList := by
  have htext : m.text = moduleText docs (naming.lookup unit) members (members.flatMap Member.blocks) := by
    rw [of?_eq naming docs unit (ne_nil_of_of? h)] at h
    exact Option.some.inj h ▸ rfl
  obtain ⟨front, hfront⟩ := suffix_lookupText (naming.lookup unit) members
  have hlast : ∀ a b c d e l : String, String.intercalate "\n" [a, b, c, d, e, l] =
      String.intercalate "\n" [a, b, c, d, e] ++ "\n" ++ l := fun a b c d e l =>
    String.intercalate_append_of_ne_nil (l := [a, b, c, d, e]) (m := [l]) (List.cons_ne_nil _ _) (List.cons_ne_nil _ _)
  have hend : ' ' :: (unit.toList ++ (naming.responseSuffix.toList ++ [';', '\n'])) <:+
      front ++ ' ' :: ((naming.lookup unit).toList ++ [';']) ++ ['\n'] := ⟨front, by simp [Naming.lookup]⟩
  rw [htext, moduleText, hlast, String.toList_append, String.toList_append, ← hfront, List.append_assoc]
  exact hend.trans (List.suffix_append _ _)

/-- Units that differ in case alone have different modules. -/
theorem eq_of_text_eq (h : of? naming docs unit members = some m) (h' : of? naming docs unit' members' = some m')
    (hlower : Text.lower unit = Text.lower unit') (htext : m.text = m'.text) : unit = unit' := by
  -- Of two ends of one text the longer one ends with the other.
  have hends : ∀ {u u' : String}, Text.lower u = Text.lower u' →
      ' ' :: (u.toList ++ (naming.responseSuffix.toList ++ [';', '\n'])) <:+
        ' ' :: (u'.toList ++ (naming.responseSuffix.toList ++ [';', '\n'])) → u = u' := by
    rintro u u' hlower ⟨front, heq⟩
    cases front with
    | nil => exact String.toList_injective (List.append_cancel_right (List.cons.inj heq).2)
    | cons c front =>
      have hu' : u'.toList = (front ++ [' ']) ++ u.toList := by
        have hrest : front ++ ' ' :: u.toList ++ (naming.responseSuffix.toList ++ [';', '\n']) =
            u'.toList ++ (naming.responseSuffix.toList ++ [';', '\n']) := by simpa using (List.cons.inj heq).2
        rw [List.append_assoc]
        exact (List.append_cancel_right hrest).symm
      exact absurd hlower.symm (Text.lower_append_ne hu' (by simp))
  obtain hsuffix | hsuffix := List.suffix_or_suffix_of_suffix (suffix_text h) (htext ▸ suffix_text h')
  · exact hends hlower hsuffix
  · exact (hends hlower.symm hsuffix).symm

end DeclarationModule

end ResponseShapes
