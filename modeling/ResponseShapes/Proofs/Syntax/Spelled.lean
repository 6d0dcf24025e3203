import ResponseShapes.Syntax.Parse

/-! # Sources of given characters

A source is read from the characters of its text. The characters of a text that is put together of pieces are those of
the pieces one behind the other (`Text.Spelled`). To decide something of the source of a concrete text, it is read from
them, since taking characters out of a text is slow where it is done by a proof. -/

namespace ResponseShapes

open Syntax

variable {text a b : String} {cs ds : List Char} {s : Source}

/-- The characters of a text. -/
def Text.Spelled (text : String) (cs : List Char) : Prop :=
  text = String.ofList cs

theorem Text.Spelled.piece : Spelled (String.ofList cs) cs := rfl

theorem Text.Spelled.append (ha : Spelled a cs) (hb : Spelled b ds) : Spelled (a ++ b) (cs ++ ds) := by
  rw [ha, hb, Spelled, String.ofList_append]

namespace Syntax.Source

/-- A source has the text that it is read from, malformed or not. -/
theorem text_ofText [Recovery] (text : String) : (ofText text).text = text.toList := by
  unfold ofText ofText?
  cases parse? text.toList <;> rfl

theorem text_of_ofText? (h : ofText? text = some s) : s.text = text.toList := by
  unfold ofText? at h
  obtain ⟨root, -, rfl⟩ := Option.map_eq_some_iff.mp h
  rfl

/-- The source that is read from characters. -/
def ofChars? (cs : List Char) : Option Source :=
  (parse? cs).map fun root => { text := cs, root }

theorem ofText?_of_spelled (h : Text.Spelled text cs) : ofText? text = ofChars? cs := by
  rw [h, ofText?, String.toList_ofList, ofChars?]

/-- A source that is read can be told by the characters. -/
theorem exists_of_spelled (h : Text.Spelled text cs) (p : Source → Prop) [∀ s, Decidable (p s)]
    (hp : (ofChars? cs).any (fun s => p s) = true) : ∃ s, ofText? text = some s ∧ p s := by
  obtain ⟨s, hs, hp⟩ := (Option.any_eq_true _ _).mp hp
  exact ⟨s, (ofText?_of_spelled h).trans hs, of_decide_eq_true hp⟩

/-- Two sources that are read can be told by the characters of both. -/
theorem exists_both (ha : Text.Spelled a cs) (hb : Text.Spelled b ds) (p : Source → Source → Prop)
    [∀ s s', Decidable (p s s')]
    (h : ((ofChars? cs).any fun s => (ofChars? ds).any fun s' => p s s') = true) :
    ∃ s s', ofText? a = some s ∧ ofText? b = some s' ∧ p s s' := by
  obtain ⟨s, hs, h⟩ := (Option.any_eq_true _ _).mp h
  obtain ⟨s', hs', h⟩ := (Option.any_eq_true _ _).mp h
  exact ⟨s, s', (ofText?_of_spelled ha).trans hs, (ofText?_of_spelled hb).trans hs', of_decide_eq_true h⟩

end Syntax.Source

end ResponseShapes
