import Mathlib.Data.List.Induction
import ResponseShapes.Proofs.Entries
import ResponseShapes.Shape.Inference

/-! # Inferred shapes repeat no field

A record that is made of items has each name once: at its first place among the items and with the last shape that it
has there. So whatever the source, no record in the shape of what a method returns has two fields of one name, at any
depth (`distinct_ofMethod`). -/

namespace ResponseShapes

open Syntax

/-! ### Entries made of items -/

namespace Entries

variable {α : Type}

theorem keyed_ofList (items : List (String × α)) : (ofList items).Keyed := by
  induction items using List.reverseRecOn with
  | nil => exact List.nodup_nil
  | append_singleton items item ih =>
    rw [ofList_concat]
    exact ih.put

/-- Keys stand in the order of their first items. -/
theorem keys_ofList (items : List (String × α)) : (ofList items).keys = (items.map Prod.fst).eraseDups := by
  induction items using List.reverseRecOn with
  | nil => rfl
  | append_singleton items item ih =>
    have hmem : item.1 ∈ (ofList items).keys ↔ item.1 ∈ items.map Prod.fst := mem_keys_ofList
    rw [ofList_concat, List.map_append, List.eraseDups_append, ← ih]
    by_cases hold : item.1 ∈ items.map Prod.fst
    · rw [keys_put_of_has (hmem.mpr hold)]
      simp [List.removeAll, hold]
    · rw [put_of_not_has (hmem.not.mpr hold)]
      simp [keys, List.removeAll, hold, List.eraseDups_cons]

/-- A key has the value of its last item. -/
theorem get?_ofList (key : String) (items : List (String × α)) : get? key (ofList items) = get? key items.reverse := by
  induction items using List.reverseRecOn with
  | nil => rfl
  | append_singleton items item ih =>
    rw [ofList_concat, get?_put, List.reverse_concat, get?_cons, ih]
    simp only [eq_comm (a := key)]

end Entries

/-! ### Shapes that repeat no field -/

namespace Shape

/-- No record in the shape, at any depth, has two fields of one name. -/
inductive Distinct : Shape → Prop
  | primitive (kind : Primitive) : Distinct (primitive kind)
  | unknown : Distinct unknown
  | array {element : Shape} (element_distinct : Distinct element) : Distinct (array element)
  | object {fields : List (String × Shape)} (keyed : Entries.Keyed fields) (inner : ∀ f ∈ fields, Distinct f.2) :
    Distinct (object fields)

variable {items : List (String × Shape)}

theorem distinct_ofItems (h : ∀ f ∈ items, Distinct f.2) : Distinct (ofItems items) :=
  .object (Entries.keyed_ofList items) fun f hf => h f (Entries.mem_of_mem_ofList hf)

theorem distinct_of_primitives {fields : List (String × Shape)} (hkeyed : Entries.Keyed fields)
    (h : ∀ f ∈ fields, ∃ kind, f.2 = primitive kind) : Distinct (object fields) := by
  refine .object hkeyed fun f hf => ?_
  obtain ⟨kind, hkind⟩ := h f hf
  rw [hkind]
  exact .primitive kind

/-! ### Shapes that names tell -/

theorem distinct_user : Distinct user :=
  distinct_of_primitives (by decide) (by simp)

theorem distinct_known : ∀ e ∈ known, Distinct e.2 := by
  intro e he
  simp only [known, List.mem_cons, List.not_mem_nil, or_false] at he
  obtain rfl | rfl | rfl := he
  · exact distinct_user
  · exact distinct_of_primitives (by decide) (by simp)
  · exact distinct_of_primitives (by decide) (by simp)

theorem distinct_page : Distinct page := by
  refine .object (by decide) fun f hf => ?_
  simp only [List.mem_cons, List.not_mem_nil, or_false] at hf
  obtain rfl | rfl := hf
  · exact .array distinct_user
  · exact distinct_of_primitives (by decide) (by simp)

theorem distinct_ofPlainName (name : String) : Distinct (ofPlainName name) := by
  unfold ofPlainName
  split
  · rename_i shape hshape
    exact distinct_known _ (Entries.mem_of_get? hshape)
  · split
    · exact distinct_page
    · exact distinct_of_primitives (by decide) (by simp)

theorem distinct_nested (depth : Nat) {shape : Shape} (h : Distinct shape) : Distinct (nested depth shape) := by
  induction depth with
  | zero => exact h
  | succ depth ih => exact .array ih

theorem distinct_ofTypeName (name : String) : Distinct (ofTypeName name) :=
  distinct_nested _ (distinct_ofPlainName _)

theorem distinct_ofProperty (name : String) : Distinct (ofProperty name) := by
  unfold ofProperty
  split
  · exact .primitive _
  · split <;> exact .primitive _

theorem distinct_ofShorthand (name : String) : Distinct (ofShorthand name) := by
  unfold ofShorthand
  split <;> exact .primitive _

/-! ### Shapes of types -/

mutual

theorem distinct_ofType : ∀ t : TypeForm, Distinct (ofType t)
  | .wrapped inner => distinct_ofTypeOr inner
  | .array element => .array (distinct_ofTypeOr element)
  | .record properties => distinct_ofItems (distinct_ofTypeItems properties)
  | .generic name [argument] => by
    have hargument := distinct_ofType argument
    unfold ofType
    split
    · exact .array hargument
    · split
      · exact hargument
      · exact distinct_ofTypeName name
  | .generic name [] => distinct_ofTypeName name
  | .generic name (_ :: _ :: _) => distinct_ofTypeName name
  | .named name => distinct_ofTypeName name
  | .predefined word => by
    unfold ofType
    cases Primitive.ofWord? word with
    | none => exact .unknown
    | some kind => exact .primitive kind
  | .other => .unknown

theorem distinct_ofTypeOr : ∀ t : Option TypeForm, Distinct (ofTypeOr t)
  | some t => distinct_ofType t
  | none => .unknown

theorem distinct_ofTypeItems : ∀ (properties : List (String × Option TypeForm)), ∀ f ∈ ofTypeItems properties, Distinct f.2
  | [] => List.forall_mem_nil _
  | (_, t) :: rest => List.forall_mem_cons.mpr ⟨distinct_ofTypeOr t, distinct_ofTypeItems rest⟩

end

/-! ### Shapes of values -/

mutual

theorem distinct_ofValue : ∀ v : ValueForm, Distinct (ofValue v)
  | .wrapped inner => distinct_ofValueOr inner
  | .array first => .array (distinct_ofValueOr first)
  | .record properties => distinct_ofItems (distinct_ofValueItems properties)
  | .text | .number | .truth => .primitive _
  | .fallback right => distinct_ofValueOr right
  | .property name => distinct_ofProperty name
  | .other => .unknown

theorem distinct_ofValueOr : ∀ v : Option ValueForm, Distinct (ofValueOr v)
  | some v => distinct_ofValue v
  | none => .unknown

theorem distinct_ofValueItems : ∀ (properties : List (String × Option ValueForm)),
    ∀ f ∈ ofValueItems properties, Distinct f.2
  | [] => List.forall_mem_nil _
  | (_, some v) :: rest => List.forall_mem_cons.mpr ⟨distinct_ofValue v, distinct_ofValueItems rest⟩
  | (name, none) :: rest => List.forall_mem_cons.mpr ⟨distinct_ofShorthand name, distinct_ofValueItems rest⟩

end

/-- Whatever a method returns, no record in its shape has two fields of one name. -/
theorem distinct_ofMethod (s : Source) (m : Method) : Distinct (ofMethod s m) := by
  unfold ofMethod
  cases m.returnType? with
  | none =>
    rw [if_pos (show Shape.unknown.isUnknown = true from rfl)]
    split
    · exact distinct_ofValue _
    · exact .unknown
  | some type =>
    dsimp only
    split
    · split
      · exact distinct_ofValue _
      · exact .unknown
    · exact distinct_ofType _

end Shape

end ResponseShapes
