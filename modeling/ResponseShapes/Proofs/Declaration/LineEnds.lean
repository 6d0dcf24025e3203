import ResponseShapes.Proofs.Declaration.Written

/-! # Line ends of modules

A legible module holds no carriage return (`notMem_module`), so what stands in its file is read as it was written. -/

namespace ResponseShapes

open Syntax Declaration

variable {docs : Documentation} {name : String} {p : Property} {d : Declaration}

/-! ### Parts of modules -/

theorem notMem_intercalate {separator : String} {xs : List String} (hseparator : '\r' ∉ separator.toList)
    (h : ∀ x ∈ xs, '\r' ∉ x.toList) : '\r' ∉ (String.intercalate separator xs).toList := by
  cases xs with
  | nil => exact List.not_mem_nil
  | cons x xs =>
    obtain ⟨hx, hxs⟩ := List.forall_mem_cons.mp h
    rw [toList_intercalate_cons, List.mem_append, List.mem_flatMap]
    refine not_or.mpr ⟨hx, ?_⟩
    rintro ⟨y, hy, hmem⟩
    exact (List.mem_append.mp hmem).elim hseparator (hxs y hy)

theorem notMem_word {w : List Char} (h : IsWord w) : '\r' ∉ w := fun hmem =>
  (breaks_no_line h _ hmem).2 rfl

theorem notMem_jsonString (name : String) : '\r' ∉ (Text.jsonString name).toList := by
  have hchar : ∀ c, '\r' ∉ Text.jsonChar c := fun c => by
    obtain ⟨d, hd, hc⟩ | ⟨hbare, hc⟩ | hc := jsonChar_cases c
    · rw [hc, List.mem_cons, List.mem_singleton, not_or]
      exact ⟨by decide, Ne.symm hd⟩
    · rw [hc, List.mem_singleton]
      rintro rfl
      exact absurd hbare (by decide)
    · rw [hc, numbered, List.mem_flatMap]
      rintro ⟨n, -, hmem⟩
      have hhex : ∀ d ∈ Text.hex 4 n, d ≠ '\r' := forall_mem_hex (by decide) 4 n
      rcases List.mem_cons.mp hmem with h | hmem
      · exact absurd h (by decide)
      rcases List.mem_cons.mp hmem with h | hmem
      · exact absurd h (by decide)
      · exact hhex _ hmem rfl
  rw [Text.jsonString, String.toList_ofList, List.cons_append, List.mem_cons, List.mem_append, List.mem_flatMap, List.mem_singleton]
  rintro (h | ⟨c, -, h⟩ | h)
  · exact absurd h (by decide)
  · exact hchar c h
  · exact absurd h (by decide)

theorem notMem_propertyKey (h : StaysInLine name) : '\r' ∉ (propertyKey name).toList := by
  rw [propertyKey]
  split
  · rename_i hplain
    exact notMem_word (isWord_of_isPlainKey hplain (h hplain))
  · exact notMem_jsonString name

/-! ### Properties -/

theorem notMem_literal (name : String) (k : Primitive) : '\r' ∉ (Sample.of name k).literal.toList := by
  cases k with
  | string => exact notMem_jsonString _
  | number =>
    rw [Sample.of]
    split <;> decide
  | boolean => exact (by decide : '\r' ∉ "true".toList)

theorem notMem_plainOptions (name : String) (shape : Shape) :
    ∀ x ∈ Documentation.plainOptions name shape, '\r' ∉ x.toList := by
  have hword : ∀ k : Primitive, '\r' ∉ ("type: '" ++ k.word ++ "'").toList := by
    rintro (_ | _ | _) <;> decide
  have hlist : ∀ x ∈ ["isArray: true"], '\r' ∉ x.toList := by decide
  have hexample : ∀ k : Primitive, '\r' ∉ ("example: " ++ (Sample.of name k).literal).toList := fun k => by
    simp [notMem_literal]
  unfold Documentation.plainOptions
  split
  · exact List.forall_mem_cons.mpr ⟨hexample _, List.forall_mem_singleton.mpr (hword _)⟩
  · exact List.forall_mem_cons.mpr ⟨hword _, hlist⟩
  · exact hlist
  · exact List.forall_mem_nil _

theorem notMem_typeText : ∀ shape : Shape, '\r' ∉ shape.typeText.toList
  | .primitive k => by cases k <;> decide
  | .array e => by simp [Shape.typeText, notMem_typeText e]
  | .object _ => (by decide : '\r' ∉ "object".toList)
  | .unknown => (by decide : '\r' ∉ "any".toList)

theorem notMem_decorated {options : List String} (hdocs : docs.Legible) (h : ∀ x ∈ options, '\r' ∉ x.toList) :
    '\r' ∉ (docs.decorated options).toList := by
  have hdecorator : '\r' ∉ docs.propertyDecorator.toList := notMem_word hdocs.decorator
  have hoptions : '\r' ∉ (String.intercalate ", " options).toList := notMem_intercalate (by decide) h
  unfold Documentation.decorated
  split
  · simp [hdecorator]
  · simp [-String.toList_intercalate, hdecorator, hoptions]

theorem notMem_property (hdocs : docs.Legible) (hreferences : ∀ r ∈ p.references, IsName r.toList)
    (hkey : StaysInLine p.name) : '\r' ∉ (docs.property p).toList := by
  have hproperty : ∀ {options : List String} {type : String}, (∀ x ∈ options, '\r' ∉ x.toList) → '\r' ∉ type.toList →
      '\r' ∉ ("  " ++ docs.decorated options ++ "\n  " ++ propertyKey p.name ++ ": " ++ type ++ ";").toList :=
    fun hoptions htype => by simp [notMem_decorated hdocs hoptions, notMem_propertyKey hkey, htype]
  obtain ⟨name, shape | ⟨declaration, inList⟩⟩ := p
  · exact hproperty (notMem_plainOptions name shape) (notMem_typeText shape)
  · have hname : '\r' ∉ declaration.toList := notMem_word (hreferences declaration (List.mem_singleton_self declaration)).word
    have hclass : '\r' ∉ ("type: " ++ declaration).toList := by simp [hname]
    cases inList with
    | false => exact hproperty (List.forall_mem_singleton.mpr hclass) (by simp [hname])
    | true => exact hproperty (List.forall_mem_cons.mpr ⟨hclass, by decide⟩) (by simp [hname])

/-! ### Modules -/

theorem notMem_block (hdocs : docs.Legible) (hd : d.Legible) : '\r' ∉ (docs.block d).toList := by
  obtain ⟨hname, hreferences, hkeys⟩ := hd
  have hname := notMem_word hname.word
  cases d with
  | record name ps =>
    have hproperty : ∀ p ∈ ps, '\r' ∉ (docs.property p).toList := fun p hp =>
      notMem_property hdocs (fun r hr => hreferences r (List.mem_flatMap.mpr ⟨p, hp, hr⟩)) (hkeys p hp)
    cases ps with
    | nil =>
      change '\r' ∉ ("export class " ++ name ++ " \x7b\x7d").toList
      simp [show '\r' ∉ name.toList from hname]
    | cons p ps =>
      have hbody := notMem_intercalate (by decide : '\r' ∉ "\n\n".toList) (List.forall_mem_map.mpr hproperty)
      rw [block_record, ← List.map_cons]
      simp [-String.toList_intercalate, -List.map_cons, show '\r' ∉ name.toList from hname, hbody]
  | value name shape =>
    have hkey : StaysInLine "value" := fun _ => by decide
    have hproperty := notMem_property (p := { name := "value", type := .plain shape }) hdocs (List.forall_mem_nil _) hkey
    have hcomment : '\r' ∉ (if shape.isUnknown then "  // Return type could not be inferred\n" else "").toList := by
      cases shape.isUnknown <;> decide
    rw [block_value]
    simp [show '\r' ∉ name.toList from hname, hcomment, hproperty]
  | list name item =>
    have hitem := notMem_word (hreferences item (List.mem_singleton_self item)).word
    have hcomment : '\r' ∉ docs.okDecorator.toList := fun hmem => (hdocs.comment _ hmem).2 rfl
    rw [block_list]
    simp [show '\r' ∉ name.toList from hname, hitem, hcomment]

theorem notMem_lookup {naming : Naming} {unit : String} {ms : List Member} (h : LegibleUnit naming unit ms) :
    '\r' ∉ (lookupText (naming.lookup unit) ms).toList := by
  have hlookup : '\r' ∉ (naming.lookup unit).toList := notMem_word (isName_of_isPlainName h.lookup).word
  have hentries : '\r' ∉ (String.intercalate "\n"
      (ms.map fun m => "  " ++ propertyKey m.name ++ ": " ++ m.declaration ++ ",")).toList := by
    refine notMem_intercalate (by decide) (List.forall_mem_map.mpr fun m hm => ?_)
    have hkey : '\r' ∉ (propertyKey m.name).toList :=
      notMem_propertyKey (staysInLine_of_isWordPart (h.members m hm))
    have hdeclaration : '\r' ∉ m.declaration.toList := by
      obtain ⟨d, hd, hname⟩ := List.mem_map.mp (shapeBlocks_inOrder m.declaration m.shape).2
      rw [← hname]
      exact notMem_word (h.block (List.mem_flatMap.mpr ⟨m, hm, hd⟩)).name.word
    simp [hkey, hdeclaration]
  rw [lookupText_eq]
  simp [-String.toList_intercalate, Naming.lookupType, hlookup, hentries]

theorem notMem_module {naming : Naming} {unit : String} {ms : List Member} {m : DeclarationModule}
    (hm : DeclarationModule.of? naming docs unit ms = some m) (hdocs : docs.Legible) (h : LegibleUnit naming unit ms) :
    '\r' ∉ m.text.toList := by
  obtain ⟨first, others, rfl, -, htext⟩ := exists_module hm
  have hdecorator : '\r' ∉ docs.propertyDecorator.toList := notMem_word hdocs.decorator
  have hsource : '\r' ∉ docs.module.toList := fun hmem => absurd (hdocs.module _ hmem) (by decide)
  have hblocks := notMem_intercalate (by decide : '\r' ∉ "\n\n".toList)
    (List.forall_mem_map.mpr fun d hd => notMem_block hdocs (h.block hd))
  have hparts : ∀ part ∈ [banner, "import \x7b " ++ docs.propertyDecorator ++ " \x7d from '" ++ docs.module ++ "';", "",
      String.intercalate "\n\n" (((first :: others).flatMap Member.blocks).map docs.block), "",
      lookupText (naming.lookup unit) (first :: others)], '\r' ∉ part.toList := by
    have himport : '\r' ∉ ("import \x7b " ++ docs.propertyDecorator ++ " \x7d from '" ++ docs.module ++ "';").toList := by
      simp [hdecorator, hsource]
    simp only [List.forall_mem_cons]
    exact ⟨by decide, himport, by decide, hblocks, by decide, notMem_lookup h, List.forall_mem_nil _⟩
  have hwhole := notMem_intercalate (by decide : '\r' ∉ "\n".toList) hparts
  rw [htext, moduleText, String.toList_append, List.mem_append]
  exact not_or.mpr ⟨hwhole, by decide⟩

end ResponseShapes
