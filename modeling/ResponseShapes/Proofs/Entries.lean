import Mathlib.Data.List.Nodup
import ResponseShapes.Entries

/-! # Looking up entries

What each change of a list of entries does to the value of a key. A key stands at most once in every list that is built
by putting entries in (`Keyed`), and then the value of a key is the value of the one entry with that key. -/

namespace ResponseShapes.Entries

variable {α β : Type} {es : Entries α} {key k : String} {v w : α}

/-- No key stands twice. -/
def Keyed (es : Entries α) : Prop :=
  es.keys.Nodup

instance : Decidable es.Keyed :=
  inferInstanceAs (Decidable es.keys.Nodup)

/-! ### Values of keys -/

@[simp] theorem get?_nil : get? key ([] : Entries α) = none := rfl

theorem get?_cons (e : String × α) : get? key (e :: es) = if e.1 = key then some e.2 else get? key es := rfl

theorem get?_append (es fs : Entries α) : get? key (es ++ fs) = (get? key es).or (get? key fs) := by
  induction es with
  | nil => rfl
  | cons e es ih =>
    rw [List.cons_append, get?_cons, get?_cons, ih]
    split <;> rfl

theorem mem_of_get? (h : get? key es = some v) : (key, v) ∈ es := by
  induction es with
  | nil => cases h
  | cons e es ih =>
    rw [get?_cons] at h
    split at h
    · rename_i hkey
      exact Option.some.inj h ▸ hkey ▸ List.mem_cons_self
    · exact List.mem_cons_of_mem _ (ih h)

theorem get?_eq_none_iff : get? key es = none ↔ key ∉ es.keys := by
  induction es with
  | nil => exact ⟨fun _ => List.not_mem_nil, fun _ => rfl⟩
  | cons e es ih =>
    rw [get?_cons, keys, List.map_cons, List.mem_cons, not_or]
    split
    · rename_i hkey
      exact iff_of_false (Option.some_ne_none _) fun h => h.1 hkey.symm
    · rename_i hkey
      exact ⟨fun h => ⟨fun heq => hkey heq.symm, ih.mp h⟩, fun h => ih.mpr h.2⟩

theorem has_eq_isSome : es.has key = (get? key es).isSome := by
  induction es with
  | nil => rfl
  | cons e es ih =>
    rw [get?_cons, has, List.any_cons]
    by_cases hkey : e.1 = key
    · rw [if_pos hkey, beq_iff_eq.mpr hkey]
      rfl
    · rw [if_neg hkey, beq_eq_false_iff_ne.mpr hkey, Bool.false_or]
      exact ih

theorem get?_of_mem (h : es.Keyed) (hmem : (key, v) ∈ es) : get? key es = some v := by
  induction es with
  | nil => cases hmem
  | cons e es ih =>
    rw [Keyed, keys, List.map_cons, List.nodup_cons] at h
    rw [get?_cons]
    rcases List.mem_cons.mp hmem with rfl | hmem
    · rw [if_pos rfl]
    · rw [if_neg, ih h.2 hmem]
      intro hkey
      exact h.1 (hkey ▸ List.mem_map_of_mem (f := (·.1)) hmem)

/-! ### Putting in -/

theorem get?_put : get? k (put key v es) = if k = key then some v else get? k es := by
  induction es with
  | nil =>
    rw [put, get?_cons]
    simp only [eq_comm (a := key)]
  | cons e es ih =>
    obtain ⟨k', w⟩ := e
    unfold put
    by_cases hkey : k' = key
    · rw [if_pos hkey, get?_cons, get?_cons, hkey]
      by_cases hk : key = k
      · simp [hk]
      · rw [if_neg hk, if_neg hk, if_neg (fun h => hk h.symm)]
    · rw [if_neg hkey, get?_cons, get?_cons, ih]
      by_cases hk : k' = k
      · rw [if_pos hk, if_pos hk, if_neg]
        rintro rfl
        exact hkey hk
      · rw [if_neg hk, if_neg hk]

@[simp] theorem get?_put_self : get? key (put key v es) = some v := by
  rw [get?_put, if_pos rfl]

theorem get?_put_of_ne (h : k ≠ key) : get? k (put key v es) = get? k es := by
  rw [get?_put, if_neg h]

theorem get?_putNew : get? k (putNew key v es) = (get? k es).or (if k = key then some v else none) := by
  unfold putNew
  rw [has_eq_isSome]
  cases hkey : get? key es with
  | some w =>
    rw [Option.isSome_some, if_pos rfl]
    by_cases hk : k = key
    · rw [hk, hkey, Option.some_or]
    · rw [if_neg hk, Option.or_none]
  | none =>
    rw [Option.isSome_none, if_neg Bool.false_ne_true, get?_append, get?_cons, get?_nil]
    simp only [eq_comm (a := key)]

theorem keys_put_of_has (h : key ∈ es.keys) : (put key v es).keys = es.keys := by
  induction es with
  | nil => cases h
  | cons e es ih =>
    obtain ⟨k', w⟩ := e
    unfold put
    by_cases hkey : k' = key
    · rw [if_pos hkey, hkey]
      rfl
    · rw [if_neg hkey]
      have hmem : key ∈ keys es := (List.mem_cons.mp h).resolve_left fun heq => hkey heq.symm
      exact congrArg (k' :: ·) (ih hmem)

theorem put_of_not_has (h : key ∉ keys es) : put key v es = es ++ [(key, v)] := by
  induction es with
  | nil => rfl
  | cons e es ih =>
    obtain ⟨k', w⟩ := e
    rw [keys, List.map_cons, List.mem_cons, not_or] at h
    rw [put, if_neg (fun heq => h.1 heq.symm), ih h.2]
    rfl

theorem Keyed.put (h : es.Keyed) : (put key v es).Keyed := by
  by_cases hkey : key ∈ es.keys
  · rw [Keyed, keys_put_of_has hkey]
    exact h
  · rw [Keyed, put_of_not_has hkey, keys, List.map_append, List.nodup_append]
    refine ⟨h, List.nodup_singleton _, fun a ha b hb hab => ?_⟩
    rw [hab, List.mem_singleton.mp hb] at ha
    exact hkey ha

theorem Keyed.putNew (h : es.Keyed) : (putNew key v es).Keyed := by
  unfold Entries.putNew
  rw [has_eq_isSome]
  cases hkey : get? key es with
  | some w => exact h
  | none =>
    rw [Option.isSome_none, if_neg Bool.false_ne_true, ← put_of_not_has (get?_eq_none_iff.mp hkey)]
    exact h.put

theorem mem_keys_put : k ∈ (put key v es).keys ↔ k = key ∨ k ∈ es.keys := by
  rw [← not_iff_not, not_or, ← get?_eq_none_iff, ← get?_eq_none_iff, get?_put]
  split <;> simp_all

theorem mem_keys_putAll {items : List (String × α)} :
    k ∈ (es.putAll items).keys ↔ k ∈ es.keys ∨ k ∈ items.map (·.1) := by
  induction items generalizing es with
  | nil => simp [putAll]
  | cons item items ih =>
    change k ∈ ((es.put item.1 item.2).putAll items).keys ↔ _
    rw [ih, mem_keys_put, List.map_cons, List.mem_cons]
    tauto

theorem mem_keys_ofList {items : List (String × α)} : k ∈ (ofList items).keys ↔ k ∈ items.map (·.1) := by
  rw [ofList, mem_keys_putAll]
  simp [keys]

/-! ### Entries among those put in -/

theorem mem_put {e : String × α} (h : e ∈ put key v es) : e = (key, v) ∨ e ∈ es := by
  induction es with
  | nil => exact .inl (List.mem_singleton.mp h)
  | cons d es ih =>
    unfold put at h
    split at h <;> rcases List.mem_cons.mp h with rfl | h
    · exact .inl rfl
    · exact .inr (List.mem_cons_of_mem _ h)
    · exact .inr List.mem_cons_self
    · exact (ih h).imp_right (List.mem_cons_of_mem _)

theorem mem_putAll {items : List (String × α)} {e : String × α} (h : e ∈ es.putAll items) : e ∈ es ∨ e ∈ items := by
  induction items generalizing es with
  | nil => exact .inl h
  | cons item items ih =>
    rcases ih h with h | h
    · rcases mem_put h with rfl | h
      · exact .inr List.mem_cons_self
      · exact .inl h
    · exact .inr (List.mem_cons_of_mem _ h)

theorem mem_of_mem_ofList {items : List (String × α)} {e : String × α} (h : e ∈ ofList items) : e ∈ items :=
  (mem_putAll h).resolve_left List.not_mem_nil

theorem ofList_concat (items : List (String × α)) : ofList (items ++ [(key, v)]) = (ofList items).put key v := by
  rw [ofList, putAll, List.foldl_append]
  rfl

/-- If no two items differ that have one key, a key has the value that it has in the items. -/
theorem get?_ofList_iff {items : List (String × α)} (h : ∀ e ∈ items, ∀ e' ∈ items, e.1 = e'.1 → e = e') :
    get? key (ofList items) = some v ↔ (key, v) ∈ items := by
  refine ⟨fun hget => mem_of_mem_ofList (mem_of_get? hget), fun hmem => ?_⟩
  have hkey : key ∈ (ofList items).keys := mem_keys_ofList.mpr (List.mem_map_of_mem (f := (·.1)) hmem)
  cases hget : get? key (ofList items) with
  | none => exact absurd hkey (get?_eq_none_iff.mp hget)
  | some w => exact congrArg (fun e => some e.2) (h _ (mem_of_mem_ofList (mem_of_get? hget)) _ hmem rfl)

theorem putAll_of_keyed {items : List (String × α)} (h : Keyed (es ++ items)) : es.putAll items = es ++ items := by
  induction items generalizing es with
  | nil => exact (List.append_nil es).symm
  | cons item items ih =>
    have hnew : item.1 ∉ es.keys := by
      rw [Keyed, keys, List.map_append, List.nodup_append] at h
      exact fun hmem => h.2.2 _ hmem _ List.mem_cons_self rfl
    have hput : es.put item.1 item.2 = es ++ [item] := put_of_not_has hnew
    have happend : es ++ item :: items = (es ++ [item]) ++ items := List.append_cons es item items
    change (es.put item.1 item.2).putAll items = _
    rw [hput, happend]
    exact ih (happend ▸ h)

/-- Items with different keys are entries as they are. -/
theorem ofList_of_keyed {items : Entries α} (h : items.Keyed) : ofList items = items :=
  putAll_of_keyed h

/-- Only what is put in is found. -/
theorem findSome?_put {f : String × α → Option β} (hes : ∀ e ∈ es, f e = none) :
    (put key v es).findSome? f = f (key, v) := by
  induction es with
  | nil => rw [put, List.findSome?_singleton]
  | cons d es ih =>
    obtain ⟨hd, hes⟩ := List.forall_mem_cons.mp hes
    unfold put
    split
    · rw [List.findSome?_cons, List.findSome?_eq_none_iff.mpr hes]
      cases f (key, v) <;> rfl
    · rw [List.findSome?_cons, hd]
      exact ih hes

/-! ### Taking out -/

theorem get?_erase : get? k (es.erase key) = if k = key then none else get? k es := by
  induction es with
  | nil => simp [erase]
  | cons e es ih =>
    unfold erase at ih ⊢
    rw [List.filter_cons, get?_cons]
    by_cases hkey : e.1 = key
    · rw [if_neg (by simp [hkey]), ih]
      by_cases hk : k = key
      · rw [if_pos hk, if_pos hk]
      · rw [if_neg hk, if_neg hk, if_neg fun h => hk (h.symm.trans hkey)]
    · rw [if_pos (by simp [hkey]), get?_cons, ih]
      by_cases hk : k = key
      · rw [if_pos hk, if_pos hk, if_neg fun h => hkey (h.trans hk)]
      · rw [if_neg hk, if_neg hk]

theorem Keyed.erase (h : es.Keyed) : (es.erase key).Keyed :=
  h.sublist (List.filter_sublist.map _)

end ResponseShapes.Entries
