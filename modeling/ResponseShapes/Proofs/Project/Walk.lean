import ResponseShapes.Proofs.Project.Tree

/-! # What a walk reaches

A walk through a proper tree reaches a place exactly if a file stands there that it takes, and if it enters every
directory on the way (`mem_walk_directory_iff`). What it enters is asked of each directory on its own, so nothing below a
directory that is not entered is reached. -/

namespace ResponseShapes.Tree

variable {enters takes : List String → Bool} {start rel q : List String} {name : String} {t : Tree} {time : Int}
  {children : Entries Tree}

/-! ### One directory -/

theorem mem_walkChildren_iff {children : List (String × Tree)} :
    q ∈ walkChildren enters takes start children ↔ ∃ child ∈ children, q ∈ child.2.walkAt enters takes (start ++ [child.1]) := by
  induction children with
  | nil => simp
  | cons child rest ih => rw [walkChildren_cons, List.mem_append, ih, List.exists_mem_cons_iff]

/-- What is reached in what stands at a place lies there or below. -/
theorem prefix_of_mem_walkAt (ht : t.Proper) (h : q ∈ t.walkAt enters takes start) : start <+: q := by
  cases t with
  | file content time =>
    rw [walkAt] at h
    split at h
    · exact (List.mem_singleton.mp h).symm ▸ List.prefix_refl _
    · cases h
  | directory time children =>
    rw [walkAt] at h
    split at h
    · obtain ⟨rel, -, rfl, -⟩ := mem_walk _ start ht h
      exact List.prefix_append _ _
    · cases h

/-- A walk goes into a directory by the first name of the place that it reaches. -/
theorem mem_walk_cons_iff (ht : (directory time children).Proper) :
    start ++ name :: rel ∈ (directory time children).walk enters takes start ↔
      ∃ u, Entries.get? name children = some u ∧ start ++ [name] ++ rel ∈ u.walkAt enters takes (start ++ [name]) := by
  obtain ⟨hkeyed, hchildren⟩ := proper_directory.mp ht
  rw [walk_directory, mem_walkChildren_iff]
  constructor
  · rintro ⟨⟨name', u⟩, hchild, hq⟩
    obtain ⟨more, heq⟩ := prefix_of_mem_walkAt (hchildren _ hchild).2 hq
    rw [List.append_assoc] at heq
    obtain ⟨rfl, -⟩ := List.cons.inj (List.append_cancel_left heq)
    refine ⟨u, Entries.get?_of_mem hkeyed hchild, ?_⟩
    rwa [List.append_assoc]
  · rintro ⟨u, hget, hq⟩
    rw [List.append_assoc] at hq
    exact ⟨(name, u), Entries.mem_of_get? hget, hq⟩

/-! ### The directories on the way -/

/-- The walk enters all directories around a place, from a place on. -/
def EntersAll (enters : List String → Bool) (start rel : List String) : Prop :=
  ∀ around inside, rel = around ++ inside → inside ≠ [] → enters (start ++ around) = true

theorem entersAll_nil : EntersAll enters start [] := fun _ _ heq hne =>
  absurd (List.append_eq_nil_iff.mp heq.symm).2 hne

theorem entersAll_cons : EntersAll enters start (name :: rel) ↔
    enters start = true ∧ EntersAll enters (start ++ [name]) rel := by
  constructor
  · refine fun h => ⟨by simpa using h [] (name :: rel) rfl (by simp), fun around inside heq hne => ?_⟩
    simpa using h (name :: around) inside (by rw [heq]; rfl) hne
  · rintro ⟨hstart, h⟩ around inside heq hne
    cases around with
    | nil => simpa using hstart
    | cons name' around =>
      obtain ⟨rfl, rfl⟩ := List.cons.inj heq
      simpa using h around inside rfl hne

theorem mem_walkAt_iff (ht : t.Proper) : start ++ rel ∈ t.walkAt enters takes start ↔
    (∃ content, t.standing rel = .file content) ∧ takes (start ++ rel) = true ∧ EntersAll enters start rel := by
  induction rel generalizing t start with
  | nil =>
    rw [List.append_nil]
    cases t with
    | file content time =>
      simp [walkAt, standing, entersAll_nil]
    | directory time children =>
      -- A directory is no file, and what is reached in it lies below it.
      refine iff_of_false (fun h => ?_) fun h => ?_
      · rw [walkAt] at h
        split at h
        · obtain ⟨rel, content, heq, hfile⟩ := mem_walk _ start ht h
          obtain rfl := List.append_cancel_left ((List.append_nil start).trans heq)
          cases hfile
        · cases h
      · obtain ⟨⟨_, hfile⟩, -⟩ := h
        cases hfile
  | cons name rel ih =>
    cases t with
    | file content time =>
      refine iff_of_false (fun h => ?_) fun h => ?_
      · rw [walkAt] at h
        split at h
        · have heq := List.append_cancel_left ((List.mem_singleton.mp h).trans (List.append_nil start).symm)
          cases heq
        · cases h
      · obtain ⟨⟨_, hfile⟩, -⟩ := h
        cases hfile
    | directory time children =>
      rw [entersAll_cons, walkAt]
      by_cases henters : enters start = true
      · rw [if_pos henters, mem_walk_cons_iff ht, standing_directory_cons]
        cases hget : Entries.get? name children with
        | none => simp
        | some u =>
          have hu := ((proper_directory.mp ht).2 _ (Entries.mem_of_get? hget)).2
          have hrec := @ih (start ++ [name]) u hu
          rw [List.append_assoc, List.singleton_append] at hrec
          simp [hrec, henters]
      · rw [if_neg henters]
        simp [henters]

/-- A walk from a directory reaches the files that it takes in directories that it enters, wherever these lie. -/
theorem mem_walk_directory_iff (ht : (directory time children).Proper) : rel ∈ (directory time children).walk enters takes [] ↔
    (∃ content, (directory time children).standing rel = .file content) ∧ takes rel = true ∧
      ∀ around inside, rel = around ++ inside → around ≠ [] → inside ≠ [] → enters around = true := by
  cases rel with
  | nil =>
    refine iff_of_false (fun h => ?_) fun ⟨⟨_, hfile⟩, _⟩ => nomatch hfile
    obtain ⟨rel, content, heq, hfile⟩ := mem_walk _ [] ht h
    obtain rfl : [] = rel := heq
    cases hfile
  | cons name rel =>
    have hwalk : [] ++ name :: rel ∈ (directory time children).walk enters takes [] ↔ _ := mem_walk_cons_iff ht
    rw [List.nil_append, List.nil_append] at hwalk
    rw [hwalk, standing_directory_cons]
    have hway : (∀ around inside, name :: rel = around ++ inside → around ≠ [] → inside ≠ [] → enters around = true) ↔
        EntersAll enters [name] rel := by
      constructor
      · exact fun h around inside heq hne => h (name :: around) inside (by rw [heq]; rfl) (List.cons_ne_nil _ _) hne
      · intro h around inside heq haround hne
        obtain ⟨name', around, rfl⟩ := List.exists_cons_of_ne_nil haround
        obtain ⟨rfl, rfl⟩ := List.cons.inj heq
        exact h around inside rfl hne
    rw [hway]
    cases hget : Entries.get? name children with
    | none => simp
    | some u =>
      have hu := ((proper_directory.mp ht).2 _ (Entries.mem_of_get? hget)).2
      have hrec : [name] ++ rel ∈ u.walkAt enters takes [name] ↔ _ := mem_walkAt_iff hu
      rw [List.singleton_append] at hrec
      simp [hrec]

end ResponseShapes.Tree
