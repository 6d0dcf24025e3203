import ResponseShapes.Project.Changes
import ResponseShapes.Proofs.Entries

/-! # Changing one place of a tree

What `Tree.set` does to what stands at every place (`standing_set`) and to a walk (`filter_walk_set`). Only changes of
bare places are considered, those with nothing below them, before and after: a file that is written or removed, a
directory that is made. In a proper tree no directory holds a name twice or two dots, so a file stands at every place of
a walk (`mem_walk`). -/

namespace ResponseShapes

/-- What stands at a place, apart from times and from what is in a directory. -/
inductive Standing
  | nothing | directory | file (content : List UInt8)
  deriving DecidableEq, Repr

namespace Standing

/-- What the tree at a place, if there is one, is. -/
def of : Option Tree → Standing
  | none => nothing
  | some (.directory _ _) => directory
  | some (.file content _) => file content

@[simp] theorem of_none : of none = nothing := rfl
@[simp] theorem of_directory (time : Int) (children : Entries Tree) : of (some (.directory time children)) = directory := rfl
@[simp] theorem of_file (content : List UInt8) (time : Int) : of (some (.file content time)) = file content := rfl

theorem of_eq_nothing {x : Option Tree} : of x = nothing ↔ x = none := by
  rcases x with _ | ⟨_ | _⟩ <;> simp

theorem of_eq_directory {x : Option Tree} : of x = directory ↔ ∃ time children, x = some (.directory time children) := by
  rcases x with _ | ⟨_ | _⟩ <;> simp

theorem of_eq_file {x : Option Tree} {content : List UInt8} :
    of x = file content ↔ ∃ time, x = some (.file content time) := by
  rcases x with _ | ⟨_ | _⟩ <;> simp [eq_comm]

end Standing

namespace Tree

variable {new : Option Tree} {t u : Tree} {place q : List String} {name : String}

/-- What stands at a place of a tree. -/
def standing (t : Tree) (place : List String) : Standing :=
  Standing.of (t.find? place)

/-- Whether nothing lies below what stands at a place. -/
def Bare (x : Option Tree) : Prop :=
  ∀ u, x = some u → u.names = []

/-! ### What stands at a place -/

@[simp] theorem find?_nil : t.find? [] = some t := by
  cases t <;> rfl

@[simp] theorem find?_directory_cons (names : List String) (time : Int) (children : Entries Tree) :
    (directory time children).find? (name :: names) = (Entries.get? name children).bind (find? names) := rfl

@[simp] theorem find?_file_cons (names : List String) (content : List UInt8) (time : Int) :
    (file content time).find? (name :: names) = none := rfl

theorem find?_append : t.find? (place ++ q) = (t.find? place).bind (find? q) := by
  induction place generalizing t with
  | nil => simp
  | cons name place ih =>
    cases t with
    | file _ _ => rfl
    | directory _ children =>
      rw [List.cons_append, find?_directory_cons, find?_directory_cons, Option.bind_assoc]
      exact Option.bind_congr fun _ _ => ih

@[simp] theorem standing_file_cons (names : List String) (content : List UInt8) (time : Int) :
    (file content time).standing (name :: names) = .nothing := rfl

theorem standing_directory_cons (names : List String) (time : Int) (children : Entries Tree) :
    (directory time children).standing (name :: names) = match Entries.get? name children with
      | some child => child.standing names
      | none => .nothing := by
  unfold standing
  rw [find?_directory_cons]
  cases Entries.get? name children <;> rfl

theorem standing_append (h : t.find? place = some u) : t.standing (place ++ q) = u.standing q := by
  unfold standing
  rw [find?_append, h, Option.bind_some]

/-- Whatever stands somewhere stands in directories. -/
theorem standing_of_append_cons (h : t.standing (place ++ name :: q) ≠ .nothing) : t.standing place = .directory := by
  unfold standing at h ⊢
  rw [find?_append] at h
  cases hu : t.find? place with
  | none => simp [hu] at h
  | some u =>
    cases u with
    | file _ _ => simp [hu] at h
    | directory _ _ => rfl

theorem standing_of_bare (h : Bare (some t)) : t.standing (name :: q) = .nothing := by
  cases t with
  | file _ _ => rfl
  | directory time children =>
    have hnil : children = [] := List.map_eq_nil_iff.mp (h _ rfl)
    rw [hnil]
    rfl

theorem bare_none : Bare none := nofun

theorem bare_file (content : List UInt8) (time : Int) : Bare (some (file content time)) := by
  rintro _ ⟨⟩
  rfl

theorem bare_directory (time : Int) : Bare (some (directory time [])) := by
  rintro _ ⟨⟩
  rfl

/-- What is no directory has nothing below it. -/
theorem bare_of_standing (h : t.standing place ≠ .directory) : Bare (t.find? place) := fun u hu => by
  cases u with
  | file _ _ => rfl
  | directory _ _ => simp [standing, hu] at h

/-! ### Changing a place -/

theorem set_singleton (time : Int) (children : Entries Tree) : (directory time children).set new [name] =
    directory time (match new with
      | some n => Entries.put name n children
      | none => Entries.erase name children) := by
  cases new <;> rfl

theorem set_cons (hplace : place ≠ []) (time : Int) (children : Entries Tree) :
    (directory time children).set new (name :: place) = match Entries.get? name children with
      | some child => directory time (Entries.put name (child.set new place) children)
      | none => directory time children := by
  obtain ⟨name', place, rfl⟩ := List.exists_cons_of_ne_nil hplace
  rfl

@[simp] theorem set_nil : t.set new [] = t := by
  cases t <;> rfl

@[simp] theorem set_file (content : List UInt8) (time : Int) (place : List String) :
    (file content time).set new place = file content time := by
  rcases place with _ | ⟨_, _ | _⟩ <;> rfl

theorem exists_set_directory (new : Option Tree) (time : Int) (children : Entries Tree) (place : List String) :
    ∃ children', (directory time children).set new place = directory time children' := by
  rcases place with _ | ⟨name, place⟩
  · exact ⟨children, rfl⟩
  by_cases hplace : place = []
  · subst hplace
    exact ⟨_, set_singleton time children⟩
  · rw [set_cons hplace]
    split <;> exact ⟨_, rfl⟩

/-- Putting something bare at a bare place of a directory changes what stands there, and nothing else, as long as what is
    in a directory does not count. -/
theorem find?_set {β : Type} {f : Option Tree → β} (hf : ∀ time children children',
      f (some (directory time children)) = f (some (directory time children')))
    (hplace : t.standing place = .directory) (hnew : Bare new) (hold : Bare (t.find? (place ++ [name])))
    (q : List String) :
    f ((t.set new (place ++ [name])).find? q) = if q = place ++ [name] then f new else f (t.find? q) := by
  induction place generalizing t q with
  | nil =>
    obtain ⟨time, children, ht⟩ := Standing.of_eq_directory.mp hplace
    obtain rfl : t = directory time children := Option.some.inj (find?_nil.symm.trans ht)
    rw [List.nil_append, set_singleton]
    rcases q with _ | ⟨name', q⟩
    · simpa using hf time _ _
    rw [find?_directory_cons, find?_directory_cons]
    by_cases hname : name' = name
    · subst hname
      have hget : Entries.get? name' (match new with
          | some n => Entries.put name' n children
          | none => Entries.erase name' children) = new := by
        cases new <;> simp [Entries.get?_erase]
      rw [hget]
      rcases q with _ | ⟨name₂, q⟩
      · rw [if_pos rfl]
        cases new with
        | none => rfl
        | some n => simp
      · have hold' : Bare (Entries.get? name' children) := by
          cases hchild : Entries.get? name' children <;> simpa [hchild] using hold
        have hbelow : ∀ {x : Option Tree}, Bare x → x.bind (find? (name₂ :: q)) = none := fun {x} hx => by
          cases x with
          | none => rfl
          | some u => exact Standing.of_eq_nothing.mp (standing_of_bare hx)
        rw [if_neg (by simp), hbelow hnew, hbelow hold']
    · have hget : Entries.get? name' (match new with
          | some n => Entries.put name n children
          | none => Entries.erase name children) = Entries.get? name' children := by
        cases new <;> simp [Entries.get?_erase, Entries.get?_put, hname]
      rw [hget, if_neg (by simp [hname])]
  | cons name₁ place ih =>
    cases t with
    | file _ _ => cases hplace
    | directory time children =>
      rw [List.cons_append, set_cons (by simp)]
      rw [standing_directory_cons] at hplace
      cases hchild : Entries.get? name₁ children with
      | none => simp [hchild] at hplace
      | some child =>
        simp only [hchild] at hplace
        have hold' : Bare (child.find? (place ++ [name])) := by simpa [hchild] using hold
        rcases q with _ | ⟨name', q⟩
        · simpa using hf time _ _
        rw [find?_directory_cons, find?_directory_cons]
        by_cases hname : name' = name₁
        · subst hname
          rw [Entries.get?_put_self, hchild]
          simpa using ih hplace hold' q
        · rw [Entries.get?_put_of_ne hname, if_neg (by simp [hname])]

theorem standing_set (hplace : t.standing place = .directory) (hnew : Bare new)
    (hold : Bare (t.find? (place ++ [name]))) (q : List String) :
    (t.set new (place ++ [name])).standing q = if q = place ++ [name] then Standing.of new else t.standing q :=
  find?_set (fun _ _ _ => rfl) hplace hnew hold q

/-- The file that a tree, if there is one, is. -/
def asFile? : Option Tree → Option (List UInt8 × Int)
  | some (file content time) => some (content, time)
  | _ => none

theorem file?_eq (t : Tree) (q : List String) : t.file? q = asFile? (t.find? q) := by
  unfold file?
  rcases t.find? q with _ | ⟨_ | _⟩ <;> rfl

theorem standing_eq_file {content : List UInt8} :
    t.standing q = .file content ↔ ∃ time, t.file? q = some (content, time) := by
  rw [standing, file?_eq]
  rcases t.find? q with _ | ⟨_ | _⟩ <;> simp [asFile?, eq_comm]

/-- What becomes of the files, with their times, when a place changes. -/
theorem file?_set (hplace : t.standing place = .directory) (hnew : Bare new) (hold : Bare (t.find? (place ++ [name])))
    (q : List String) :
    (t.set new (place ++ [name])).file? q = if q = place ++ [name] then asFile? new else t.file? q := by
  rw [file?_eq, file?_eq]
  exact find?_set (fun _ _ _ => rfl) hplace hnew hold q

theorem find?_set_append {rel : List String} (hrel : rel ≠ []) (place : List String) :
    (t.set new (place ++ rel)).find? place = (t.find? place).map (set new rel) := by
  induction place generalizing t with
  | nil => simp
  | cons name place ih =>
    cases t with
    | file _ _ => simp
    | directory time children =>
      rw [List.cons_append, set_cons (by simp [hrel])]
      cases hchild : Entries.get? name children with
      | none => simp [hchild]
      | some child => simp [hchild, ih]

theorem find?_set_of_not_prefix (h : ¬place <+: q) (hq : ¬q <+: place) : (t.set new place).find? q = t.find? q := by
  induction place generalizing t q with
  | nil => exact absurd List.nil_prefix h
  | cons name place ih =>
    rcases q with _ | ⟨name', q⟩
    · exact absurd List.nil_prefix hq
    cases t with
    | file _ _ => rw [set_file]
    | directory time children =>
      by_cases hname : name' = name
      · subst hname
        rw [List.cons_prefix_cons] at h hq
        have hplace : place ≠ [] := fun hnil => h ⟨rfl, hnil ▸ List.nil_prefix⟩
        rw [set_cons hplace]
        cases hchild : Entries.get? name' children with
        | none => rfl
        | some child => simp [hchild, ih (fun hp => h ⟨rfl, hp⟩) (fun hp => hq ⟨rfl, hp⟩)]
      · by_cases hplace : place = []
        · subst hplace
          rw [set_singleton]
          cases new <;> simp [Entries.get?_put, Entries.get?_erase, hname]
        · rw [set_cons hplace]
          cases hchild : Entries.get? name children with
          | none => rfl
          | some child => simp [Entries.get?_put_of_ne hname]

/-! ### Proper trees -/

mutual

/-- No directory holds a name twice or two dots. -/
def Proper : Tree → Prop
  | file _ _ => True
  | directory _ children => Entries.Keyed children ∧ ProperChildren children

/-- The names are not two dots, and what they lead to is proper. -/
def ProperChildren : List (String × Tree) → Prop
  | [] => True
  | child :: rest => ProperChild child ∧ ProperChildren rest

/-- The name is not two dots, and what it leads to is proper. -/
def ProperChild : String × Tree → Prop
  | (name, t) => name ≠ ".." ∧ t.Proper

end

theorem properChildren_iff {children : Entries Tree} :
    ProperChildren children ↔ ∀ child ∈ children, child.1 ≠ ".." ∧ child.2.Proper := by
  induction children with
  | nil => simp [ProperChildren]
  | cons child rest ih =>
    obtain ⟨name, t⟩ := child
    rw [ProperChildren, ih, List.forall_mem_cons, ProperChild]

theorem proper_directory {time : Int} {children : Entries Tree} : (directory time children).Proper ↔
    children.Keyed ∧ ∀ child ∈ children, child.1 ≠ ".." ∧ child.2.Proper := by
  rw [Proper, properChildren_iff]

/-- What stands in a proper tree is proper, and no name on the way to it is two dots. -/
theorem Proper.find? (ht : t.Proper) (h : t.find? place = some u) : u.Proper ∧ ".." ∉ place := by
  induction place generalizing t with
  | nil =>
    rw [find?_nil] at h
    exact ⟨Option.some.inj h ▸ ht, List.not_mem_nil⟩
  | cons name place ih =>
    cases t with
    | file _ _ => cases h
    | directory time children =>
      obtain ⟨child, hchild, h⟩ := Option.bind_eq_some_iff.mp h
      obtain ⟨hname, hproper⟩ := (proper_directory.mp ht).2 _ (Entries.mem_of_get? hchild)
      obtain ⟨hu, hplace⟩ := ih hproper h
      exact ⟨hu, fun hmem => (List.mem_cons.mp hmem).elim (fun heq => hname heq.symm) hplace⟩

theorem Proper.put {time : Int} {children : Entries Tree} (h : (directory time children).Proper) (hname : name ≠ "..")
    (hu : u.Proper) : (directory time (Entries.put name u children)).Proper := by
  obtain ⟨hkeyed, hchildren⟩ := proper_directory.mp h
  refine proper_directory.mpr ⟨hkeyed.put, fun child hmem => ?_⟩
  have hget := Entries.get?_of_mem hkeyed.put hmem
  rw [Entries.get?_put] at hget
  split at hget
  · rename_i hkey
    exact ⟨hkey ▸ hname, Option.some.inj hget ▸ hu⟩
  · exact hchildren _ (Entries.mem_of_get? hget)

theorem Proper.erase {time : Int} {children : Entries Tree} (h : (directory time children).Proper) :
    (directory time (Entries.erase name children)).Proper := by
  obtain ⟨hkeyed, hchildren⟩ := proper_directory.mp h
  exact proper_directory.mpr ⟨hkeyed.erase, fun child hmem => hchildren child (List.mem_of_mem_filter hmem)⟩

theorem Proper.set (ht : t.Proper) (hplace : ".." ∉ place) (hnew : ∀ u, new = some u → u.Proper) :
    (t.set new place).Proper := by
  induction place generalizing t with
  | nil => cases t <;> exact ht
  | cons name place ih =>
    rw [List.mem_cons, not_or] at hplace
    cases t with
    | file _ _ => cases place <;> exact ht
    | directory time children =>
      by_cases hnil : place = []
      · subst hnil
        rw [set_singleton]
        cases new with
        | none => exact ht.erase
        | some n => exact ht.put (Ne.symm hplace.1) (hnew n rfl)
      · rw [set_cons hnil]
        cases hchild : Entries.get? name children with
        | none => exact ht
        | some child =>
          have hproper := ((proper_directory.mp ht).2 _ (Entries.mem_of_get? hchild)).2
          exact ht.put (Ne.symm hplace.1) (ih hproper hplace.2)

/-! ### Walks -/

section Walks

variable {enters takes admits : List String → Bool} {start : List String}

/-- The places that a walk reaches in what stands at a place. -/
def walkAt (enters takes : List String → Bool) (place : List String) : Tree → List (List String)
  | file _ _ => if takes place then [place] else []
  | t@(directory _ _) => if enters place then t.walk enters takes place else []

@[simp] theorem walk_directory (time : Int) (children : Entries Tree) :
    (directory time children).walk enters takes start = walkChildren enters takes start children := by
  rw [walk]

theorem walkChild_eq (start : List String) (child : String × Tree) :
    walkChild enters takes start child = child.2.walkAt enters takes (start ++ [child.1]) := by
  rcases child with ⟨name, _ | _⟩ <;> simp [walkChild, walkAt]

theorem walkChildren_cons (start : List String) (child : String × Tree) (rest : List (String × Tree)) :
    walkChildren enters takes start (child :: rest) =
      child.2.walkAt enters takes (start ++ [child.1]) ++ walkChildren enters takes start rest := by
  rw [walkChildren, walkChild_eq]

@[simp] theorem walkChildren_nil (start : List String) : walkChildren enters takes start [] = [] := by
  rw [walkChildren]

mutual

theorem mem_walk : ∀ (t : Tree) (start : List String), t.Proper → q ∈ t.walk enters takes start →
    ∃ rel content, q = start ++ rel ∧ t.standing rel = .file content
  | file _ _, _, _, h => by
    rw [walk] at h
    cases h
  | directory time children, start, ht, h => by
    rw [Proper] at ht
    rw [walk] at h
    obtain ⟨name, child, rel, content, hmem, hq, hchild⟩ := mem_walkChildren children start ht.2 h
    refine ⟨name :: rel, content, hq, ?_⟩
    rw [standing_directory_cons, Entries.get?_of_mem ht.1 hmem]
    exact hchild

theorem mem_walkChildren : ∀ (children : List (String × Tree)) (start : List String), ProperChildren children →
    q ∈ walkChildren enters takes start children →
    ∃ name child rel content, (name, child) ∈ children ∧ q = start ++ name :: rel ∧ child.standing rel = .file content
  | [], _, _, h => by
    rw [walkChildren] at h
    cases h
  | child :: rest, start, ht, h => by
    rw [ProperChildren] at ht
    rw [walkChildren, List.mem_append] at h
    rcases h with h | h
    · obtain ⟨rel, content, hq, hchild⟩ := mem_walkChild child start ht.1 h
      exact ⟨child.1, child.2, rel, content, List.mem_cons_self, hq, hchild⟩
    · obtain ⟨name, child', rel, content, hmem, hq, hchild⟩ := mem_walkChildren rest start ht.2 h
      exact ⟨name, child', rel, content, List.mem_cons_of_mem _ hmem, hq, hchild⟩

theorem mem_walkChild : ∀ (child : String × Tree) (start : List String), ProperChild child →
    q ∈ walkChild enters takes start child →
    ∃ rel content, q = start ++ child.1 :: rel ∧ child.2.standing rel = .file content
  | (name, file content _), start, _, h => by
    rw [walkChild] at h
    split at h
    · exact ⟨[], content, List.mem_singleton.mp h, rfl⟩
    · cases h
  | (name, directory time children), start, ht, h => by
    rw [ProperChild, Proper] at ht
    rw [walkChild] at h
    split at h
    · obtain ⟨name', child, rel, content, hmem, hq, hchild⟩ := mem_walkChildren children (start ++ [name]) ht.2.2 h
      refine ⟨name' :: rel, content, by rw [hq, List.append_assoc, List.singleton_append], ?_⟩
      rw [standing_directory_cons, Entries.get?_of_mem ht.2.1 hmem]
      exact hchild
    · cases h

end

mutual

/-- A walk reaches no place twice. -/
theorem nodup_walk : ∀ (t : Tree) (start : List String), t.Proper → (t.walk enters takes start).Nodup
  | file _ _, _, _ => by
    rw [walk]
    exact List.nodup_nil
  | directory time children, start, ht => by
    rw [Proper] at ht
    rw [walk]
    exact nodup_walkChildren children start ht.1 ht.2

theorem nodup_walkChildren : ∀ (children : List (String × Tree)) (start : List String), Entries.Keyed children →
    ProperChildren children → (walkChildren enters takes start children).Nodup
  | [], _, _, _ => by
    rw [walkChildren]
    exact List.nodup_nil
  | child :: rest, start, hkeyed, ht => by
    rw [ProperChildren] at ht
    obtain ⟨hfirst, hrest⟩ := List.nodup_cons.mp hkeyed
    rw [walkChildren]
    refine List.Nodup.append (nodup_walkChild child start ht.1) (nodup_walkChildren rest start hrest ht.2) ?_
    -- Places through different names differ in the name.
    intro q hq hq'
    obtain ⟨rel, _, rfl, -⟩ := mem_walkChild child start ht.1 hq
    obtain ⟨name, child', rel', _, hmem, heq, -⟩ := mem_walkChildren rest start ht.2 hq'
    obtain ⟨hname, -⟩ := List.cons.inj (List.append_cancel_left heq)
    exact hfirst (List.mem_map.mpr ⟨_, hmem, hname.symm⟩)

theorem nodup_walkChild : ∀ (child : String × Tree) (start : List String), ProperChild child →
    (walkChild enters takes start child).Nodup
  | (name, file content _), start, _ => by
    rw [walkChild]
    split
    · exact List.nodup_singleton _
    · exact List.nodup_nil
  | (name, directory time children), start, ht => by
    rw [ProperChild, Proper] at ht
    rw [walkChild]
    split
    · exact nodup_walkChildren children (start ++ [name]) ht.2.1 ht.2.2
    · exact List.nodup_nil

end

/-- A walk over entries of which one is put in reaches the same admitted places if it does so through that one. -/
theorem filter_walkChildren_put {children : Entries Tree}
    (h : (u.walkAt enters takes (start ++ [name])).filter admits = match Entries.get? name children with
      | some old => (old.walkAt enters takes (start ++ [name])).filter admits
      | none => []) :
    (walkChildren enters takes start (Entries.put name u children)).filter admits =
      (walkChildren enters takes start children).filter admits := by
  induction children with
  | nil => simpa [Entries.put, walkChildren_cons] using h
  | cons child rest ih =>
    obtain ⟨key, old⟩ := child
    rw [Entries.get?_cons] at h
    unfold Entries.put
    by_cases hkey : key = name
    · subst hkey
      rw [if_pos rfl] at h ⊢
      rw [walkChildren_cons, walkChildren_cons, List.filter_append, List.filter_append, h]
    · rw [if_neg hkey] at h ⊢
      rw [walkChildren_cons, walkChildren_cons, List.filter_append, List.filter_append, ih h]

/-- A walk over entries of which one is taken out reaches the same admitted places if that one leads to none. -/
theorem filter_walkChildren_erase {children : Entries Tree} (hkeyed : children.Keyed)
    (h : ∀ old, Entries.get? name children = some old → (old.walkAt enters takes (start ++ [name])).filter admits = []) :
    (walkChildren enters takes start (Entries.erase name children)).filter admits =
      (walkChildren enters takes start children).filter admits := by
  induction children with
  | nil => rfl
  | cons child rest ih =>
    obtain ⟨key, old⟩ := child
    obtain ⟨hfresh, hrest⟩ := List.nodup_cons.mp hkeyed
    rw [walkChildren_cons, List.filter_append]
    by_cases hkey : key = name
    · subst hkey
      have herase : Entries.erase key ((key, old) :: rest) = rest := by
        have hall : ∀ e ∈ rest, (e.1 != key) = true := fun e he =>
          bne_iff_ne.mpr fun heq => hfresh (List.mem_map.mpr ⟨e, he, heq⟩)
        rw [Entries.erase, List.filter_cons, if_neg (by simp), List.filter_eq_self.mpr hall]
      rw [herase, h old (by rw [Entries.get?_cons, if_pos rfl]), List.nil_append]
    · have herase : Entries.erase name ((key, old) :: rest) = (key, old) :: Entries.erase name rest := by
        rw [Entries.erase, List.filter_cons, if_pos (by simp [hkey])]
        rfl
      rw [herase, walkChildren_cons, List.filter_append, ih hrest]
      intro old' hget
      exact h old' (by rw [Entries.get?_cons, if_neg hkey, hget])

/-- A walk takes nothing admitted in what is bare and no admitted file. -/
theorem filter_walkAt_bare (hbare : Bare (some t)) (hfile : ∀ content, t.standing [] = .file content → ¬admits start) :
    (t.walkAt enters takes start).filter admits = [] := by
  cases t with
  | file content time =>
    have hadmits : ¬admits start := hfile content (by simp [standing])
    simp only [walkAt]
    split <;> simp [hadmits]
  | directory time children =>
    obtain rfl : children = [] := List.map_eq_nil_iff.mp (hbare _ rfl)
    simp [walkAt]

/-- Putting something bare at a bare place changes nothing of what a walk takes and is admitted, if neither what was
    there nor what is there now is an admitted file. -/
theorem filter_walk_set (start : List String) (ht : t.Proper) (hnew : Bare new) (hold : Bare (t.find? (place ++ [name])))
    (hadmits : (∃ content, Standing.of new = .file content ∨ t.standing (place ++ [name]) = .file content) →
      ¬admits (start ++ place ++ [name])) :
    ((t.set new (place ++ [name])).walk enters takes start).filter admits = (t.walk enters takes start).filter admits := by
  induction place generalizing t start with
  | nil =>
    cases t with
    | file _ _ => rfl
    | directory time children =>
      have hold' : ∀ old, Entries.get? name children = some old →
          (old.walkAt enters takes (start ++ [name])).filter admits = [] := fun old hget => by
        refine filter_walkAt_bare (by simpa [hget] using hold) fun content hfile => ?_
        simpa using hadmits ⟨content, Or.inr (by simpa [standing_directory_cons, hget] using hfile)⟩
      rw [List.nil_append, set_singleton, walk, walk]
      cases new with
      | none => exact filter_walkChildren_erase (proper_directory.mp ht).1 hold'
      | some n =>
        have hn : (n.walkAt enters takes (start ++ [name])).filter admits = [] :=
          filter_walkAt_bare hnew fun content hfile => by
            simpa using hadmits ⟨content, Or.inl (by simpa [standing] using hfile)⟩
        refine filter_walkChildren_put ?_
        rw [hn]
        cases hget : Entries.get? name children with
        | none => rfl
        | some old => exact (hold' old hget).symm
  | cons name₁ place ih =>
    cases t with
    | file _ _ => rw [set_file]
    | directory time children =>
      rw [List.cons_append, set_cons (by simp)]
      cases hchild : Entries.get? name₁ children with
      | none => rfl
      | some child =>
        rw [walk, walk]
        refine filter_walkChildren_put ?_
        rw [hchild]
        cases child with
        | file _ _ => rw [set_file]
        | directory time' children' =>
          have hproper := ((proper_directory.mp ht).2 _ (Entries.mem_of_get? hchild)).2
          have hwalk := ih (start ++ [name₁]) hproper (by simpa [hchild] using hold)
            (by simpa [standing_directory_cons, hchild] using hadmits)
          obtain ⟨children₂, hset⟩ := exists_set_directory new time' children' (place ++ [name])
          rw [hset] at hwalk ⊢
          simp only [walkAt]
          split
          · exact hwalk
          · rfl

end Walks

end Tree

end ResponseShapes
