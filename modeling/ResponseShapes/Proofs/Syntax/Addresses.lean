import Mathlib.Data.List.Infix
import Mathlib.Data.List.Pairwise
import Mathlib.Data.List.Perm.Subperm
import ResponseShapes.Proofs.Syntax.Laid

/-! # Addresses

The address of a node tells the way down to it: the place of each node on this way among its siblings. Addresses are
ordered like words in a dictionary, so that a node comes before all that stands below it, and that before the siblings
behind. In a tree that is laid over a text the order of addresses is that of the text (`Laid.behind_or_below`). The
traversal of a tree by recursion meets the nodes in the order of their addresses, each once, and leaves out exactly
those that stand below a closed node (`lists_preorderAll`). -/

namespace ResponseShapes.Syntax.Node

variable {closed : Node → Bool} {n root x y c : Node} {ns : List Node} {a b address : List Nat} {i place : Nat}
  {p q : List Nat → Node → Prop}

/-- The node at an address. -/
def at? (n : Node) : List Nat → Option Node
  | [] => some n
  | i :: address => n.children[i]?.bind fun c => c.at? address

/-- The node stands on the way from the root down to the address, and at neither end of it. -/
def Between (root : Node) (address : List Nat) (y : Node) : Prop :=
  ∃ way, way ≠ [] ∧ way ≠ address ∧ way <+: address ∧ root.at? way = some y

/-- The nodes are those at the addresses with a property, each once and in the order of the addresses. -/
def Lists (root : Node) (p : List Nat → Node → Prop) (ns : List Node) : Prop :=
  ∃ located : List (List Nat × Node), located.map Prod.snd = ns ∧ (located.Pairwise fun x y => x.1 < y.1) ∧
    ∀ address n, (address, n) ∈ located ↔ root.at? address = some n ∧ p address n

mutual

/-- The node and what stands below it, each node before those below it. Nothing below a closed node is there. -/
def preorder (closed : Node → Bool) : Node → List Node
  | mk k r a b cs => mk k r a b cs :: (if closed (mk k r a b cs) then [] else preorderAll closed cs)

/-- Several trees, one after the other. -/
def preorderAll (closed : Node → Bool) : List Node → List Node
  | [] => []
  | n :: ns => n.preorder closed ++ preorderAll closed ns

end

theorem preorder_eq (n : Node) :
    n.preorder closed = n :: (if closed n then [] else preorderAll closed n.children) := by
  cases n
  rw [preorder]
  rfl

theorem preorderAll_append (ms ns : List Node) :
    preorderAll closed (ms ++ ns) = preorderAll closed ms ++ preorderAll closed ns := by
  induction ms with
  | nil => rfl
  | cons m ms ih => rw [List.cons_append, preorderAll, preorderAll, ih, List.append_assoc]

/-! ### Ways down -/

theorem at?_cons (hc : n.children[i]? = some c) (address : List Nat) : n.at? (i :: address) = c.at? address := by
  rw [at?, hc, Option.bind_some]

theorem exists_child_of_at? (h : n.at? (i :: address) = some x) : ∃ c, n.children[i]? = some c ∧ c.at? address = some x :=
  Option.bind_eq_some_iff.mp h

theorem below_of_at? (h : n.at? address = some x) : Below n x := by
  induction address generalizing n with
  | nil =>
    obtain rfl : n = x := Option.some.inj h
    exact .refl n
  | cons i address ih =>
    obtain ⟨c, hc, h⟩ := exists_child_of_at? h
    exact .child (List.mem_of_getElem? hc) (ih h)

theorem between_cons_iff (hc : n.children[i]? = some c) :
    n.Between (i :: address) y ↔ (address ≠ [] ∧ y = c) ∨ c.Between address y := by
  constructor
  · rintro ⟨way, hnil, hne, hprefix, hway⟩
    obtain ⟨j, rest, rfl⟩ := List.exists_cons_of_ne_nil hnil
    obtain ⟨rfl, hrest⟩ := List.cons_prefix_cons.mp hprefix
    have hne : rest ≠ address := fun heq => hne (heq ▸ rfl)
    rw [at?_cons hc] at hway
    by_cases hempty : rest = []
    · subst hempty
      exact .inl ⟨hne.symm, (Option.some.inj hway).symm⟩
    · exact .inr ⟨rest, hempty, hne, hrest, hway⟩
  · rintro (⟨hne, rfl⟩ | ⟨way, hnil, hne, hprefix, hway⟩)
    · refine ⟨[i], List.cons_ne_nil _ _, fun heq => hne (List.cons.inj heq).2.symm, ?_, ?_⟩
      · exact List.cons_prefix_cons.mpr ⟨rfl, List.nil_prefix⟩
      · rw [at?_cons hc]
        rfl
    · refine ⟨i :: way, List.cons_ne_nil _ _, fun heq => hne (List.cons.inj heq).2, ?_, ?_⟩
      · exact List.cons_prefix_cons.mpr ⟨rfl, hprefix⟩
      · rwa [at?_cons hc]

/-- The nodes between the root and an address can be listed. -/
theorem between_iff_mem : root.Between address y ↔
    y ∈ (address.inits.filter fun way => way ≠ [] && way ≠ address).filterMap root.at? := by
  simp [Between, and_assoc, and_left_comm]

/-- The address leads from one node to another, and no node that it leads through is closed. -/
inductive Reaches (closed : Node → Bool) : Node → List Nat → Node → Prop
  | here (n : Node) : Reaches closed n [] n
  | down {n c x : Node} {i : Nat} {address : List Nat} (hopen : closed n = false) (hc : n.children[i]? = some c)
    (h : Reaches closed c address x) : Reaches closed n (i :: address) x

theorem reaches_cons_iff :
    Reaches closed n (i :: address) x ↔ closed n = false ∧ ∃ c, n.children[i]? = some c ∧ Reaches closed c address x := by
  constructor
  · rintro (_ | ⟨hopen, hc, h⟩)
    exact ⟨hopen, _, hc, h⟩
  · rintro ⟨hopen, c, hc, h⟩
    exact .down hopen hc h

theorem reaches_iff : Reaches closed n address x ↔ n.at? address = some x ∧ (address ≠ [] → closed n = false) ∧
    ∀ y, n.Between address y → closed y = false := by
  induction address generalizing n with
  | nil =>
    constructor
    · rintro ⟨⟩
      refine ⟨rfl, fun h => absurd rfl h, ?_⟩
      rintro y ⟨way, hnil, -, hprefix, -⟩
      exact absurd (List.prefix_nil.mp hprefix) hnil
    · rintro ⟨h, -, -⟩
      obtain rfl : n = x := Option.some.inj h
      exact .here n
  | cons i address ih =>
    rw [reaches_cons_iff]
    constructor
    · rintro ⟨hopen, c, hc, h⟩
      obtain ⟨hat, hhere, hbetween⟩ := ih.mp h
      refine ⟨by rwa [at?_cons hc], fun _ => hopen, fun y hy => ?_⟩
      obtain ⟨hne, rfl⟩ | hy := (between_cons_iff hc).mp hy
      · exact hhere hne
      · exact hbetween y hy
    · rintro ⟨hat, hopen, hbetween⟩
      obtain ⟨c, hc, hat⟩ := exists_child_of_at? hat
      refine ⟨hopen (List.cons_ne_nil _ _), c, hc, ih.mpr ⟨hat, fun hne => ?_, fun y hy => ?_⟩⟩
      · exact hbetween c ((between_cons_iff hc).mpr (.inl ⟨hne, rfl⟩))
      · exact hbetween y ((between_cons_iff hc).mpr (.inr hy))

/-- Below a node an address is open if it is so from the child where the way begins. -/
theorem reaches_child_iff : (∃ c, n.children[i]? = some c ∧ Reaches closed c address x) ↔
    n.at? (i :: address) = some x ∧ ∀ y, n.Between (i :: address) y → closed y = false := by
  constructor
  · rintro ⟨c, hc, h⟩
    obtain ⟨hat, hhere, hbetween⟩ := reaches_iff.mp h
    refine ⟨by rwa [at?_cons hc], fun y hy => ?_⟩
    obtain ⟨hne, rfl⟩ | hy := (between_cons_iff hc).mp hy
    · exact hhere hne
    · exact hbetween y hy
  · rintro ⟨hat, hbetween⟩
    obtain ⟨c, hc, hat⟩ := exists_child_of_at? hat
    refine ⟨c, hc, reaches_iff.mpr ⟨hat, fun hne => ?_, fun y hy => ?_⟩⟩
    · exact hbetween c ((between_cons_iff hc).mpr (.inl ⟨hne, rfl⟩))
    · exact hbetween y ((between_cons_iff hc).mpr (.inr hy))

/-! ### Traversals with addresses -/

mutual

/-- The nodes of a traversal with their addresses. -/
def located (closed : Node → Bool) : Node → List (List Nat × Node)
  | mk k r a b cs => ([], mk k r a b cs) :: (if closed (mk k r a b cs) then [] else locatedAll closed 0 cs)

/-- The nodes of a traversal of siblings with their addresses, of which the first sibling has the place `place`. -/
def locatedAll (closed : Node → Bool) (place : Nat) : List Node → List (List Nat × Node)
  | [] => []
  | n :: ns => (n.located closed).map (fun x => (place :: x.1, x.2)) ++ locatedAll closed (place + 1) ns

end

mutual

theorem map_located : ∀ n : Node, (n.located closed).map Prod.snd = n.preorder closed
  | mk k r a b cs => by
    rw [located, preorder, List.map_cons]
    split
    · rfl
    · rw [map_locatedAll 0 cs]

theorem map_locatedAll (place : Nat) : ∀ ns : List Node, (locatedAll closed place ns).map Prod.snd = preorderAll closed ns
  | [] => rfl
  | n :: ns => by
    rw [locatedAll, preorderAll, List.map_append, List.map_map, ← map_located n, ← map_locatedAll (place + 1) ns]
    rfl

end

mutual

theorem mem_located : ∀ (n : Node) (address : List Nat),
    (address, x) ∈ n.located closed ↔ Reaches closed n address x
  | mk k r a b cs, [] => by
    rw [located, List.mem_cons]
    constructor
    · rintro (h | h)
      · cases h
        exact .here _
      · split at h
        · cases h
        · obtain ⟨i, c, address, heq, -⟩ := (mem_locatedAll 0 cs []).mp h
          cases heq
    · rintro ⟨⟩
      exact .inl rfl
  | mk k r a b cs, i :: address => by
    rw [located, List.mem_cons, reaches_cons_iff]
    constructor
    · rintro (h | h)
      · cases h
      · split at h
        · cases h
        · rename_i hopen
          obtain ⟨j, c, address', heq, hc, h⟩ := (mem_locatedAll 0 cs (i :: address)).mp h
          rw [Nat.zero_add] at heq
          obtain ⟨rfl, rfl⟩ := List.cons.inj heq
          exact ⟨Bool.eq_false_iff.mpr hopen, c, hc, h⟩
    · rintro ⟨hopen, c, hc, h⟩
      rw [if_neg (Bool.eq_false_iff.mp hopen)]
      exact .inr ((mem_locatedAll 0 cs (i :: address)).mpr ⟨i, c, address, by rw [Nat.zero_add], hc, h⟩)

theorem mem_locatedAll (place : Nat) : ∀ (ns : List Node) (a : List Nat), (a, x) ∈ locatedAll closed place ns ↔
    ∃ i c address, a = (place + i) :: address ∧ ns[i]? = some c ∧ Reaches closed c address x
  | [], a => by simp [locatedAll]
  | n :: ns, a => by
    rw [locatedAll, List.mem_append, mem_locatedAll (place + 1) ns a, List.mem_map]
    constructor
    · rintro (⟨⟨address, x'⟩, hx, heq⟩ | ⟨i, c, address, rfl, hc, h⟩)
      · obtain ⟨rfl, hsame⟩ := Prod.mk.inj heq
        exact ⟨0, n, address, rfl, rfl, (mem_located n address).mp (hsame ▸ hx)⟩
      · exact ⟨i + 1, c, address, by rw [Nat.add_assoc, Nat.add_comm 1], hc, h⟩
    · rintro ⟨i, c, address, rfl, hc, h⟩
      cases i with
      | zero =>
        obtain rfl : n = c := Option.some.inj hc
        exact .inl ⟨(address, x), (mem_located n address).mpr h, rfl⟩
      | succ i => exact .inr ⟨i, c, address, by rw [Nat.add_assoc, Nat.add_comm 1], hc, h⟩

end

mutual

/-- A traversal goes along the order of addresses. -/
theorem ascending_located : ∀ n : Node, (n.located closed).Pairwise fun x y => x.1 < y.1
  | mk k r a b cs => by
    rw [located]
    split
    · exact List.pairwise_singleton _ _
    · refine List.Pairwise.cons (fun y hy => ?_) (ascending_locatedAll 0 cs)
      obtain ⟨i, c, address, heq, -⟩ := (mem_locatedAll 0 cs y.1).mp hy
      rw [heq]
      exact List.nil_lt_cons _ _

theorem ascending_locatedAll (place : Nat) : ∀ ns : List Node,
    (locatedAll closed place ns).Pairwise fun x y => x.1 < y.1
  | [] => List.Pairwise.nil
  | n :: ns => by
    rw [locatedAll]
    refine List.pairwise_append.mpr ⟨?_, ascending_locatedAll (place + 1) ns, fun x hx y hy => ?_⟩
    · refine List.pairwise_map.mpr ((ascending_located n).imp fun h => ?_)
      exact List.cons_lt_cons_iff.mpr (.inr ⟨rfl, h⟩)
    · obtain ⟨z, -, rfl⟩ := List.mem_map.mp hx
      obtain ⟨i, c, address, heq, -⟩ := (mem_locatedAll (place + 1) ns y.1).mp hy
      rw [heq]
      exact List.cons_lt_cons_iff.mpr (.inl (by omega))

end

/-- The traversal of what stands below a node lists the nodes that are not reached through a closed one. -/
theorem lists_preorderAll (closed : Node → Bool) (n : Node) :
    n.Lists (fun address _ => address ≠ [] ∧ ∀ y, n.Between address y → closed y = false)
      (preorderAll closed n.children) := by
  refine ⟨locatedAll closed 0 n.children, map_locatedAll 0 _, ascending_locatedAll 0 _, fun address x => ?_⟩
  rw [mem_locatedAll]
  constructor
  · rintro ⟨i, c, address, rfl, hc, h⟩
    rw [Nat.zero_add]
    obtain ⟨hat, hbetween⟩ := reaches_child_iff.mp ⟨c, hc, h⟩
    exact ⟨hat, List.cons_ne_nil _ _, hbetween⟩
  · rintro ⟨hat, hne, hbetween⟩
    obtain ⟨i, address, rfl⟩ := List.exists_cons_of_ne_nil hne
    obtain ⟨c, hc, h⟩ := reaches_child_iff.mpr ⟨hat, hbetween⟩
    exact ⟨i, c, address, by rw [Nat.zero_add], hc, h⟩

/-! ### Nodes that are listed -/

namespace Lists

theorem congr (h : root.Lists p ns) (hpq : ∀ address n, root.at? address = some n → (p address n ↔ q address n)) :
    root.Lists q ns := by
  obtain ⟨located, hmap, hascending, hmem⟩ := h
  refine ⟨located, hmap, hascending, fun address n => (hmem address n).trans ?_⟩
  exact and_congr_right (hpq address n)

/-- The root comes before all that is below it. -/
theorem cons_root (h : root.Lists (fun address n => address ≠ [] ∧ p address n) ns) (hroot : p [] root) :
    root.Lists p (root :: ns) := by
  obtain ⟨located, rfl, hascending, hmem⟩ := h
  refine ⟨([], root) :: located, rfl, List.Pairwise.cons (fun y hy => ?_) hascending, fun address n => ?_⟩
  · obtain ⟨i, address, heq⟩ := List.exists_cons_of_ne_nil ((hmem y.1 y.2).mp hy).2.1
    rw [heq]
    exact List.nil_lt_cons _ _
  · rw [List.mem_cons, hmem]
    constructor
    · rintro (h | ⟨hat, -, hp⟩)
      · obtain ⟨rfl, rfl⟩ := Prod.mk.inj h
        exact ⟨rfl, hroot⟩
      · exact ⟨hat, hp⟩
    · rintro ⟨hat, hp⟩
      cases address with
      | nil =>
        obtain rfl : root = n := Option.some.inj hat
        exact .inl rfl
      | cons i address => exact .inr ⟨hat, List.cons_ne_nil _ _, hp⟩

theorem filter (h : root.Lists p ns) (keep : Node → Bool) :
    root.Lists (fun address n => keep n = true ∧ p address n) (ns.filter keep) := by
  obtain ⟨located, rfl, hascending, hmem⟩ := h
  refine ⟨located.filter fun x => keep x.2, ?_, hascending.filter _, fun address n => ?_⟩
  · rw [List.filter_map]
    rfl
  · rw [List.mem_filter, hmem]
    exact ⟨fun ⟨⟨hat, hp⟩, hkeep⟩ => ⟨hat, hkeep, hp⟩, fun ⟨hat, hkeep, hp⟩ => ⟨⟨hat, hp⟩, hkeep⟩⟩

/-- Nodes that are listed for two properties, of which one implies the other, are listed for the same. -/
theorem imp_of_imp (hp : root.Lists p ns) (hq : root.Lists q ns)
    (hqp : ∀ address n, root.at? address = some n → q address n → p address n) (hat : root.at? address = some n)
    (h : p address n) : q address n := by
  obtain ⟨located, rfl, -, hmem⟩ := hp
  obtain ⟨located', hmap', hascending', hmem'⟩ := hq
  have hsubset : located' ⊆ located := fun x hx => by
    obtain ⟨hat, hx⟩ := (hmem' x.1 x.2).mp hx
    exact (hmem x.1 x.2).mpr ⟨hat, hqp _ _ hat hx⟩
  have hnodup : located'.Nodup := hascending'.imp fun {x y} hlt (heq : x = y) => List.lt_irrefl _ (heq ▸ hlt)
  have hlength : located.length ≤ located'.length := by
    have h := congrArg List.length hmap'
    rw [List.length_map, List.length_map] at h
    exact Nat.le_of_eq h.symm
  have hperm := (List.subperm_of_subset hnodup hsubset).perm_of_length_le hlength
  exact ((hmem' address n).mp (hperm.mem_iff.mpr ((hmem address n).mpr ⟨hat, h⟩))).2

/-- What holds of the nodes at any two addresses of which the first is less holds of any two nodes that are listed. -/
theorem pairwise {R : Node → Node → Prop} (h : root.Lists p ns)
    (hR : ∀ a b x y, root.at? a = some x → root.at? b = some y → a < b → R x y) : ns.Pairwise R := by
  obtain ⟨located, rfl, hascending, hmem⟩ := h
  refine List.pairwise_map.mpr (hascending.imp_of_mem fun {x y} hx hy hlt => ?_)
  exact hR x.1 y.1 x.2 y.2 ((hmem x.1 x.2).mp hx).1 ((hmem y.1 y.2).mp hy).1 hlt

end Lists

/-! ### The order of a text -/

/-- Of two nodes of a tree that is laid over a text, the one with the greater address stands behind or below the
    other. -/
theorem Laid.behind_or_below {text : List Char} (h : root.Laid text) (ha : root.at? a = some x)
    (hb : root.at? b = some y) (hlt : a < b) : x.stop ≤ y.start ∨ Below x y := by
  induction a generalizing root b with
  | nil =>
    obtain rfl : root = x := Option.some.inj ha
    exact .inr (below_of_at? hb)
  | cons i a ih =>
    cases b with
    | nil => exact absurd hlt (List.not_lt_nil _)
    | cons j b =>
      obtain ⟨c, hc, ha⟩ := exists_child_of_at? ha
      obtain ⟨d, hd, hb⟩ := exists_child_of_at? hb
      obtain hij | ⟨rfl, hrest⟩ := List.cons_lt_cons_iff.mp hlt
      · -- The ways part here, at two siblings.
        obtain ⟨hi, rfl⟩ := List.getElem?_eq_some_iff.mp hc
        obtain ⟨hj, rfl⟩ := List.getElem?_eq_some_iff.mp hd
        have hsiblings := List.pairwise_iff_getElem.mp h.ordered i j hi hj hij
        obtain ⟨-, -, hx⟩ := (h.child (List.getElem_mem hi)).laid.below (below_of_at? ha)
        obtain ⟨-, hy, -⟩ := (h.child (List.getElem_mem hj)).laid.below (below_of_at? hb)
        exact .inl (Nat.le_trans hx (Nat.le_trans hsiblings hy))
      · obtain rfl : c = d := Option.some.inj (hc.symm.trans hd)
        exact ih (h.child (List.mem_of_getElem? hc)).laid ha hb hrest

end ResponseShapes.Syntax.Node
