import Mathlib.Data.Fintype.Basic
import Mathlib.Logic.Function.Basic
import ResponseShapes.Proofs.Build.Lock

/-! # When a lock keeps others out

Several locks share one file and are acquired and released in any order while time goes on. A lock that is held for
longer than it may be can lose its file to another one without knowing it: it is overtaken. As long as no overtaken lock
is released while the file is another one's, whoever acquires a lock has it alone (`Holders.exclusive_iff`). An
overtaken lock breaks this law whenever it is called, since it still takes itself for the holder. -/

namespace ResponseShapes

/-- A call of one of several locks. -/
inductive LockCall (ι : Type)
  | acquire (i : ι)
  | release (i : ι)

/-- Locks that share a file, and what has become of it. -/
structure Holders (ι : Type) where
  disk : Disk
  lock : ι → Lock
  /-- When each lock made the file, unless it was released since. -/
  since : ι → Option Int
  /-- The lock that made the file, unless the file is gone or somebody else's. -/
  maker : Option ι

namespace Holders

variable {ι : Type} {s : Holders ι} {path : Path} {limit : Binary64} {clock : Int} {i j : ι} {call : LockCall ι}
  {calls : List (Int × LockCall ι)}

/-- What acquiring a lock at a time comes to. -/
def acquired (s : Holders ι) (clock : Int) (i : ι) : Except Interruption Lock × Disk :=
  let (r, σ) := ((s.lock i).acquire (Lock.seconds clock)).run
    { disk := s.disk.later clock, rows := [], progress := Progress.empty }
  (r, σ.disk)

/-- The files after a lock was released at a time. -/
def released (s : Holders ι) (clock : Int) (i : ι) : Disk :=
  ((s.lock i).release.run { disk := s.disk.later clock, rows := [], progress := Progress.empty }).2.disk

/-- Whether acquiring a lock at a time succeeds. -/
def succeeds (s : Holders ι) (clock : Int) (i : ι) : Bool :=
  match (s.acquired clock i).1 with
  | .ok l => l.held
  | .error _ => false

/-- What a call at a time leads to. -/
def after [DecidableEq ι] (s : Holders ι) (clock : Int) : LockCall ι → Holders ι
  | .acquire i =>
    match s.acquired clock i with
    | (.ok l, d) =>
      let s' := { s with disk := d, lock := Function.update s.lock i l }
      if l.held && !(s.lock i).held then { s' with since := Function.update s.since i (some clock), maker := some i }
      else s'
    | (.error _, d) => { s with disk := d }
  | .release i =>
    { disk := s.released clock i
      lock := Function.update s.lock i (s.lock i).released
      since := Function.update s.since i none
      maker := if (s.lock i).held then none else s.maker }

/-- A lock is held and no older than it may be. -/
def Fresh (s : Holders ι) (clock : Int) (i : ι) : Prop :=
  ∃ time, s.since i = some time ∧ (s.lock i).staleAfter.isLess (Lock.age (Lock.seconds clock) time) = false

/-- A lock is held, but the file is not the one that it made. -/
def Overtaken (s : Holders ι) (i : ι) : Prop :=
  (s.lock i).held = true ∧ s.maker ≠ some i

/-- The law of exclusion: acquiring a lock succeeds only if no other one is fresh, and a release leaves the file of
    another lock as it is. -/
def Lawful [DecidableEq ι] (s : Holders ι) (clock : Int) : LockCall ι → Prop
  | .acquire i => s.succeeds clock i = true → ∀ j ≠ i, ¬s.Fresh clock j
  | .release i => ∀ j ≠ i, s.maker = some j →
      (s.after clock (.release i)).disk.stands (s.lock j).path = .file (s.lock j).mark

/-- A call of an overtaken lock while another one is fresh or has made the file. -/
def Harmful (s : Holders ι) (clock : Int) : LockCall ι → Prop
  | .acquire i => s.Overtaken i ∧ ∃ j ≠ i, s.Fresh clock j
  | .release i => s.Overtaken i ∧ s.maker ≠ none

/-- Something holds at each of the calls that are made one after the other. -/
def Along [DecidableEq ι] (P : Holders ι → Int → LockCall ι → Prop) : Holders ι → List (Int × LockCall ι) → Prop
  | _, [] => True
  | s, (clock, call) :: calls => P s clock call ∧ Along P (s.after clock call) calls

/-- Locks of one path and one limit that nobody has acquired yet. -/
structure Idle (path : Path) (limit : Binary64) (s : Holders ι) : Prop where
  paths : ∀ i, (s.lock i).path = path
  limits : ∀ i, (s.lock i).staleAfter = limit
  free : ∀ i, (s.lock i).held = false
  since : ∀ i, s.since i = none
  maker : s.maker = none

/-- What the locks say about themselves is so: those that are held made the file at some time, and the file of the one
    that made it last is there, with the time at which it was made. -/
structure Sound (path : Path) (limit : Binary64) (s : Holders ι) : Prop where
  paths : ∀ i, (s.lock i).path = path
  limits : ∀ i, (s.lock i).staleAfter = limit
  since : ∀ i, (s.since i).isSome = (s.lock i).held
  made : ∀ i, s.maker = some i → ∃ place time, place ≠ [] ∧ s.since i = some time ∧
    s.disk.place path = .ok place ∧ s.disk.tree.file? place = some ((s.lock i).mark, time)

/-- Every lock that is overtaken was held for too long. -/
def Orderly (s : Holders ι) (clock : Int) : Prop :=
  ∀ i, s.Overtaken i → ¬s.Fresh clock i

theorem Idle.sound (h : s.Idle path limit) : s.Sound path limit where
  paths := h.paths
  limits := h.limits
  since := fun i => by rw [h.since, h.free]; rfl
  made := fun i hi => by rw [h.maker] at hi; cases hi

theorem Idle.orderly (h : s.Idle path limit) (clock : Int) : s.Orderly clock := fun i hi => by
  rw [Overtaken, h.free] at hi
  exact absurd hi.1 Bool.false_ne_true

/-- Whatever changes around the file, the locks are right about it. -/
theorem Sound.around (hs : s.Sound path limit) {d' : Disk}
    (hregen : Disk.Regenerated (fun _ => False) (fun _ => True) s.disk d') : { s with disk := d' }.Sound path limit :=
  { hs with
    made := fun j hj =>
      let ⟨place, time, hne, hsince, hplace, hfile⟩ := hs.made j hj
      ⟨place, time, hne, hsince, hregen.place_eq hplace, (hregen.files place id).trans hfile⟩ }

/-- Time goes on: no lock that was held for too long is fresh later. -/
theorem Orderly.later {earlier later : Int} (ho : s.Orderly earlier)
    (hclock : (Lock.seconds later).isLess (Lock.seconds earlier) = false) : s.Orderly later := by
  rintro i hi ⟨time, hsince, hless⟩
  refine ho i hi ⟨time, hsince, Bool.eq_false_iff.mpr fun h => ?_⟩
  rw [Lock.isLess_age_later hclock h] at hless
  cases hless

/-! ### One call -/

theorem Sound.held (hs : s.Sound path limit) {time : Int} (h : s.since i = some time) : (s.lock i).held = true := by
  rw [← hs.since, h]
  rfl

theorem Fresh.held (h : s.Fresh clock i) (hs : s.Sound path limit) : (s.lock i).held = true :=
  let ⟨_, hsince, _⟩ := h
  hs.held hsince

variable [DecidableEq ι]

/-- Acquiring a lock either makes its file, over one that is too old if there is any, or leaves all locks as they are; then
    it succeeds if the lock was held. -/
theorem after_acquire (hs : s.Sound path limit) (clock : Int) (i : ι) :
    (s.succeeds clock i = (s.lock i).held ∧ ∃ d', s.after clock (.acquire i) = { s with disk := d' } ∧
      Disk.Regenerated (fun _ => False) (fun _ => True) s.disk d') ∨
    (s.lock i).held = false ∧ ∃ d₁ place d', Disk.Regenerated (fun _ => False) (fun _ => True) s.disk d₁ ∧
      d₁.clock = clock ∧ (s.lock i).Takes place d₁ d' ∧
      (∀ content time, d₁.tree.file? place = some (content, time) →
        limit.isLess (Lock.age (Lock.seconds clock) time) = true) ∧
      s.after clock (.acquire i) =
        { disk := d'
          lock := Function.update s.lock i { s.lock i with held := true }
          since := Function.update s.since i (some clock)
          maker := some i } := by
  have hacquired : ∀ {r d'}, ((s.lock i).acquire (Lock.seconds clock)).Does (s.disk.later clock) r d' →
      s.acquired clock i = (r, d') := fun h => by
    obtain ⟨rows, h⟩ := h [] Progress.empty
    rw [acquired, h]
  -- Without a change of the lock nothing is changed but directories.
  have hkept : ∀ {r d'}, ((s.lock i).acquire (Lock.seconds clock)).Does (s.disk.later clock) r d' →
      (r = .ok (s.lock i) ∨ ∃ e, r = .error e) → (s.lock i).held = false ∨ r = .ok (s.lock i) →
      s.succeeds clock i = (s.lock i).held ∧ s.after clock (.acquire i) = { s with disk := d' } := by
    rintro r d' hdoes (rfl | ⟨e, rfl⟩) hheld
    · refine ⟨by rw [succeeds, hacquired hdoes], ?_⟩
      simp only [after, hacquired hdoes]
      rw [if_neg (by simp), Function.update_eq_self]
    · refine ⟨by rw [succeeds, hacquired hdoes, hheld.resolve_right nofun], ?_⟩
      simp only [after, hacquired hdoes]
  cases hheld : (s.lock i).held with
  | true =>
    obtain ⟨hsucceeds, hafter⟩ := hkept (Lock.acquire_of_held hheld _ _) (.inl rfl) (.inr rfl)
    exact .inl ⟨hheld ▸ hsucceeds, _, hafter, (Disk.Regenerated.refl _ _ s.disk).later clock⟩
  | false =>
    obtain ⟨hregen, hclock, -⟩ := (s.disk.later clock).makeDirectoriesFrom_regenerated
      (s.lock i).path.parent.parts.length (s.lock i).path.parent
    obtain ⟨d₁, failure, hmake⟩ : ∃ d₁ failure, (s.disk.later clock).makeDirectories (s.lock i).path.parent =
      (d₁, failure) := ⟨_, _, rfl⟩
    rw [← Disk.makeDirectories, hmake] at hregen hclock
    have hregen' : Disk.Regenerated (fun _ => False) (fun _ => True) s.disk d₁ :=
      ((Disk.Regenerated.refl _ _ s.disk).later clock).trans hregen
    obtain ⟨place, d', hdoes, htakes, hold⟩ | ⟨place, t, -, -, -, hdoes⟩ | ⟨e, -, hdoes⟩ :=
      Lock.acquire_cases hheld hmake (Lock.seconds clock)
    · refine .inr ⟨rfl, d₁, place, d', hregen', hclock, htakes, fun content time hfile => ?_, ?_⟩
      · rw [← hs.limits i]
        exact hold content time hfile
      · simp only [after, hacquired hdoes]
        rw [if_pos (by rw [hheld]; rfl)]
    · obtain ⟨hsucceeds, hafter⟩ := hkept hdoes (.inl rfl) (.inr rfl)
      exact .inl ⟨hheld ▸ hsucceeds, d₁, hafter, hregen'⟩
    · obtain ⟨hsucceeds, hafter⟩ := hkept hdoes (.inr ⟨e, rfl⟩) (.inl hheld)
      exact .inl ⟨hheld ▸ hsucceeds, d₁, hafter, hregen'⟩

/-- Releasing a lock takes the file away if the lock is held, and does nothing otherwise. -/
theorem after_release (hs : s.Sound path limit) (clock : Int) (i : ι) :
    ((s.lock i).held = false ∧ s.after clock (.release i) = { s with disk := s.disk.later clock }) ∨
    (s.lock i).held = true ∧ ∃ d', Disk.Regenerated (fun q => s.disk.place path = .ok q) (fun _ => False) s.disk d' ∧
      (∀ place content time, place ≠ [] → s.disk.place path = .ok place →
        s.disk.tree.file? place = some (content, time) → d'.tree.standing place = .nothing) ∧
      s.after clock (.release i) =
        { disk := d'
          lock := Function.update s.lock i (s.lock i).released
          since := Function.update s.since i none
          maker := none } := by
  have hreleased : ∀ {r d'}, (s.lock i).release.Does (s.disk.later clock) r d' → s.released clock i = d' := fun h => by
    obtain ⟨rows, h⟩ := h [] Progress.empty
    rw [released, h]
  cases hheld : (s.lock i).held with
  | false =>
    have hsince : s.since i = none := Option.not_isSome_iff_eq_none.mp (by rw [hs.since, hheld]; exact Bool.false_ne_true)
    have hlock : (s.lock i).released = s.lock i := by rw [Lock.released, ← hheld]
    refine .inl ⟨rfl, ?_⟩
    rw [after, hreleased (Lock.release_of_not_held hheld _), hlock, Function.update_eq_self, ← hsince,
      Function.update_eq_self, hheld, if_neg Bool.false_ne_true]
  | true =>
    obtain ⟨r, d', hdoes, hregen, hgone⟩ := Lock.release_of_held hheld (s.disk.later clock)
    rw [hs.paths] at hregen hgone
    refine .inr ⟨rfl, d', ((Disk.Regenerated.refl _ _ s.disk).later clock).trans hregen,
      fun place content time hne hplace hfile => (hgone place content time hne hplace hfile).2, ?_⟩
    rw [after, hreleased hdoes, hheld, if_pos rfl]

/-! ### Several calls -/

theorem Sound.after (hs : s.Sound path limit) (clock : Int) (call : LockCall ι) : (s.after clock call).Sound path limit := by
  cases call with
  | acquire i =>
    obtain ⟨-, d', hafter, hregen⟩ | ⟨hheld, d₁, place, d', hregen, hclock, htakes, -, hafter⟩ :=
      after_acquire hs clock i <;> rw [hafter]
    · exact hs.around hregen
    · refine ⟨fun j => ?_, fun j => ?_, fun j => ?_, fun j hj => ?_⟩
      · by_cases hj : j = i <;> simp [hj, hs.paths]
      · by_cases hj : j = i <;> simp [hj, hs.limits]
      · by_cases hj : j = i <;> simp [hj, hs.since]
      · obtain rfl : i = j := Option.some.inj hj
        refine ⟨place, clock, htakes.inside, by simp, hs.paths i ▸ htakes.leads, ?_⟩
        simpa [Lock.mark, hclock] using htakes.file
  | release i =>
    obtain ⟨-, hafter⟩ | ⟨-, d', -, -, hafter⟩ := after_release hs clock i <;> rw [hafter]
    · exact hs.around ((Disk.Regenerated.refl _ _ s.disk).later clock)
    · refine ⟨fun j => ?_, fun j => ?_, fun j => ?_, nofun⟩
      · by_cases hj : j = i <;> simp [hj, Lock.released, hs.paths]
      · by_cases hj : j = i <;> simp [hj, Lock.released, hs.limits]
      · by_cases hj : j = i <;> simp [hj, Lock.released, hs.since]

/-- Making the file leaves no lock fresh, if every lock that is overtaken was held for too long. -/
theorem Orderly.not_fresh_of_takes (ho : s.Orderly clock) (hs : s.Sound path limit) {place : List String} {d₁ d' : Disk}
    (hregen : Disk.Regenerated (fun _ => False) (fun _ => True) s.disk d₁) (htakes : (s.lock i).Takes place d₁ d')
    (hold : ∀ content time, d₁.tree.file? place = some (content, time) →
      limit.isLess (Lock.age (Lock.seconds clock) time) = true) (j : ι) : ¬s.Fresh clock j := by
  intro hfresh
  by_cases hmaker : s.maker = some j
  · obtain ⟨place', time, -, hsince, hplace, hfile⟩ := hs.made j hmaker
    obtain ⟨time', hsince', hless⟩ := hfresh
    obtain rfl : time = time' := Option.some.inj (hsince.symm.trans hsince')
    have hplace' := htakes.regenerated.place_eq (hregen.place_eq hplace)
    rw [← hs.paths i] at hplace'
    obtain rfl : place' = place := Except.ok.inj (hplace'.symm.trans htakes.leads)
    rw [hs.limits, hold _ _ ((hregen.files place' id).trans hfile)] at hless
    cases hless
  · exact ho j ⟨hfresh.held hs, hmaker⟩ hfresh

/-- A call that does no harm keeps the law, and behind it every lock that is overtaken was held for too long again. -/
theorem Orderly.after (ho : s.Orderly clock) (hs : s.Sound path limit) (hharm : ¬s.Harmful clock call) :
    s.Lawful clock call ∧ (s.after clock call).Orderly clock := by
  cases call with
  | acquire i =>
    obtain ⟨hsucceeds, d', hafter, -⟩ | ⟨-, d₁, place, d', hregen, -, htakes, hold, hafter⟩ := after_acquire hs clock i
    · rw [hafter]
      refine ⟨fun hyes j hj hfresh => ?_, ho⟩
      rw [hsucceeds] at hyes
      by_cases hmaker : s.maker = some j
      · exact hharm ⟨⟨hyes, by rw [hmaker]; exact fun h => hj (Option.some.inj h)⟩, j, hj, hfresh⟩
      · exact ho j ⟨hfresh.held hs, hmaker⟩ hfresh
    · have hnone := ho.not_fresh_of_takes hs hregen htakes hold
      refine ⟨fun _ j _ => hnone j, fun k hk hfresh => ?_⟩
      rw [hafter] at hk hfresh
      have hki : k ≠ i := fun h => hk.2 (congrArg some h.symm)
      refine hnone k ?_
      simpa [Fresh, hki] using hfresh
  | release i =>
    obtain ⟨-, hafter⟩ | ⟨hheld, d', -, -, hafter⟩ := after_release hs clock i
    · rw [Lawful, hafter]
      refine ⟨fun j hj hmaker => ?_, ho⟩
      obtain ⟨place, time, -, -, hplace, hfile⟩ := hs.made j hmaker
      rw [hs.paths]
      exact (Disk.stands_of_place hplace).trans (Tree.standing_eq_file.mpr ⟨time, hfile⟩)
    · have hmaker : ∀ j, j ≠ i → s.maker ≠ some j := fun j hj hmaker => by
        refine hharm ⟨⟨hheld, ?_⟩, ?_⟩ <;> rw [hmaker]
        · exact fun h => hj (Option.some.inj h)
        · exact Option.some_ne_none j
      refine ⟨fun j hj hj' => absurd hj' (hmaker j hj), fun k hk hfresh => ?_⟩
      rw [hafter] at hk hfresh
      have hki : k ≠ i := by
        rintro rfl
        simpa [Lock.released] using hk.1
      refine ho k ⟨by simpa [hki] using hk.1, hmaker k hki⟩ ?_
      simpa [Fresh, hki] using hfresh

/-- A harmful call breaks the law: an overtaken lock still takes itself for the holder. -/
theorem Sound.not_lawful (hs : s.Sound path limit) (hharm : s.Harmful clock call) : ¬s.Lawful clock call := by
  cases call with
  | acquire i =>
    obtain ⟨⟨hheld, -⟩, j, hj, hfresh⟩ := hharm
    obtain ⟨hsucceeds, -⟩ | ⟨hfree, -⟩ := after_acquire hs clock i
    · exact fun hlaw => hlaw (hsucceeds.trans hheld) j hj hfresh
    · rw [hheld] at hfree
      cases hfree
  | release i =>
    obtain ⟨⟨hheld, hi⟩, hmaker⟩ := hharm
    obtain ⟨j, hmaker⟩ := Option.ne_none_iff_exists'.mp hmaker
    obtain ⟨hfree, -⟩ | ⟨-, d', hregen, hgone, hafter⟩ := after_release hs clock i
    · rw [hheld] at hfree
      cases hfree
    intro hlaw
    obtain ⟨place, time, hne, -, hplace, hfile⟩ := hs.made j hmaker
    have hfile' := hlaw j (by rintro rfl; exact hi hmaker) hmaker
    rw [hafter, hs.paths, Disk.stands_of_place (hregen.place_eq hplace), hgone _ _ _ hne hplace hfile] at hfile'
    cases hfile'

/-- **Exclusion.** Whatever locks of one path and one limit are called, in whatever order, while the clock does not go
    back: each acquisition succeeds only when no other lock is fresh and each release leaves the files of other locks as
    they are, exactly if no lock that was overtaken is acquired while another one is fresh or released while the file is
    another one's. -/
theorem exclusive_iff (hidle : s.Idle path limit) (hclock : (calls.map Prod.fst).Pairwise fun earlier later =>
    (Lock.seconds later).isLess (Lock.seconds earlier) = false) :
    s.Along Lawful calls ↔ s.Along (fun s clock call => ¬s.Harmful clock call) calls := by
  have hs := hidle.sound
  have ho : ∀ clock ∈ calls.map Prod.fst, s.Orderly clock := fun clock _ => hidle.orderly clock
  clear hidle
  induction calls generalizing s with
  | nil => exact Iff.rfl
  | cons head calls ih =>
    obtain ⟨clock, call⟩ := head
    rw [List.map_cons, List.pairwise_cons] at hclock
    rw [List.map_cons] at ho
    have hnow := ho clock (List.mem_cons_self)
    refine ⟨fun ⟨hlaw, hrest⟩ => ?_, fun ⟨hharm, hrest⟩ => ?_⟩
    · have hharm : ¬s.Harmful clock call := fun h => hs.not_lawful h hlaw
      refine ⟨hharm, (ih hclock.2 (hs.after clock call) fun later hlater => ?_).mp hrest⟩
      exact (hnow.after hs hharm).2.later (hclock.1 later hlater)
    · refine ⟨(hnow.after hs hharm).1, (ih hclock.2 (hs.after clock call) fun later hlater => ?_).mpr hrest⟩
      exact (hnow.after hs hharm).2.later (hclock.1 later hlater)

/-! ### A run -/

instance (s : Holders ι) (clock : Int) (i : ι) : Decidable (s.Fresh clock i) :=
  decidable_of_iff ((s.since i).any fun time =>
      !(s.lock i).staleAfter.isLess (Lock.age (Lock.seconds clock) time)) <| by
    unfold Fresh
    cases s.since i <;> simp

instance (s : Holders ι) (i : ι) : Decidable (s.Overtaken i) :=
  inferInstanceAs (Decidable (_ ∧ _))

instance [Fintype ι] (s : Holders ι) (clock : Int) : (call : LockCall ι) → Decidable (s.Harmful clock call)
  | .acquire _ => inferInstanceAs (Decidable (_ ∧ ∃ _, _))
  | .release _ => inferInstanceAs (Decidable (_ ∧ _))

instance decidableAlong {P : Holders ι → Int → LockCall ι → Prop} [∀ s clock call, Decidable (P s clock call)] :
    (s : Holders ι) → (calls : List (Int × LockCall ι)) → Decidable (s.Along P calls)
  | _, [] => .isTrue trivial
  | s, (clock, call) :: calls =>
    have : Decidable (Along P (s.after clock call) calls) := decidableAlong _ calls
    inferInstanceAs (Decidable (P s clock call ∧ Along P (s.after clock call) calls))

/-- Three locks with a limit of thirty seconds in an empty directory. -/
def three : Holders (Fin 3) where
  disk := { tree := .directory 0 [], here := { root := "/", parts := [] }, clock := 0 }
  lock := fun i =>
    { path := { root := "", parts := [lockFile] }, staleAfter := .ofQuotient false 30 1, owner := i.val, held := false }
  since := fun _ => none
  maker := none

/-- A lock takes over from one that was held for 31 seconds. Once it is released it can be acquired by others; but if
    the one that was overtaken is released in the meantime, a third one is let in too early. -/
theorem exclusive_three :
    three.Along Lawful [(0, .acquire 0), (31000000000, .acquire 1), (31000000000, .release 1), (32000000000, .acquire 2)] ∧
    ¬three.Along Lawful [(0, .acquire 0), (31000000000, .acquire 1), (31000000000, .release 0),
      (31000000000, .acquire 2)] := by
  have hidle : three.Idle { root := "", parts := [lockFile] } (.ofQuotient false 30 1) :=
    ⟨fun _ => rfl, fun _ => rfl, fun _ => rfl, fun _ => rfl, rfl⟩
  refine ⟨(exclusive_iff hidle (by decide +kernel)).mpr (by decide +kernel), fun hlaw => ?_⟩
  exact absurd ((exclusive_iff hidle (by decide +kernel)).mp hlaw) (by decide +kernel)

end Holders

end ResponseShapes
