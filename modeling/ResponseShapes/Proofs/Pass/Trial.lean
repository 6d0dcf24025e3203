import ResponseShapes.Proofs.Marker.Mention
import ResponseShapes.Proofs.Marker.Plan
import ResponseShapes.Proofs.Marker.Reread
import ResponseShapes.Proofs.Pass.Rewriting
import ResponseShapes.Proofs.Pass.Writes

/-! # Trial runs

A trial run tells what a run would change. Both go through the same sources, and since no two of them share a file, each
source is as it was when wiring came to its end until its own turn comes (`Disk.Rewrote`). So a trial run comes to the
same, it leaves the files as wiring left them, and a run changes exactly the sources that both tell of
(`rewrite_as_in_trial`). -/

namespace ResponseShapes

open Syntax

variable {s : Settings} {t : LookupTable} {p : Path} {ps changed : List Path} {d d' d₁ : Disk} {cs : List Char}
  {text path pattern : String} {root : Path} {q : List String}

/-! ### What a source is to become -/

/-- What a source is to become, if its text changes; it stays as it is if it cannot be read. -/
def rewrittenAt? (s : Settings) (t : LookupTable) (d : Disk) (p : Path) : Except Interruption (Option Rewritten) :=
  match d.readText p with
  | .error _ => .ok none
  | .ok cs =>
    match Rewritten.ofText s t (some p) (String.ofList cs) with
    | .error e => .error (.edits e)
    | .ok (r, _) => .ok (if r.changed (String.ofList cs) then some r else none)

/-- The sources that change, after some that do. -/
def withChangedAt (s : Settings) (t : LookupTable) (d : Disk) (changed : List Path) (p : Path) :
    Except Interruption (List Path) :=
  (rewrittenAt? s t d p).map fun r? => if r?.isSome then changed ++ [p] else changed

theorem rewrittenAt?_eq_some {r : Rewritten} : rewrittenAt? s t d p = .ok (some r) ↔ ∃ cs rows, d.readText p = .ok cs ∧
    Rewritten.ofText s t (some p) (String.ofList cs) = .ok (r, rows) ∧ r.text ≠ String.ofList cs := by
  unfold rewrittenAt?
  constructor
  · intro h
    split at h
    · cases h
    rename_i cs hread
    split at h
    · cases h
    rename_i r' rows hr
    split at h
    · rename_i hchanged
      obtain rfl := Option.some.inj (Except.ok.inj h)
      exact ⟨cs, rows, hread, hr, bne_iff_ne.mp hchanged⟩
    · cases h
  · rintro ⟨cs, rows, hread, hr, hne⟩
    rw [hread]
    dsimp only
    rw [hr]
    exact congrArg Except.ok (if_pos (bne_iff_ne.mpr hne))

theorem rewrittenAt?_congr (hread : d'.readText p = d.readText p) : rewrittenAt? s t d' p = rewrittenAt? s t d p := by
  rw [rewrittenAt?, hread]
  rfl

/-- A source that stays as it is adds nothing. -/
theorem eq_of_kept {changed' : List Path} (h : ∀ r, rewrittenAt? s t d p ≠ .ok (some r))
    (hchanged : withChangedAt s t d changed p = .ok changed') : changed' = changed := by
  unfold withChangedAt at hchanged
  cases hr : rewrittenAt? s t d p with
  | error i =>
    rw [hr] at hchanged
    cases hchanged
  | ok r? =>
    cases r? with
    | none =>
      rw [hr] at hchanged
      exact (Except.ok.inj hchanged).symm
    | some r => exact absurd hr (h r)

/-! ### One source -/

/-- Another text is written over a source. -/
theorem Pass.Does.writeOutput_plain (hp : d.PlainFile p) (hread : d.readText p = .ok cs) (hne : text ≠ String.ofList cs) :
    ∃ b d', (Pass.writeOutput p text).Does d (.ok (.ok b)) d' ∧ d'.clock = d.clock ∧
      Disk.Regenerated (· = p.parts) (fun _ => False) d d' ∧
      d'.tree.file? p.parts = some (Text.encode text.toList, d.clock) := by
  have hplace := hp.place_eq
  obtain ⟨content, hfile⟩ := hp.file
  obtain ⟨around, name, rfl, hname, habs, hparts⟩ := hp.exists_child
  rw [← hparts] at hplace ⊢
  have hdir := Disk.stands_parent_of_place (p := around.child name) habs hplace
  rw [Path.parent_child] at hdir
  have hold : d.tree.standing (around.home ++ [name]) ≠ .directory := by
    rw [← Disk.stands_of_place hplace, hfile]
    exact Standing.noConfusion
  obtain ⟨d', failure, hwritten, -, -, hwrote⟩ :=
    Pass.written_output habs hname text (.of_found (fun _ => False) _ hdir)
  obtain ⟨rfl, rfl⟩ := hwrote rfl hold
  have hother : cs ≠ text.toList := fun heq => hne (by rw [heq, String.ofList_toList])
  obtain ⟨x, hx, hok⟩ := Pass.writeOutput_over (Disk.has_of_file hfile) hread hother hwritten
  obtain ⟨hregen, -⟩ := Disk.putOutput_spec (· = around.home ++ [name]) (fun _ => False) habs hdir hname rfl hold text
  obtain ⟨hhome, -, -⟩ := Disk.place_output habs hdir hname
  have hset := Tree.file?_set hhome (Tree.bare_file (Text.encode text.toList) d.clock) (Tree.bare_of_standing hold)
    (around.home ++ [name])
  rw [if_pos rfl] at hset
  cases x with
  | error f => exact nomatch hok.mpr rfl
  | ok b => exact ⟨b, _, hx, rfl, hregen, hset⟩

/-- A source that is to stay as it is stays, and one whose edits exclude each other ends the pass, in a trial or not. -/
theorem addRewritten_kept (trial : Bool) (changed : List Path) (h : ∀ r, rewrittenAt? s t d p ≠ .ok (some r)) :
    (addRewritten s t trial changed p).Does d (withChangedAt s t d changed p) d := by
  unfold withChangedAt rewrittenAt? at *
  cases hread : d.readText p with
  | error e => exact (rewriteSource_unreadable s t trial hread).bind (.say_bind _ _ _ (.pure changed d))
  | ok cs =>
    rw [hread] at h
    dsimp only at h ⊢
    cases hr : Rewritten.ofText s t (some p) (String.ofList cs) with
    | error e =>
      have hsource := Pass.Does.readSource p d
      rw [hread] at hsource
      refine Pass.Does.bind_error (hsource.bind (Pass.Does.bind_error ?_))
      unfold rewriteText
      rw [hr]
      exact .interrupt _ d
    | ok o =>
      obtain ⟨r, rows⟩ := o
      rw [hr] at h
      dsimp only at h ⊢
      by_cases hchanged : r.changed (String.ofList cs) = true
      · exact absurd (by rw [if_pos hchanged]) (h r)
      · rw [if_neg hchanged]
        have hsource : (rewriteSource s t trial p).Does d (.ok (.ok false)) d := rewriteSource_of_read trial hread hr (by
          rw [Bool.eq_false_iff.mpr hchanged]
          exact .pure _ d)
        exact hsource.bind (.pure changed d)

/-- A trial run tells of a source that is to change, and leaves the files. -/
theorem addRewritten_trial (changed : List Path) : (addRewritten s t true changed p).Does d (withChangedAt s t d changed p) d := by
  by_cases h : ∃ r, rewrittenAt? s t d p = .ok (some r)
  case neg => exact addRewritten_kept true changed (not_exists.mp h)
  obtain ⟨r, h⟩ := h
  obtain ⟨cs, rows, hread, hr, hne⟩ := rewrittenAt?_eq_some.mp h
  have hsource : (rewriteSource s t true p).Does d (.ok (.ok true)) d := rewriteSource_of_read true hread hr (by
    rw [Rewritten.changed, bne_iff_ne.mpr hne]
    exact .say_bind _ _ _ (.pure _ d))
  rw [withChangedAt, h]
  exact hsource.bind (.pure (changed ++ [p]) d)

/-- Otherwise its new text is written over it. -/
theorem addRewritten_written (changed : List Path) (hp : d.PlainFile p) {r : Rewritten}
    (h : rewrittenAt? s t d p = .ok (some r)) :
    ∃ d', (addRewritten s t false changed p).Does d (withChangedAt s t d changed p) d' ∧ d'.clock = d.clock ∧
      Disk.Regenerated (· = p.parts) (fun _ => False) d d' ∧
      d'.tree.file? p.parts = some (Text.encode r.text.toList, d.clock) := by
  obtain ⟨cs, rows, hread, hr, hne⟩ := rewrittenAt?_eq_some.mp h
  obtain ⟨b, d', hwrite, hclock, hregen, hfile⟩ := Pass.Does.writeOutput_plain hp hread hne
  have hsource : (rewriteSource s t false p).Does d (.ok (.ok true)) d' := rewriteSource_of_read false hread hr (by
    rw [Rewritten.changed, bne_iff_ne.mpr hne]
    exact hwrite.bind (.say_bind _ _ _ (.pure _ d')))
  rw [withChangedAt, h]
  exact ⟨d', hsource.bind (.pure (changed ++ [p]) d'), hclock, hregen, hfile⟩

/-! ### Several sources -/

/-- Of the files `d` the sources that changed were rewritten, each as it was there, and nothing else. -/
structure Disk.Rewrote (s : Settings) (t : LookupTable) (changed : List Path) (d d' : Disk) : Prop where
  clock : d'.clock = d.clock
  regenerated : Disk.Regenerated (fun q => ∃ p ∈ changed, q = p.parts) (fun _ => False) d d'
  plain : ∀ p ∈ changed, d.PlainFile p
  written : ∀ p ∈ changed, ∃ r, rewrittenAt? s t d p = .ok (some r) ∧
    d'.tree.file? p.parts = some (Text.encode r.text.toList, d.clock)

namespace Disk.Rewrote

theorem nil (s : Settings) (t : LookupTable) (d : Disk) : Rewrote s t [] d d :=
  ⟨rfl, .refl _ _ d, List.forall_mem_nil _, List.forall_mem_nil _⟩

/-- A source that was not rewritten is as it was. -/
theorem stands_eq (h : Rewrote s t changed d d') (hp : d.PlainFile p) (hnew : ∀ p' ∈ changed, p.parts ≠ p'.parts) :
    d'.stands p = d.stands p :=
  hp.stands_eq h.regenerated fun ⟨p', hp', heq⟩ => hnew p' hp' heq

/-- One more source is rewritten. -/
theorem snoc (h : Rewrote s t changed d d') (hp : d.PlainFile p) (hnew : ∀ p' ∈ changed, p.parts ≠ p'.parts) {r : Rewritten}
    (hr : rewrittenAt? s t d p = .ok (some r)) (hclock : d₁.clock = d'.clock)
    (hregen : Disk.Regenerated (· = p.parts) (fun _ => False) d' d₁)
    (hfile : d₁.tree.file? p.parts = some (Text.encode r.text.toList, d'.clock)) : Rewrote s t (changed ++ [p]) d d₁ where
  clock := hclock.trans h.clock
  regenerated := (h.regenerated.mono (fun q ⟨p', hp', heq⟩ => ⟨p', List.mem_append_left _ hp', heq⟩) fun _ => id).trans
    (hregen.mono (fun q heq => ⟨p, List.mem_append_right _ (List.mem_singleton_self p), heq⟩) fun _ => id)
  plain := List.forall_mem_append.mpr ⟨h.plain, List.forall_mem_singleton.mpr hp⟩
  written := by
    refine List.forall_mem_append.mpr ⟨fun p' hp' => ?_, List.forall_mem_singleton.mpr ⟨r, hr, hfile.trans (by rw [h.clock])⟩⟩
    obtain ⟨r', hr', hfile'⟩ := h.written p' hp'
    exact ⟨r', hr', (hregen.files _ (Ne.symm (hnew p' hp'))).trans hfile'⟩

end Disk.Rewrote

/-- Each source is rewritten as it was before the others were. -/
theorem foldlM_addRewritten (hps : ∀ p ∈ ps, d.PlainFile p) (hapart : (ps.map Path.parts).Nodup)
    (hnew : ∀ p ∈ ps, ∀ p' ∈ changed, p.parts ≠ p'.parts) (h : d.Rewrote s t changed d') :
    ∃ d₁, (ps.foldlM (addRewritten s t false) changed).Does d' (ps.foldlM (withChangedAt s t d) changed) d₁ ∧
      ∀ changed', ps.foldlM (withChangedAt s t d) changed = .ok changed' → d.Rewrote s t changed' d₁ := by
  induction ps generalizing changed d' with
  | nil =>
    refine ⟨d', .pure changed d', fun changed' hchanged => ?_⟩
    obtain rfl := Except.ok.inj hchanged
    exact h
  | cons p ps ih =>
    obtain ⟨hp, hps⟩ := List.forall_mem_cons.mp hps
    obtain ⟨hfresh, hnew⟩ := List.forall_mem_cons.mp hnew
    obtain ⟨hother, hapart⟩ := List.nodup_cons.mp hapart
    have hsame : d'.stands p = d.stands p := h.stands_eq hp hfresh
    have hat : rewrittenAt? s t d' p = rewrittenAt? s t d p := rewrittenAt?_congr (hp.readText_eq hsame)
    have hchanges : withChangedAt s t d' changed p = withChangedAt s t d changed p := by rw [withChangedAt, hat, withChangedAt]
    rw [List.foldlM_cons, List.foldlM_cons]
    by_cases hkept : ∃ r, rewrittenAt? s t d p = .ok (some r)
    · obtain ⟨r, hr⟩ := hkept
      obtain ⟨d₁, hhead, hclock, hregen, hfile⟩ := addRewritten_written changed (hp.congr hsame) (hat.trans hr)
      have hvalue : withChangedAt s t d changed p = .ok (changed ++ [p]) := by
        rw [withChangedAt, hr]
        rfl
      have hnew' : ∀ p₁ ∈ ps, ∀ p' ∈ changed ++ [p], p₁.parts ≠ p'.parts := fun p₁ hp₁ =>
        List.forall_mem_append.mpr ⟨hnew p₁ hp₁, List.forall_mem_singleton.mpr fun heq =>
          hother (heq ▸ List.mem_map_of_mem hp₁)⟩
      obtain ⟨d₂, htail, hleft⟩ := ih hps hapart hnew' (h.snoc hp hfresh hr hclock hregen hfile)
      rw [hchanges, hvalue] at hhead
      rw [hvalue]
      exact ⟨d₂, hhead.bind htail, hleft⟩
    · have hhead := addRewritten_kept false changed fun r hr => hkept ⟨r, hat.symm.trans hr⟩
      rw [hchanges] at hhead
      cases hvalue : withChangedAt s t d changed p with
      | error i =>
        rw [hvalue] at hhead
        exact ⟨d', hhead.bind_error, nofun⟩
      | ok changed' =>
        obtain rfl := eq_of_kept (fun r hr => hkept ⟨r, hr⟩) hvalue
        rw [hvalue] at hhead
        obtain ⟨d₂, htail, hleft⟩ := ih hps hapart hnew h
        exact ⟨d₂, hhead.bind htail, hleft⟩

/-- A trial run tells of the same sources. -/
theorem foldlM_addRewritten_trial (ps changed : List Path) :
    (ps.foldlM (addRewritten s t true) changed).Does d (ps.foldlM (withChangedAt s t d) changed) d := by
  induction ps generalizing changed with
  | nil => exact .pure changed d
  | cons p ps ih =>
    have hhead := addRewritten_trial (s := s) (t := t) (d := d) (p := p) changed
    rw [List.foldlM_cons, List.foldlM_cons]
    cases hvalue : withChangedAt s t d changed p with
    | error i =>
      rw [hvalue] at hhead
      exact hhead.bind_error
    | ok changed' =>
      rw [hvalue] at hhead
      exact hhead.bind (ih changed')

/-- Sources that are listed are files with a path each. -/
theorem plainFiles_of_listSources (hd : d.tree.Proper) {exclude : List String}
    (hlist : (listSources root pattern exclude).Does d (.ok ps) d) :
    (∀ p ∈ ps, d.PlainFile p) ∧ (ps.map Path.parts).Nodup := by
  obtain ⟨hdir, rules, -, rfl⟩ := exists_of_listSources hlist
  have hps := fun p => @plainFile_of_mem_listed _ p pattern d rules (d.isAbsolute_resolve root) hd hdir
  refine ⟨fun p hp => (hps p hp).1, List.Nodup.map_on ?_ (nodup_listedSources hd _ pattern rules)⟩
  rintro ⟨root₁, parts⟩ hp ⟨root₂, _⟩ hp' rfl
  rw [show root₁ = root₂ from (hps _ hp).2.trans (hps _ hp').2.symm]

/-- A trial run over the sources below a directory comes to what a run comes to, which rewrites what both tell of. -/
theorem rewriteEndpoints_as_in_trial (s : Settings) (t : LookupTable) (root : Path) (pattern : String) (hd : d.tree.Proper) :
    ∃ r d', (rewriteEndpoints s t true root pattern).Does d r d ∧ (rewriteEndpoints s t false root pattern).Does d r d' ∧
      ∀ changed, r = .ok changed → d.Rewrote s t changed d' := by
  obtain ⟨r, hlist⟩ := listSources_does root pattern s.excludePaths d
  cases r with
  | error i => exact ⟨.error i, d, hlist.bind_error.bind_error, hlist.bind_error.bind_error, fun _ h => nomatch h⟩
  | ok ps =>
    obtain ⟨hps, hapart⟩ := plainFiles_of_listSources hd hlist
    have htrial := foldlM_addRewritten_trial (s := s) (t := t) (d := d) ps []
    obtain ⟨d', hrun, hleft⟩ := foldlM_addRewritten hps hapart (fun _ _ => List.forall_mem_nil _) (.nil s t d)
    cases hchanged : ps.foldlM (withChangedAt s t d) [] with
    | error i =>
      rw [hchanged] at htrial hrun
      exact ⟨.error i, d', (hlist.bind htrial).bind_error, (hlist.bind hrun).bind_error, fun _ h => nomatch h⟩
    | ok changed =>
      rw [hchanged] at htrial hrun
      refine ⟨.ok changed, d', (hlist.bind htrial).bind (.say_bind _ _ _ (.pure changed d)),
        (hlist.bind hrun).bind (.say_bind _ _ _ (.pure changed d')), ?_⟩
      rintro _ ⟨⟩
      exact hleft changed hchanged

/-! ### What comes before -/

/-- What is done before sources are rewritten: generating and wiring, from what is then known. -/
def prepare [Recovery] (path : String) : Pass (Settings × Path × Nat × Nat) := do
  let s ← projectSettings path
  let root ← searchRoot s
  let declarations ← generateIn s root
  let endpoints ← wireIn s root
  return (s, root, declarations, endpoints)

/-- Rewrites sources by what wiring made known. -/
def rewritePrepared (trial : Bool) : Settings × Path × Nat × Nat → Pass RewriteOutcome
  | (s, root, declarations, endpoints) => do
    let changed ← rewriteEndpoints s (← Pass.progress).table trial root s.controllerPattern
    return { declarations, endpoints, changed, trial }

theorem rewrite_eq [Recovery] (path : String) (trial : Bool) :
    rewrite path trial = prepare path >>= rewritePrepared trial := by
  simp only [rewrite, prepare, bind_assoc, pure_bind]
  rfl

/-- Modules and the wiring are outputs. -/
theorem Settings.prefix_of_written (s : Settings)
    (h : s.declarationsDir.HoldsModule q ∨ q = s.outputRoot.home ++ [wiringFile]) : s.outputRoot.home <+: q := by
  rcases h with ⟨name, -, hplace⟩ | hplace
  · have hhome : s.declarationsDir.home = s.outputRoot.home ++ ["responses"] :=
      Path.withoutDots_append_singleton _ (by decide)
    rw [hplace, hhome, List.append_assoc]
    exact List.prefix_append _ _
  · rw [hplace]
    exact List.prefix_append _ _

/-- Only outputs are written before sources are rewritten. -/
theorem prepare_regenerated [Recovery] (path : String) (d : Disk) (k : Progress) :
    ∃ r d' k', (prepare path).Reaches d k r d' k' ∧ (∀ x, r = .ok x → (projectSettings path).Does d (.ok x.1) d) ∧
      Disk.Regenerated (fun q => ∃ s, (projectSettings path).Does d (.ok s) d ∧ s.outputRoot.home <+: q) (fun _ => True) d d' := by
  obtain ⟨r, hs, -⟩ := projectSettings_does d path
  cases r with
  | error i => exact ⟨.error i, d, k, (hs.reaches k).bind_error, fun _ h => (nomatch h), .refl _ _ d⟩
  | ok s =>
    obtain ⟨habs, -⟩ := projectSettings_root hs
    have hroot := (Pass.Does.searchRoot s d).reaches k
    obtain ⟨n, d₁, k₁, hgenerate, hregen₁⟩ := generateIn_regenerated habs (searchedRoot s d) d k
    have hmodules : Disk.Regenerated (fun q => ∃ s, (projectSettings path).Does d (.ok s) d ∧ s.outputRoot.home <+: q)
        (fun _ => True) d d₁ :=
      hregen₁.mono (fun q hq => ⟨s, hs, s.prefix_of_written (.inl hq)⟩) fun _ _ => trivial
    cases n with
    | error i =>
      exact ⟨.error i, d₁, k₁, (hs.reaches k).bind (hroot.bind hgenerate.bind_error), fun _ h => (nomatch h), hmodules⟩
    | ok n =>
      obtain ⟨m, d₂, k₂, hwire, hregen₂⟩ := wireIn_regenerated habs (searchedRoot s d) d₁ k₁
      have hregen := hmodules.trans (hregen₂.mono (fun q hq => ⟨s, hs, s.prefix_of_written (.inr hq)⟩) fun _ _ => trivial)
      cases m with
      | error i =>
        exact ⟨.error i, d₂, k₂, (hs.reaches k).bind (hroot.bind (hgenerate.bind hwire.bind_error)), fun _ h => (nomatch h),
          hregen⟩
      | ok m =>
        refine ⟨.ok (s, searchedRoot s d, n, m), d₂, k₂, (hs.reaches k).bind (hroot.bind (hgenerate.bind (hwire.bind
          ((Pass.Does.pure _ d₂).reaches k₂)))), ?_, hregen⟩
        rintro _ ⟨⟩
        exact hs

/-! ### Runs and trial runs -/

theorem rewrite_of_prepared [Recovery] {σ : PassState} {k : Progress} {n m : Nat} {trial : Bool}
    {r : Except Interruption (List Path)}
    (hprepare : (prepare path).Reaches σ.disk σ.progress (.ok (s, root, n, m)) d k)
    (hdoes : (rewriteEndpoints s k.table trial root s.controllerPattern).Does d r d₁) :
    ((rewrite path trial).run σ).1 = r.map (fun changed => ⟨n, m, changed, trial⟩) ∧
      ((rewrite path trial).run σ).2.disk = d₁ := by
  have hrewrite : (rewritePrepared trial (s, root, n, m)).Reaches d k (r.map fun changed => ⟨n, m, changed, trial⟩) d₁ k := by
    refine .progress_bind ?_
    cases r with
    | error i => exact (hdoes.reaches k).bind_error
    | ok changed => exact (hdoes.reaches k).bind ((Pass.Does.pure _ d₁).reaches k)
  have hwhole := hprepare.bind hrewrite
  rw [← rewrite_eq] at hwhole
  exact ⟨hwhole.run.1, hwhole.run.2.1⟩

/-- A trial run comes to what the run comes to, with the same sources told of, and changes no file but outputs. The run
    leaves every other file as wiring left it, and it writes over each source that is told of the text that the source
    is rewritten to by the table of the wiring, from what it held when wiring came to its end. -/
theorem rewrite_as_in_trial [Recovery] {σ : PassState} (path : String) (hproper : σ.disk.tree.Proper) :
    let wired := ((prepare path).run σ).2
    let trial := (rewrite path true).run σ
    let real := (rewrite path false).run σ
    trial.1 = real.1.map (fun o => { o with trial := true }) ∧ trial.2.disk = wired.disk ∧
    (∀ q, (∀ s, ((projectSettings path).run σ).1 = .ok s → ¬s.outputRoot.home <+: q) →
      wired.disk.tree.file? q = σ.disk.tree.file? q) ∧
    ∀ o, real.1 = .ok o → ∃ s, ((projectSettings path).run σ).1 = .ok s ∧
      (∀ p ∈ o.changed, wired.disk.PlainFile p ∧ ∃ cs r rows, wired.disk.readText p = .ok cs ∧
        Rewritten.ofText s wired.progress.table (some p) (String.ofList cs) = .ok (r, rows) ∧ r.text ≠ String.ofList cs ∧
        real.2.disk.tree.file? p.parts = some (Text.encode r.text.toList, wired.disk.clock)) ∧
      ∀ q, (∀ p ∈ o.changed, q ≠ p.parts) → real.2.disk.tree.file? q = wired.disk.tree.file? q := by
  obtain ⟨x, d, k, hprepare, hsettings, hregen⟩ := prepare_regenerated path σ.disk σ.progress
  obtain ⟨-, hdisk, hknown⟩ := hprepare.run
  have houtside : ∀ q, (∀ s, ((projectSettings path).run σ).1 = .ok s → ¬s.outputRoot.home <+: q) →
      d.tree.file? q = σ.disk.tree.file? q := fun q hq =>
    hregen.files q fun ⟨s, hs, hinside⟩ => hq s ((hs.reaches σ.progress).run (σ := σ)).1 hinside
  dsimp only
  rw [hdisk, hknown]
  cases x with
  | error i =>
    have hrun : ∀ trial, ((rewrite path trial).run σ).1 = .error i ∧ ((rewrite path trial).run σ).2.disk = d := fun trial => by
      have hrewrite := hprepare.bind_error (f := rewritePrepared trial)
      rw [← rewrite_eq] at hrewrite
      exact ⟨hrewrite.run.1, hrewrite.run.2.1⟩
    rw [(hrun true).1, (hrun true).2, (hrun false).1]
    exact ⟨rfl, rfl, houtside, fun o ho => nomatch ho⟩
  | ok x =>
    obtain ⟨s, root, n, m⟩ := x
    obtain ⟨r, d', htrial, hreal, hleft⟩ :=
      rewriteEndpoints_as_in_trial s k.table root s.controllerPattern (hregen.proper hproper)
    obtain ⟨htrial, hkept⟩ := rewrite_of_prepared hprepare htrial
    obtain ⟨hreal, hwritten⟩ := rewrite_of_prepared hprepare hreal
    rw [htrial, hkept, hreal, hwritten]
    refine ⟨by cases r <;> rfl, rfl, houtside, fun o ho => ?_⟩
    cases r with
    | error i => cases ho
    | ok changed =>
      obtain rfl := Except.ok.inj ho
      have hrewrote := hleft changed rfl
      refine ⟨s, (((hsettings _ rfl).reaches σ.progress).run (σ := σ)).1, fun p hp => ⟨hrewrote.plain p hp, ?_⟩, fun q hq =>
        hrewrote.regenerated.files q fun ⟨p, hp, heq⟩ => hq p hp heq⟩
      obtain ⟨r, hr, hfile⟩ := hrewrote.written p hp
      obtain ⟨cs, rows, hread, htext, hne⟩ := rewrittenAt?_eq_some.mp hr
      exact ⟨cs, r, rows, hread, htext, hne, hfile⟩

/-! ### A project with a marked source -/

namespace Marked

def settings : Settings :=
  .standard { root := "/", parts := ["project"] }

/-- A source with a decorator of a handler. -/
def sourceText (decorator : String) : String :=
  "import \x7bApiOkResponse\x7d from '@nestjs/swagger';import \x7bR\x7d from './r';class A\x7b" ++ decorator ++ " f()\x7b\x7d\x7d"

def marked : String := sourceText "@InferAPIResponse(\x7bserviceName:'S'\x7d)"

def documented : String := sourceText "@ApiOkResponse(\x7b type: R.f \x7d)"

/-- A project with a marked source, and with the unit known that the marker asks for. -/
def project : PassState :=
  { disk :=
      { tree := .directory 0 [("project", .directory 0 [("src", .directory 0
          [("users.controller.ts", .file (Text.encode marked.toList) 0)])])]
        here := { root := "/", parts := [] }, clock := 1 }
    rows := []
    progress := { Progress.empty with declared := [("S",
      { unit := "S", lookup := "R", module := settings.declarationsDir.child "s.response.ts", members := [("f", "F")] })] } }

def source : Path := { root := "/", parts := ["project", "src", "users.controller.ts"] }

theorem proper_project : project.disk.tree.Proper := by
  unfold project
  simp [Tree.Proper, Tree.properChildren_iff, Entries.Keyed, Entries.keys]

/-- The table of its wiring. -/
def table : LookupTable :=
  { declared := project.progress.declared, endpoints := [] }

theorem readText_source : project.disk.readText source = .ok marked.toList := by
  decide +kernel

theorem scanSource_marked : (scanSource settings.conventions (Source.ofText marked) source
    { declared := project.progress.declared, endpoints := [] }).1 = table := by
  decide +kernel

theorem wiringTable_project : wiringTable settings project.disk project.progress.declared [source] = table := by
  rw [wiringTable, List.foldl_cons, List.foldl_nil, withEndpointsAt_of_read readText_source, scanSource_marked]

theorem lists_project : ((listSources settings.sourceRoot settings.servicePattern settings.excludePaths).run project).1 = .ok [] ∧
    ((listSources settings.sourceRoot settings.controllerPattern settings.excludePaths).run project).1 = .ok [source] := by
  decide +kernel

set_option maxRecDepth 8000 in
theorem reread_source : ∃ s s', Source.ofText? marked = some s ∧ Source.ofText? documented = some s' ∧ s.Laid ∧
    Rewritten.Reread settings table (some source) s s' := by
  refine Source.exists_both (.append (.append .piece .piece) .piece) (.append (.append .piece .piece) .piece)
    (fun s s' => s.Laid ∧ Rewritten.Reread settings table (some source) s s') ?_
  decide +kernel

/-- The source is rewritten, if it holds what it holds in the project. -/
theorem rewrites_source {d : Disk} (hread : d.readText source = .ok marked.toList) :
    ∃ r, rewrittenAt? settings table d source = .ok (some r) ∧ r.text = documented := by
  obtain ⟨s, s', hs, hs', hlaid, hreread⟩ := reread_source
  obtain ⟨r, hr⟩ : ∃ r, Rewritten.ofSource settings table (some source) s = .ok r := Rewritten.exists_ofSource hlaid
  obtain ⟨htext, -⟩ := Rewritten.ofSource_eq_ok.mp hr
  have hsame : r.text = documented := by
    rw [hreread.text, Source.text_of_ofText? hs'] at htext
    exact (String.toList_injective (Except.ok.inj htext)).symm
  have hof : Rewritten.ofText settings table (some source) marked = .ok (r, Rewritten.rows r.unresolved) := by
    rw [Rewritten.ofText_eq_ofSource hs, hr]
    rfl
  have hne : documented ≠ marked := by decide +kernel
  refine ⟨r, rewrittenAt?_eq_some.mpr ⟨marked.toList, Rewritten.rows r.unresolved, hread, ?_⟩, hsame⟩
  rw [String.ofList_toList, hsame]
  exact ⟨hof, hne⟩

/-- What comes before the source is rewritten. -/
theorem prepares_project : ∃ n d k, (prepare "/project").Reaches project.disk project.progress
      (.ok (settings, settings.sourceRoot, 0, n)) d k ∧ k.table = table ∧
    Disk.Regenerated (· = settings.outputRoot.home ++ [wiringFile]) settings.outputRoot.OnTheWay project.disk d := by
  have hs : (projectSettings "/project").Does project.disk (.ok settings) project.disk := projectSettings_of_run (σ := project) rfl
  have hsearched : searchedRoot settings project.disk = settings.sourceRoot := if_pos (by decide)
  have hroot := Pass.Does.searchRoot settings project.disk
  rw [hsearched] at hroot
  have hgenerate : (generateIn settings settings.sourceRoot).Reaches project.disk project.progress (.ok 0) project.disk
      (project.progress.withScanned (.ok [])) :=
    .generateDeclarations ((listSources_of_run lists_project.1).bind (.scanListed_ok (.pure _ _)
      (.removeStaleModules_closed (by decide) _))) project.progress
  obtain ⟨x, d, hwrite, hregen, -⟩ := Pass.Does.writeOutput_legible (d := project.disk) (· = settings.outputRoot.home ++ [wiringFile])
    (by decide : settings.outputRoot.isAbsolute = true) (show wiringFile ≠ ".." by decide) rfl
    (wiringText settings settings.outputRoot settings.declarationsDir table) (by decide)
  obtain ⟨written, hwire⟩ := Pass.Reaches.generateWiring_ok (k := project.progress.withScanned (.ok []))
    (listSources_of_run lists_project.2) wiringTable_project hwrite
  exact ⟨_, d, _, (hs.reaches _).bind ((hroot.reaches _).bind (hgenerate.bind (hwire.bind ((Pass.Does.pure _ d).reaches _)))),
    rfl, hregen⟩

/-- Nothing but the wiring is made, so the same source is listed afterwards. -/
theorem lists_regenerated {d : Disk}
    (h : Disk.Regenerated (· = settings.outputRoot.home ++ [wiringFile]) settings.outputRoot.OnTheWay project.disk d) :
    (listSources settings.sourceRoot settings.controllerPattern settings.excludePaths).Does d (.ok [source]) d := by
  have hdir : project.disk.tree.standing (project.disk.resolve settings.sourceRoot).parts = .directory := by decide
  have hplace : ∀ place, (project.disk.resolve settings.sourceRoot).parts ++ place = settings.outputRoot.home ++ [wiringFile] →
      place = ["generated", wiringFile] := fun place heq => List.append_cancel_left heq
  have hother : (project.disk.resolve settings.sourceRoot).parts ++ [ignoreFile] ≠ settings.outputRoot.home ++ [wiringFile] := by
    decide
  have hignore : d.has ((project.disk.resolve settings.sourceRoot).child ignoreFile) =
      project.disk.has ((project.disk.resolve settings.sourceRoot).child ignoreFile) := by
    by_contra hmade
    obtain ⟨-, hnew, hold⟩ := stands_ignoreFile_of_made h hother hdir hmade
    obtain ⟨k, hk⟩ := (h.new _ hnew).resolve_left hold
    match k with
    | 0 | 1 | 2 => exact absurd hk (by decide)
    | k + 3 =>
      rw [List.take_of_length_le (Nat.le_add_left 3 k)] at hk
      exact absurd hk (by decide)
  rw [((listSources_of_run lists_project.2).unique (.listSources hdir _ _)).1]
  exact listSources_regenerates settings.excludePaths h proper_project hdir
    (fun place heq => hplace place heq ▸ by decide +kernel) hother hignore

end Marked

/-- A trial run tells of the marked source, and a run writes the decorated text over it. -/
theorem rewrite_as_in_trial_marked : Marked.project.disk.tree.Proper ∧ ∃ n o,
    ((rewrite "/project" true).run Marked.project).1 = .ok ⟨0, n, [Marked.source], true⟩ ∧
    ((rewrite "/project" false).run Marked.project).1 = .ok o ∧ o.changed = [Marked.source] ∧
    (((rewrite "/project" false).run Marked.project).2.disk.tree.file? Marked.source.parts).map (·.1) =
      some (Text.encode Marked.documented.toList) := by
  obtain ⟨n, d, k, hprepare, htable, hregen⟩ := Marked.prepares_project
  have hplain : Marked.project.disk.PlainFile Marked.source := ⟨rfl, by decide, by decide, _, rfl⟩
  have hread : d.readText Marked.source = .ok Marked.marked.toList :=
    (hplain.readText_eq (hplain.stands_eq hregen (by decide))).trans Marked.readText_source
  obtain ⟨r, hr, htext⟩ := Marked.rewrites_source hread
  have hchanged : (rewriteEndpoints Marked.settings k.table true Marked.settings.sourceRoot
      Marked.settings.controllerPattern).Does d (.ok [Marked.source]) d := by
    have hfold := foldlM_addRewritten_trial (s := Marked.settings) (t := k.table) (d := d) [Marked.source] []
    have hvalue : [Marked.source].foldlM (withChangedAt Marked.settings k.table d) [] = .ok [Marked.source] := by
      rw [List.foldlM_cons, withChangedAt, htable, hr]
      rfl
    rw [hvalue] at hfold
    exact ((Marked.lists_regenerated hregen).bind hfold).bind (.say_bind _ _ _ (.pure _ d))
  have htrial := (rewrite_of_prepared hprepare hchanged).1
  obtain ⟨hsame, -, -, hreal⟩ := rewrite_as_in_trial "/project" Marked.proper_project
  rw [htrial] at hsame
  obtain ⟨-, hdisk, hknown⟩ := hprepare.run
  rw [hdisk, hknown] at hreal
  cases ho : ((rewrite "/project" false).run Marked.project).1 with
  | error i =>
    rw [ho] at hsame
    cases hsame
  | ok o =>
    rw [ho] at hsame
    have hchanged : o.changed = [Marked.source] := (congrArg RewriteOutcome.changed (Except.ok.inj hsame)).symm
    obtain ⟨s, hs, hwritten, -⟩ := hreal o ho
    obtain rfl : s = Marked.settings := Except.ok.inj (hs.symm.trans rfl)
    obtain ⟨-, cs, r', rows, hread', hof, hne, hfile⟩ := hwritten Marked.source (hchanged ▸ List.mem_singleton_self _)
    have hr' := rewrittenAt?_eq_some.mpr ⟨cs, rows, hread', hof, hne⟩
    rw [htable, hr] at hr'
    obtain rfl := Option.some.inj (Except.ok.inj hr')
    refine ⟨Marked.proper_project, n, o, htrial, rfl, hchanged, ?_⟩
    rw [hfile, htext]
    rfl

end ResponseShapes
