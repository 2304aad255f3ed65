import BuildQt5.Clean
import BuildQt5.Shell.Footprint

/-!
# Building again

`all` passes over what has been done. When it has ended well, every stage with a script is stamped
(`settled_of_all`); from then on, however often `all`, `configure`, `compile` and `deploy` are invoked and wherever
they are stopped, no body of a stage is started again, and the directories of the toolchain, of cmake, of the
third-party packages and of the vendor step stay as they are (`all_once`). `configure` and `compile` do work below the
directory of `qt5`; there it is the stamp alone that stays (`core`).
-/

namespace BuildQt5
open Shell Relation
open Prog (world run run_ note ifThen forEach)

variable {T : Tools} {E : Env} {s s' : Stage} {w w' w₁ w₂ : World Label} {net : Net} {P : Platform E}

/-! ### What stays -/

/-- No body of `s` is ever run. -/
def Bodiless (P : Platform E) : Stage → Prop
  | .cmake => E.cmakeDownloadUrl = ""
  | .qt5 => False
  | s => ∀ net, P.scripts net s = none

/-- There is nothing to do for `s`. -/
def Settled (P : Platform E) (s : Stage) (fs : Fs) : Prop := stamped E.toConfig fs s = true ∨ Bodiless P s

/-- What no step changes of a stage that is settled: the directory of the stage, or of `qt5` the lock. -/
def core (E : Env) : Stage → Path
  | .qt5 => E.lock .qt5
  | s => E.stageDir s

theorem core_eq (hs : s ≠ .qt5) : core E s = E.stageDir s := by
  cases s <;> first | rfl | exact absurd rfl hs

theorem stageDir_core : E.stageDir s <+: core E s := by
  by_cases hs : s = .qt5
  · subst hs
    exact Env.stageDir_lock
  · rw [core_eq hs]

theorem core_lock : core E s <+: E.lock s := by
  by_cases hs : s = .qt5
  · subst hs
    exact List.prefix_refl _
  · rw [core_eq hs]
    exact Env.stageDir_lock

theorem stepArea_off_core (h : s' ≠ s) : (E.stepArea s').Off (core E s) := (Env.stepArea_off h).below stageDir_core

def NotStarted (s : Stage) (m : Label) : Prop := m ≠ .started s

theorem notStarted_of_notOf {m : Label} (h : NotOf s m) : NotStarted s m := by
  rintro rfl
  exact h rfl

/-- Nothing of the settled stage `s` has changed from `w` to `w'`, and no body of it was started. -/
abbrev Rest (E : Env) (s : Stage) (w w' : World Label) : Prop := Framed (core E s) (NotStarted s) w w'

theorem Settled.rest (h : Settled P s w.fs) (hr : Rest E s w w') : Settled P s w'.fs := by
  refine h.imp (fun hst => ?_) fun h => h
  have hlock := hr.below core_lock
  obtain ⟨hdir, hfile⟩ := stamped_iff.1 hst
  refine stamped_iff.2 ⟨?_, ?_⟩
  · rcases hlock.above _ Env.stageDir_lock with h0 | h0
    · rw [h0, hdir]
    · exact h0.2
  · rwa [Fs.isFile, hlock.same _ (List.prefix_refl _)]

/-- `p` has nothing to do for `s` once that is settled. -/
def Rests (T : Tools) (P : Platform E) (s : Stage) (p : Script Unit) : Prop :=
  ∀ w, Settled P s w.fs → Safe T Alone (Rest E s w) (fun _ => Rest E s w) (fun n v => n ≠ 0 ∧ Rest E s w v) p w

theorem Rests.bind {p : Script Unit} {f : Unit → Script Unit} (hp : Rests T P s p) (hf : Rests T P s (f ())) :
    Rests T P s (p >>= f) := fun w hw =>
  safe_bind ((hp w hw).mono (fun _ h => h) (fun _ v hv => (hf v (hw.rest hv)).mono (fun _ h => hv.trans h)
    (fun _ _ h => hv.trans h) fun _ _ h => ⟨h.1, hv.trans h.2⟩) fun _ _ h => h)

theorem Rests.of_all {A : Area} {p : Script Unit} (hp : p.All (Cmd.Within A) (NotStarted s)) (hA : A.Off (core E s)) :
    Rests T P s p := fun _ _ => safe_frame hp hA

theorem rests_step {p : Script Unit} (h : s' ≠ s) (hp : p.All (Cmd.Within (E.stepArea s')) (NotOf s)) :
    Rests T P s p := Rests.of_all (hp.mono (fun _ h => h) fun _ => notStarted_of_notOf) (stepArea_off_core h)

/-- Work of `configure`, `compile` and `deploy`. -/
theorem rests_body {p : Script Unit} (hp : p.All (Cmd.Within (E.bodyArea .qt5)) fun m => m.stage = none) :
    Rests T P s p := by
  by_cases hs : Stage.qt5 = s
  · subst hs
    refine Rests.of_all (hp.mono (fun _ h => h) fun m hm => ?_) Env.bodyArea_off
    rintro rfl
    cases hm
  · exact rests_step hs (stepArea_of_body (hp.mono (fun _ h => h) fun _ => notOf_of_none))

theorem rests_printLog {kind : LogKind} {text : String} : Rests T P s (printLog kind text) :=
  Rests.of_all (A := ⟨fun _ => False, fun _ => False⟩) (all_printLog_of fun _ _ => by simp [NotStarted])
    ⟨fun _ h => h.elim, fun _ h => h.elim⟩

theorem rests_buildDir : Rests T P s (run_ (.mkdirP E.buildDir)) := by
  refine Rests.of_all (A := ⟨fun _ => False, fun p => p = E.buildDir⟩) (Prog.all_run_.2 (.inr rfl))
    ⟨fun _ h => h.elim, ?_⟩
  rintro p rfl hp
  exact Env.not_stageDir_buildDir (stageDir_core.trans hp)

/-- The test of the stamp, where what it guards has nothing to do without a body. -/
theorem rests_test {q : Script Unit} (hq : Bodiless P s → Rests T P s q) : Rests T P s (do
    let w ← world
    if !false && stamped E.toConfig w.fs s then skip s w.fs else q) := by
  intro w hw
  refine safe_bind (safe_world.2 ⟨.refl, safe_ite (fun _ => ?_) fun hn => ?_⟩)
  · have hskip : Rests T P s (skip s w.fs) := by
      refine Rests.bind (Rests.of_all (A := ⟨fun _ => False, fun _ => False⟩) (Prog.all_note.2 (by simp [NotStarted]))
        ⟨fun _ h => h.elim, fun _ h => h.elim⟩) rests_printLog
    exact hskip w hw
  · exact hq (hw.resolve_left fun hst => hn (by simp [hst])) w hw

theorem rests_shellBuild {normal : Bool} (hb : Bodiless P s' → P.scripts net s' = none) :
    Rests T P s (shellBuild E.toConfig false s' normal (P.scripts net s')) := by
  by_cases h : s' = s
  · subst h
    refine rests_buildDir.bind (rests_test fun hbody => ?_)
    rw [hb hbody]
    show Rests T P s' (printLog .normal "(ignore)")
    exact rests_printLog
  · exact rests_step h (all_shellBuild (fun _ => notOf_of_or h) (P.proper net _))

theorem rests_installCmake : Rests T P s (installCmake T E.toConfig net false) := by
  by_cases h : Stage.cmake = s
  · subst h
    refine rests_printLog.bind (rests_test fun hb => ?_)
    rw [cmakeEnter, if_pos (show E.cmakeDownloadUrl = "" from hb)]
    exact rests_printLog
  · exact rests_step h (all_installCmake fun _ => notOf_of_or h)

theorem rests_doFetch : Rests T P s (doFetch T E.toConfig net false) := by
  by_cases h : Stage.qt5 = s
  · subst h
    exact rests_buildDir.bind (rests_test fun hb => hb.elim)
  · exact rests_step h (all_doFetch fun _ => notOf_of_or h)

/-! ### What is done -/

/-- Nothing is in the way of the directory and the lock of `s`. -/
structure Unblocked (E : Env) (s : Stage) (fs : Fs) : Prop where
  clear : ∀ q, q <+: E.stageDir s → fs.get q = none ∨ fs.get q = some .dir
  lockFree : fs.get (E.lock s) ≠ some .dir

theorem Unblocked.framed {M : Label → Prop} (h : Unblocked E s w.fs) (hf : Framed (E.stageDir s) M w w') :
    Unblocked E s w'.fs := by
  refine ⟨fun q hq => ?_, ?_⟩
  · rcases hf.above q hq with h0 | h0
    · rw [h0]
      exact h.clear q hq
    · exact .inr h0.2
  · rw [hf.same _ Env.stageDir_lock]
    exact h.lockFree

theorem Fresh.unblocked (h : Fresh E w) : Unblocked E s w.fs :=
  ⟨h.clear s, by rw [Fs.get_eq_none_below (h.absent s) Env.stageDir_lock]; simp⟩

/-- `p` comes before the own step of `s`. -/
def Before (T : Tools) (E : Env) (s : Stage) (p : Script Unit) : Prop :=
  ∀ w, Unblocked E s w.fs → Safe T Alone (fun _ => True) (fun _ v => Unblocked E s v.fs) (fun n _ => n ≠ 0) p w

/-- `p` ends with the own step of `s`, or after it. -/
def Settles (T : Tools) (P : Platform E) (s : Stage) (p : Script Unit) : Prop :=
  ∀ w, Unblocked E s w.fs → Safe T Alone (fun _ => True) (fun _ v => Settled P s v.fs) (fun n _ => n ≠ 0) p w

theorem Before.bind {p : Script Unit} {f : Unit → Script Unit} (hp : Before T E s p) (hf : Before T E s (f ())) :
    Before T E s (p >>= f) := fun w hw =>
  safe_bind ((hp w hw).mono (fun _ h => h) (fun _ v hv => hf v hv) fun _ _ h => h)

theorem Before.settles {p : Script Unit} {f : Unit → Script Unit} (hp : Before T E s p) (hf : Settles T P s (f ())) :
    Settles T P s (p >>= f) := fun w hw =>
  safe_bind ((hp w hw).mono (fun _ h => h) (fun _ v hv => hf v hv) fun _ _ h => h)

theorem Settles.rests {p : Script Unit} {f : Unit → Script Unit} (hp : Settles T P s p) (hf : Rests T P s (f ())) :
    Settles T P s (p >>= f) := fun w hw =>
  safe_bind ((hp w hw).mono (fun _ h => h) (fun _ v hv => (hf v hv).mono (fun _ _ => trivial)
    (fun _ _ h => hv.rest h) fun _ _ h => h.1) fun _ _ h => h)

theorem Before.of_all {A : Area} {M : Label → Prop} {p : Script Unit} (hp : p.All (Cmd.Within A) M)
    (hA : A.Off (E.stageDir s)) : Before T E s p := fun _ hw =>
  (safe_frame hp hA).mono (fun _ _ => trivial) (fun _ _ h => hw.framed h) fun _ _ h => h.1

theorem before_printLog {kind : LogKind} {text : String} : Before T E s (printLog kind text) :=
  Before.of_all (A := ⟨fun _ => False, fun _ => False⟩) (M := fun _ => True) (all_printLog_of fun _ _ => trivial)
    ⟨fun _ h => h.elim, fun _ h => h.elim⟩

theorem before_step {p : Script Unit} {M : Label → Prop} (h : s' ≠ s) (hp : p.All (Cmd.Within (E.stepArea s')) M) :
    Before T E s p := Before.of_all hp (Env.stepArea_off h)

theorem before_buildDir : Before T E s (run_ (.mkdirP E.buildDir)) := by
  refine Before.of_all (A := ⟨fun _ => False, fun p => p = E.buildDir⟩) (M := fun _ => True) (Prog.all_run_.2 (.inr rfl))
    ⟨fun _ h => h.elim, ?_⟩
  rintro p rfl
  exact Env.not_stageDir_buildDir

/-- The lock is there, and with it the directory. -/
def Held (E : Env) (s : Stage) (fs : Fs) : Prop := fs.isFile (E.lock s) = true

theorem Held.framed {M : Label → Prop} (h : Held E s w.fs) (hf : Framed (E.lock s) M w w') : Held E s w'.fs := by
  unfold Held
  rwa [Fs.isFile, hf.same _ (List.prefix_refl _)]

theorem held_of_write {fs : Fs} (hdir : fs.get (E.stageDir s) = some .dir) (hfree : fs.get (E.lock s) ≠ some .dir) :
    Held E s (fs.write (E.lock s) "1") := by
  have hd : fs.get (E.lock s).dropLast = some .dir := by
    rw [Config.lock, List.dropLast_concat]
    exact hdir
  refine Fs.isFile_iff.2 ⟨"1", ?_⟩
  rw [Fs.get_write, if_pos ⟨rfl, hd, hfree⟩]

theorem Held.stamped (h : Held E s w.fs) : stamped E.toConfig (w.fs.erase (E.lock s)) s = true := by
  obtain ⟨c, hc⟩ := Fs.isFile_iff.1 h
  have hdir : w.fs.get (E.stageDir s) = some .dir := by
    have hd : w.fs.get (E.lock s).dropLast = some .dir := Fs.get_dropLast (by simp [hc])
    rwa [Config.lock, List.dropLast_concat] at hd
  refine stamped_iff.2 ⟨?_, ?_⟩
  · rw [Fs.get_erase_file hc, if_neg (lock_ne_of_above (List.prefix_refl _)), hdir]
  · rw [Fs.isFile, Fs.get_erase_file hc, if_pos rfl]

/-- When `p` ends, `s` is stamped. -/
abbrev Seals (T : Tools) (E : Env) (s : Stage) (p : Script Unit) (w : World Label) : Prop :=
  Safe T Alone (fun _ => True) (fun _ v => stamped E.toConfig v.fs s = true) (fun n _ => n ≠ 0) p w

theorem seals_unlock (h : Held E s w.fs) : Seals T E s (unlock E.toConfig s) w := by
  have hfile : w.fs.isFile (E.lock s) = true := h
  refine safe_bind (safe_world.2 ⟨trivial, ?_⟩)
  rw [ifThen, if_pos hfile, safe_rmF, if_pos hfile]
  exact ⟨trivial, trivial, h.stamped⟩

/-- Work that leaves the lock alone keeps it. -/
theorem Held.seals {α : Type} {p : Script α} {f : α → Script Unit} {M : Label → Prop}
    (hp : p.All (Cmd.Within (E.bodyArea s)) M) (hf : ∀ a v, Held E s v.fs → Seals T E s (f a) v) (h : Held E s w.fs) :
    Seals T E s (p >>= f) w :=
  safe_bind ((safe_frame hp Env.bodyArea_off).mono (fun _ _ => trivial) (fun a v hv => hf a v (h.framed hv))
    fun _ _ h => h.1)

theorem seals_lockedBody {body : Script Unit} (hb : body.All (Cmd.Within (E.bodyArea s)) fun m => m.stage = none)
    (h : Held E s w.fs) : Seals T E s (lockedBody E.toConfig s body) w := by
  have hnote : ∀ m, (note m : Script Unit).All (Cmd.Within (E.bodyArea s)) fun _ => True := fun m =>
    Prog.all_note.2 trivial
  exact Held.seals (hnote _) (fun _ _ h => Held.seals hb (fun _ _ h => Held.seals (hnote _) (fun _ _ h =>
    seals_unlock h) h) h) h

theorem Unblocked.mkdirP {fs : Fs} {p : Path} (h : Unblocked E s fs) (hp : ¬ E.lock s <+: p) :
    Unblocked E s (fs.mkdirP p) := by
  refine ⟨fun q hq => ?_, by rw [Fs.get_mkdirP_of_not hp]; exact h.lockFree⟩
  rcases @Fs.get_mkdirP fs p q with h0 | h0
  · rw [h0]
    exact h.clear q hq
  · exact .inr h0.2.1

theorem not_lock_stageDir : ¬ E.lock s <+: E.stageDir s := fun h => lock_ne_of_above (List.prefix_refl _)
  ((Env.stageDir_lock).eq_of_length_le h.length_le)

theorem not_lock_child {x : String} (hx : x ≠ "lock") : ¬ E.lock s <+: E.stageDir s ++ [x] := (Apart.child hx).2

/-- Making something in the directory of `s` makes that, unless it is in the way. -/
theorem Unblocked.dir_mkdirP {fs : Fs} {x : String} (h : Unblocked E s fs) :
    (fs.mkdirP (E.stageDir s ++ [x])).get (E.stageDir s) = some .dir := by
  by_cases hx : fs.get (E.stageDir s ++ [x]) = none
  · have hdir : (fs.mkdirP (E.stageDir s ++ [x])).get (E.stageDir s ++ [x]) = some .dir := by
      refine Fs.isDir_mkdirP fun q hq => ?_
      rcases List.prefix_concat_iff.1 hq with rfl | hq
      · exact .inl hx
      · exact h.clear q hq
    exact Fs.get_append [x] (by simp [hdir]) (by simp)
  · exact Fs.get_mkdirP_of_some (Fs.get_append [x] hx (by simp))

/-- What guards a body that seals its stage. -/
theorem settles_test {q : Script Unit} (hq : ∀ w, Unblocked E s w.fs → Seals T E s q w) : Settles T P s (do
    let w ← world
    if !false && stamped E.toConfig w.fs s then skip s w.fs else q) := by
  intro w hw
  refine safe_bind (safe_world.2 ⟨trivial, safe_ite (fun hst => ?_) fun _ => ?_⟩)
  · have hst : stamped E.toConfig w.fs s = true := by simpa using hst
    exact safe_bind (safe_note.2 ⟨trivial, trivial, safe_note.2 ⟨trivial, trivial, .inl hst⟩⟩)
  · exact (hq w hw).mono (fun _ h => h) (fun _ _ h => .inl h) fun _ _ h => h

/-- The stamp of a stage with nothing in the way. -/
theorem Unblocked.seals_write {p : Script Unit} (h : Unblocked E s w.fs) (hdir : w.fs.get (E.stageDir s) = some .dir)
    (hp : ∀ v, Held E s v.fs → Seals T E s p v) : Seals T E s (run_ (.write (E.lock s) "1") >>= fun _ => p) w :=
  safe_bind (safe_write trivial fun _ _ => ⟨trivial, hp _ (held_of_write hdir h.lockFree)⟩)

theorem Unblocked.seals_stage {normal : Bool} {b : Script Unit} (h : Unblocked E s w.fs)
    (hb : b.All (Cmd.Within (E.bodyArea s)) fun m => m.stage = none) :
    Seals T E s (shellEnter E.toConfig s normal (some b)) w := by
  refine safe_bind (safe_mkdirP.2 ⟨trivial, trivial, ?_⟩)
  refine (h.mkdirP not_lock_stageDir).seals_write (Fs.isDir_mkdirP h.clear) fun v hv => ?_
  exact Held.seals all_stageDirs (M := fun _ => True) (fun _ _ h => seals_lockedBody hb h) hv

theorem Unblocked.seals_cmake (h : Unblocked E .cmake w.fs) (hurl : E.cmakeDownloadUrl ≠ "") :
    Seals T E .cmake (cmakeEnter T E.toConfig net) w := by
  have h1 := h.mkdirP not_lock_stageDir
  have h2 := h1.mkdirP (not_lock_child (x := "src") (by decide))
  have h3 := h2.mkdirP (not_lock_child (x := "work") (by decide))
  rw [cmakeEnter, if_neg hurl]
  refine safe_bind (safe_mkdirP.2 ⟨trivial, trivial, safe_bind (safe_mkdirP.2 ⟨trivial, trivial, ?_⟩)⟩)
  refine safe_bind (safe_mkdirP.2 ⟨trivial, trivial, h3.seals_write ?_ fun v hv => ?_⟩)
  · exact Fs.get_mkdirP_of_some (Fs.get_mkdirP_of_some (Fs.isDir_mkdirP h.clear))
  · exact seals_lockedBody (all_cmakeBody fun _ h => h) hv

theorem Unblocked.seals_fetch (h : Unblocked E .qt5 w.fs) : Seals T E .qt5 (fetchEnter T E.toConfig net) w := by
  have h1 := h.mkdirP (not_lock_child (x := "src") (by decide))
  have h2 := h1.mkdirP (not_lock_child (x := "work") (by decide))
  refine safe_bind (safe_mkdirP.2 ⟨trivial, trivial, safe_bind (safe_mkdirP.2 ⟨trivial, trivial, ?_⟩)⟩)
  exact h2.seals_write (Fs.get_mkdirP_of_some h.dir_mkdirP) fun v hv => seals_lockedBody (all_fetchBody fun _ h => h) hv

theorem settles_of_bodiless {Q : Cmd Label → Prop} {M : Label → Prop} {p : Script Unit} (hb : Bodiless P s)
    (hp : p.All Q M) : Settles T P s p := fun _ _ =>
  (safe_grown hp).mono (fun _ _ => trivial) (fun _ _ _ => .inr hb) fun _ _ h => h.1

theorem settles_shellBuild {normal : Bool} (hb : P.scripts net s = none → Bodiless P s) :
    Settles T P s (shellBuild E.toConfig false s normal (P.scripts net s)) := by
  cases hscript : P.scripts net s with
  | none => exact settles_of_bodiless (hb hscript) (all_shellBuild (M := fun _ => True) (fun _ _ => trivial) (by simp))
  | some b => exact before_buildDir.settles (settles_test fun _ hw => hw.seals_stage (P.proper net s b hscript))

theorem settles_installCmake : Settles T P .cmake (installCmake T E.toConfig net false) := by
  by_cases hurl : E.cmakeDownloadUrl = ""
  · exact settles_of_bodiless (s := .cmake) hurl (all_installCmake (M := fun _ => True) fun _ _ => trivial)
  · exact before_printLog.settles (settles_test fun _ hw => hw.seals_cmake hurl)

theorem settles_doFetch : Settles T P .qt5 (doFetch T E.toConfig net false) :=
  before_buildDir.settles (settles_test fun _ hw => hw.seals_fetch)

/-! ### all -/

/-- Whether a platform has a script for a step does not depend on the network. -/
def Platform.Steady (P : Platform E) : Prop := ∀ net net' s, P.scripts net s = none → P.scripts net' s = none

theorem steady_platforms {ndk : Ndk} (hn : ndk.ndkName ≠ "lock") :
    (androidIvi T E ndk hn).Steady ∧ (androidCluster T E ndk hn).Steady ∧ (linuxIvi T E).Steady := by
  refine ⟨?_, ?_, ?_⟩ <;> intro net net' s h <;> cases s <;> first | rfl | cases h

theorem rests_pkgconfig : Rests T P s (installPkgconfig E.toConfig net) :=
  Rests.of_all (all_pkgconfig.mono (fun _ h => h) fun _ => notStarted_of_notOf)
    (Area.Off.below ⟨fun _ hp => Env.apart_of_covers hp, fun _ h => h.elim⟩ stageDir_core)

theorem before_pkgconfig : Before T E s (installPkgconfig E.toConfig net) :=
  Before.of_all (all_pkgconfig (s := s)) ⟨fun _ hp => Env.apart_of_covers hp, fun _ h => h.elim⟩

theorem rests_doToolchain : Rests T P s (doToolchain E.toConfig false (P.scripts net)) :=
  rests_printLog.bind (rests_shellBuild fun h => h net)

theorem rests_doThirdparty : Rests T P s (doThirdparty T E.toConfig net false (P.scripts net)) :=
  rests_printLog.bind (rests_pkgconfig.bind (rests_installCmake.bind (rests_shellBuild fun h => h net)))

theorem rests_invokeFetch : Rests T P s (invokeFetch T E.toConfig net false) := rests_printLog.bind rests_doFetch

theorem rests_invokeConfigure : Rests T P s (invokeConfigure E.toConfig) :=
  rests_printLog.bind (rests_body (all_doConfigure fun _ h => h))

theorem rests_invokeCompile {reset : Bool} : Rests T P s (invokeCompile E.toConfig reset) :=
  rests_printLog.bind (rests_body (all_doCompile fun _ h => h))

theorem rests_doVendor : Rests T P s (doVendor E.toConfig false (P.scripts net)) :=
  rests_printLog.bind (rests_shellBuild fun h => h net)

theorem rests_invokeDeploy : Rests T P s (invokeDeploy T E.toConfig) :=
  rests_printLog.bind (rests_body (all_doDeploy fun _ h => h))

/-- What follows the third-party step. -/
theorem rests_fetch_on : Rests T P s (do
    invokeFetch T E.toConfig net false
    invokeConfigure E.toConfig
    invokeCompile E.toConfig false
    doVendor E.toConfig false (P.scripts net)
    invokeDeploy T E.toConfig) :=
  rests_invokeFetch.bind (rests_invokeConfigure.bind (rests_invokeCompile.bind (rests_doVendor.bind rests_invokeDeploy)))

theorem before_shellBuild {normal : Bool} (h : s' ≠ s) :
    Before T E s (shellBuild E.toConfig false s' normal (P.scripts net s')) :=
  before_step h (all_shellBuild (M := fun _ => True) (fun _ _ => trivial) (P.proper net _))

theorem before_doToolchain (hs : s ≠ .toolchain) : Before T E s (doToolchain E.toConfig false (P.scripts net)) :=
  before_printLog.bind (before_shellBuild hs.symm)

theorem before_installCmake (hs : s ≠ .cmake) : Before T E s (installCmake T E.toConfig net false) :=
  before_step hs.symm (all_installCmake (M := fun _ => True) fun _ _ => trivial)

theorem before_doThirdparty (hs : s ≠ .cmake ∧ s ≠ .thirdparty) :
    Before T E s (doThirdparty T E.toConfig net false (P.scripts net)) :=
  before_printLog.bind (before_pkgconfig.bind ((before_installCmake hs.1).bind (before_shellBuild hs.2.symm)))

theorem before_qt5 {p : Script Unit} (hs : s ≠ .qt5) (hp : p.All (Cmd.Within (E.bodyArea .qt5)) fun _ => True) :
    Before T E s p := before_step hs.symm (stepArea_of_body hp)

theorem settles_all (hP : P.Steady) : Settles T P s (dispatch T E.toConfig net (P.scripts net) .all) := by
  cases s with
  | toolchain =>
    refine Settles.rests (before_printLog.settles (settles_shellBuild fun h net' => hP _ net' _ h)) ?_
    exact rests_doThirdparty.bind rests_fetch_on
  | cmake =>
    refine (before_doToolchain (by decide)).settles (Settles.rests ?_ rests_fetch_on)
    exact before_printLog.settles (before_pkgconfig.settles
      (settles_installCmake.rests (rests_shellBuild fun h => h net)))
  | thirdparty =>
    refine (before_doToolchain (by decide)).settles (Settles.rests ?_ rests_fetch_on)
    exact before_printLog.settles (before_pkgconfig.settles ((before_installCmake (by decide)).settles
      (settles_shellBuild fun h net' => hP _ net' _ h)))
  | qt5 =>
    refine (before_doToolchain (by decide)).settles ((before_doThirdparty (by decide)).settles (Settles.rests ?_ ?_))
    · exact before_printLog.settles settles_doFetch
    · exact rests_invokeConfigure.bind (rests_invokeCompile.bind (rests_doVendor.bind rests_invokeDeploy))
  | vendor =>
    have hne : Stage.vendor ≠ .qt5 := by decide
    refine (before_doToolchain (by decide)).settles ((before_doThirdparty (by decide)).settles (Before.settles ?_ ?_))
    · exact before_printLog.bind (before_step hne.symm (all_doFetch (M := fun _ => True) fun _ _ => trivial))
    · refine (before_printLog.bind (before_qt5 hne (all_doConfigure fun _ _ => trivial))).settles
        ((before_printLog.bind (before_qt5 hne (all_doCompile fun _ _ => trivial))).settles (Settles.rests ?_ ?_))
      · exact before_printLog.settles (settles_shellBuild fun h net' => hP _ net' _ h)
      · exact rests_invokeDeploy

theorem settled_of_all (hP : P.Steady) (h : Unblocked E s w.fs) (hr : Invoked T P .all w (.exit 0) w') :
    Settled P s w'.fs := by
  obtain ⟨net, hr⟩ := hr
  have hsafe : Safe T Alone (fun _ => True) (fun _ _ => True) (fun n v => n = 0 → Settled P s v.fs)
      (main T E.toConfig net (P.scripts net) .all) w := by
    refine safe_bind (safe_note.2 ⟨trivial, trivial, safe_bind ?_⟩)
    refine Safe.mono (settles_all hP _ (by exact h)) (fun _ h => h) (fun _ v hv => ?_) fun n v h h0 => absurd h0 h
    exact safe_bind (safe_note.2 ⟨trivial, trivial, safe_exit.2 ⟨trivial, fun _ => hv⟩⟩)
  exact (hsafe.reach hr).of_exit rfl

/-! ### Again -/

/-- The invocations that may follow without an end to what is settled. -/
def Repeats (t : BuildType) : Prop := t = .all ∨ t = .configure ∨ t = .compile ∨ t = .deploy

theorem rests_dispatch {t : BuildType} (ht : Repeats t) : Rests T P s (dispatch T E.toConfig net (P.scripts net) t) := by
  rcases ht with rfl | rfl | rfl | rfl
  · exact rests_doToolchain.bind (rests_doThirdparty.bind rests_fetch_on)
  · exact rests_invokeConfigure
  · exact rests_invokeCompile
  · exact rests_invokeDeploy

theorem rest_invoked {t : BuildType} {p : Script Unit} (ht : Repeats t) (h : Settled P s w.fs)
    (hr : Invoked T P t w p w') : Rest E s w w' := by
  obtain ⟨net, hr⟩ := hr
  have hnote : ∀ (v : World Label) m, NotStarted s m → Rest E s w v → Rest E s w ⟨v.fs, .mark m :: v.log⟩ :=
    fun v m hm hv => hv.trans (.mark hm)
  have hsafe : Safe T Alone (Rest E s w) (fun _ => Rest E s w) (fun _ => Rest E s w)
      (main T E.toConfig net (P.scripts net) t) w := by
    have hstart := hnote w (.invoked t) (by simp [NotStarted]) .refl
    refine safe_bind (safe_note.2 ⟨.refl, hstart, safe_bind ?_⟩)
    refine Safe.mono (rests_dispatch ht _ (by exact h)) (fun _ h => hstart.trans h) (fun _ v hv => ?_)
      fun n v h => hstart.trans h.2
    have hend := hnote v (.say .function (upper "all finished")) (by simp [NotStarted]) (hstart.trans hv)
    exact safe_bind (safe_note.2 ⟨hstart.trans hv, hend, safe_exit.2 ⟨hend, hend⟩⟩)
  exact (hsafe.reach hr).inv

/-- An invocation that leaves alone what is settled, stopped anywhere. -/
def RepeatRun (T : Tools) (P : Platform E) (w w' : World Label) : Prop := ∃ t p, Repeats t ∧ Invoked T P t w p w'

theorem rest_repeats (h : Settled P s w.fs) (hist : ReflTransGen (RepeatRun T P) w w') : Rest E s w w' := by
  induction hist with
  | refl => exact .refl
  | tail _ hr ih =>
    obtain ⟨t, p, ht, hr⟩ := hr
    exact ih.trans (rest_invoked ht (h.rest ih) hr)

end BuildQt5
