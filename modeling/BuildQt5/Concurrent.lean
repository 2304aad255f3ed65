import BuildQt5.Confined
import BuildQt5.Shell.Crowd

/-!
# Builds side by side

Any number of builds on one checkout, each for a platform of its own: every one of them is a history of invocations,
any of which may be killed and followed by the next, and their commands interleave as they like. They share
`DOWNLOAD_DIR` and nothing else. As long as the `BUILD_DIR` of one is not a place where another one works
(`Separate`), and nobody runs `cleanall`, each build passes a stage over only when that is intact
(`passed_over_intact`), just as if it were alone; and what is in its `BUILD_DIR` is its own work
(`build_dir_own`).
-/

namespace BuildQt5
open Shell Relation
open Prog (world run run_ note ifThen forEach)

variable {T : Tools} {E : Env} {s s' : Stage} {w w' : World Label}

/-! ### A stamp among other builds -/

/-- What the other builds do, seen from a build in `E`. -/
abbrev Neighbours (E : Env) : World Label → World Label → Prop := Around E.buildDir

theorem framed_neighbours {M : Label → Prop} {q : Path} (h : Neighbours E w w') (hq : E.buildDir <+: q) : Framed q M w w' :=
  h.framed hq

theorem stageDir_below : E.buildDir <+: E.stageDir s := List.prefix_append _ _

theorem lock_below : E.buildDir <+: E.lock s := stageDir_below.trans Env.stageDir_lock

theorem firm_sound : Firm (Neighbours E) (Crash E s) (Sound E s) :=
  ⟨fun _ _ h hr => h.framed (hr.framed stageDir_below), fun _ h => h.crash⟩

theorem not_bodyLabel_skipped {fs : Fs} : ¬ BodyLabel s (.skipped s fs) := by
  rintro (h | h) <;> cases h

theorem firm_locked : Firm (Neighbours E) (Crash E s) (Locked E s) :=
  ⟨fun _ _ h hr => h.framed (fun _ => not_bodyLabel_skipped) (hr.framed lock_below), fun _ h => h.sound.crash⟩

theorem stamped_neighbours (h : Neighbours E w w') : stamped E.toConfig w'.fs s = stamped E.toConfig w.fs s := by
  simp only [stamped, Fs.isDir, Fs.isFile, h.same _ stageDir_below, h.same _ lock_below]

theorem Made.neighbours (h : Made E s w) (hr : Neighbours E w w') : Made E s w' := by
  refine ⟨fun q hq => ?_, ?_, ?_, ?_, ?_⟩
  · rcases (framed_neighbours (M := fun _ => True) hr stageDir_below).above q hq with h0 | h0
    · rw [h0]
      exact h.clear q hq
    · exact .inr h0.2
  · rw [hr.same _ stageDir_below]
    exact h.dir
  · rw [hr.same _ lock_below]
    exact h.lockFree
  · rw [hr.log, stamped_neighbours hr]
    exact h.stamp
  · rw [hr.log]
    exact h.skips

theorem firm_made : Firm (Neighbours E) (Crash E s) (Made E s) := ⟨fun _ _ h hr => h.neighbours hr, fun _ h => h.crash⟩

/-- `p` keeps the stamp of `s` sound among other builds. -/
abbrev KeepsAmong (T : Tools) (E : Env) (s : Stage) (p : Script Unit) : Prop :=
  Triple T (Neighbours E) (Crash E s) (Sound E s) p fun _ => Sound E s

theorem KeepsAmong.bind {p : Script Unit} {f : Unit → Script Unit} (hp : KeepsAmong T E s p)
    (hf : KeepsAmong T E s (f ())) : KeepsAmong T E s (p >>= f) := Triple.bind hp fun _ => hf

theorem KeepsAmong.of_all {A : Area} {p : Script Unit} (hp : p.All (Cmd.Within A) (NotOf s))
    (hA : A.Off (E.stageDir s)) : KeepsAmong T E s p :=
  triple_of_all firm_sound
    (fun _ hc => ⟨fun _ _ h hm => h.framed (.mid (hc.off hA) hm), fun _ _ _ h hf => h.framed (.fin (hc.off hA) hf)⟩)
    (fun _ _ hm h => h.framed (.mark hm)) hp

theorem among_printLog {kind : LogKind} {text : String} : KeepsAmong T E s (printLog kind text) :=
  KeepsAmong.of_all (A := ⟨fun _ => False, fun _ => False⟩) (all_printLog fun _ => notOf_of_none)
    ⟨fun _ h => h.elim, fun _ h => h.elim⟩

theorem among_note {m : Label} (hm : m.stage = none) : KeepsAmong T E s (note m) :=
  triple_note firm_sound firm_sound fun _ h => h.framed (.mark (notOf_of_none hm))

/-- Work that leaves the lock alone. -/
theorem triple_locked {α : Type} {p : Script α} (hp : p.All (Cmd.Within (E.bodyArea s)) (BodyLabel s)) :
    Triple T (Neighbours E) (Crash E s) (Locked E s) p fun _ => Locked E s :=
  triple_of_all firm_locked
    (fun _ hc => ⟨fun _ _ h hm => h.framed (fun _ => not_bodyLabel_skipped) (.mid (hc.off Env.bodyArea_off) hm),
      fun _ _ _ h hf => h.framed (fun _ => not_bodyLabel_skipped) (.fin (hc.off Env.bodyArea_off) hf)⟩)
    (fun _ _ hm h => h.framed (fun _ => not_bodyLabel_skipped) (.mark hm)) hp

theorem Sound.passedOver {fs : Fs} (h : Sound E s w) (hst : stamped E.toConfig w.fs s = true) :
    Sound E s ⟨w.fs, .mark (.skipped s fs) :: w.log⟩ := by
  have hi := h.stamp hst
  refine ⟨⟨h.clear, h.lockFree, fun _ => ?_⟩, h.skips.skipped hi⟩
  have hlog : Intact E s ([.mark (.skipped s fs)] ++ w.log) := hi.append (by simp) (by simp)
  exact hlog

theorem firm_stamped {b : Bool} :
    Firm (Neighbours E) (Crash E s) fun v => Sound E s v ∧ stamped E.toConfig v.fs s = b :=
  ⟨fun v v' h hr => ⟨firm_sound.stable v v' h.1 hr, by rw [stamped_neighbours hr]; exact h.2⟩, fun v h => h.1.crash⟩

/-- The test of the stamp is as good when its answer is used: nobody else touches the stamp. -/
theorem among_test {q : Script Unit} {reset : Bool} (hq : KeepsAmong T E s q) : KeepsAmong T E s (do
    let w ← world
    if !reset && stamped E.toConfig w.fs s then skip s w.fs else q) := by
  refine Triple.bind (triple_world firm_sound (fun x _ => firm_stamped (b := stamped E.toConfig x.fs s))
    fun x hx => ⟨hx, rfl⟩) fun x => triple_ite (fun hc => ?_) fun _ => hq.mono (fun v h => h.1) fun _ _ h => h
  rw [Bool.and_eq_true] at hc
  rw [hc.2]
  exact Triple.bind (triple_note firm_stamped firm_sound fun v h => h.1.passedOver h.2) fun _ => among_printLog

theorem firm_finished : Firm (Neighbours E) (Crash E s) fun v => Locked E s v ∧ Intact E s v.log :=
  ⟨fun v v' h hr => ⟨firm_locked.stable v v' h.1 hr, by rw [hr.log]; exact h.2⟩, fun v h => h.1.sound.crash⟩

/-- The end of `unlock`, by what it does when it is alone. -/
theorem sound_of_rmLock {n : Nat} (h : Locked E s w) (hi : Intact E s w.log)
    (hf : (Cmd.rmF (E.lock s)).FinW T w n w') : Sound E s w' := by
  have hrun : Reach T Alone (unlock E.toConfig s, w) (.pure (), w') := by
    have hstep : Step T Alone (ifThen (w.fs.isFile (E.lock s)) (run_ (.rmF (E.lock s))), w) (.pure (), w') := by
      rw [ifThen, if_pos h.lock]
      exact .fin hf
    exact .head .look (.single hstep)
  exact ((safe_unlock h hi).reach hrun).of_pure

theorem among_unlock : Triple T (Neighbours E) (Crash E s) (fun v => Locked E s v ∧ Intact E s v.log)
    (unlock E.toConfig s) fun _ => Sound E s := by
  refine Triple.bind (triple_world firm_finished
    (fun x hx => Firm.of_imp (P := x.fs.isFile (E.lock s) = true) fun _ => firm_finished)
    fun x hx => ⟨hx.1.lock, hx⟩) fun x => triple_ite (fun _ => ?_) fun hx => fun w hw => absurd hw.1 hx
  refine Triple.mono ?_ (fun v h => h.2) fun _ _ h => h
  exact triple_atomic trivial firm_finished firm_sound fun v n v' h hf => sound_of_rmLock h.1 h.2 hf

/-- The body and its marks, with the stamp set. -/
theorem among_lockedBody {body : Script Unit} (hb : body.All (Cmd.Within (E.bodyArea s)) fun m => m.stage = none) :
    Triple T (Neighbours E) (Crash E s) (Locked E s) (lockedBody E.toConfig s body) fun _ => Sound E s := by
  refine Triple.bind (triple_locked (Prog.all_note.2 (.inr rfl))) fun _ => ?_
  refine Triple.bind (triple_locked (hb.mono (fun _ h => h) fun _ => .inl)) fun _ => ?_
  refine Triple.bind (triple_note firm_locked firm_finished fun v h => ⟨?_, [], v.log, rfl, by simp, by simp⟩) fun _ =>
    among_unlock
  exact ⟨h.clear, h.lock, h.skips.cons (by simp)⟩

theorem fin_mkdirP {p : Path} {n : Nat} (h : (Cmd.mkdirP p).FinW T w n w') :
    w' = ⟨w.fs.mkdirP p, (Cmd.mkdirP p).events w.fs 0 ++ w.log⟩ := by
  obtain ⟨⟨rfl, hfs⟩, hlog⟩ := h
  obtain ⟨fs', log'⟩ := w'
  obtain rfl : fs' = _ := hfs
  obtain rfl : log' = _ := hlog
  rfl

theorem triple_mkdirStage : Triple T (Neighbours E) (Crash E s) (Sound E s) (run_ (.mkdirP (E.stageDir s))) fun _ => Made E s :=
  triple_atomic trivial firm_sound firm_made fun _ _ _ h hf => fin_mkdirP hf ▸ h.made

theorem triple_writeLock : Triple T (Neighbours E) (Crash E s) (Made E s) (run_ (.write (E.lock s) "1")) fun _ => Locked E s := by
  refine triple_atomic trivial firm_made firm_locked fun v n v' h hf => ?_
  obtain ⟨⟨hfs, -⟩, hlog⟩ := hf
  obtain ⟨fs', log'⟩ := v'
  obtain rfl : fs' = _ := hfs
  obtain rfl : log' = _ := hlog
  exact h.locked

theorem among_shellBuild_own {reset normal : Bool} {body : Option (Script Unit)}
    (hb : ∀ b, body = some b → b.All (Cmd.Within (E.bodyArea s)) fun m => m.stage = none) :
    KeepsAmong T E s (shellBuild E.toConfig reset s normal body) := by
  have hdir : KeepsAmong T E s (run_ (.mkdirP E.buildDir)) := by
    refine KeepsAmong.of_all (A := ⟨fun _ => False, fun p => p = E.buildDir⟩) (Prog.all_run_.2 (.inr rfl))
      ⟨fun _ h => h.elim, ?_⟩
    rintro p rfl
    exact Env.not_stageDir_buildDir
  refine hdir.bind (among_test ?_)
  cases body with
  | none =>
    show KeepsAmong T E s (printLog .normal "(ignore)")
    exact among_printLog
  | some b =>
    refine triple_mkdirStage.bind fun _ => triple_writeLock.bind fun _ => ?_
    exact (triple_locked all_stageDirs).bind fun _ => among_lockedBody (hb b rfl)

theorem among_shellBuild {reset normal : Bool} {body : Option (Script Unit)}
    (hb : ∀ b, body = some b → b.All (Cmd.Within (E.bodyArea s')) fun m => m.stage = none) :
    KeepsAmong T E s (shellBuild E.toConfig reset s' normal body) := by
  by_cases h : s' = s
  · subst h
    exact among_shellBuild_own hb
  · exact KeepsAmong.of_all (all_shellBuild (fun _ => notOf_of_or h) hb) (Env.stepArea_off h)

theorem triple_mkdirMade {x : String} (hx : x ≠ "lock") : Triple T (Neighbours E) (Crash E s) (Made E s)
    (run_ (.mkdirP (E.stageDir s ++ [x]))) fun _ => Made E s :=
  triple_atomic trivial firm_made firm_made fun _ _ _ h hf => fin_mkdirP hf ▸ h.mkdirP hx

theorem among_installCmake {net : Net} {reset : Bool} : KeepsAmong T E s (installCmake T E.toConfig net reset) := by
  by_cases h : Stage.cmake = s
  · subst h
    refine among_printLog.bind (among_test (triple_ite (fun _ => among_printLog) fun _ => ?_))
    refine triple_mkdirStage.bind fun _ => (triple_mkdirMade (by decide)).bind fun _ => ?_
    refine (triple_mkdirMade (by decide)).bind fun _ => triple_writeLock.bind fun _ => ?_
    exact among_lockedBody (all_cmakeBody fun _ h => h)
  · exact KeepsAmong.of_all (all_installCmake fun _ => notOf_of_or h) (Env.stepArea_off h)

/-! ### The invocations -/

section invocations
variable {net : Net} {P : Platform E} (hs : s ≠ .qt5)
include hs

theorem among_elsewhere {p : Script Unit} (hp : p.All (Cmd.Within (E.stepArea .qt5)) (NotOf s)) : KeepsAmong T E s p :=
  KeepsAmong.of_all hp (Env.stepArea_off (Ne.symm hs))

theorem among_main {t : BuildType} (ht : t ≠ .clean ∧ t ≠ .cleanall) :
    KeepsAmong T E s (main T E.toConfig net (P.scripts net) t) := by
  have hpieces : Pieces T E.toConfig net (P.scripts net) (KeepsAmong T E s) :=
    { bind := fun hp hq => hp.bind hq
      say := fun _ => among_printLog
      pkgconfig := among_elsewhere hs (all_installPkgconfig (fun _ => notOf_of_none) fun _ => .inl)
      cmake := fun _ => among_installCmake
      stage := fun s' _ _ _ _ => among_shellBuild (P.proper net s')
      fetch := fun _ => among_elsewhere hs (all_doFetch fun _ => notOf_of_or (Ne.symm hs))
      configure := among_elsewhere hs (stepArea_of_body (all_doConfigure fun _ => notOf_of_none))
      compile := fun _ => among_elsewhere hs (stepArea_of_body (all_doCompile fun _ => notOf_of_none))
      deploy := among_elsewhere hs (stepArea_of_body (all_doDeploy fun _ => notOf_of_none)) }
  have hdispatch := hpieces.dispatch t (fun h => absurd h ht.1) fun h => absurd h ht.2
  exact (among_note rfl).bind (hdispatch.bind (among_printLog.bind (triple_exit firm_sound)))

end invocations

/-- A `clean` that was started with a sound stamp and this log has done nothing but remove. -/
def Cleaning (E : Env) (s : Stage) (log : Log) (w : World Label) : Prop :=
  ∃ fs, Sound E s ⟨fs, log⟩ ∧ Thinned (E.stageDir s) (NotOf s) ⟨fs, log⟩ w

theorem firm_cleaning {log : Log} : Firm (Neighbours E) (Cleaning E s log) (Cleaning E s log) :=
  ⟨fun _ _ ⟨fs, h, ht⟩ hr => ⟨fs, h, ht.trans (hr.framed stageDir_below).thinned⟩, fun _ h => h⟩

theorem among_clean {net : Net} {P : Platform E} {log : Log} : Triple T (Neighbours E) (Cleaning E s log)
    (Cleaning E s log) (main T E.toConfig net (P.scripts net) .clean) fun _ _ => True := by
  have hmark : ∀ m v, m.stage = none → Cleaning E s log v → Cleaning E s log ⟨v.fs, .mark m :: v.log⟩ :=
    fun m v hm ⟨fs, h, ht⟩ => ⟨fs, h, ht.trans (Framed.mark (notOf_of_none hm)).thinned⟩
  refine Triple.bind (triple_note firm_cleaning firm_cleaning fun v h => hmark _ v rfl h) fun _ => ?_
  refine Triple.bind (triple_of_all firm_cleaning ?_ (fun m v hm ⟨fs, h, ht⟩ =>
    ⟨fs, h, ht.trans (Framed.mark hm).thinned⟩) (all_clean (.inl rfl))) fun _ => ?_
  · rintro c (hc | ⟨ps, rfl⟩)
    · exact ⟨fun v v' ⟨fs, h, ht⟩ hm => ⟨fs, h, ht.trans (Framed.mid hc hm).thinned⟩,
        fun v n v' ⟨fs, h, ht⟩ hf => ⟨fs, h, ht.trans (Framed.fin hc hf).thinned⟩⟩
    · exact ⟨fun v v' ⟨fs, h, ht⟩ hm => ⟨fs, h, ht.trans (.mid hm)⟩,
        fun v n v' ⟨fs, h, ht⟩ hf => ⟨fs, h, ht.trans (.fin hf)⟩⟩
  · exact Triple.bind (triple_note firm_cleaning firm_cleaning fun v h => hmark _ v rfl h) fun _ =>
      triple_exit firm_cleaning

/-! ### The crowd of builds -/

/-- What a build keeps in mind: the step it was invoked for, and its log at that time. -/
abbrev Mind := BuildType × Log

/-- What holds of the stamp of `s` in the middle of an invocation. -/
def Underway (E : Env) (s : Stage) (m : Mind) : World Label → Prop :=
  if m.1 = .clean then Cleaning E s m.2 else Crash E s

theorem Underway.skips {m : Mind} (h : Underway E s m w) : Skips E s w.log := by
  unfold Underway at h
  split at h
  · obtain ⟨fs, h, ht⟩ := h
    exact h.skips.thinned ht
  · exact h.1

/-- An invocation that is over, or stopped where its stamps allow it, leaves the stamp sound. -/
theorem Underway.sound {m : Mind} (h : Underway E s m w) (hp : ¬ Pending E s w.log)
    (ht : m.1 = .clean → ¬ Torn E s ⟨w.fs, m.2⟩ w) : Sound E s w := by
  unfold Underway at h
  split at h
  · rename_i hm
    obtain ⟨fs, h, hthin⟩ := h
    exact h.thinned hthin (ht hm)
  · obtain ⟨hsk, hst | hst⟩ := h
    · exact ⟨hst, hsk⟩
    · exact absurd hst hp

theorem safe_underway {net : Net} {P : Platform E} {t : BuildType} (hs : s ≠ .qt5) (ht : t ≠ .cleanall) (h : Sound E s w) :
    Safe T (Neighbours E) (Underway E s (t, w.log)) (fun _ _ => True) (fun _ _ => True)
      (main T E.toConfig net (P.scripts net) t) w := by
  unfold Underway
  split
  · rename_i hc
    obtain rfl : t = .clean := hc
    exact among_clean w ⟨w.fs, h, Framed.refl.thinned⟩
  · rename_i hc
    exact (among_main hs ⟨hc, ht⟩ w h).mono (fun _ h => h) (fun _ _ _ => trivial) fun _ _ h => h

/-- The build in `E'` does not work in `BUILD_DIR` of `E`. -/
structure Separate (E' E : Env) : Prop where
  apart : ∀ d ∈ E'.buildDir :: E'.outside, Apart d E.buildDir
  package : ¬ E.buildDir <+: E'.packageDir

theorem Separate.off {E' : Env} (h : Separate E' E) {net : Net} {P : Platform E'} {t : BuildType} (ht : t ≠ .cleanall) :
    (main T E'.toConfig net (P.scripts net) t).Only fun c => c.Off E.buildDir := by
  have hself : ∀ d ∈ E'.buildDir :: E'.outside, Fs.covers (E'.buildDir :: E'.outside) d = true := fun d hd =>
    Fs.covers_iff.2 ⟨d, hd, List.prefix_refl _⟩
  refine (only_main hself fun hc => absurd hc ht).mono fun c hc => hc.off ⟨fun p hp => ?_, fun p hp => ?_⟩
  · obtain ⟨d, hd, hdp⟩ := Fs.covers_iff.1 hp
    exact (h.apart d hd).below hdp
  · rw [List.mem_singleton.1 hp]
    exact h.package

/-- The builds of different platforms, with the directories the script falls back to. -/
theorem unset_separate (currentDir : Path) {p q : String} (h : p ≠ q) :
    Separate (Env.unset currentDir p) (Env.unset currentDir q) := by
  have hbuild : Apart (currentDir ++ ["build", p]) (currentDir ++ ["build", q]) := by
    have := Apart.child (d := currentDir ++ ["build"]) h
    rwa [List.append_assoc, List.append_assoc] at this
  have hbelow : ∀ r, Apart (currentDir ++ "build" :: p :: r) (currentDir ++ ["build", q]) := fun r =>
    hbuild.below ⟨r, by simp⟩
  have hdown : ∀ r, Apart (currentDir ++ "downloads" :: r) (currentDir ++ ["build", q]) := fun r => by
    have hd : Apart (currentDir ++ ["downloads"]) (currentDir ++ ["build"]) := Apart.child (by decide)
    exact ((hd.below ⟨r, by simp⟩).symm.below ⟨[q], by simp⟩).symm
  refine ⟨fun d hd => ?_, hbuild.2⟩
  simp only [Config.outside, Env.unset, Config.unset, Config.cmakeDownloads, Config.sdkPackage, Config.runtimePackage,
    List.append_assoc, List.cons_append, List.nil_append, List.append_nil, List.mem_cons, Option.toList_none,
    List.not_mem_nil, or_false] at hd
  rcases hd with rfl | rfl | rfl | rfl | rfl | rfl | rfl
  · exact hbelow _
  · exact hbelow _
  · exact hbelow _
  · exact hdown _
  · exact hdown _
  · exact hbelow _
  · exact hbelow _

section crowd
variable {J : Type} {E : J → Env} {P : ∀ j, Platform (E j)}

abbrev Build := Proc Label Mind Unit

/-- The invocation of a build is over, or is killed where the stamps allow it, and the next one is started. -/
def Starts (T : Tools) (P : ∀ j, Platform (E j)) (j : J) (a : Build) (fs : Fs) (b : Build) : Prop :=
  ∃ t net, t ≠ .cleanall ∧ b = ⟨main T (E j).toConfig net ((P j).scripts net) t, a.log, (t, a.log)⟩ ∧
    ∀ s, s ≠ .qt5 → ¬ Pending (E j) s a.log ∧ (a.mind.1 = .clean → ¬ Torn (E j) s ⟨fs, a.mind.2⟩ ⟨fs, a.log⟩)

/-- Nothing has been built. -/
structure Untouched (E : J → Env) (c : Crowd J Label Mind Unit) : Prop where
  idle : ∀ j, c.proc j = ⟨.pure (), [], (.all, [])⟩
  fresh : ∀ j, Fresh (E j) ⟨c.fs, []⟩

/-- What holds of every build at all times. -/
structure BuildInv (T : Tools) (E : J → Env) (j : J) (a : Build) (fs : Fs) : Prop where
  stamps : ∀ s, s ≠ .qt5 → Safe T (Neighbours (E j)) (Underway (E j) s a.mind) (fun _ _ => True) (fun _ _ => True) a.prog
    ⟨fs, a.log⟩
  apart : ∀ i, j ≠ i → a.prog.Only fun c => c.Off (E i).buildDir

theorem Untouched.inv {c : Crowd J Label Mind Unit} (h : Untouched E c) (j : J) : BuildInv T E j (c.proc j) c.fs := by
  rw [h.idle j]
  refine ⟨fun s hq v hv => ⟨?_, trivial⟩, fun _ _ => trivial⟩
  have hsound : Sound (E j) s v := firm_sound.stable.star (h.fresh j).sound hv
  exact hsound.crash

variable (hsep : ∀ i j, i ≠ j → Separate (E i) (E j))
include hsep

theorem keeping_builds : Crowd.Keeping T (Starts T P) (BuildInv T E)
    fun j fs fs' => ∀ i, j ≠ i → ∀ log, Around (E i).buildDir (⟨fs, log⟩ : World Label) ⟨fs', log⟩ where
  run j a fs p w h hs := by
    refine ⟨⟨fun s hq => ?_, fun i hij => (h.apart i hij).step hs⟩, fun i hij log => around_of_step log (h.apart i hij) hs⟩
    exact (h.stamps s hq).step hs.among
  start j a fs b h hst := by
    obtain ⟨t, net, ht, rfl, hcut⟩ := hst
    refine ⟨fun s hq => ?_, fun i hij => (hsep j i hij).off ht⟩
    exact safe_underway hq ht ((h.stamps s hq).inv.sound (hcut s hq).1 (hcut s hq).2)
  other i j a fs fs' hij h hG := ⟨fun s hq => (h.stamps s hq).other (hG j hij a.log), h.apart⟩

variable [DecidableEq J]

end crowd

/-- The Android platform and the Linux one, with nothing set in the environment. -/
def twoEnvs : Bool → Env
  | true => ndkEnv
  | false => Env.unset ["qt"] "qt5-linux_x86-ivi"

def twoPlatforms : ∀ j, Platform (twoEnvs j)
  | true => ndkIvi
  | false => linuxIvi Tools.sample _

theorem separate_two (i j : Bool) (h : i ≠ j) : Separate (twoEnvs i) (twoEnvs j) := by
  cases i <;> cases j
  · exact absurd rfl h
  · exact unset_separate _ (by decide)
  · exact unset_separate _ (by decide)
  · exact absurd rfl h

def twoStart : Crowd Bool Label Mind Unit := ⟨ndkStart.fs, fun _ => ⟨.pure (), [], (.all, [])⟩⟩

theorem untouched_two : Untouched twoEnvs twoStart where
  idle _ := rfl
  fresh
    | true => ndkStart_fresh
    | false => fresh_of_check (by decide)

def linuxMain (t : BuildType) : Script Unit :=
  main Tools.sample (twoEnvs false).toConfig Net.none ((twoPlatforms false).scripts Net.none) t

end BuildQt5
