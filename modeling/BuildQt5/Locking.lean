import BuildQt5.Increment
import BuildQt5.Shell.Guard

/-!
# Work under the lock

The stamp of a stage is a directory without a lock in it. What keeps it honest is that the lock is written before
any work: wherever an invocation is at a command that changes something in the directory of a stage, the lock is
there (`work_under_lock`), so that a run that is stopped in the middle of the work leaves a stage that is not
passed over. To make directories does not count as work, and that is the gap by which a stage can be stamped
without a body. The Qt sources are worked on without the lock too, by `configure` and `compile`.
-/

namespace BuildQt5
open Shell Relation
open Prog (world run run_ note ifThen forEach)

/-- `c` changes something in the directory of `s`, the lock apart. -/
def WorksIn (E : Config) (s : Stage) (c : Cmd Label) : Prop :=
  ∃ r ∈ c.roots, ∃ x rest, x ≠ "lock" ∧ r = E.stageDir s ++ x :: rest

/-- If `c` works in the directory of `s`, the lock is there. -/
def UnderLock (E : Env) (s : Stage) (c : Cmd Label) (w : World Label) : Prop := WorksIn E.toConfig s c → Held E s w.fs

variable {T : Tools} {E : Env} {P : Platform E} {net : Net} {s s' : Stage} {t : BuildType} {w w' : World Label}
  {M : Label → Prop} {reset : Bool}

/-! ### Nothing is in the way of the lock -/

theorem Unblocked.framed_lock (h : Unblocked E s w.fs) (hf : Framed (E.lock s) M w w') : Unblocked E s w'.fs := by
  refine ⟨fun q hq => ?_, ?_⟩
  · rcases hf.above q (hq.trans Env.stageDir_lock) with h0 | h0
    · rw [h0]
      exact h.clear q hq
    · exact .inr h0.2
  · rw [hf.same _ (List.prefix_refl _)]
    exact h.lockFree

theorem Unblocked.thinned (h : Unblocked E s w.fs) (ht : Thinned (E.stageDir s) M w w') : Unblocked E s w'.fs := by
  obtain ⟨evs, -, hg, -⟩ := ht.log
  refine ⟨fun q hq => ?_, ?_⟩
  · rcases ht.above q hq with h0 | h0
    · rw [h0]
      exact h.clear q hq
    · exact h0
  · rcases hg _ Env.stageDir_lock with h0 | h0
    · rw [h0]
      exact h.lockFree
    · simp [h0.1]

theorem Unblocked.write {fs : Fs} (h : Unblocked E s fs) : Unblocked E s (fs.write (E.lock s) "1") := by
  refine ⟨fun q hq => ?_, ?_⟩
  · rw [Fs.get_write_of_ne (lock_ne_of_above hq)]
    exact h.clear q hq
  · rw [Fs.get_write]
    split
    · simp
    · exact h.lockFree

theorem Unblocked.unlocked {fs : Fs} (h : Unblocked E s fs) :
    Unblocked E s (if fs.isFile (E.lock s) then fs.erase (E.lock s) else fs) := by
  split
  · rename_i hf
    obtain ⟨c, hc⟩ := Fs.isFile_iff.1 hf
    refine ⟨fun q hq => ?_, ?_⟩
    · rw [Fs.get_erase_file hc, if_neg (lock_ne_of_above hq)]
      exact h.clear q hq
    · rw [Fs.get_erase_file hc, if_pos rfl]
      simp
  · exact h

/-- What an invocation does that concerns the directory of `s`: the work of its body and of the steps without a
stamp, the writing and removing of the lock, work elsewhere, and the removals of `clean`. -/
inductive Harmless (E : Env) (s : Stage) : Cmd Label → Prop
  | body {c : Cmd Label} (h : c.Within (E.bodyArea s)) : Harmless E s c
  | lock : Harmless E s (.write (E.lock s) "1")
  | unlock : Harmless E s (.rmF (E.lock s))
  | off {c : Cmd Label} (h : c.Off (E.stageDir s)) : Harmless E s c
  | clean {ps : List Path} : Harmless E s (.rmRf ps)

theorem Harmless.preserves {c : Cmd Label} (h : Harmless E s c) : c.Preserves T fun v => Unblocked E s v.fs := by
  cases h with
  | body h =>
    have hoff := h.off Env.bodyArea_off
    exact ⟨fun v v' hv hm => hv.framed_lock (M := fun _ => True) (.mid hoff hm),
      fun v n v' hv hf => hv.framed_lock (M := fun _ => True) (.fin hoff hf)⟩
  | lock =>
    refine ⟨fun v v' hv hm => ?_, fun v n v' hv hf => ?_⟩
    · obtain ⟨evs, hm, -⟩ := hm
      cases hm
    · show Unblocked E s v'.fs
      rw [hf.1.1]
      exact hv.write
  | unlock =>
    refine ⟨fun v v' hv hm => ?_, fun v n v' hv hf => ?_⟩
    · obtain ⟨evs, hm, -⟩ := hm
      cases hm
    · show Unblocked E s v'.fs
      rw [hf.1.2]
      exact hv.unlocked
  | off h =>
    exact ⟨fun v v' hv hm => hv.framed (M := fun _ => True) (.mid h hm),
      fun v n v' hv hf => hv.framed (M := fun _ => True) (.fin h hf)⟩
  | clean =>
    exact ⟨fun v v' hv hm => hv.thinned (M := fun _ => True) (.mid hm),
      fun v n v' hv hf => hv.thinned (M := fun _ => True) (.fin hf)⟩

abbrev AllHarmless (E : Env) (s : Stage) (p : Script Unit) : Prop := p.All (Harmless E s) fun _ => True

section harmless
open Prog (All all_run_ all_note all_world all_ite all_ifThen)

variable {p : Script Unit}

theorem harmless_step (h : s' ≠ s) (hp : p.All (Cmd.Within (E.stepArea s')) M) : AllHarmless E s p :=
  hp.mono (fun _ hc => .off (hc.off (Env.stepArea_off h))) fun _ _ => trivial

theorem harmless_body (hp : p.All (Cmd.Within (E.bodyArea s')) M) : AllHarmless E s p := by
  by_cases h : s' = s
  · subst h
    exact hp.mono (fun _ hc => .body hc) fun _ _ => trivial
  · exact harmless_step h (stepArea_of_body hp)

theorem harmless_printLog {kind : LogKind} {text : String} : AllHarmless E s (printLog kind text) :=
  all_printLog_of fun _ _ => trivial

theorem harmless_lockedBody {body : Script Unit} (hb : body.All (Cmd.Within (E.bodyArea s)) M) :
    AllHarmless E s (lockedBody E.toConfig s body) := by
  refine All.bind (all_note.2 trivial) fun _ => (harmless_body hb).bind fun _ => ?_
  refine All.bind (all_note.2 trivial) fun _ => ?_
  exact All.bind (all_world.2 trivial) fun _ => all_ifThen fun _ => all_run_.2 .unlock

theorem harmless_buildDir : AllHarmless E s (run_ (.mkdirP E.buildDir)) := all_run_.2 (.body (.inr (.inl rfl)))

theorem harmless_child {x : String} (hx : x ≠ "lock") : AllHarmless E s (run_ (.mkdirP (E.stageDir s ++ [x]))) :=
  all_run_.2 (.body (.inl (.inr ⟨x, hx, List.prefix_refl _⟩)))

theorem harmless_test {q : Script Unit} (hq : AllHarmless E s q) : AllHarmless E s (do
    let w ← world
    if !reset && stamped E.toConfig w.fs s then skip s w.fs else q) :=
  All.bind (all_world.2 trivial) fun _ => all_ite (fun _ => All.bind (all_note.2 trivial) fun _ => harmless_printLog)
    fun _ => hq

theorem harmless_shellBuild {normal : Bool} :
    AllHarmless E s (shellBuild E.toConfig reset s' normal (P.scripts net s')) := by
  by_cases h : s' = s
  · subst h
    refine harmless_buildDir.bind fun _ => harmless_test ?_
    cases hb : P.scripts net s' with
    | none =>
      show AllHarmless E s' (printLog .normal "(ignore)")
      exact harmless_printLog
    | some b =>
      refine All.bind (all_run_.2 (.body (.inr (.inr (.inr rfl))))) fun _ => All.bind (all_run_.2 .lock) fun _ => ?_
      exact (harmless_body all_stageDirs (M := fun _ => True)).bind fun _ => harmless_lockedBody (P.proper net s' b hb)
  · exact harmless_step h (all_shellBuild (M := fun _ => True) (fun _ _ => trivial) (P.proper net s'))

theorem harmless_cmakeStage : AllHarmless E .cmake (do
    run_ (.mkdirP (E.stageDir .cmake))
    run_ (.mkdirP (E.stageDir .cmake ++ ["src"]))
    run_ (.mkdirP (E.stageDir .cmake ++ ["work"]))
    run_ (.write (E.lock .cmake) "1")
    lockedBody E.toConfig .cmake (cmakeBody T E.toConfig net)) := by
  refine All.bind (all_run_.2 (.body (.inr (.inr (.inr rfl))))) fun _ => ?_
  refine (harmless_child (by decide)).bind fun _ => (harmless_child (by decide)).bind fun _ => ?_
  exact All.bind (all_run_.2 .lock) fun _ => harmless_lockedBody (all_cmakeBody fun _ h => h)

theorem harmless_installCmake : AllHarmless E s (installCmake T E.toConfig net reset) := by
  by_cases h : Stage.cmake = s
  · subst h
    refine harmless_printLog.bind fun _ => harmless_test ?_
    exact all_ite (fun _ => harmless_printLog) fun _ => harmless_cmakeStage
  · exact harmless_step h (all_installCmake (M := fun _ => True) fun _ _ => trivial)

theorem harmless_fetchStage : AllHarmless E .qt5 (fetchEnter T E.toConfig net) := by
  refine (harmless_child (by decide)).bind fun _ => (harmless_child (by decide)).bind fun _ => ?_
  exact All.bind (all_run_.2 .lock) fun _ => harmless_lockedBody (all_fetchBody fun _ h => h)

theorem harmless_doFetch : AllHarmless E s (doFetch T E.toConfig net reset) := by
  by_cases h : Stage.qt5 = s
  · subst h
    exact harmless_buildDir.bind fun _ => harmless_test harmless_fetchStage
  · exact harmless_step h (all_doFetch (M := fun _ => True) fun _ _ => trivial)

theorem harmless_dispatch : AllHarmless E s (dispatch T E.toConfig net (P.scripts net) t) := by
  have hclean : ∀ t, t = .clean ∨ t = .cleanall → AllHarmless E s (dispatch T E.toConfig net (P.scripts net) t) := by
    refine fun t ht => (all_clean (s := s) ht).mono (fun c hc => ?_) fun _ _ => trivial
    rcases hc with hc | ⟨ps, rfl⟩
    · exact .off hc
    · exact .clean
  have hdeploy : (doDeploy T E.toConfig).All (Cmd.Within (E.bodyArea s)) fun m => m.stage = none :=
    all_doDeploy fun _ h => h
  have hpieces : Pieces T E.toConfig net (P.scripts net) (AllHarmless E s) :=
    { bind := fun hp hq => hp.bind fun _ => hq
      say := fun _ => harmless_printLog
      pkgconfig := harmless_body (all_installPkgconfig (A := E.bodyArea s) (fun _ h => h) fun _ => .inl)
      cmake := fun _ => harmless_installCmake
      stage := fun _ _ _ _ _ => harmless_shellBuild
      fetch := fun _ => harmless_doFetch
      configure := harmless_body (all_doConfigure fun _ h => h)
      compile := fun _ => harmless_body (all_doCompile fun _ h => h)
      deploy := harmless_body hdeploy }
  exact hpieces.dispatch t (fun _ => hclean .clean (.inl rfl)) fun _ => hclean .cleanall (.inr rfl)

end harmless

/-- Wherever an invocation stops, nothing is in the way of the lock that was not before. -/
theorem safe_unblocked (hw : Unblocked E s w.fs) : Safe T Alone (fun v => Unblocked E s v.fs) (fun _ _ => True)
    (fun _ v => Unblocked E s v.fs) (main T E.toConfig net (P.scripts net) t) w := by
  refine safe_bind (safe_note.2 ⟨hw, hw, safe_bind ?_⟩)
  refine (Safe.of_all (fun _ h => h.preserves) (fun _ _ _ h => h) harmless_dispatch (by exact hw)).mono (fun _ h => h)
    (fun _ v hv => ?_) fun _ _ h => h.2
  exact safe_bind (safe_note.2 ⟨hv, hv, safe_exit.2 ⟨hv, hv⟩⟩)

theorem unblocked_history {w₀ : World Label} (h : Unblocked E s w₀.fs)
    (hist : ReflTransGen (fun v v' => ∃ t p, Invoked T P t v p v') w₀ w) : Unblocked E s w.fs := by
  induction hist with
  | refl => exact h
  | tail _ hstep ih =>
    obtain ⟨t, p, net, hr⟩ := hstep
    exact ((safe_unblocked ih).reach hr).inv

/-! ### The lock comes first -/

theorem not_worksIn_off {c : Cmd Label} (h : c.Off (E.stageDir s)) : ¬ WorksIn E.toConfig s c := by
  rintro ⟨r, hr, x, rest, -, rfl⟩
  cases c with
  | mkdirP p => cases hr
  | _ => exact (h _ hr).2 (List.prefix_append _ _)

theorem not_worksIn_lock {c : Cmd Label} (h : c.roots = [E.lock s]) : ¬ WorksIn E.toConfig s c := by
  rintro ⟨r, hr, x, rest, hx, he⟩
  rw [h, List.mem_singleton] at hr
  rw [hr, Config.lock, List.append_cancel_left_eq] at he
  exact hx (List.cons.inj he).1.symm

theorem not_worksIn_mkdirP {p : Path} : ¬ WorksIn E.toConfig s (.mkdirP p) := by
  rintro ⟨r, hr, -⟩
  cases hr

section guarded
variable {α : Type} {p : Script α}

theorem guarded_of_notWork (hp : p.All (fun c => ¬ WorksIn E.toConfig s c) M) :
    Guarded T (UnderLock E s) (fun _ _ => True) p w :=
  guarded_of_all (fun _ _ hc h => absurd h hc) hp

theorem guarded_of_off {A : Area} (hp : p.All (Cmd.Within A) M) (hA : A.Off (E.stageDir s)) :
    Guarded T (UnderLock E s) (fun _ _ => True) p w :=
  guarded_of_notWork (hp.mono (fun _ hc => not_worksIn_off (hc.off hA)) fun _ h => h)

/-- Work that leaves the lock alone. -/
theorem Held.guarded (h : Held E s w.fs) (hp : p.All (Cmd.Within (E.bodyArea s)) M) :
    Guarded T (UnderLock E s) (fun _ v => Held E s v.fs) p w := by
  have hsafe : Safe T Alone (fun v => Held E s v.fs) (fun _ v => Held E s v.fs) (fun _ v => Held E s v.fs) p w :=
    (safe_frame hp Env.bodyArea_off).mono (fun _ hf => h.framed hf) (fun _ _ hf => h.framed hf) fun _ _ hf =>
      h.framed hf.2
  exact hsafe.guarded fun _ _ hv _ => hv

theorem guarded_mkdirP {q : Path} :
    Guarded T (UnderLock E s) (fun _ v => v.fs = w.fs.mkdirP q) (run_ (.mkdirP q)) w := by
  have hsafe : Safe T Alone (fun _ => True) (fun _ v => v.fs = w.fs.mkdirP q) (fun _ _ => True) (run_ (.mkdirP q)) w :=
    safe_mkdirP.2 ⟨trivial, trivial, rfl⟩
  have hguard : Guarded T (UnderLock E s) (fun _ _ => True) (run_ (.mkdirP q)) w :=
    guarded_of_notWork (M := fun _ => True) (Prog.all_run_.2 not_worksIn_mkdirP)
  exact (hguard.and hsafe).mono fun _ _ h => h.2

/-- The lock is written, and then it is there. -/
theorem Unblocked.guarded_write {q : Script Unit} (h : Unblocked E s w.fs) (hdir : w.fs.get (E.stageDir s) = some .dir)
    (hq : ∀ v, Held E s v.fs → Guarded T (UnderLock E s) (fun _ _ => True) q v) :
    Guarded T (UnderLock E s) (fun _ _ => True) (run_ (.write (E.lock s) "1") >>= fun _ => q) w := by
  have hsafe : Safe T Alone (fun _ => True) (fun _ v => Held E s v.fs) (fun _ _ => True)
      (run_ (.write (E.lock s) "1")) w := safe_write trivial fun _ _ => ⟨trivial, held_of_write hdir h.lockFree⟩
  have hguard : Guarded T (UnderLock E s) (fun _ _ => True) (run_ (.write (E.lock s) "1")) w :=
    guarded_of_notWork (M := fun _ => True) (Prog.all_run_.2 (not_worksIn_lock rfl))
  exact guarded_bind ((hguard.and hsafe).mono fun _ v hv => hq v hv.2)

theorem Held.guarded_lockedBody {body : Script Unit} (h : Held E s w.fs)
    (hb : body.All (Cmd.Within (E.bodyArea s)) M) :
    Guarded T (UnderLock E s) (fun _ _ => True) (lockedBody E.toConfig s body) w := by
  have hunlock : (unlock E.toConfig s).All (fun c => ¬ WorksIn E.toConfig s c) fun _ => True :=
    Prog.All.bind (Prog.all_world.2 trivial) fun _ => Prog.all_ifThen fun _ => Prog.all_run_.2 (not_worksIn_lock rfl)
  have hheld : Held E s (World.mk w.fs (.mark (.started s) :: w.log)).fs := h
  refine guarded_bind (guarded_note.2 (guarded_bind ((hheld.guarded hb).mono fun _ v _ => ?_)))
  exact guarded_bind (guarded_note.2 (guarded_of_notWork hunlock))

end guarded

/-- What `p` changes in the directory of `s` it changes under the lock. -/
def Watches (T : Tools) (E : Env) (s : Stage) (p : Script Unit) : Prop :=
  ∀ w, Unblocked E s w.fs → Guarded T (UnderLock E s) (fun _ v => Unblocked E s v.fs) p w

section watches
variable {p q : Script Unit}

theorem Watches.bind {f : Unit → Script Unit} (hp : Watches T E s p) (hf : Watches T E s (f ())) :
    Watches T E s (p >>= f) := fun w hw => guarded_bind ((hp w hw).mono fun _ v hv => hf v hv)

theorem watches_of_harmless (hp : AllHarmless E s p)
    (hg : ∀ w, Unblocked E s w.fs → Guarded T (UnderLock E s) (fun _ _ => True) p w) : Watches T E s p := by
  intro w hw
  have hsafe := Safe.of_all (T := T) (fun _ h => h.preserves) (fun _ _ _ h => h) hp hw
  exact ((hg w hw).and hsafe).mono fun _ _ h => h.2

theorem watches_step (h : s' ≠ s) (hp : p.All (Cmd.Within (E.stepArea s')) M) : Watches T E s p :=
  watches_of_harmless (harmless_step h hp) fun _ _ => guarded_of_off hp (Env.stepArea_off h)

theorem watches_printLog {kind : LogKind} {text : String} : Watches T E s (printLog kind text) :=
  watches_of_harmless harmless_printLog fun _ _ =>
    guarded_of_notWork (M := fun _ => True) (all_printLog_of fun _ _ => trivial)

theorem watches_buildDir : Watches T E s (run_ (.mkdirP E.buildDir)) :=
  watches_of_harmless harmless_buildDir fun _ _ => guarded_mkdirP.mono fun _ _ _ => trivial

/-- The test of the stamp. -/
theorem watches_test (hq : Watches T E s q) : Watches T E s (do
    let w ← world
    if !reset && stamped E.toConfig w.fs s then skip s w.fs else q) := fun w hw =>
  guarded_bind (guarded_world.2 (guarded_ite (fun _ => guarded_bind (guarded_note.2 (watches_printLog _ hw)))
    fun _ => hq w hw))

theorem watches_shellBuild {normal : Bool} :
    Watches T E s (shellBuild E.toConfig reset s' normal (P.scripts net s')) := by
  by_cases h : s' = s
  · subst h
    cases hb : P.scripts net s' with
    | none =>
      refine watches_buildDir.bind (watches_test ?_)
      show Watches T E s' (printLog .normal "(ignore)")
      exact watches_printLog
    | some b =>
      have hbody := P.proper net s' b hb
      refine watches_of_harmless (hb ▸ harmless_shellBuild) fun w hw => ?_
      refine guarded_bind ((watches_buildDir w hw).mono fun _ v hv => guarded_bind (guarded_world.2 ?_))
      refine guarded_ite (fun _ => guarded_bind (guarded_note.2 trivial)) fun _ => guarded_bind (guarded_mkdirP.mono ?_)
      intro _ u hu
      have hu' : Unblocked E s' u.fs := hu ▸ hv.mkdirP not_lock_stageDir
      refine hu'.guarded_write (hu ▸ Fs.isDir_mkdirP hv.clear) fun x hx => ?_
      refine guarded_bind ((hx.guarded (M := fun _ => True) all_stageDirs).mono fun _ y hy => ?_)
      exact hy.guarded_lockedBody hbody
  · exact watches_step h (all_shellBuild (M := fun _ => True) (fun _ _ => trivial) (P.proper net s'))

theorem watches_installCmake : Watches T E s (installCmake T E.toConfig net reset) := by
  by_cases h : Stage.cmake = s
  · subst h
    refine watches_printLog.bind (watches_test (watches_of_harmless ?_ fun w hw => ?_))
    · exact Prog.all_ite (fun _ => harmless_printLog) fun _ => harmless_cmakeStage
    · refine guarded_ite (fun _ => guarded_note.2 trivial) fun _ => ?_
      -- the lock is written after the two directories of the stage
      refine guarded_bind (guarded_mkdirP.mono fun _ v hv => guarded_bind (guarded_mkdirP.mono fun _ u hu => ?_))
      refine guarded_bind (guarded_mkdirP.mono fun _ x hx => ?_)
      have h1 : Unblocked E .cmake v.fs := hv ▸ hw.mkdirP not_lock_stageDir
      have h2 : Unblocked E .cmake u.fs := hu ▸ h1.mkdirP (not_lock_child (by decide))
      have h3 : Unblocked E .cmake x.fs := hx ▸ h2.mkdirP (not_lock_child (by decide))
      refine h3.guarded_write ?_ fun y hy => hy.guarded_lockedBody (all_cmakeBody fun _ h => h)
      rw [hx, hu, hv]
      exact Fs.get_mkdirP_of_some (Fs.get_mkdirP_of_some (Fs.isDir_mkdirP hw.clear))
  · exact watches_step h (all_installCmake (M := fun _ => True) fun _ _ => trivial)

theorem watches_doFetch : Watches T E s (doFetch T E.toConfig net reset) := by
  by_cases h : Stage.qt5 = s
  · subst h
    refine watches_buildDir.bind (watches_test (watches_of_harmless harmless_fetchStage fun w hw => ?_))
    refine guarded_bind (guarded_mkdirP.mono fun _ v hv => guarded_bind (guarded_mkdirP.mono fun _ u hu => ?_))
    have h1 : Unblocked E .qt5 v.fs := hv ▸ hw.mkdirP (not_lock_child (by decide))
    have h2 : Unblocked E .qt5 u.fs := hu ▸ h1.mkdirP (not_lock_child (by decide))
    refine h2.guarded_write ?_ fun y hy => hy.guarded_lockedBody (all_fetchBody fun _ h => h)
    rw [hu, hv]
    exact Fs.get_mkdirP_of_some hw.dir_mkdirP
  · exact watches_step h (all_doFetch (M := fun _ => True) fun _ _ => trivial)

theorem watches_doClean : Watches T E s (doClean E.toConfig) := by
  have hone : ∀ name, ¬ WorksIn E.toConfig s (.rmRf [E.buildDir ++ [name]]) := by
    rintro name ⟨r, hr, x, rest, -, he⟩
    rw [List.mem_singleton.1 hr] at he
    have := congrArg List.length he
    simp [Config.stageDir] at this
  have hharmless : AllHarmless E s (dispatch T E.toConfig Net.none ((bare E).scripts Net.none) .clean) :=
    harmless_dispatch
  refine watches_of_harmless hharmless fun w hw => ?_
  refine guarded_bind (guarded_mkdirP.mono fun _ v _ => guarded_bind (guarded_note.2 ?_))
  refine guarded_of_notWork (M := fun _ => True) (Prog.All.bind (Prog.all_world.2 trivial) fun _ => ?_)
  refine Prog.all_forEach fun name _ => Prog.all_ite (fun _ => trivial) fun _ => ?_
  exact Prog.All.bind (all_printLog_of fun _ _ => trivial) fun _ => Prog.All.bind (Prog.all_run.2 (hone name)) fun _ =>
    all_orError_of fun _ _ => trivial

/-- `configure`, `compile` and `deploy` work for Qt alone. -/
theorem watches_body (hs : s ≠ .qt5) (hp : p.All (Cmd.Within (E.bodyArea .qt5)) M) : Watches T E s p :=
  watches_step (Ne.symm hs) (stepArea_of_body hp)

theorem watches_dispatch (ht : t ≠ .cleanall) (hs : s ≠ .qt5 ∨ t = .fetch) :
    Watches T E s (dispatch T E.toConfig net (P.scripts net) t) := by
  by_cases hqt : s = .qt5
  · obtain rfl := hs.resolve_left (absurd hqt)
    exact watches_printLog.bind watches_doFetch
  · have hpkg : Area.Off ⟨fun p => Fs.covers E.outside p = true, fun _ => False⟩ (E.stageDir s) :=
      ⟨fun _ hp => Env.apart_of_covers hp, fun _ h => h.elim⟩
    have hpieces : Pieces T E.toConfig net (P.scripts net) (Watches T E s) :=
      { bind := fun hp hq => hp.bind hq
        say := fun _ => watches_printLog
        pkgconfig := watches_of_harmless (harmless_body (all_installPkgconfig (A := E.bodyArea s) (fun _ h => h)
          fun _ => .inl)) fun _ _ => guarded_of_off (all_pkgconfig (s := s)) hpkg
        cmake := fun _ => watches_installCmake
        stage := fun _ _ _ _ _ => watches_shellBuild
        fetch := fun _ => watches_doFetch
        configure := watches_body hqt (all_doConfigure fun _ h => h)
        compile := fun _ => watches_body hqt (all_doCompile fun _ h => h)
        deploy := watches_body hqt (all_doDeploy fun _ h => h) }
    exact hpieces.dispatch t (fun _ => watches_doClean) fun h => absurd h ht

end watches

theorem ndk_works : execAny Tools.sample (List.replicate 5 (.done 0)) (ndkMain .toolchain) ndkStart (fun p _ =>
    p.isAt fun c => c.roots = [ndkEnv.stageDir .toolchain ++ ["android-ndk-r22b"]]) = true := by decide

end BuildQt5
