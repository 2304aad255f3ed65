import BuildQt5.Failures
import BuildQt5.Shell.Eval

/-!
# What the stamp of the vendor stage is worth

`vendor.sh` returns early, with success, when qmake or cmake is not there yet, and `shell_build` stamps the stage all
the same. An `all` that follows passes it over, and its products are never built. If the body that ended last did not
return early, and no `clean` took part of the products away, they are what a body of the history has built and
installed (`vendor_served`).
-/

namespace BuildQt5
open Shell Relation
open Prog (world run run_ note ifThen forEach)

/-- `make` and `make install` of a project of the vendor stage succeeded. -/
def Installs (E : Config) (name : String) (evs : Log) : Prop :=
  (.job (.make (projectWork E .vendor name)), 0) ∈ ran evs ∧
    (.job (.makeTarget (projectWork E .vendor name) "install"), 0) ∈ ran evs

/-- The events of a body of `vendor.sh`; `there` is whether it finds the project under `REPO_DIR`. -/
structure Serves (E : Config) (project : String) (there : Prop) (evs : Log) : Prop where
  demos : .mark (.returned "do_build_qtdemo") ∈ evs ∨ ∀ d ∈ demos, Installs E d.1 evs
  vendor : .mark (.returned "do_build_vendor") ∈ evs ∨ (there → Installs E project evs)

theorem Installs.append {E : Config} {name : String} {evs evs' : Log} (h : Installs E name evs) :
    Installs E name (evs' ++ evs) := by
  rw [Installs, ran_append]
  exact ⟨List.mem_append_right _ h.1, List.mem_append_right _ h.2⟩

theorem Installs.append_left {E : Config} {name : String} {evs evs' : Log} (h : Installs E name evs) :
    Installs E name (evs ++ evs') := by
  rw [Installs, ran_append]
  exact ⟨List.mem_append_left _ h.1, List.mem_append_left _ h.2⟩

/-! ### The body -/

section body
variable {T : Tools} {E : Env} {w : World Label} {name project : String}

theorem Configured.cons {work : Path} {r r' : List (Label × Nat)} {type : ProjectType}
    (h : Configured work r r' type) : ∃ x, r' = x :: r := by
  cases type with
  | cmake =>
    obtain ⟨n, h⟩ := h
    exact ⟨_, h⟩
  | qmake => exact ⟨_, h⟩
  | other => exact h.elim

theorem safe_installs {type : ProjectType} {realPath : Option Path} : Safe T Alone (fun _ => True)
    (fun _ v => ∃ evs, v.log = evs ++ w.log ∧ Installs E.toConfig name evs) (fun _ _ => True)
    (buildProject E.toConfig .vendor type name realPath) w := by
  have hall : (buildProject E.toConfig .vendor type name realPath).All (Cmd.Within (E.bodyArea .vendor))
      fun m => m.stage = none := all_buildProject fun _ h => h
  refine (safe_buildProject.and (safe_frame hall Env.bodyArea_off)).mono (fun _ _ => trivial) ?_ fun _ _ _ => trivial
  rintro _ v ⟨⟨n, r, hconf, hran⟩, hf⟩
  obtain ⟨evs, hl, -⟩ := hf.log
  obtain ⟨x, hx⟩ := hconf.cons
  rw [hl, ran_append, hx] at hran
  refine ⟨evs, hl, ?_⟩
  have hevs : ran evs = _ :: _ :: x :: _ := List.append_cancel_right hran
  rw [Installs, hevs]
  simp

theorem safe_buildQtdemo : Safe T Alone (fun _ => True) (fun _ v => ∃ evs, v.log = evs ++ w.log ∧
      (.mark (.returned "do_build_qtdemo") ∈ evs ∨ ∀ d ∈ demos, Installs E.toConfig d.1 evs)) (fun _ _ => True)
    (buildQtdemo E.toConfig) w := by
  refine safe_bind (safe_world.2 ⟨trivial, ?_⟩)
  split
  · exact safe_note.2 ⟨trivial, trivial, [_], rfl, .inl (by simp)⟩
  -- the demos that are not still to be built are installed
  refine (safe_forEach (fun xs v => ∃ evs, v.log = evs ++ w.log ∧ ∀ d ∈ demos, d ∈ xs ∨ Installs E.toConfig d.1 evs)
    (fun xs v h v' hr => by rw [alone_iff.1 hr]; exact ⟨trivial, h⟩) ?_ demos ⟨[], rfl, fun _ => .inl⟩).mono
    (fun _ h => h) (fun _ v h => ?_) fun _ _ h => h
  · rintro d xs v ⟨evs, hl, hd⟩
    refine safe_bind (safe_world.2 ⟨trivial, safe_installs.mono (fun _ h => h) ?_ fun _ _ h => h⟩)
    rintro _ v' ⟨evs', hl', hi⟩
    refine ⟨evs' ++ evs, by rw [hl', hl, List.append_assoc], fun d' hd' => ?_⟩
    rcases hd d' hd' with hm | hm
    · rcases List.mem_cons.1 hm with rfl | hm
      · exact .inr hi.append_left
      · exact .inl hm
    · exact .inr hm.append
  · obtain ⟨evs, hl, hd⟩ := h
    exact ⟨evs, hl, .inr fun d hm => (hd d hm).resolve_left (by simp)⟩

theorem safe_buildVendor : Safe T Alone (fun _ => True) (fun _ v => ∃ evs, v.log = evs ++ w.log ∧
      (.mark (.returned "do_build_vendor") ∈ evs ∨
        (w.fs.isDir (E.repoDir ++ [project]) = true → Installs E.toConfig project evs))) (fun _ _ => True)
    (buildVendor E.toConfig project) w := by
  refine safe_bind (safe_world.2 ⟨trivial, ?_⟩)
  split
  · exact safe_note.2 ⟨trivial, trivial, [_], rfl, .inl (by simp)⟩
  split
  · exact safe_installs.mono (fun _ h => h) (fun _ _ ⟨evs, hl, hi⟩ => ⟨evs, hl, .inr fun _ => hi⟩) fun _ _ h => h
  · rename_i hdir
    exact safe_note.2 ⟨trivial, trivial, [_], rfl, .inr fun h => absurd h hdir⟩

/-- Nothing that is written or cleaned is the project's directory under `REPO_DIR`, or inside it, or around it. -/
structure RepoApart (E : Env) (project : String) : Prop where
  outside : ∀ r ∈ E.outside, Apart r (E.repoDir ++ [project])
  build : Apart E.buildDir (E.repoDir ++ [project])
  package : ¬ E.repoDir ++ [project] <+: E.packageDir
  cleaned : Apart (E.currentDir ++ ["build"]) (E.repoDir ++ [project])

theorem RepoApart.stepArea_off {s : Stage} (h : RepoApart E project) : (E.stepArea s).Off (E.repoDir ++ [project]) := by
  refine ⟨fun p hp => ?_, fun p hp => ?_⟩
  · rcases hp with hp | hp
    · obtain ⟨r, hr, hrp⟩ := Fs.covers_iff.1 hp
      exact (h.outside r hr).below hrp
    · exact h.build.below ((List.prefix_append _ _).trans hp)
  · rcases hp with rfl | rfl
    · exact h.build.2
    · exact h.package

theorem safe_vendorSh (hE : RepoApart E project) : Safe T Alone (fun _ => True) (fun _ v =>
      ∃ evs, v.log = evs ++ w.log ∧ Serves E.toConfig project (w.fs.isDir (E.repoDir ++ [project]) = true) evs)
    (fun _ _ => True) (vendorSh E.toConfig project) w := by
  have hall : (buildQtdemo E.toConfig).All (Cmd.Within (E.stepArea .vendor)) fun _ => True := by
    refine stepArea_of_body (Prog.All.bind (Prog.all_world.2 trivial) fun v => ?_)
    refine Prog.all_ite (fun _ => Prog.all_note.2 trivial) fun _ => Prog.all_forEach fun d _ => ?_
    exact Prog.All.bind (Prog.all_world.2 trivial) fun v => all_buildProject fun _ _ => trivial
  refine safe_bind ((safe_buildQtdemo.and (safe_frame hall hE.stepArea_off)).mono (fun _ _ => trivial) ?_
    fun _ _ _ => trivial)
  rintro _ u ⟨⟨evs, hl, hdemos⟩, hf⟩
  refine safe_buildVendor.mono (fun _ h => h) ?_ fun _ _ h => h
  rintro _ v ⟨evs', hl', hvendor⟩
  rw [Fs.isDir, hf.same _ (List.prefix_refl _)] at hvendor
  refine ⟨evs' ++ evs, by rw [hl', hl, List.append_assoc], ?_, ?_⟩
  · exact hdemos.imp (List.mem_append_right _) fun h d hd => (h d hd).append
  · exact hvendor.imp (List.mem_append_left _) fun h ht => (h ht).append_left

end body

/-! ### The stage -/

section stage
variable {T : Tools} {E : Env} {w v v' : World Label} {project : String} {net : Net} {reset : Bool} {P : Platform E}

/-- Nothing happened to the vendor stage, but that it may have been passed over. -/
def Aside (E : Env) (w v : World Label) : Prop := Framed (E.stageDir .vendor) (fun m => m ≠ .started .vendor) w v

/-- Between `w` and `v` a body of the vendor stage ran to its end, with these events, and none was started since. -/
def Ran (w v : World Label) (body : Log) : Prop :=
  ∃ a c, v.log = a ++ .mark (.ended .vendor) :: body ++ .mark (.started .vendor) :: c ∧ w.log <:+ c ∧
    .mark (.started .vendor) ∉ a ∧ .mark (.started .vendor) ∉ body

/-- A body ran between `w` and `v`, and the project was there if it is under `REPO_DIR` in `w`. -/
def Bodied (E : Env) (project : String) (w v : World Label) : Prop :=
  ∃ body, Ran w v body ∧ Serves E.toConfig project (w.fs.isDir (E.repoDir ++ [project]) = true) body

theorem Aside.stamped (h : Aside E w v) :
    stamped E.toConfig v.fs .vendor = stamped E.toConfig w.fs .vendor := by
  rw [BuildQt5.stamped, BuildQt5.stamped, Fs.isDir, Fs.isDir, Fs.isFile, Fs.isFile, h.same _ (List.prefix_refl _),
    h.same _ Env.stageDir_lock]

theorem Ran.append {body evs : Log} (h : Ran w v body) (hl : v'.log = evs ++ v.log)
    (he : .mark (.started .vendor) ∉ evs) : Ran w v' body := by
  obtain ⟨a, c, hv, hc, ha, hb⟩ := h
  exact ⟨evs ++ a, c, by rw [hl, hv]; simp, hc, by simp [he, ha], hb⟩

theorem Aside.log (h : Aside E w v) : ∃ evs, v.log = evs ++ w.log ∧ .mark (.started .vendor) ∉ evs := by
  obtain ⟨evs, hl, he⟩ := Framed.log h
  exact ⟨evs, hl, fun hm => he _ hm rfl⟩

theorem Bodied.aside (h : Bodied E project w v) (ha : Aside E v v') : Bodied E project w v' := by
  obtain ⟨body, hran, hs⟩ := h
  obtain ⟨evs, hl, he⟩ := ha.log
  exact ⟨body, hran.append hl he, hs⟩

theorem Locked.not_stamped (h : Locked E .vendor w) : stamped E.toConfig w.fs .vendor = false := by
  simp [stamped, h.lock]

theorem safe_unlock_stamped (h : Locked E .vendor w) : Safe T Alone (fun _ => True)
    (fun _ v => stamped E.toConfig v.fs .vendor = true ∧ ∃ evs, v.log = evs ++ w.log ∧ .mark (.started .vendor) ∉ evs)
    (fun _ _ => False) (unlock E.toConfig .vendor) w := by
  obtain ⟨c, hc⟩ := Fs.isFile_iff.1 h.lock
  have hdir : w.fs.get (E.stageDir .vendor) = some .dir := Fs.get_append ["lock"] (by
    show w.fs.get (E.lock .vendor) ≠ none
    simp [hc]) (by simp)
  refine safe_bind (safe_world.2 ⟨trivial, ?_⟩)
  rw [ifThen, if_pos h.lock, safe_rmF, if_pos h.lock, Cmd.events, if_pos h.lock]
  refine ⟨trivial, trivial, stamped_iff.2 ⟨?_, ?_⟩, [.removed (E.lock .vendor)], rfl, by simp⟩
  · show (w.fs.erase (E.lock .vendor)).get _ = _
    rw [Fs.get_erase lock_ne_nil, if_neg fun h => lock_ne_of_above (List.prefix_refl _) h.1]
    exact hdir
  · show (w.fs.erase (E.lock .vendor)).isFile _ = _
    rw [Fs.isFile, Fs.get_erase_file hc, if_pos rfl]

/-- The body under its lock: it gives up with the lock in place, or the stage is stamped. -/
theorem safe_lockedVendor (hE : RepoApart E project) (h : Locked E .vendor w) : Safe T Alone (fun _ => True)
    (fun _ v => stamped E.toConfig v.fs .vendor = true ∧ Bodied E project w v)
    (fun n v => n ≠ 0 ∧ stamped E.toConfig v.fs .vendor = false)
    (lockedBody E.toConfig .vendor (vendorSh E.toConfig project)) w := by
  have hstart : Locked E .vendor ⟨w.fs, .mark (.started .vendor) :: w.log⟩ :=
    ⟨h.clear, h.lock, h.skips.cons (by simp)⟩
  have hall : (vendorSh E.toConfig project).All (Cmd.Within (E.bodyArea .vendor)) fun m => m.stage = none :=
    all_vendorSh fun _ h => h
  have hM : ∀ fs, ¬ (Label.skipped .vendor fs).stage = none := by simp [Label.stage]
  refine safe_bind (safe_note.2 ⟨trivial, trivial, safe_bind ?_⟩)
  refine ((safe_vendorSh hE).and (safe_frame hall Env.bodyArea_off)).mono (fun _ _ => trivial) ?_
    fun n v hv => ⟨hv.2.1, (hstart.framed hM hv.2.2).not_stamped⟩
  rintro _ v ⟨⟨body, hl, hserves⟩, hf⟩
  have hbody : .mark (.started .vendor) ∉ body := by
    obtain ⟨evs, hl', he⟩ := hf.log
    obtain rfl : body = evs := List.append_cancel_right (hl.symm.trans hl')
    intro hm
    cases he _ hm
  have hv := hstart.framed hM hf
  have hended : Locked E .vendor ⟨v.fs, .mark (.ended .vendor) :: v.log⟩ := ⟨hv.clear, hv.lock, hv.skips.cons (by simp)⟩
  refine safe_bind (safe_note.2 ⟨trivial, trivial, (safe_unlock_stamped hended).mono (fun _ h => h) ?_
    fun _ _ h => h.elim⟩)
  rintro _ u ⟨hst, evs, hlu, he⟩
  have hran : Ran w ⟨v.fs, .mark (.ended .vendor) :: v.log⟩ body :=
    ⟨[], w.log, by simp [hl], List.suffix_refl _, by simp, hbody⟩
  exact ⟨hst, body, hran.append hlu he, hserves⟩

/-- Nothing but what is outside the project's directory has changed from `w` to `v`. -/
theorem Bodied.of_framed (hf : Framed (E.repoDir ++ [project]) (fun _ => True) w v) (h : Bodied E project v v') :
    Bodied E project w v' := by
  obtain ⟨body, ⟨a, c, hl, hc, hb⟩, hs⟩ := h
  obtain ⟨evs, hl', -⟩ := hf.log
  rw [Fs.isDir, hf.same _ (List.prefix_refl _)] at hs
  exact ⟨body, ⟨a, c, hl, (hl' ▸ List.suffix_append _ _ : w.log <:+ v.log).trans hc, hb⟩, hs⟩

theorem safe_enterVendor (hE : RepoApart E project) (h : Sound E .vendor w) : Safe T Alone (fun _ => True)
    (fun _ v => stamped E.toConfig v.fs .vendor = true ∧ Bodied E project w v)
    (fun n v => n ≠ 0 ∧ stamped E.toConfig v.fs .vendor = false)
    (shellEnter E.toConfig .vendor true (some (vendorSh E.toConfig project))) w := by
  have hrepo : ∀ {p : Script Unit} (v : World Label), p.All (Cmd.Within (E.stepArea .vendor)) (fun _ => True) →
      Safe T Alone (fun _ => True) (fun _ => Framed (E.repoDir ++ [project]) (fun _ => True) v) (fun _ _ => True) p v :=
    fun v hp => (safe_frame hp hE.stepArea_off).mono (fun _ _ => trivial) (fun _ _ h => h) fun _ _ _ => trivial
  have hM : ∀ fs, ¬ (Label.skipped .vendor fs).stage = none := by simp [Label.stage]
  have hmade : Safe T Alone (fun _ => True) (fun _ => Made E .vendor) (fun _ _ => False)
      (run_ (.mkdirP (E.stageDir .vendor))) w := safe_mkdirP.2 ⟨trivial, trivial, h.made⟩
  simp only [shellEnter]
  refine safe_bind ((hmade.and (hrepo w (Prog.all_run_.2 (.inl (.inr (List.prefix_refl _)))))).mono
    (fun _ _ => trivial) ?_ fun _ _ h => h.1.elim)
  rintro _ v₁ ⟨h₁, hf₁⟩
  have hlocked : Safe T Alone (fun _ => True) (fun _ => Locked E .vendor) (fun _ _ => False)
      (run_ (.write (E.lock .vendor) "1")) v₁ := safe_write trivial fun n _ => ⟨trivial, h₁.locked⟩
  have hlock : (E.stepArea .vendor).mem (E.lock .vendor) := .inr Env.stageDir_lock
  refine safe_bind ((hlocked.and (hrepo v₁ (Prog.all_run_.2 (by simpa [Cmd.Within, Cmd.roots] using hlock)))).mono
    (fun _ _ => trivial) ?_ fun _ _ h => h.1.elim)
  rintro _ v₂ ⟨h₂, hf₂⟩
  refine safe_bind (((safe_frame (all_stageDirs (M := fun m => m.stage = none)) Env.bodyArea_off).and
    (hrepo v₂ (stepArea_of_body all_stageDirs))).mono (fun _ _ => trivial) ?_ fun n v hv => ⟨hv.1.1, (h₂.framed hM hv.1.2).not_stamped⟩)
  rintro _ v₃ ⟨hf, hf₃⟩
  exact (safe_lockedVendor hE (h₂.framed hM hf)).mono (fun _ h => h)
    (fun _ v hv => ⟨hv.1, hv.2.of_framed (hf₁.trans (hf₂.trans hf₃))⟩) fun _ _ h => h

/-! ### The steps of an invocation -/

/-- Neither the vendor stage nor the project has changed. -/
structure Still (E : Env) (project : String) (w v : World Label) : Prop where
  stage : Framed (E.stageDir .vendor) (NotOf .vendor) w v
  repo : Framed (E.repoDir ++ [project]) (fun _ => True) w v

theorem Still.refl : Still E project w w := ⟨.refl, .refl⟩

theorem Still.trans (h : Still E project w v) (h' : Still E project v v') : Still E project w v' :=
  ⟨h.stage.trans h'.stage, h.repo.trans h'.repo⟩

theorem Still.mark {m : Label} (hm : m.stage = none) : Still E project w ⟨w.fs, .mark m :: w.log⟩ :=
  ⟨.mark (notOf_of_none hm), .mark trivial⟩

theorem Still.aside (h : Still E project w v) : Aside E w v := by
  obtain ⟨evs, hl, he⟩ := h.stage.log
  refine ⟨h.stage.same, h.stage.above, evs, hl, fun e hm => ?_⟩
  have := he e hm
  cases e with
  | mark m =>
    rintro rfl
    exact this rfl
  | _ => exact this

theorem safe_doVendor (hE : RepoApart E project) (hP : P.scripts net .vendor = some (vendorSh E.toConfig project))
    (h : Sound E .vendor w) : Safe T Alone (fun _ => True)
      (fun _ v => stamped E.toConfig v.fs .vendor = true ∧ (Aside E w v ∨ Bodied E project w v))
      (fun n v => n ≠ 0 ∧ stamped E.toConfig v.fs .vendor = false)
      (doVendor E.toConfig reset (P.scripts net)) w := by
  have hsay : Still E project w ⟨w.fs, .mark (.say .function (upper "vendor")) :: w.log⟩ := .mark rfl
  refine safe_bind (safe_note.2 ⟨trivial, trivial, safe_bind (safe_mkdirP.2 ⟨trivial, trivial, ?_⟩)⟩)
  have hmk : Still E project ⟨w.fs, .mark (.say .function (upper "vendor")) :: w.log⟩
      ⟨w.fs.mkdirP E.buildDir, (Cmd.mkdirP E.buildDir).events w.fs 0 ++
        .mark (.say .function (upper "vendor")) :: w.log⟩ :=
    ⟨.fin (T := T) (c := .mkdirP E.buildDir) Env.not_stageDir_buildDir ⟨⟨rfl, rfl⟩, rfl⟩,
      .fin (T := T) (c := .mkdirP E.buildDir) hE.build.2 ⟨⟨rfl, rfl⟩, rfl⟩⟩
  have hstill := hsay.trans hmk
  generalize (⟨w.fs.mkdirP E.buildDir, (Cmd.mkdirP E.buildDir).events w.fs 0 ++
    .mark (.say .function (upper "vendor")) :: w.log⟩ : World Label) = v at hstill ⊢
  refine safe_bind (safe_world.2 ⟨trivial, ?_⟩)
  split
  · rename_i hst
    rw [Bool.and_eq_true] at hst
    refine safe_bind (safe_note.2 ⟨trivial, trivial, safe_note.2 ⟨trivial, trivial, hst.2, .inl ?_⟩⟩)
    exact hstill.aside.trans ((Framed.mark (by simp)).trans (.mark (by simp)))
  · rw [hP]
    exact (safe_enterVendor hE (h.framed hstill.stage)).mono (fun _ h => h)
      (fun _ v hv => ⟨hv.1, .inr (hv.2.of_framed hstill.repo)⟩) fun _ _ h => h

/-- `p` is about another stage. -/
def Passes (T : Tools) (E : Env) (project : String) (p : Script Unit) : Prop :=
  ∀ w, Safe T Alone (fun _ => True) (fun _ => Still E project w) (fun n v => n ≠ 0 ∧ Still E project w v) p w

theorem Passes.of_all {s : Stage} {p : Script Unit} (hE : RepoApart E project) (hs : s ≠ .vendor)
    (hp : p.All (Cmd.Within (E.stepArea s)) (NotOf .vendor)) : Passes T E project p := fun _ =>
  ((safe_frame hp (Env.stepArea_off hs)).and
    (safe_frame (hp.mono (fun _ h => h) fun _ _ => trivial) hE.stepArea_off)).mono (fun _ _ => trivial)
      (fun _ _ h => ⟨h.1, h.2⟩) fun _ _ h => ⟨h.1.1, h.1.2, h.2.2⟩

theorem Passes.bind {p : Script Unit} {f : Unit → Script Unit} (hp : Passes T E project p)
    (hf : Passes T E project (f ())) : Passes T E project (p >>= f) := fun w =>
  safe_bind ((hp w).mono (fun _ h => h) (fun _ v hv => (hf v).mono (fun _ h => h) (fun _ _ h => hv.trans h)
    fun _ _ h => ⟨h.1, hv.trans h.2⟩) fun _ _ h => h)

theorem passes_printLog {kind : LogKind} {text : String} (hE : RepoApart E project) :
    Passes T E project (printLog kind text) :=
  .of_all (s := .qt5) hE (by decide) (all_printLog fun _ => notOf_of_none)

theorem passes_shellBuild {s : Stage} {normal : Bool} (hE : RepoApart E project) (hs : s ≠ .vendor) :
    Passes T E project (shellBuild E.toConfig reset s normal (P.scripts net s)) :=
  .of_all hE hs (all_shellBuild (fun _ => notOf_of_or hs) (P.proper net _))

theorem passes_doToolchain (hE : RepoApart E project) :
    Passes T E project (doToolchain E.toConfig reset (P.scripts net)) :=
  (passes_printLog hE).bind (passes_shellBuild hE (by decide))

theorem passes_doThirdparty (hE : RepoApart E project) :
    Passes T E project (doThirdparty T E.toConfig net reset (P.scripts net)) := by
  have hpkg : (installPkgconfig E.toConfig net).All (Cmd.Within (E.stepArea .cmake)) (NotOf .vendor) :=
    all_installPkgconfig (fun _ => notOf_of_none) fun _ => .inl
  have hcmake : (installCmake T E.toConfig net reset).All (Cmd.Within (E.stepArea .cmake)) (NotOf .vendor) :=
    all_installCmake fun _ => notOf_of_or (by decide)
  exact (passes_printLog hE).bind ((Passes.of_all hE (by decide) hpkg).bind
    ((Passes.of_all hE (by decide) hcmake).bind (passes_shellBuild hE (by decide))))

theorem passes_qt5 {p : Script Unit} {title : String} (hE : RepoApart E project)
    (hp : p.All (Cmd.Within (E.stepArea .qt5)) (NotOf .vendor)) :
    Passes T E project (printLog .function title >>= fun _ => p) :=
  (passes_printLog hE).bind (.of_all hE (by decide) hp)

theorem passes_invokeFetch (hE : RepoApart E project) : Passes T E project (invokeFetch T E.toConfig net reset) :=
  passes_qt5 hE (all_doFetch fun _ => notOf_of_or (by decide))

theorem passes_invokeConfigure (hE : RepoApart E project) : Passes T E project (invokeConfigure E.toConfig) :=
  passes_qt5 hE (stepArea_of_body (all_doConfigure fun _ => notOf_of_none))

theorem passes_invokeCompile (hE : RepoApart E project) : Passes T E project (invokeCompile E.toConfig reset) :=
  passes_qt5 hE (stepArea_of_body (all_doCompile fun _ => notOf_of_none))

theorem passes_invokeDeploy (hE : RepoApart E project) : Passes T E project (invokeDeploy T E.toConfig) :=
  passes_qt5 hE (stepArea_of_body (all_doDeploy fun _ => notOf_of_none))

/-! ### One invocation -/

/-- What an invocation that is no `clean` comes to: nothing for the vendor stage, a body that ended, or a stage
without stamp. -/
def Turn (E : Env) (project : String) (w v : World Label) : Prop :=
  Aside E w v ∨ Bodied E project w v ∨ stamped E.toConfig v.fs .vendor = false

theorem Passes.turn {p : Script Unit} {Q : World Label → Prop} (hp : Passes T E project p)
    (hQ : ∀ v, Aside E w v → Q v) : Safe T Alone (fun _ => True) (fun _ v => (Aside E w v ∨ Bodied E project w v) ∧ Q v)
      (fun n v => n ≠ 0 ∧ Turn E project w v) p w :=
  (hp w).mono (fun _ h => h) (fun _ v h => ⟨.inl h.aside, hQ v h.aside⟩) fun _ _ h => ⟨h.1, .inl h.2.aside⟩

theorem Passes.before {p : Script Unit} {f : Unit → Script Unit} {Q : World Label → Prop} (hp : Passes T E project p)
    (hv : Still E project w v) (hf : ∀ u, Still E project w u → Safe T Alone (fun _ => True) (fun _ => Q)
      (fun n u => n ≠ 0 ∧ Turn E project w u) (f ()) u) :
    Safe T Alone (fun _ => True) (fun _ => Q) (fun n u => n ≠ 0 ∧ Turn E project w u) (p >>= f) v :=
  safe_bind ((hp v).mono (fun _ h => h) (fun _ u hu => hf u (hv.trans hu))
    fun _ _ h => ⟨h.1, .inl (hv.trans h.2).aside⟩)

section vendor
variable (hE : RepoApart E project) (hP : P.scripts net .vendor = some (vendorSh E.toConfig project))
include hE hP

/-- The vendor step, after steps that are about other stages. -/
theorem safe_vendor_turn (hs : Sound E .vendor w) (hv : Still E project w v) : Safe T Alone (fun _ => True)
    (fun _ u => (Aside E w u ∨ Bodied E project w u) ∧ stamped E.toConfig u.fs .vendor = true)
    (fun n u => n ≠ 0 ∧ Turn E project w u) (doVendor E.toConfig reset (P.scripts net)) v := by
  refine (safe_doVendor hE hP (hs.framed hv.stage)).mono (fun _ h => h) (fun _ u hu => ⟨?_, hu.1⟩)
    fun _ _ h => ⟨h.1, .inr (.inr h.2)⟩
  exact hu.2.imp (fun h => hv.aside.trans h) fun h => h.of_framed hv.repo

theorem safe_dispatch_turn {t : BuildType} (ht : t ≠ .clean ∧ t ≠ .cleanall) (hs : Sound E .vendor w) :
    Safe T Alone (fun _ => True)
      (fun _ v => (Aside E w v ∨ Bodied E project w v) ∧ (t = .all → stamped E.toConfig v.fs .vendor = true))
      (fun n v => n ≠ 0 ∧ Turn E project w v) (dispatch T E.toConfig net (P.scripts net) t) w := by
  cases t with
  | all =>
    have hlast : ∀ v, Still E project w v → Safe T Alone (fun _ => True)
        (fun _ u => (Aside E w u ∨ Bodied E project w u) ∧ (BuildType.all = .all → stamped E.toConfig u.fs .vendor = true))
        (fun n u => n ≠ 0 ∧ Turn E project w u) (do
          doVendor E.toConfig false (P.scripts net)
          invokeDeploy T E.toConfig) v := by
      intro v hv
      refine safe_bind ((safe_vendor_turn hE hP hs hv).mono (fun _ h => h) (fun _ u hu => ?_) fun _ _ h => h)
      have hturn : ∀ u', Still E project u u' → Aside E w u' ∨ Bodied E project w u' := fun u' h =>
        hu.1.imp (fun h' => h'.trans h.aside) fun h' => h'.aside h.aside
      refine (passes_invokeDeploy hE u).mono (fun _ h => h) (fun _ u' h => ⟨hturn u' h, fun _ => ?_⟩)
        fun _ u' h => ⟨h.1, (hturn u' h.2).imp_right .inl⟩
      rw [h.aside.stamped, hu.2]
    refine (passes_doToolchain hE).before .refl fun v hv => (passes_doThirdparty hE).before hv fun v hv => ?_
    refine (passes_invokeFetch hE).before hv fun v hv => (passes_invokeConfigure hE).before hv fun v hv => ?_
    exact (passes_invokeCompile hE).before hv hlast
  | vendor => exact (safe_vendor_turn hE hP hs .refl).mono (fun _ h => h) (fun _ _ h => ⟨h.1, fun _ => h.2⟩) fun _ _ h => h
  | toolchain => exact (passes_doToolchain hE).turn (by simp)
  | thirdparty => exact (passes_doThirdparty hE).turn (by simp)
  | fetch => exact (passes_invokeFetch hE).turn (by simp)
  | configure => exact (passes_invokeConfigure hE).turn (by simp)
  | compile => exact (passes_invokeCompile hE).turn (by simp)
  | deploy => exact (passes_invokeDeploy hE).turn (by simp)
  | clean => exact absurd rfl ht.1
  | cleanall => exact absurd rfl ht.2

theorem safe_main_turn {t : BuildType} (ht : t ≠ .clean ∧ t ≠ .cleanall) (hs : Sound E .vendor w) :
    Safe T Alone (fun _ => True) (fun _ _ => False)
      (fun n v => Turn E project w v ∧ (t = .all → n = 0 → stamped E.toConfig v.fs .vendor = true))
      (main T E.toConfig net (P.scripts net) t) w := by
  have hinv : Still E project w ⟨w.fs, .mark (.invoked t) :: w.log⟩ := .mark rfl
  refine safe_bind (safe_note.2 ⟨trivial, trivial, safe_bind ?_⟩)
  refine (safe_dispatch_turn hE hP ht (hs.framed hinv.stage)).mono (fun _ h => h) (fun _ v hv => ?_) fun n v hv => ?_
  · have hsay : Aside E v ⟨v.fs, .mark (.say .function (upper "all finished")) :: v.log⟩ := .mark (by simp)
    refine safe_bind (safe_note.2 ⟨trivial, trivial, safe_exit.2 ⟨trivial, ?_, fun ht _ => hv.2 ht⟩⟩)
    rcases hv.1 with h | h
    · exact .inl ((hinv.aside.trans h).trans hsay)
    · exact .inr (.inl ((h.of_framed hinv.repo).aside hsay))
  · refine ⟨?_, fun _ hn => absurd hn hv.1⟩
    rcases hv.2 with h | h | h
    · exact .inl (hinv.aside.trans h)
    · exact .inr (.inl (h.of_framed hinv.repo))
    · exact .inr (.inr h)

end vendor

/-! ### Histories -/

theorem all_dispatch_off {t : BuildType} (hE : RepoApart E project) : (dispatch T E.toConfig net (P.scripts net) t).All
    (fun c => c.Off (E.repoDir ++ [project])) fun _ => True := by
  open Prog in
  have hoff : ∀ {s : Stage} {p : Script Unit}, p.All (Cmd.Within (E.stepArea s)) (fun _ => True) →
      p.All (fun c => c.Off (E.repoDir ++ [project])) fun _ => True := fun hp =>
    hp.mono (fun _ h => h.off hE.stepArea_off) fun _ h => h
  have hsay : ∀ {kind text}, (printLog kind text).All (fun c => c.Off (E.repoDir ++ [project])) fun _ => True :=
    all_printLog fun _ _ => trivial
  have hshell : ∀ {reset s normal}, (shellBuild E.toConfig reset s normal (P.scripts net s)).All
      (fun c => c.Off (E.repoDir ++ [project])) fun _ => True := hoff (all_shellBuild (fun _ _ => trivial) (P.proper net _))
  have hthird : ∀ {reset}, (doThirdparty T E.toConfig net reset (P.scripts net)).All
      (fun c => c.Off (E.repoDir ++ [project])) fun _ => True := by
    intro reset
    refine All.bind hsay fun _ => All.bind (hoff (s := .cmake) (all_installPkgconfig (fun _ _ => trivial) fun _ => .inl))
      fun _ => All.bind (hoff (all_installCmake fun _ _ => trivial)) fun _ => hshell
  have hfetch : ∀ {reset}, (invokeFetch T E.toConfig net reset).All
      (fun c => c.Off (E.repoDir ++ [project])) fun _ => True :=
    All.bind hsay fun _ => hoff (all_doFetch fun _ _ => trivial)
  have hconf : (invokeConfigure E.toConfig).All (fun c => c.Off (E.repoDir ++ [project])) fun _ => True :=
    All.bind hsay fun _ => hoff (stepArea_of_body (all_doConfigure fun _ _ => trivial))
  have hcomp : ∀ {reset}, (invokeCompile E.toConfig reset).All (fun c => c.Off (E.repoDir ++ [project])) fun _ => True :=
    All.bind hsay fun _ => hoff (stepArea_of_body (all_doCompile fun _ _ => trivial))
  have hdep : (invokeDeploy T E.toConfig).All (fun c => c.Off (E.repoDir ++ [project])) fun _ => True :=
    All.bind hsay fun _ => hoff (stepArea_of_body (s := .qt5) (all_doDeploy fun _ _ => trivial))
  have hmk : (run_ (.mkdirP E.buildDir) : Script Unit).All (fun c => c.Off (E.repoDir ++ [project])) fun _ => True :=
    all_run_.2 hE.build.2
  cases t with
  | all =>
    refine All.bind (All.bind hsay fun _ => hshell) fun _ => All.bind hthird fun _ => All.bind hfetch fun _ => ?_
    refine All.bind hconf fun _ => All.bind hcomp fun _ => All.bind (All.bind hsay fun _ => hshell) fun _ => hdep
  | toolchain => exact All.bind hsay fun _ => hshell
  | thirdparty => exact hthird
  | fetch => exact hfetch
  | configure => exact hconf
  | compile => exact hcomp
  | vendor => exact All.bind hsay fun _ => hshell
  | deploy => exact hdep
  | clean =>
    refine All.bind hmk fun _ => All.bind hsay fun _ => All.bind (all_world.2 trivial) fun w => ?_
    refine all_forEach fun name _ => all_ite (fun _ => trivial) fun _ => All.bind hsay fun _ => ?_
    refine All.bind (all_run.2 fun r hr => ?_) fun _ => all_orError fun _ _ => trivial
    rw [List.mem_singleton.1 hr]
    exact hE.build.below (List.prefix_append _ _)
  | cleanall =>
    refine All.bind hmk fun _ => All.bind hsay fun _ => All.bind (all_world.2 trivial) fun w => all_run_.2 fun r hr => ?_
    obtain ⟨x, -, rfl⟩ := List.mem_map.1 hr
    exact hE.cleaned.below ⟨[x], by simp⟩

/-- The project's directory under `REPO_DIR` is left alone by every invocation. -/
theorem safe_main_repo {t : BuildType} (hE : RepoApart E project) : Safe T Alone (fun _ => True) (fun _ _ => False)
    (fun _ v => v.fs.get (E.repoDir ++ [project]) = w.fs.get (E.repoDir ++ [project]))
    (main T E.toConfig net (P.scripts net) t) w := by
  refine safe_bind (safe_note.2 ⟨trivial, trivial, safe_bind ?_⟩)
  refine (safe_off (all_dispatch_off hE)).mono (fun _ _ => trivial) (fun _ v hv => ?_)
    fun _ v hv => hv.2.same _ (List.prefix_refl _)
  exact safe_bind (safe_note.2 ⟨trivial, trivial, safe_exit.2 ⟨trivial, hv.same _ (List.prefix_refl _)⟩⟩)

/-! ### Histories -/

/-- The invocation has taken something of the vendor stage or of the SDK away, and the stage still counts as done. -/
def Plundered (E : Env) (w w' : World Label) : Prop :=
  stamped E.toConfig w'.fs .vendor = true ∧ ∃ evs, w'.log = evs ++ w.log ∧
    ∃ r, .removed r ∈ evs ∧ (E.stageDir .vendor <+: r ∨ E.sdkDir <+: r)

/-- One invocation of a history, which completes or aborts; no `clean` plunders the vendor stage. -/
def VendorRun (T : Tools) (P : Platform E) (w w' : World Label) : Prop :=
  ∃ t n, Invoked T P t w (.exit n) w' ∧ (t = .clean ∨ t = .cleanall → ¬ Plundered E w w')

/-- One invocation that starts no body of the vendor stage, and removes nothing of it or of the SDK if it is a
`clean`. -/
def Sparing (T : Tools) (P : Platform E) (w w' : World Label) : Prop :=
  ∃ t n, Invoked T P t w (.exit n) w' ∧ ∃ evs, w'.log = evs ++ w.log ∧ .mark (.started .vendor) ∉ evs ∧
    (t = .clean ∨ t = .cleanall → ∀ r, .removed r ∈ evs → ¬ E.stageDir .vendor <+: r ∧ ¬ E.sdkDir <+: r)

/-- In one invocation a body of the vendor stage ran to its end, and what came after has spared its products. -/
def Provided (T : Tools) (P : Platform E) (project : String) (w₀ w : World Label) : Prop :=
  ∃ w₁ w₂ t n, ReflTransGen (VendorRun T P) w₀ w₁ ∧ Invoked T P t w₁ (.exit n) w₂ ∧ Bodied E project w₁ w₂ ∧
    ReflTransGen (Sparing T P) w₂ w

theorem Provided.spared {w₀ w' : World Label} (h : Provided T P project w₀ w) (hr : Sparing T P w w') :
    Provided T P project w₀ w' := by
  obtain ⟨w₁, w₂, t, n, hist, hrun, hbody, hspare⟩ := h
  exact ⟨w₁, w₂, t, n, hist, hrun, hbody, hspare.tail hr⟩

/-- What holds between the invocations of a history. -/
structure Kempt (T : Tools) (P : Platform E) (project : String) (w₀ w : World Label) : Prop where
  past : ReflTransGen (VendorRun T P) w₀ w
  sound : Sound E .vendor w
  provided : stamped E.toConfig w.fs .vendor = true → Provided T P project w₀ w

theorem Kempt.clean {w₀ w' : World Label} {t : BuildType} {n : Nat} (h : Kempt T P project w₀ w)
    (ht : t = .clean ∨ t = .cleanall) (hr : Invoked T P t w (.exit n) w') (hno : ¬ Plundered E w w') :
    Kempt T P project w₀ w' := by
  have hrun := hr
  obtain ⟨net, hr⟩ := hr
  have hthin : Thinned (E.stageDir .vendor) (NotOf .vendor) w w' := ((safe_clean ht).reach hr).of_exit
  have htorn : ¬ Torn E .vendor w w' := fun ⟨hst, evs, hl, r, hm, hpre⟩ => hno ⟨hst, evs, hl, r, hm, .inl hpre⟩
  refine ⟨h.past.tail ⟨t, n, hrun, fun _ => hno⟩, h.sound.thinned hthin htorn, fun hst => ?_⟩
  obtain ⟨evs, hl, hg, he⟩ := hthin.log
  have hkept : ∀ r, .removed r ∈ evs → ¬ E.stageDir .vendor <+: r ∧ ¬ E.sdkDir <+: r := fun r hm =>
    ⟨fun hpre => hno ⟨hst, evs, hl, r, hm, .inl hpre⟩, fun hpre => hno ⟨hst, evs, hl, r, hm, .inr hpre⟩⟩
  have hsame : ∀ r, E.stageDir .vendor <+: r → w'.fs.get r = w.fs.get r := fun r hpre =>
    (hg r hpre).resolve_right fun h0 => (hkept r h0.2).1 hpre
  have hstart : .mark (.started .vendor) ∉ evs := fun hm => by
    rcases he _ hm with h0 | ⟨r, h0⟩
    · exact h0 rfl
    · cases h0
  rw [stamped_iff, hsame _ (List.prefix_refl _), Fs.isFile, hsame _ Env.stageDir_lock] at hst
  exact (h.provided (stamped_iff.2 hst)).spared ⟨t, n, hrun, evs, hl, hstart, fun _ => hkept⟩

theorem Kempt.step {w₀ w' : World Label} (hE : RepoApart E project)
    (hP : ∀ net, P.scripts net .vendor = some (vendorSh E.toConfig project)) (h : Kempt T P project w₀ w)
    (hr : VendorRun T P w w') : Kempt T P project w₀ w' := by
  have hpast := h.past.tail hr
  obtain ⟨t, n, hrun, hclean⟩ := hr
  by_cases ht : t = .clean ∨ t = .cleanall
  · exact h.clean ht hrun (hclean ht)
  rw [not_or] at ht
  obtain ⟨net, hr⟩ := hrun
  have hsound : Sound E .vendor w' := ((keeps_main (by decide) ht w h.sound).reach hr).of_exit
  refine ⟨hpast, hsound, fun hst => ?_⟩
  rcases ((safe_main_turn hE (hP net) ht h.sound).reach hr).of_exit.1 with hturn | hturn | hturn
  · obtain ⟨evs, hl, hstart⟩ := hturn.log
    rw [hturn.stamped] at hst
    exact (h.provided hst).spared ⟨t, n, ⟨net, hr⟩, evs, hl, hstart, fun hc => absurd hc (not_or.2 ht)⟩
  · exact ⟨w, w', t, n, h.past, ⟨net, hr⟩, hturn, .refl⟩
  · rw [hst] at hturn
    cases hturn

theorem kempt_of_history {w₀ : World Label} (hE : RepoApart E project)
    (hP : ∀ net, P.scripts net .vendor = some (vendorSh E.toConfig project)) (hw₀ : Fresh E w₀)
    (hist : ReflTransGen (VendorRun T P) w₀ w) : Kempt T P project w₀ w := by
  induction hist with
  | refl =>
    refine ⟨.refl, hw₀.sound, fun hst => ?_⟩
    rw [stamped_iff, hw₀.absent] at hst
    cases hst.1
  | tail _ hr ih => exact ih.step hE hP hr

theorem repo_of_sparing {w' : World Label} (hE : RepoApart E project) (hist : ReflTransGen (Sparing T P) w w') :
    w'.fs.get (E.repoDir ++ [project]) = w.fs.get (E.repoDir ++ [project]) := by
  induction hist with
  | refl => rfl
  | tail _ hr ih =>
    obtain ⟨t, n, ⟨net, hr⟩, -⟩ := hr
    exact ((safe_main_repo hE).reach hr).of_exit.trans ih

theorem Ran.spared {w' : World Label} {body : Log} (h : Ran w v body) (hist : ReflTransGen (Sparing T P) v w') :
    Ran w w' body := by
  induction hist with
  | refl => exact h
  | tail _ hr ih =>
    obtain ⟨t, n, -, evs, hl, he, -⟩ := hr
    exact ih.append hl he

/-- The body of the vendor stage that ended last, none started since, has returned early from one of its functions: it
came to `do_build_qtdemo` without `$QT_QMAKE_EXECUTABLE`, or to `do_build_vendor` without `$CMAKE_EXECUTABLE`. -/
def EarlyReturn (log : Log) : Prop :=
  ∃ a body c f, log = a ++ .mark (.ended .vendor) :: body ++ .mark (.started .vendor) :: c ∧
    .mark (.started .vendor) ∉ a ∧ .mark (.started .vendor) ∉ body ∧ .mark (.returned f) ∈ body

end stage

/-- The three modules with a demo. -/
def demoEnv : Env :=
  ⟨{ Config.unset [] "qt5-linux_x86-ivi" with
      buildListTxt := "qtbase qtquickcontrols2 qtquick3d"
      qtDownloadUrlPre := "https://download.qt.io"
      qtDownloadUrlPost := "-src.tar.xz"
      md5sumTxt := some "good  qtbase-src.tar.xz\ngood  qtquickcontrols2-src.tar.xz\ngood  qtquick3d-src.tar.xz" },
    unset_apart [] "qt5-linux_x86-ivi"⟩

/-- An archive unpacks to a directory of its own name, with the demo of its module. -/
def demoTools : Tools :=
  { Tools.sample with
    unpack := fun a _ => ⟨a, (demos.filter fun d => dash d.2.1 a).foldl
      (fun fs d => fs.place (d.2.2 ++ [d.1 ++ ".pro"]) "") Fs.empty, true⟩ }

/-- A platform with `vendor.sh` alone. -/
def vendorOnly : Platform demoEnv where
  scripts _
    | .vendor => some (vendorSh demoEnv.toConfig "ivi")
    | _ => none
  proper
    | _, .vendor, _, rfl => all_vendorSh fun _ h => h

/-- The archives and the project are there, and an SDK with both executables. -/
def demoStart : World Label :=
  ⟨[["downloads", "qt5", "qtbase-src.tar.xz"], ["downloads", "qt5", "qtquickcontrols2-src.tar.xz"],
    ["downloads", "qt5", "qtquick3d-src.tar.xz"], ["repo", "ivi", "CMakeLists.txt"],
    demoEnv.qmakeExecutable, demoEnv.cmakeExecutable].foldl (fun fs p => fs.place p "good") Fs.empty, []⟩

def demoMain (t : BuildType) : Script Unit := main demoTools demoEnv.toConfig .none (vendorOnly.scripts .none) t

/-- No function of `vendor.sh` has returned early. -/
def noReturn (log : Log) : Bool :=
  log.all fun e => match e with
    | .mark (.returned _) => false
    | _ => true

theorem not_earlyReturn_of_noReturn {log : Log} (h : noReturn log = true) : ¬ EarlyReturn log := by
  rintro ⟨a, body, c, f, rfl, -, -, hm⟩
  cases List.all_eq_true.1 h (.mark (.returned f)) (by simp [hm])

theorem demoEnv_apart : RepoApart demoEnv "ivi" :=
  ⟨by decide +kernel, by decide +kernel, by decide +kernel, by decide +kernel⟩

/-- `qt5-android-ndk-cluster`, with one module to build. -/
def clusterEnv : Env :=
  ⟨{ Config.unset [] "qt5-android-ndk-cluster" with
      buildListTxt := "qtbase"
      qtDownloadUrlPre := "https://download.qt.io"
      qtDownloadUrlPost := "-src.tar.xz"
      md5sumTxt := some "good  qtbase-src.tar.xz"
      cmakeDownloadUrl := "https://github.com/cmake.sh"
      cmakeDownloadMd5 := "good" },
    unset_apart [] "qt5-android-ndk-cluster"⟩

def cluster : Platform clusterEnv := androidCluster demoTools clusterEnv ⟨"android-ndk-r22b", "", ""⟩ ndkName_ne_lock

/-- All packages and sources are there, and nothing is built. -/
def clusterStart : World Label :=
  ⟨([(["downloads", "toolchain", "android-ndk-r22b-linux-x86_64.zip"], "b99a69907ca29e8181852645328b6004"),
    (["downloads", "3rdparty", "openssl-1.1.1n.tar.gz"], "2aad5635f9bb338bc2c6b7d19cbc9676"),
    (["downloads", "cmake", "cmake.sh"], "good"), (["downloads", "qt5", "qtbase-src.tar.xz"], "good"),
    (["sources", "android_embedded_depends", "libsffg", "libsffg.so"], ""),
    (["sources", "android_embedded_depends", "rt", "CMakeLists.txt"], ""),
    (["sources", "android_embedded_depends", "pthread", "CMakeLists.txt"], ""),
    (["repo", "cluster", "CMakeLists.txt"], "")] : List (Path × String)).foldl (fun fs x => fs.place x.1 x.2) Fs.empty, []⟩

/-- Everything succeeds; the packages hold what they ought to, and Qt's `make install` installs qmake. -/
def clusterWorks : Behaviour Label := (able demoTools).trying demoTools fun c fs =>
  match c with
  | .ext (.job (.unzip _ d)) _ _ => some (0, fs.place (d ++ ["android-ndk-r22b", "toolchains", "llvm", "prebuilt",
      "linux-x86_64", "sysroot", "usr", "lib", "aarch64-linux-android", "libc++_shared.so"]) "")
  | .ext (.job (.installer _)) _ _ => some (0, fs.place (clusterEnv.stageDir .cmake ++ ["work", "bin", "cmake"]) "")
  | .ext (.job (.makeTarget d _)) _ _ =>
    if d = qtWork clusterEnv.toConfig "qtbase" then some (0, fs.place clusterEnv.qmakeExecutable "") else none
  | _ => none

def clusterMain (t : BuildType) : Script Unit := main demoTools clusterEnv.toConfig .none (cluster.scripts .none) t

/-- No `make` was run for the vendor stage. -/
def noVendorMake (log : Log) : Bool :=
  (ran log).all fun x => match x.1 with
    | .job (.make d) => !decide (clusterEnv.stageDir .vendor <+: d)
    | _ => true

end BuildQt5
