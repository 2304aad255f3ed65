import BuildQt5.Shell.Trace
import BuildQt5.Stamps

/-!
# Failing commands

Which failures of external programs `install_cmake` and `build_project` notice. The exit codes are
given by an assignment `α`; a body is honest about `α` when it does not return after a command that
failed, and leaves the lock in place whenever it gives up. A spec lemma for each function says which
programs it has run when it returns; the copies, `chmod` and the cmake configuration are the ones whose
codes nobody looks at.
-/

namespace BuildQt5
open Shell
open Prog (world run run_ note ifThen forEach)

variable {T : Tools} {E : Env} {s : Stage} {w w' : World Label} {net : Net}

/-- The programs run between `w` and `w'` ended as `α` says. -/
def Obeys (α : Job → Nat) (w w' : World Label) : Prop :=
  ∃ l, ran w'.log = l ++ ran w.log ∧ ∀ j n, (.job j, n) ∈ l → n = α j

/-- A program failed between `w` and `w'`. -/
def Failed (w w' : World Label) : Prop := ∃ l, ran w'.log = l ++ ran w.log ∧ ∃ x ∈ l, x.2 ≠ 0

def Honest (T : Tools) (E : Env) (s : Stage) (α : Job → Nat) (p : Script Unit) (w : World Label) : Prop :=
  ∀ p' w', Reach T Alone (p, w) (p', w') → Obeys α w w' → (p' = .pure () → ¬ Failed w w') ∧
    ∀ n, p' = .exit n → n = 10 ∧ w'.fs.isFile (E.lock s) = true

/-! ### What the functions have run when they return -/

section spec
variable {name : String} {realPath : Option Path}

/-- What `build_project` copies, and where to. -/
def copyJob (E : Config) (s : Stage) (name : String) (realPath : Option Path) (isDir : Path → Bool) :
    Option (Path × Path) :=
  match realPath with
  | none => ((candidates E s name).find? isDir).map fun dir => (dir, projectRoot E s name)
  | some dir => if isDir dir then some (dir, E.stageDir s ++ ["src", dir.getLastD ""]) else none

theorem safe_cp_ran {src dst : Path} {X : Nat → World Label → Prop} : Safe T Alone (fun _ => True)
    (fun _ w' => ∃ n, ran w'.log = (.job (.cp src dst), n) :: ran w.log) X (cp_ src dst) w :=
  safe_bind ((safe_job (j := .job (.cp src dst)) rfl).mono (fun _ h => h)
    (fun n _ hv => safe_pure.2 ⟨trivial, n, hv⟩) fun _ _ h => h)

theorem safe_copyProject : Safe T Alone (fun _ => True)
    (fun _ w' => ∃ n, ran w'.log = (copyJob E.toConfig s name realPath w.fs.isDir).toList.map
      (fun d => (.job (.cp d.1 d.2), n)) ++ ran w.log) (fun n _ => n = 10)
    (copyProject E.toConfig s name realPath) w := by
  refine safe_bind (safe_world.2 ⟨trivial, ?_⟩)
  cases realPath with
  | none =>
    simp only [copyJob]
    cases (candidates E.toConfig s name).find? w.fs.isDir with
    | some dir => exact safe_cp_ran
    | none =>
      simp only
      split
      · exact safe_pure.2 ⟨trivial, 0, rfl⟩
      · exact safe_printError trivial fun _ => ⟨trivial, rfl⟩
  | some dir =>
    simp only [copyJob]
    split
    · exact safe_cp_ran
    · exact safe_printError trivial fun _ => ⟨trivial, rfl⟩

/-- An external program whose status is tested has succeeded when the script goes on. -/
theorem safe_checked {c : Cmd Label} {j : Label} (hc : c.job = some j) : Safe T Alone (fun _ => True)
    (fun _ w' => ran w'.log = (j, 0) :: ran w.log) (fun n _ => n = 10) (run c >>= orError) w := by
  refine safe_bind ((safe_job hc).mono (fun _ h => h) (fun n v hv => ?_) fun _ _ h => h)
  exact safe_orError trivial (fun hn => hn ▸ hv) fun _ _ => ⟨trivial, rfl⟩

/-- The configuration of a project, by its type: cmake ends with any code, qmake with 0. -/
def Configured (work : Path) (r r' : List (Label × Nat)) : ProjectType → Prop
  | .cmake => ∃ n, r' = (.job (.cmake work), n) :: r
  | .qmake => r' = (.job (.qmake work), 0) :: r
  | .other => False

theorem safe_configureProject {type : ProjectType} : Safe T Alone (fun _ => True)
    (fun _ w' => Configured (projectWork E.toConfig s name) (ran w.log) (ran w'.log) type) (fun n _ => n = 10)
    (configureProject E.toConfig s type name) w := by
  have herror : ∀ Q : Unit → World Label → Prop,
      Safe T Alone (fun _ => True) Q (fun n _ => n = 10) (printLog .error "") w := fun Q =>
    safe_printError trivial fun _ => ⟨trivial, rfl⟩
  refine safe_bind (safe_world.2 ⟨trivial, ?_⟩)
  cases type with
  | cmake =>
    simp only
    split
    · exact safe_job_ rfl
    · exact herror _
  | qmake =>
    simp only
    split
    · exact herror _
    · split
      · exact safe_checked rfl
      · exact herror _
    · exact safe_checked rfl
  | other => exact herror _

theorem safe_makeProject : Safe T Alone (fun _ => True) (fun _ w' => ran w'.log =
      (.job (.makeTarget (projectWork E.toConfig s name) "install"), 0) ::
        (.job (.make (projectWork E.toConfig s name)), 0) :: ran w.log) (fun n _ => n = 10)
    (makeProject E.toConfig s name) w := by
  unfold makeProject
  refine safe_bind ((safe_job rfl).mono (fun _ h => h) (fun n v hv => ?_) fun _ _ h => h)
  refine safe_bind (safe_orError trivial (fun hn => ?_) fun _ _ => ⟨trivial, rfl⟩)
  subst hn
  exact (safe_checked rfl).mono (fun _ h => h) (fun _ v' h => by rw [h, hv]) fun _ _ h => h

/-- What `build_project` has run when it returns. -/
def Built (E : Config) (s : Stage) (type : ProjectType) (name : String) (realPath : Option Path)
    (w w' : World Label) : Prop :=
  ∃ n r, Configured (projectWork E s name) ((copyJob E s name realPath w.fs.isDir).toList.map
      (fun d => (.job (.cp d.1 d.2), n)) ++ ran w.log) r type ∧
    ran w'.log = (.job (.makeTarget (projectWork E s name) "install"), 0) ::
      (.job (.make (projectWork E s name)), 0) :: r

theorem safe_buildProject {type : ProjectType} : Safe T Alone (fun _ => True)
    (fun _ => Built E.toConfig s type name realPath w) (fun n _ => n = 10)
    (buildProject E.toConfig s type name realPath) w := by
  refine safe_bind (safe_note.2 ⟨trivial, trivial, ?_⟩)
  have hname : Safe T Alone (fun _ => True) (fun _ v => v = ⟨w.fs, .mark (.say .title (upper ("build " ++ name))) :: w.log⟩)
      (fun n _ => n = 10) (ifThen (name = "") (printLog .error ""))
      ⟨w.fs, .mark (.say .title (upper ("build " ++ name))) :: w.log⟩ := by
    unfold ifThen
    split
    · exact safe_printError trivial fun _ => ⟨trivial, rfl⟩
    · exact safe_pure.2 ⟨trivial, rfl⟩
  refine safe_bind (hname.mono (fun _ h => h) ?_ fun _ _ h => h)
  rintro _ _ rfl
  refine safe_bind (safe_copyProject.mono (fun _ h => h) ?_ fun _ _ h => h)
  rintro _ v₁ ⟨n, h₁⟩
  refine safe_bind (safe_mkdirP.2 ⟨trivial, trivial, ?_⟩)
  refine safe_bind (safe_configureProject.mono (fun _ h => h) (fun _ v₂ h₂ => ?_) fun _ _ h => h)
  refine safe_makeProject.mono (fun _ h => h) (fun _ v₃ h₃ => ⟨n, _, ?_, h₃⟩) fun _ _ h => h
  rw [ran_append, Cmd.ran_events] at h₂
  simpa [Cmd.job, h₁] using h₂

end spec

section fetch
variable {url name num : String} {dir path : Path} {type : Digest} {X : Nat → World Label → Prop}

theorem safe_fetchVerify_ran : Safe T Alone (fun _ => True) (fun _ w' => ran w'.log = ran w.log) X
    (fetchVerify T path num type) w := by
  refine safe_bind (safe_note.2 ⟨trivial, trivial, safe_bind (safe_world.2 ⟨trivial, ?_⟩)⟩)
  refine safe_bind (safe_note.2 ⟨trivial, trivial, safe_bind (safe_note.2 ⟨trivial, trivial, ?_⟩)⟩)
  split
  · exact safe_pure.2 ⟨trivial, rfl⟩
  · exact safe_bind (safe_note.2 ⟨trivial, trivial, safe_pure.2 ⟨trivial, rfl⟩⟩)

/-- Nothing but `j` was run, and at last with success if `ok`. -/
def Tried (j : Label) (ok : Prop) (w w' : World Label) : Prop :=
  ∃ l, ran w'.log = l ++ ran w.log ∧ (∀ x ∈ l, x.1 = j) ∧ (ok → l = [] ∨ (j, 0) ∈ l)

theorem Tried.of_ran {j : Label} {ok ok' : Prop} {v : World Label} (h : Tried j ok w w') (hi : ok' → ok)
    (hr : ran v.log = ran w'.log) : Tried j ok' w v := by
  obtain ⟨l, hl, hx, h0⟩ := h
  exact ⟨l, hr.trans hl, hx, fun hok => h0 (hi hok)⟩

theorem safe_wgetRetry_ran {cache : Path} (n : Nat) : Safe T Alone (fun _ => True)
    (fun ok w' => ∃ l, ran w'.log = l ++ ran w.log ∧ (∀ x ∈ l, x.1 = .job (.wget url cache)) ∧
      (ok = true → (.job (.wget url cache), 0) ∈ l)) X (wgetRetry url cache n) w := by
  induction n generalizing w with
  | zero => exact safe_pure.2 ⟨trivial, [], rfl, by simp, by simp⟩
  | succ n ih =>
    refine safe_bind ((safe_job rfl).mono (fun _ h => h) (fun code v hv => ?_) fun _ _ h => h)
    split
    · rename_i hcode
      subst hcode
      exact safe_pure.2 ⟨trivial, [_], hv, by simp, by simp⟩
    · refine safe_bind (safe_note.2 ⟨trivial, trivial, ih.mono (fun _ h => h) ?_ fun _ _ h => h⟩)
      rintro ok v' ⟨l, hl, hx, h0⟩
      refine ⟨l ++ [(.job (.wget url cache), code)], by simp [hl, hv], fun x hx' => ?_, fun hok => ?_⟩
      · rcases List.mem_append.1 hx' with hx' | hx'
        · exact hx x hx'
        · rw [List.mem_singleton.1 hx']
      · exact List.mem_append_left _ (h0 hok)

/-- The program `fetch_download` downloads with. -/
def wgetJob (E : Config) (net : Net) (url : String) (dir : Path) (name : String) : Label :=
  .job (.wget (fetchUrl E net url dir).1 (dir ++ [name ++ ".download_cache"]))

theorem safe_download_ran : Safe T Alone (fun _ => True)
    (fun code w' => Tried (wgetJob E.toConfig net url dir name) (code = 0) w w') X
    (download T E.toConfig net url dir name num type) w := by
  have hhead : Safe T Alone (fun _ => True) (fun _ v => ran v.log = ran w.log) X
      (ifThen (fetchUrl E.toConfig net url dir).2 (printLog .normal "(internal url not exist, ignore)")) w := by
    unfold ifThen
    split
    · exact safe_note.2 ⟨trivial, trivial, rfl⟩
    · exact safe_pure.2 ⟨trivial, rfl⟩
  refine safe_bind (hhead.mono (fun _ h => h) (fun _ u hu => ?_) fun _ _ h => h)
  refine safe_bind (safe_note.2 ⟨trivial, trivial, safe_bind (safe_note.2 ⟨trivial, trivial, ?_⟩)⟩)
  refine safe_bind (safe_mkdirP.2 ⟨trivial, trivial, ?_⟩)
  refine safe_bind ((safe_wgetRetry_ran 10).mono (fun _ h => h) ?_ fun _ _ h => h)
  rintro ok v ⟨l, hl, hx, h0⟩
  rw [ran_append, Cmd.ran_events] at hl
  replace hl : ran v.log = l ++ ran w.log := by rw [← hu]; exact hl
  have hfailed : Tried (wgetJob E.toConfig net url dir name) ((1 : Nat) = 0) w v := ⟨l, hl, hx, by simp⟩
  cases ok with
  | false => exact safe_pure.2 ⟨trivial, hfailed⟩
  | true =>
    have htried : Tried (wgetJob E.toConfig net url dir name) True w v := ⟨l, hl, hx, fun _ => .inr (h0 rfl)⟩
    refine safe_bind (safe_world.2 ⟨trivial, ?_⟩)
    split
    · refine safe_bind ((safe_silent rfl).mono (fun _ h => h) (fun code v' hv' => ?_) fun _ _ h => h)
      split
      · split
        · exact safe_pure.2 ⟨trivial, htried.of_ran (fun _ => trivial) hv'⟩
        · exact safe_fetchVerify_ran.mono (fun _ h => h)
            (fun _ v'' hv'' => htried.of_ran (fun _ => trivial) (hv''.trans hv')) fun _ _ h => h
      · exact safe_pure.2 ⟨trivial, hfailed.of_ran id hv'⟩
    · exact safe_pure.2 ⟨trivial, hfailed⟩

theorem safe_verifyOrRemove_ran : Safe T Alone (fun _ => True) (fun _ w' => ran w'.log = ran w.log) X
    (verifyOrRemove T path num type) w := by
  unfold verifyOrRemove
  split
  · exact safe_pure.2 ⟨trivial, rfl⟩
  · refine safe_bind (safe_fetchVerify_ran.mono (fun _ h => h) (fun code v hv => ?_) fun _ _ h => h)
    split
    · exact safe_pure.2 ⟨trivial, hv⟩
    · refine safe_bind (safe_rmF.2 ⟨trivial, trivial, safe_pure.2 ⟨trivial, ?_⟩⟩)
      rw [ran_append, Cmd.ran_events, hv]
      rfl

theorem safe_fetchDownload_ran : Safe T Alone (fun _ => True)
    (fun code w' => Tried (wgetJob E.toConfig net url dir (basename url)) (code = 0) w w') X
    (fetchDownload T E.toConfig net url dir "" num type) w := by
  have hquiet : ∀ v ok, ran v.log = ran w.log → Tried (wgetJob E.toConfig net url dir (basename url)) ok w v :=
    fun v ok hv => ⟨[], hv, by simp, fun _ => .inl rfl⟩
  have hdown : ∀ v : World Label, ran v.log = ran w.log → Safe T Alone (fun _ => True)
      (fun code w' => Tried (wgetJob E.toConfig net url dir (basename url)) (code = 0) w w') X
      (download T E.toConfig net url dir (basename url) num type) v := fun v hv =>
    safe_download_ran.mono (fun _ h => h) (fun _ _ h => by rwa [Tried, hv] at h) fun _ _ h => h
  refine safe_bind (safe_world.2 ⟨trivial, ?_⟩)
  simp only [if_true]
  split
  · refine safe_bind (safe_verifyOrRemove_ran.mono (fun _ h => h) (fun good v hv => ?_) fun _ _ h => h)
    split
    · exact safe_pure.2 ⟨trivial, hquiet v _ hv⟩
    · split
      · exact safe_bind (safe_note.2 ⟨trivial, trivial, safe_pure.2 ⟨trivial, hquiet _ _ hv⟩⟩)
      · exact hdown v hv
  · exact hdown w rfl

end fetch

section cmake
variable (E)

/-- The package as `install_cmake` copies it. -/
def cmakePackage (E : Config) : Path := E.stageDir .cmake ++ ["src"] ++ [basename E.cmakeDownloadUrl]

def cmakeInstaller (E : Config) : Job := .installer (cmakePackage E)

/-- The programs of `install_cmake` whose exit codes are not looked at. -/
def cmakeUnchecked (E : Config) : List Job :=
  .cp (E.cmakeDownloads ++ [basename E.cmakeDownloadUrl]) (cmakePackage E) :: .chmod (cmakePackage E) ::
    .cp (E.platformDir ++ ["cmake"]) (E.hostPrefix ++ ["cmake"]) :: (cmakeCopies E).map fun x => .cp x.1 x.2

def cmakeWget (E : Config) (net : Net) : Label :=
  wgetJob E net E.cmakeDownloadUrl E.cmakeDownloads (basename E.cmakeDownloadUrl)

/-- What `install_cmake` has run when its body is done: the download, then the rest. -/
def Installed (E : Config) (net : Net) (w w' : World Label) : Prop :=
  ∃ l l', ran w'.log = l' ++ l ++ ran w.log ∧ (∀ x ∈ l, x.1 = cmakeWget E net) ∧
    (l = [] ∨ (cmakeWget E net, 0) ∈ l) ∧ (.job (cmakeInstaller E), 0) ∈ l' ∧
    ∀ x ∈ l', x = (.job (cmakeInstaller E), 0) ∨ ∃ j ∈ cmakeUnchecked E, x.1 = .job j

/-- Programs of `install_cmake` that nobody checks were run between `w` and `w'`. -/
def Copying (E : Config) (w w' : World Label) : Prop :=
  ∃ l, ran w'.log = l ++ ran w.log ∧ ∀ x ∈ l, ∃ j ∈ cmakeUnchecked E, x.1 = .job j

variable {E}

theorem Copying.trans {w'' : World Label} (h : Copying E.toConfig w w') (h' : Copying E.toConfig w' w'') :
    Copying E.toConfig w w'' := by
  obtain ⟨l, hl, hx⟩ := h
  obtain ⟨l', hl', hx'⟩ := h'
  refine ⟨l' ++ l, by rw [hl', hl, List.append_assoc], fun x hm => ?_⟩
  rcases List.mem_append.1 hm with hm | hm
  · exact hx' x hm
  · exact hx x hm

theorem Copying.refl (h : ran w'.log = ran w.log) : Copying E.toConfig w w' := ⟨[], h, by simp⟩

theorem safe_cp_copying {src dst : Path} {X : Nat → World Label → Prop} (h : .cp src dst ∈ cmakeUnchecked E.toConfig) :
    Safe T Alone (fun _ => True) (fun _ w' => Copying E.toConfig w w') X (cp_ src dst) w := by
  refine safe_cp_ran.mono (fun _ h => h) ?_ fun _ _ h => h
  rintro _ v ⟨n, hv⟩
  exact ⟨[_], hv, fun x hx => ⟨_, h, by rw [List.mem_singleton.1 hx]⟩⟩

theorem safe_chmod_copying {X : Nat → World Label → Prop} : Safe T Alone (fun _ => True)
    (fun _ w' => Copying E.toConfig w w') X
    (run_ (.ext (.job (.chmod (cmakePackage E.toConfig))) [cmakePackage E.toConfig] [])) w := by
  refine (safe_job_ rfl).mono (fun _ h => h) ?_ fun _ _ h => h
  rintro _ v ⟨n, hv⟩
  refine ⟨[_], hv, fun x hx => ⟨.chmod (cmakePackage E.toConfig), by simp [cmakeUnchecked], ?_⟩⟩
  rw [List.mem_singleton.1 hx]

/-- The copies into the host directory. -/
theorem safe_cmakeCopies {X : Nat → World Label → Prop} : Safe T Alone (fun _ => True)
    (fun _ w' => Copying E.toConfig w w') X (do
      forEach (fun x => cp_ x.1 x.2) (cmakeCopies E.toConfig)
      let w ← world
      ifThen (w.fs.isDir (E.platformDir ++ ["cmake"]))
        (cp_ (E.platformDir ++ ["cmake"]) (E.hostPrefix ++ ["cmake"]))) w := by
  have hloop := safe_forEach (T := T) (R := Alone) (I := fun _ => True) (X := X) (w := w)
    (f := fun x : Path × Path => cp_ x.1 x.2)
    (fun xs v => xs ⊆ cmakeCopies E.toConfig ∧ Copying E.toConfig w v)
    (fun xs v hv v' hr => by rw [alone_iff.1 hr]; exact ⟨trivial, hv⟩) ?_ (cmakeCopies E.toConfig)
    ⟨List.Subset.refl _, .refl rfl⟩
  · refine safe_bind (hloop.mono (fun _ h => h) (fun _ v hv => ?_) fun _ _ h => h)
    refine safe_bind (safe_world.2 ⟨trivial, ?_⟩)
    unfold ifThen
    split
    · exact (safe_cp_copying (by simp [cmakeUnchecked])).mono (fun _ h => h)
        (fun _ _ h => hv.2.trans h) fun _ _ h => h
    · exact safe_pure.2 ⟨trivial, hv.2⟩
  · rintro x xs v ⟨hsub, hv⟩
    have hx : Job.cp x.1 x.2 ∈ cmakeUnchecked E.toConfig := by
      simp only [cmakeUnchecked, List.mem_cons, List.mem_map]
      exact .inr (.inr (.inr ⟨x, hsub (by simp), rfl⟩))
    exact (safe_cp_copying hx).mono (fun _ h => h)
      (fun _ _ h => ⟨fun y hy => hsub (by simp [hy]), hv.trans h⟩) fun _ _ h => h

theorem safe_cmakeBody : Safe T Alone (fun _ => True) (fun _ => Installed E.toConfig net w) (fun n _ => n = 10)
    (cmakeBody T E.toConfig net) w := by
  unfold cmakeBody
  refine safe_bind (safe_fetchDownload_ran.mono (fun _ h => h) (fun code v₁ h₁ => ?_) fun _ _ h => h)
  refine safe_bind (safe_orError trivial (fun hn => ?_) fun _ _ => ⟨trivial, rfl⟩)
  obtain ⟨l, hl, hx, h0⟩ := h₁
  refine safe_bind (safe_note.2 ⟨trivial, trivial, ?_⟩)
  have hpkg : Job.cp (E.cmakeDownloads ++ [basename E.cmakeDownloadUrl]) (cmakePackage E.toConfig) ∈
      cmakeUnchecked E.toConfig := by simp [cmakeUnchecked]
  refine safe_bind ((safe_cp_copying hpkg).mono (fun _ h => h) (fun _ v₂ h₂ => ?_) fun _ _ h => h)
  refine safe_bind (safe_chmod_copying.mono (fun _ h => h) (fun _ v₃ h₃ => ?_) fun _ _ h => h)
  refine safe_bind ((safe_job rfl).mono (fun _ h => h) (fun n v₄ h₄ => ?_) fun _ _ h => h)
  refine safe_bind (safe_orError trivial (fun hn' => ?_) fun _ _ => ⟨trivial, rfl⟩)
  refine safe_bind (safe_mkdirP.2 ⟨trivial, trivial, ?_⟩)
  refine safe_cmakeCopies.mono (fun _ h => h) (fun _ v₅ h₅ => ?_) fun _ _ h => h
  subst hn'
  obtain ⟨l₂, h₂, hx₂⟩ := h₂.trans h₃
  obtain ⟨l₅, h₅, hx₅⟩ := h₅
  rw [ran_append, Cmd.ran_events] at h₅
  refine ⟨l, l₅ ++ (.job (cmakeInstaller E.toConfig), 0) :: l₂, ?_, hx, h0 hn, by simp, fun x hm => ?_⟩
  · rw [h₅]
    show l₅ ++ ran v₄.log = _
    rw [h₄, h₂, ran_mark, hl]
    simp [cmakeInstaller, cmakePackage]
  · rcases List.mem_append.1 hm with hm | hm
    · exact .inr (hx₅ x hm)
    · rcases List.mem_cons.1 hm with rfl | hm
      · exact .inl rfl
      · exact .inr (hx₂ x hm)

end cmake

/-! ### Honest bodies -/

section honest
variable {α : Job → Nat} {name : String} {realPath : Option Path}

theorem Obeys.of_mem {l : List (Label × Nat)} {j : Job} {n : Nat} (h : Obeys α w w')
    (hl : ran w'.log = l ++ ran w.log) (hm : (.job j, n) ∈ l) : n = α j := by
  obtain ⟨l', hl', hob⟩ := h
  rw [hl] at hl'
  exact hob j n (List.append_cancel_right hl' ▸ hm)

theorem not_failed {l : List (Label × Nat)} (h : Obeys α w w') (hl : ran w'.log = l ++ ran w.log)
    (hz : ∀ x ∈ l, ∃ j, x.1 = .job j ∧ α j = 0) : ¬ Failed w w' := by
  rintro ⟨l', hl', x, hx, hne⟩
  rw [hl] at hl'
  rw [← List.append_cancel_right hl'] at hx
  obtain ⟨j, hj, h0⟩ := hz x hx
  refine hne ((h.of_mem hl (?_ : (.job j, x.2) ∈ l)).trans h0)
  rwa [← hj]

theorem honest_of_safe {p : Script Unit} {Q : World Label → Prop} (hlock : w.fs.isFile (E.lock s) = true)
    (hall : p.All (Cmd.Within (E.bodyArea s)) fun m => m.stage = none)
    (hp : Safe T Alone (fun _ => True) (fun _ => Q) (fun n _ => n = 10) p w)
    (hQ : ∀ w', Q w' → Obeys α w w' → ¬ Failed w w') : Honest T E s α p w := by
  intro p' w' hr hob
  have hsafe := hp.reach hr
  have hframe := (safe_frame hall Env.bodyArea_off).reach hr
  constructor
  · rintro rfl
    exact hQ w' hsafe.of_pure hob
  · rintro n rfl
    refine ⟨hsafe.of_exit, ?_⟩
    rw [Fs.isFile, hframe.of_exit.2.same _ (List.prefix_refl _)]
    exact hlock

variable (hlock : w.fs.isFile (E.lock s) = true)
include hlock

theorem honest_cmake (h : (∀ d ∈ copyJob E.toConfig s name realPath w.fs.isDir, α (.cp d.1 d.2) = 0) ∧
      α (.cmake (projectWork E.toConfig s name)) = 0 ∨ α (.make (projectWork E.toConfig s name)) ≠ 0 ∨
      α (.makeTarget (projectWork E.toConfig s name) "install") ≠ 0) :
    Honest T E s α (buildProject E.toConfig s .cmake name realPath) w := by
  refine honest_of_safe hlock (all_buildProject fun _ h => h) safe_buildProject ?_
  rintro w' ⟨n, _, ⟨n', rfl⟩, hl⟩ hob
  rw [← List.cons_append, ← List.cons_append, ← List.cons_append] at hl
  have hinstall : 0 = α (.makeTarget (projectWork E.toConfig s name) "install") := hob.of_mem hl (by simp)
  have hmake : 0 = α (.make (projectWork E.toConfig s name)) := hob.of_mem hl (by simp)
  rcases h with ⟨hcp, hcmake⟩ | h | h
  · refine not_failed hob hl fun x hx => ?_
    simp only [List.mem_cons, List.mem_map, Option.mem_toList] at hx
    rcases hx with rfl | rfl | rfl | ⟨d, hd, rfl⟩
    · exact ⟨_, rfl, hinstall.symm⟩
    · exact ⟨_, rfl, hmake.symm⟩
    · exact ⟨_, rfl, hcmake⟩
    · exact ⟨_, rfl, hcp d hd⟩
  · exact absurd hmake.symm h
  · exact absurd hinstall.symm h

theorem honest_qmake (h : (∀ d ∈ copyJob E.toConfig s name realPath w.fs.isDir, α (.cp d.1 d.2) = 0) ∨
      α (.qmake (projectWork E.toConfig s name)) ≠ 0 ∨ α (.make (projectWork E.toConfig s name)) ≠ 0 ∨
      α (.makeTarget (projectWork E.toConfig s name) "install") ≠ 0) :
    Honest T E s α (buildProject E.toConfig s .qmake name realPath) w := by
  refine honest_of_safe hlock (all_buildProject fun _ h => h) safe_buildProject ?_
  rintro w' ⟨n, _, rfl, hl⟩ hob
  rw [← List.cons_append, ← List.cons_append, ← List.cons_append] at hl
  have hinstall : 0 = α (.makeTarget (projectWork E.toConfig s name) "install") := hob.of_mem hl (by simp)
  have hmake : 0 = α (.make (projectWork E.toConfig s name)) := hob.of_mem hl (by simp)
  have hqmake : 0 = α (.qmake (projectWork E.toConfig s name)) := hob.of_mem hl (by simp)
  rcases h with hcp | h | h | h
  · refine not_failed hob hl fun x hx => ?_
    simp only [List.mem_cons, List.mem_map, Option.mem_toList] at hx
    rcases hx with rfl | rfl | rfl | ⟨d, hd, rfl⟩
    · exact ⟨_, rfl, hinstall.symm⟩
    · exact ⟨_, rfl, hmake.symm⟩
    · exact ⟨_, rfl, hqmake.symm⟩
    · exact ⟨_, rfl, hcp d hd⟩
  · exact absurd hqmake.symm h
  · exact absurd hmake.symm h
  · exact absurd hinstall.symm h

theorem honest_other : Honest T E s α (buildProject E.toConfig s .other name realPath) w := by
  refine honest_of_safe hlock (all_buildProject fun _ h => h) safe_buildProject ?_
  rintro w' ⟨n, _, h, -⟩
  exact h.elim

omit hlock in
theorem honest_cmakeBody (hlock : w.fs.isFile (E.lock .cmake) = true)
    (h : (∀ j ∈ cmakeUnchecked E.toConfig, α j = 0) ∨ α (cmakeInstaller E.toConfig) ≠ 0) :
    Honest T E .cmake α (cmakeBody T E.toConfig net) w := by
  refine honest_of_safe hlock (all_cmakeBody fun _ h => h) safe_cmakeBody ?_
  rintro w' ⟨l, l', hl, hwget, h0, hinst, hx⟩ hob
  have hinstaller : 0 = α (cmakeInstaller E.toConfig) := hob.of_mem hl (by simp [hinst])
  rcases h with h | h
  · refine not_failed hob hl fun x hm => ?_
    rcases List.mem_append.1 hm with hm | hm
    · rcases hx x hm with rfl | ⟨j, hj, hxj⟩
      · exact ⟨_, rfl, hinstaller.symm⟩
      · exact ⟨j, hxj, h j hj⟩
    · rcases h0 with h0 | h0
      · rw [h0] at hm; cases hm
      · exact ⟨_, hwget x hm, (hob.of_mem hl (List.mem_append_right _ h0)).symm⟩
  · exact absurd hinstaller.symm h

end honest

/-! ### Runs in which commands fail -/

/-- The exit codes by label. -/
def codes (α : Job → Nat) : Label → Nat
  | .job j => α j
  | _ => 0

/-- A body that is honest cannot return from a run in which one of these programs fails. -/
theorem zero_of_honest {α : Job → Nat} {p : Script Unit} {js : List Label} {j : Job} (hh : Honest T E s α p w)
    (hc : CanRun T (codes α) w.fs.get p () js) (hj : .job j ∈ js) : α j = 0 := by
  obtain ⟨w', hr, -, hl⟩ := hc w rfl
  have hob : Obeys α w w' := by
    refine ⟨_, hl, fun j n hm => ?_⟩
    obtain ⟨k, -, heq⟩ := List.mem_map.1 hm
    cases heq
    rfl
  by_contra hne
  exact ((hh _ _ hr hob).1 rfl) ⟨_, hl, (.job j, α j), List.mem_map.2 ⟨.job j, hj, rfl⟩, hne⟩

section canRun
variable {α : Job → Nat} {g : Path → Option Node}

theorem canRun_orError {code : Nat} (h : code = 0) : CanRun T (codes α) g (orError code) () [] := by
  rw [orError, if_pos h]
  exact canRun_pure

theorem canRun_checked {c : Cmd Label} {j : Job} (hc : c.job = some (.job j)) (hi : c.Idle T g (α j)) (h0 : α j = 0) :
    CanRun T (codes α) g (run c >>= orError) () [.job j] :=
  canRun_job (k := fun n => orError n) hc hi (canRun_orError h0)

theorem canRun_cp_ {src dst : Path} (hi : (Cmd.cp (Label.job (.cp src dst)) src dst).Idle T g (α (.cp src dst))) :
    CanRun T (codes α) g (cp_ src dst) () [.job (.cp src dst)] :=
  canRun_job (k := fun _ => .pure ()) rfl hi canRun_pure

section project
variable {type : ProjectType} {name : String} {realPath : Option Path} {dir dst : Path}

/-- The project is there: `dir` is what is copied to `dst`, where it was copied before; the sources have
what the build tool looks for; and there is a work directory. -/
structure Ready (E : Config) (s : Stage) (type : ProjectType) (name : String) (realPath : Option Path)
    (dir dst : Path) (g : Path → Option Node) : Prop where
  name_ne : name ≠ ""
  copy : copyJob E s name realPath (fun p => g p = some .dir) = some (dir, dst)
  source : g dir = some .dir
  same : ∀ r, g (dst ++ r) = g (dir ++ r)
  work : g (projectWork E s name) = some .dir
  project : match type with
    | .cmake => ∃ c, g (projectRoot E s name ++ ["CMakeLists.txt"]) = some (.file c)
    | .qmake => ∃ x c, ".pro".toList <:+ x.toList ∧ g (projectRoot E s name ++ [x]) = some (.file c) ∧
        ∀ y, g (projectRoot E s name ++ [y]) ≠ none → ".pro".toList <:+ y.toList → y = x
    | .other => False

theorem isDir_eq (hw : w.fs.get = g) : w.fs.isDir = fun p => decide (g p = some .dir) := by
  funext p
  rw [Fs.isDir, hw]

theorem canRun_copyProject (h : Ready E.toConfig s type name realPath dir dst g) :
    CanRun T (codes α) g (copyProject E.toConfig s name realPath) () [.job (.cp dir dst)] := by
  refine canRun_world fun w hw => ?_
  have hcp : CanRun T (codes α) g (cp_ dir dst) () [.job (.cp dir dst)] :=
    canRun_cp_ (idle_cp_dir h.source h.same)
  have hcopy := h.copy
  rw [← isDir_eq hw] at hcopy
  cases realPath with
  | none =>
    obtain ⟨d, hf, hd⟩ := Option.map_eq_some_iff.1 hcopy
    cases hd
    simp only [hf]
    exact hcp
  | some d =>
    simp only [copyJob] at hcopy
    split at hcopy
    · rename_i hd
      cases hcopy
      simp only [hd, if_true]
      exact hcp
    · cases hcopy

theorem canRun_makeProject (h : Ready E.toConfig s type name realPath dir dst g)
    (hmake : α (.make (projectWork E.toConfig s name)) = 0)
    (hinstall : α (.makeTarget (projectWork E.toConfig s name) "install") = 0) :
    CanRun T (codes α) g (makeProject E.toConfig s name) ()
      [.job (.makeTarget (projectWork E.toConfig s name) "install"), .job (.make (projectWork E.toConfig s name))] := by
  have hidle : ∀ j foot n, (Cmd.ext (Label.job j) foot [projectWork E.toConfig s name]).Idle T g n := fun j foot n =>
    idle_ext (by simpa using h.work)
  exact CanRun.bind (canRun_run rfl (hidle _ _ _))
    (CanRun.bind (canRun_orError hmake) (canRun_checked rfl (hidle _ _ _) hinstall) rfl) rfl

theorem canRun_configure_cmake (h : Ready E.toConfig s .cmake name realPath dir dst g) :
    CanRun T (codes α) g (configureProject E.toConfig s .cmake name) ()
      [.job (.cmake (projectWork E.toConfig s name))] := by
  refine canRun_world fun w hw => ?_
  obtain ⟨c, hc⟩ := h.project
  have hfile : w.fs.isFile (projectRoot E.toConfig s name ++ ["CMakeLists.txt"]) = true :=
    Fs.isFile_iff.2 ⟨c, by rw [hw, hc]⟩
  simp only [hfile, Bool.true_or, if_true]
  exact canRun_job (k := fun _ => .pure ()) rfl (idle_ext (by simp)) canRun_pure

theorem canRun_configure_qmake (h : Ready E.toConfig s .qmake name realPath dir dst g)
    (hqmake : α (.qmake (projectWork E.toConfig s name)) = 0) :
    CanRun T (codes α) g (configureProject E.toConfig s .qmake name) ()
      [.job (.qmake (projectWork E.toConfig s name))] := by
  refine canRun_world fun w hw => ?_
  obtain ⟨x, c, hx, hc, hone⟩ := h.project
  have hglob : w.fs.glob (projectRoot E.toConfig s name) (fun x => ".pro".toList <:+ x.toList) = [x] := by
    refine Fs.glob_eq_singleton (by simp [hw, hc]) (by simpa using hx) fun y hy hpro => ?_
    exact hone y (by rwa [← hw]) (by simpa using hpro)
  have hfile : w.fs.isFile (projectRoot E.toConfig s name ++ [x]) = true :=
    Fs.isFile_iff.2 ⟨c, by rw [hw, hc]⟩
  simp only [hglob, hfile, if_true]
  exact canRun_checked rfl (idle_ext (by simp)) hqmake

theorem canRun_buildProject {js : List Label} (h : Ready E.toConfig s type name realPath dir dst g)
    (hmake : α (.make (projectWork E.toConfig s name)) = 0)
    (hinstall : α (.makeTarget (projectWork E.toConfig s name) "install") = 0)
    (hconf : CanRun T (codes α) g (configureProject E.toConfig s type name) () js) :
    CanRun T (codes α) g (buildProject E.toConfig s type name realPath) ()
      ([.job (.makeTarget (projectWork E.toConfig s name) "install"), .job (.make (projectWork E.toConfig s name))] ++
        js ++ [.job (.cp dir dst)]) := by
  have hname : CanRun T (codes α) g (ifThen (name = "") (printLog .error "")) () [] := by
    rw [ifThen, if_neg (by simpa using h.name_ne)]
    exact canRun_pure
  refine CanRun.bind canRun_note (CanRun.bind hname (CanRun.bind (canRun_copyProject h)
    (CanRun.bind (canRun_mkdirP h.work) (CanRun.bind hconf (canRun_makeProject h hmake hinstall) rfl) rfl)
    rfl) rfl) ?_
  simp

end project

section cmake

/-- `src` was copied to `dst` before. -/
def CopiedBefore (g : Path → Option Node) (src dst : Path) : Prop :=
  (∃ c, g src = some (.file c) ∧ g dst = some (.file c)) ∨
    g src = some .dir ∧ ∀ r, g (dst ++ r) = g (src ++ r)

theorem CopiedBefore.idle {src dst : Path} {j : Label} {n : Nat} (h : CopiedBefore g src dst) :
    (Cmd.cp j src dst).Idle T g n := by
  rcases h with ⟨c, hs, hd⟩ | ⟨hs, hd⟩
  · exact idle_cp_file hs hd
  · exact idle_cp_dir hs hd

/-- The package of cmake is there and good, and everything was copied before. -/
structure CmakeReady (T : Tools) (E : Config) (g : Path → Option Node) : Prop where
  package : ∃ c, g (E.cmakeDownloads ++ [basename E.cmakeDownloadUrl]) = some (.file c) ∧
    E.cmakeDownloadMd5 = T.md5 c
  md5 : E.cmakeDownloadMd5 ≠ ""
  bin : g (E.hostPrefix ++ ["bin"]) = some .dir
  platform : g (E.platformDir ++ ["cmake"]) = some .dir
  copies : ∀ src dst, .cp src dst ∈ cmakeUnchecked E → CopiedBefore g src dst

theorem canRun_fetchDownload (h : CmakeReady T E.toConfig g) : CanRun T (codes α) g
    (fetchDownload T E.toConfig net E.cmakeDownloadUrl E.cmakeDownloads "" E.cmakeDownloadMd5 .md5) 0 [] := by
  obtain ⟨c, hc, hmd5⟩ := h.package
  have hverify : CanRun T (codes α) g (fetchVerify T (E.cmakeDownloads ++ [basename E.cmakeDownloadUrl])
      E.cmakeDownloadMd5 .md5) 0 [] := by
    refine CanRun.bind canRun_note (canRun_world fun w hw => CanRun.bind canRun_note
      (CanRun.bind canRun_note (?_ : CanRun _ _ _ _ _ []) rfl) rfl) rfl
    have hreal : realNum T (E.cmakeDownloads ++ [basename E.cmakeDownloadUrl]) .md5
        (w.fs.content (E.cmakeDownloads ++ [basename E.cmakeDownloadUrl])) = T.md5 c := by
      rw [Fs.content_eq_some.2 (by rw [hw, hc])]
      rfl
    rw [hreal, if_neg (by simpa using hmd5)]
    exact CanRun.bind canRun_note canRun_pure rfl
  refine canRun_world fun w hw => ?_
  have hfile : w.fs.isFile (E.cmakeDownloads ++ [basename E.cmakeDownloadUrl]) = true :=
    Fs.isFile_iff.2 ⟨c, by rw [hw, hc]⟩
  simp only [if_true, hfile]
  refine CanRun.bind (?_ : CanRun _ _ _ (verifyOrRemove T _ _ _) true []) (canRun_pure (b := 0)) rfl
  rw [verifyOrRemove, if_neg h.md5]
  exact CanRun.bind hverify canRun_pure rfl

theorem canRun_cmakeBody (net : Net) (h : CmakeReady T E.toConfig g) (hinst : α (cmakeInstaller E.toConfig) = 0) :
    ∃ js, (∀ j ∈ cmakeUnchecked E.toConfig, Label.job j ∈ js) ∧
      CanRun T (codes α) g (cmakeBody T E.toConfig net) () js := by
  have hcp : ∀ src dst, .cp src dst ∈ cmakeUnchecked E.toConfig →
      CanRun T (codes α) g (cp_ src dst) () [.job (.cp src dst)] := fun src dst hm =>
    canRun_cp_ (h.copies src dst hm).idle
  have hcopies : CanRun T (codes α) g (forEach (fun x => cp_ x.1 x.2) (cmakeCopies E.toConfig)) ()
      ((cmakeCopies E.toConfig).reverse.flatMap fun x => [.job (.cp x.1 x.2)]) :=
    canRun_forEach _ fun x hx => hcp _ _ (by
      simp only [cmakeUnchecked, List.mem_cons, List.mem_map]
      exact .inr (.inr (.inr ⟨x, hx, rfl⟩)))
  have hplatform : CanRun T (codes α) g (do
      let w ← world
      ifThen (w.fs.isDir (E.platformDir ++ ["cmake"])) (cp_ (E.platformDir ++ ["cmake"]) (E.hostPrefix ++ ["cmake"])))
      () [.job (.cp (E.platformDir ++ ["cmake"]) (E.hostPrefix ++ ["cmake"]))] := by
    refine canRun_world fun w hw => ?_
    have hdir : w.fs.isDir (E.platformDir ++ ["cmake"]) = true := Fs.isDir_iff.2 (by rw [hw, h.platform])
    rw [ifThen, if_pos hdir]
    exact hcp _ _ (by simp [cmakeUnchecked])
  have hchmod : CanRun T (codes α) g (run_ (.ext (.job (.chmod (cmakePackage E.toConfig))) [cmakePackage E.toConfig] []))
      () [.job (.chmod (cmakePackage E.toConfig))] :=
    canRun_job (k := fun _ => .pure ()) rfl (idle_ext (by simp)) canRun_pure
  have hinstaller : CanRun T (codes α) g (run (.ext (.job (cmakeInstaller E.toConfig)) [E.stageDir .cmake ++ ["work"]] []))
      (α (cmakeInstaller E.toConfig)) [.job (cmakeInstaller E.toConfig)] := canRun_run rfl (idle_ext (by simp))
  have hpkg := hcp (E.cmakeDownloads ++ [basename E.cmakeDownloadUrl]) (cmakePackage E.toConfig) (by simp [cmakeUnchecked])
  refine ⟨_, ?_, CanRun.bind (canRun_fetchDownload h) (CanRun.bind (canRun_orError rfl) (CanRun.bind canRun_note
    (CanRun.bind hpkg (CanRun.bind hchmod (CanRun.bind hinstaller (CanRun.bind (canRun_orError hinst)
    (CanRun.bind (canRun_mkdirP h.bin) (CanRun.bind hcopies hplatform rfl) rfl) rfl) rfl) rfl) rfl) rfl) rfl) rfl⟩
  intro j hj
  simp only [cmakeUnchecked, List.mem_cons, List.mem_map] at hj
  rcases hj with rfl | rfl | rfl | ⟨x, hx, rfl⟩
  · simp
  · simp
  · simp
  · simp [hx]

end cmake

end canRun

/-! ### Which failures are noticed -/

/-- The programs whose exit codes `install_cmake` and `build_project` do not look at. -/
def Job.unchecked : Job → Bool
  | .cp _ _ | .chmod _ | .cmake _ => true
  | _ => false

theorem unchecked_of_mem {j : Job} (h : j ∈ cmakeUnchecked E.toConfig) : j.unchecked = true := by
  simp only [cmakeUnchecked, List.mem_cons, List.mem_map] at h
  rcases h with rfl | rfl | rfl | ⟨x, -, rfl⟩ <;> rfl

section exact
variable {α : Job → Nat} {name : String} {realPath : Option Path} {dir dst : Path}

theorem Ready.copyJob_eq {type : ProjectType} (h : Ready E.toConfig s type name realPath dir dst w.fs.get) :
    copyJob E.toConfig s name realPath w.fs.isDir = some (dir, dst) := by
  rw [isDir_eq rfl]
  exact h.copy

theorem honest_cmake_iff (hlock : w.fs.isFile (E.lock s) = true)
    (h : Ready E.toConfig s .cmake name realPath dir dst w.fs.get) :
    Honest T E s α (buildProject E.toConfig s .cmake name realPath) w ↔
      α (.cp dir dst) = 0 ∧ α (.cmake (projectWork E.toConfig s name)) = 0 ∨
        α (.make (projectWork E.toConfig s name)) ≠ 0 ∨
        α (.makeTarget (projectWork E.toConfig s name) "install") ≠ 0 := by
  constructor
  · intro hh
    by_cases hmake : α (.make (projectWork E.toConfig s name)) = 0
    · by_cases hinstall : α (.makeTarget (projectWork E.toConfig s name) "install") = 0
      · have hrun := canRun_buildProject h hmake hinstall (canRun_configure_cmake (T := T) h)
        exact .inl ⟨zero_of_honest hh hrun (by simp), zero_of_honest hh hrun (by simp)⟩
      · exact .inr (.inr hinstall)
    · exact .inr (.inl hmake)
  · intro hcond
    refine honest_cmake hlock (hcond.imp (fun hz => ⟨fun d hd => ?_, hz.2⟩) id)
    rw [h.copyJob_eq] at hd
    cases hd
    exact hz.1

theorem honest_qmake_iff (hlock : w.fs.isFile (E.lock s) = true)
    (h : Ready E.toConfig s .qmake name realPath dir dst w.fs.get) :
    Honest T E s α (buildProject E.toConfig s .qmake name realPath) w ↔
      α (.cp dir dst) = 0 ∨ α (.qmake (projectWork E.toConfig s name)) ≠ 0 ∨
        α (.make (projectWork E.toConfig s name)) ≠ 0 ∨
        α (.makeTarget (projectWork E.toConfig s name) "install") ≠ 0 := by
  constructor
  · intro hh
    by_cases hqmake : α (.qmake (projectWork E.toConfig s name)) = 0
    · by_cases hmake : α (.make (projectWork E.toConfig s name)) = 0
      · by_cases hinstall : α (.makeTarget (projectWork E.toConfig s name) "install") = 0
        · have hrun := canRun_buildProject h hmake hinstall (canRun_configure_qmake (T := T) h hqmake)
          exact .inl (zero_of_honest hh hrun (by simp))
        · exact .inr (.inr (.inr hinstall))
      · exact .inr (.inr (.inl hmake))
    · exact .inr (.inl hqmake)
  · intro hcond
    refine honest_qmake hlock (hcond.imp (fun hz d hd => ?_) id)
    rw [h.copyJob_eq] at hd
    cases hd
    exact hz

theorem honest_cmakeBody_iff (hlock : w.fs.isFile (E.lock .cmake) = true) (h : CmakeReady T E.toConfig w.fs.get) :
    Honest T E .cmake α (cmakeBody T E.toConfig net) w ↔
      (∀ j ∈ cmakeUnchecked E.toConfig, α j = 0) ∨ α (cmakeInstaller E.toConfig) ≠ 0 := by
  refine ⟨fun hh => ?_, honest_cmakeBody hlock⟩
  by_cases hinst : α (cmakeInstaller E.toConfig) = 0
  · obtain ⟨js, hjs, hrun⟩ := canRun_cmakeBody net h hinst
    exact .inl fun j hj => zero_of_honest hh hrun (hjs j hj)
  · exact .inr hinst

end exact

/-- The vendor step of an Android build under way, its project built before. -/
def vendorWorld : World Label :=
  ⟨((((Fs.empty.mkdirP ["qt", "repo", "ivi"]).write ["qt", "repo", "ivi", "CMakeLists.txt"] "project(ivi)").mkdirP
    ["qt", "build", "qt5-android-ndk-ivi", "vendor", "src", "ivi"]).write
      ["qt", "build", "qt5-android-ndk-ivi", "vendor", "src", "ivi", "CMakeLists.txt"] "project(ivi)").mkdirP
        ["qt", "build", "qt5-android-ndk-ivi", "vendor", "work", "ivi"] |>.write
          ["qt", "build", "qt5-android-ndk-ivi", "vendor", "lock"] "1", []⟩

theorem vendorWorld_ready : Ready ndkEnv.toConfig .vendor .cmake "ivi" none ["qt", "repo", "ivi"]
    ["qt", "build", "qt5-android-ndk-ivi", "vendor", "src", "ivi"] vendorWorld.fs.get where
  name_ne := by decide
  copy := by decide
  source := by decide
  same := Fs.get_eq_of_sub (by decide) (by decide)
  work := by decide
  project := ⟨"project(ivi)", by decide⟩

/-- The project is there, and a cmake. -/
def vendorStart : World Label :=
  ⟨((Fs.empty.mkdirP ["qt", "repo", "ivi"]).write ["qt", "repo", "ivi", "CMakeLists.txt"] "project(ivi)").mkdirP
    ["qt", "build", "qt5-android-ndk-ivi", "sdk", "host", "usr", "bin"] |>.write
      ["qt", "build", "qt5-android-ndk-ivi", "sdk", "host", "usr", "bin", "cmake"] "", []⟩

end BuildQt5
