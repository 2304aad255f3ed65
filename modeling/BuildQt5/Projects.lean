import BuildQt5.Failures
import BuildQt5.Shell.Whole

/-!
# The source build_project builds

`build_project` copies the source it selects into `$BUILD_DIR/$SHELL_TYPE/src` and then works on the directory there that
has the name of the project. The copy merges with what an earlier run left, and an explicit path is copied under its own
base name. In a run without failures the tree handed to cmake or qmake is therefore the selected one, file for file, if
and only if it was `Untainted` before.
-/

namespace BuildQt5
open Shell
open Prog (world run run_ note ifThen forEach)

/-- The source `build_project` selects: the explicit path, or the first candidate that is there. -/
def chosen (E : Config) (s : Stage) (name : String) (realPath : Option Path) (isDir : Path → Bool) : Option Path :=
  match realPath with
  | none => (candidates E s name).find? isDir
  | some dir => if isDir dir then some dir else none

/-- Before the copy the project's directory has no file that the source does not have; where the source goes to another
directory, because of its base name, it holds the source already. -/
def Untainted (E : Config) (s : Stage) (name : String) (realPath : Option Path) (dir : Path) (fs : Fs) : Prop :=
  if realPath = none ∨ dir.getLastD "" = name then
    ∀ r, fs.content (projectRoot E s name ++ r) ≠ none → fs.content (dir ++ r) ≠ none
  else ∀ r, fs.content (projectRoot E s name ++ r) = fs.content (dir ++ r)

/-- cmake or qmake, run for the project. -/
def Configures (E : Config) (s : Stage) (name : String) (c : Cmd Label) : Prop :=
  c.job = some (.job (.cmake (projectWork E s name))) ∨ c.job = some (.job (.qmake (projectWork E s name)))

section project
variable {T : Tools} {E : Config} {s : Stage} {name : String} {realPath : Option Path} {dir : Path}
  {w : World Label} {f : Path → Option String}

/-- What the project's directory holds after the copy. -/
def mergedText (E : Config) (s : Stage) (name : String) (realPath : Option Path) (dir : Path) (fs : Fs) (r : Path) :
    Option String :=
  if realPath = none ∨ dir.getLastD "" = name then
    (fs.content (dir ++ r)).or (fs.content (projectRoot E s name ++ r))
  else fs.content (projectRoot E s name ++ r)

/-- The project's directory holds `f` whenever cmake or qmake is about to run. -/
def AtConfigure (E : Config) (s : Stage) (name : String) (f : Path → Option String) (c : Option (Cmd Label))
    (w : World Label) : Prop :=
  ∀ d, c = some d → Configures E s name d → ∀ r, w.fs.content (projectRoot E s name ++ r) = f r

theorem atConfigure_none : AtConfigure E s name f none w := fun _ h => by cases h

theorem atConfigure_of_not {c : Cmd Label} (h : ¬ Configures E s name c) : AtConfigure E s name f (some c) w := by
  rintro d hd hconf
  exact absurd (Option.some.inj hd ▸ hconf) h

/-- `p` runs without failures and hands over `f`, from any state in which the directory holds it. -/
abbrev Hands (T : Tools) (E : Config) (s : Stage) (name : String) (f : Path → Option String)
    (Q : Unit → World Label → Prop) (p : Script Unit) (w : World Label) : Prop :=
  Sure T succeeds (AtConfigure E s name f) Q (fun _ _ => True) p w

theorem hands_error {Q : Unit → World Label → Prop} : Hands T E s name f Q (printLog .error "") w :=
  ⟨atConfigure_none, atConfigure_none, atConfigure_none, trivial⟩

theorem hands_orError {n : Nat} : Hands T E s name f (fun _ _ => True) (orError n) w :=
  sure_ite (fun _ => ⟨atConfigure_none, trivial⟩) fun _ => hands_error

/-- A copy of the source to a directory of `src`. -/
theorem hands_cp {b : String} (hdir : w.fs.isDir dir = true) :
    Hands T E s name f (fun _ w' => ∀ r, w'.fs.content (projectRoot E s name ++ r) =
      if b = name then (w.fs.content (dir ++ r)).or (w.fs.content (projectRoot E s name ++ r))
      else w.fs.content (projectRoot E s name ++ r)) (cp_ dir (projectRoot E s b)) w := by
  refine sure_bind ⟨atConfigure_of_not (by simp [Configures, Cmd.job]), fun n w' hf hn => ?_⟩
  obtain rfl : n = 0 := hn
  have hdir' := Fs.isDir_iff.1 hdir
  refine ⟨atConfigure_none, atConfigure_none, fun r => ?_⟩
  by_cases hb : b = name
  · rw [if_pos hb, ← hb]
    exact Cmd.content_of_fin_cp hdir' hf.1 r
  · have hagree : Fs.Agree [projectRoot E s b] w.fs w'.fs := by
      have hfin := hf.1
      simp only [Cmd.Fin, if_true, hdir', Cmd.Copied] at hfin
      exact hfin.2.1
    have hchild : Apart (E.stageDir s ++ ["src"] ++ [b]) (E.stageDir s ++ ["src"] ++ [name]) := Apart.child hb
    have hroot : ∀ x, E.stageDir s ++ ["src"] ++ [x] = projectRoot E s x := fun x => by simp [projectRoot]
    rw [hroot, hroot] at hchild
    rw [if_neg hb, Fs.content, hagree _, Fs.content]
    simpa [Fs.covers] using (hchild.symm.below (List.prefix_append _ r)).2

theorem hands_copyProject (h : chosen E s name realPath w.fs.isDir = some dir) :
    Hands T E s name f (fun _ w' => ∀ r, w'.fs.content (projectRoot E s name ++ r) =
      mergedText E s name realPath dir w.fs r) (copyProject E s name realPath) w := by
  refine sure_world.2 ⟨atConfigure_none, ?_⟩
  cases realPath with
  | none =>
    change (candidates E s name).find? w.fs.isDir = some dir at h
    simp only [h]
    refine (hands_cp (b := name) (List.find?_some h)).mono (fun _ _ h => h) (fun _ w' hw r => ?_) fun _ _ h => h
    rw [hw, if_pos rfl, mergedText, if_pos (.inl rfl)]
  | some d =>
    simp only [chosen] at h
    split at h
    · rename_i hdir
      obtain rfl := Option.some.inj h
      simp only [hdir, if_true]
      refine (hands_cp (b := d.getLastD "") hdir).mono (fun _ _ h => h) (fun _ w' hw r => ?_) fun _ _ h => h
      rw [hw, mergedText]
      simp
    · cases h

theorem hands_configureProject {type : ProjectType} (h : ∀ r, w.fs.content (projectRoot E s name ++ r) = f r) :
    Hands T E s name f (fun _ _ => True) (configureProject E s type name) w := by
  have hat : ∀ c, AtConfigure E s name f (some c) w := fun _ _ _ _ => h
  refine sure_world.2 ⟨atConfigure_none, ?_⟩
  cases type with
  | cmake => exact sure_ite (fun _ => ⟨hat _, fun _ _ _ _ => ⟨atConfigure_none, trivial⟩⟩) fun _ => hands_error
  | qmake =>
    have hrun : Hands T E s name f (fun _ _ => True)
        (run (.ext (.job (.qmake (projectWork E s name))) [projectWork E s name] []) >>= orError) w :=
      ⟨hat _, fun _ _ _ _ => hands_orError⟩
    simp only
    split
    · exact hands_error
    · exact sure_ite (fun _ => hrun) fun _ => hands_error
    · exact hrun
  | other => exact hands_error

theorem hands_makeProject : Hands T E s name f (fun _ _ => True) (makeProject E s name) w := by
  refine sure_run.2 ⟨atConfigure_of_not (by simp [Configures, Cmd.job]), fun n v _ _ => ?_⟩
  refine sure_bind (hands_orError.mono (fun _ _ h => h) (fun _ v' _ => ?_) fun _ _ h => h)
  exact sure_run.2 ⟨atConfigure_of_not (by simp [Configures, Cmd.job]), fun _ _ _ _ => hands_orError⟩

theorem hands_buildProject {type : ProjectType} (h : chosen E s name realPath w.fs.isDir = some dir) :
    Hands T E s name (mergedText E s name realPath dir w.fs) (fun _ _ => True) (buildProject E s type name realPath)
      w := by
  have hcopy : Hands T E s name (mergedText E s name realPath dir w.fs) (fun _ w' => ∀ r,
      w'.fs.content (projectRoot E s name ++ r) = mergedText E s name realPath dir w.fs r) (copyProject E s name realPath)
      ⟨w.fs, .mark (.say .title (upper ("build " ++ name))) :: w.log⟩ := hands_copyProject h
  refine sure_note.2 ⟨atConfigure_none, sure_bind ?_⟩
  refine sure_ite (fun _ => hands_error) fun _ => ⟨atConfigure_none, sure_bind ?_⟩
  refine hcopy.mono (fun _ _ h => h) (fun _ w1 h1 => ?_) fun _ _ h => h
  refine sure_run_.2 ⟨atConfigure_of_not (by simp [Configures, Cmd.job]), fun _ w2 hf _ => sure_bind ?_⟩
  have h2 : ∀ r, w2.fs.content (projectRoot E s name ++ r) = mergedText E s name realPath dir w.fs r := fun r => by
    rw [← h1 r, hf.1.2, Fs.content_mkdirP]
  exact (hands_configureProject h2).mono (fun _ _ h => h) (fun _ _ _ => hands_makeProject) fun _ _ h => h

/-- In every run without failures the tree that cmake or qmake gets is the selected source, file for file, if and only
if the project's directory was untainted before. -/
theorem project_tree_iff {type : ProjectType} {c : Cmd Label} {k : Nat → Script Unit} {v : World Label}
    (hsrc : chosen E s name realPath w.fs.isDir = some dir)
    (h : Runs T succeeds (buildProject E s type name realPath, w) (.cmd c k, v)) (hc : Configures E s name c) :
    (∀ r, v.fs.content (projectRoot E s name ++ r) = w.fs.content (dir ++ r)) ↔
      Untainted E s name realPath dir w.fs := by
  have htree := ((hands_buildProject hsrc).runs h).of_cmd c rfl hc
  simp only [htree, mergedText, Untainted]
  split
  · refine forall_congr' fun r => ?_
    cases w.fs.content (dir ++ r) with
    | none => simp
    | some t => simp
  · rfl

end project

/-- A project in `REPO_DIR`, and these files in the directory it is built in. -/
def repoWorld (old : List (Path × String)) : World Label :=
  let E := Config.unset [] "p"
  ⟨old.foldl (fun fs f => fs.write (projectRoot E .vendor "foo" ++ f.1) f.2)
    (((Fs.empty.mkdirP (E.repoDir ++ ["foo"])).write (E.repoDir ++ ["foo", "CMakeLists.txt"]) "project").mkdirP
      (projectRoot E .vendor "foo")), []⟩

/-- `build_project cmake foo` -/
def buildFoo : Script Unit := buildProject (Config.unset [] "p") .vendor .cmake "foo" none

/-- The run stands at cmake. -/
def atCmake (p : Script Unit) : Bool :=
  match p with
  | .cmd c _ => c.job = some (.job (.cmake (projectWork (Config.unset [] "p") .vendor "foo")))
  | _ => false

theorem eq_cmd_of_atCmake {p : Script Unit} (h : atCmake p = true) :
    ∃ c k, p = .cmd c k ∧ Configures (Config.unset [] "p") .vendor "foo" c := by
  unfold atCmake at h
  split at h
  · exact ⟨_, _, rfl, .inl (of_decide_eq_true h)⟩
  · cases h

theorem project_tree_foo : ∃ c k v, Runs Tools.sample succeeds (buildFoo, repoWorld []) (.cmd c k, v) ∧
    ∀ r, v.fs.content (projectRoot (Config.unset [] "p") .vendor "foo" ++ r) =
      (repoWorld []).fs.content ((Config.unset [] "p").repoDir ++ ["foo"] ++ r) := by
  have hrun : execAny Tools.sample (List.replicate 2 (.done 0)) buildFoo (repoWorld []) (fun p _ => atCmake p) = true := by
    decide +kernel
  obtain ⟨p, v, hr, hp⟩ := runs_of_execAny (by decide) hrun
  obtain ⟨c, k, rfl, hc⟩ := eq_cmd_of_atCmake hp
  refine ⟨c, k, v, hr, (project_tree_iff (by decide +kernel) hr hc).2 ?_⟩
  rw [Untainted, if_pos (.inl rfl)]
  intro r hne
  have hdirs : ∀ e ∈ (repoWorld []).fs.entries, projectRoot (Config.unset [] "p") .vendor "foo" <+: e.1 →
      (repoWorld []).fs.get e.1 = some .dir := by decide +kernel
  obtain ⟨t, ht⟩ := Option.ne_none_iff_exists'.1 hne
  have hfile := Fs.content_eq_some.1 ht
  obtain ⟨n, hn⟩ := Fs.mem_of_get (by simp [projectRoot]) (hfile ▸ Option.some_ne_none _)
  have hdir := hdirs _ hn (List.prefix_append _ _)
  rw [hfile] at hdir
  cases hdir

/-- A file an earlier run left is still there when cmake runs. -/
theorem stale_file_built : ∃ c k v,
    Runs Tools.sample succeeds (buildFoo, repoWorld [(["old.cpp"], "old")]) (.cmd c k, v) ∧
    Configures (Config.unset [] "p") .vendor "foo" c ∧
    v.fs.content (projectRoot (Config.unset [] "p") .vendor "foo" ++ ["old.cpp"]) = some "old" ∧
    (repoWorld [(["old.cpp"], "old")]).fs.content ((Config.unset [] "p").repoDir ++ ["foo", "old.cpp"]) = none := by
  let merged := (repoWorld [(["old.cpp"], "old")]).fs.write
    (projectRoot (Config.unset [] "p") .vendor "foo" ++ ["CMakeLists.txt"]) "project"
  have hrun : execAny Tools.sample [.did 0 merged, .done 0] buildFoo (repoWorld [(["old.cpp"], "old")]) (fun p w =>
      atCmake p && w.fs.content (projectRoot (Config.unset [] "p") .vendor "foo" ++ ["old.cpp"]) = some "old") = true := by
    decide +kernel
  obtain ⟨p, v, hr, hp⟩ := runs_of_execAny (by decide) hrun
  rw [Bool.and_eq_true] at hp
  obtain ⟨c, k, rfl, hc⟩ := eq_cmd_of_atCmake hp.1
  exact ⟨c, k, v, hr, hc, of_decide_eq_true hp.2, by decide +kernel⟩

end BuildQt5
