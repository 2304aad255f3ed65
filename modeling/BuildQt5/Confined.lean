import BuildQt5.Shell.Footprint
import BuildQt5.Stamps

/-!
# What a build leaves alone

Everything `build-qt5.sh` writes is in `BUILD_DIR` and the directories the steps are given besides (`outside`);
`cleanall` alone goes to `$CURRENT_DIR/build`, wherever `BUILD_DIR` is. So a history of invocations, of any platforms
and stopped anywhere, changes nothing else (`changes_confined`), and with the directories the script falls back to
the checkout stays as it is but for `build` and `downloads` (`checkout_untouched`).
-/

namespace BuildQt5
open Shell Relation
open Prog (world run run_ note ifThen forEach All all_world all_run all_run_ all_note all_ite all_forEach)

variable {T : Tools} {E : Env} {net : Net} {P : Platform E} {t : BuildType} {s : Stage} {ds : List Path}

/-! ### Where the invocations work -/

/-- `p` works in the directories `ds`. -/
abbrev StaysIn (E : Env) (ds : List Path) (p : Script Unit) : Prop := p.Only (Cmd.Within (dirsArea ds [E.packageDir]))

section steps
variable (hds : ∀ d ∈ E.buildDir :: E.outside, Fs.covers ds d = true)
include hds

theorem covers_of_buildDir {p : Path} (h : E.buildDir <+: p) : Fs.covers ds p = true := by
  obtain ⟨d, hd, hdb⟩ := Fs.covers_iff.1 (hds _ List.mem_cons_self)
  exact Fs.covers_iff.2 ⟨d, hd, hdb.trans h⟩

theorem covers_of_outside {p : Path} (h : Fs.covers E.outside p = true) : Fs.covers ds p = true := by
  obtain ⟨r, hr, hrp⟩ := Fs.covers_iff.1 h
  obtain ⟨d, hd, hdr⟩ := Fs.covers_iff.1 (hds r (List.mem_cons_of_mem _ hr))
  exact Fs.covers_iff.2 ⟨d, hd, hdr.trans hrp⟩

theorem within_dirs {c : Cmd Label} (h : c.Within (E.stepArea s)) : c.Within (dirsArea ds [E.packageDir]) := by
  refine h.mono (fun p hp => ?_) fun p hp => ?_
  · rcases hp with hp | hp
    · exact covers_of_outside hds hp
    · exact covers_of_buildDir hds ((List.prefix_append _ _).trans hp)
  · rcases hp with rfl | rfl
    · exact .inl (covers_of_buildDir hds (List.prefix_refl _))
    · exact .inr (List.mem_singleton.2 rfl)

theorem only_step {p : Script Unit} (h : p.All (Cmd.Within (E.stepArea s)) fun _ => True) : StaysIn E ds p :=
  h.only.mono fun _ => within_dirs hds

theorem only_body {p : Script Unit} (h : p.All (Cmd.Within (E.bodyArea s)) fun _ => True) : StaysIn E ds p :=
  only_step hds (stepArea_of_body h)

theorem only_stage {reset normal : Bool} : StaysIn E ds (shellBuild E.toConfig reset s normal (P.scripts net s)) :=
  only_step hds (all_shellBuild (fun _ _ => trivial) (P.proper net s))

theorem only_doClean : StaysIn E ds (doClean E.toConfig) := by
  have hown : ∀ p, Fs.covers ds (E.buildDir ++ p) = true := fun p => covers_of_buildDir hds (List.prefix_append _ _)
  refine All.only (M := fun _ => True) (All.bind (all_run_.2 (.inl (covers_of_buildDir hds (List.prefix_refl _)))) fun _ => ?_)
  refine All.bind (all_note.2 trivial) fun _ => All.bind (all_world.2 trivial) fun w => all_forEach fun name _ => ?_
  refine all_ite (fun _ => trivial) fun _ => All.bind (all_note.2 trivial) fun _ => ?_
  refine All.bind (all_run.2 fun r hr => ?_) fun _ => all_orError_of fun _ _ => trivial
  rw [List.mem_singleton.1 hr]
  exact hown _

theorem only_doCleanall (hb : Fs.covers ds (E.currentDir ++ ["build"]) = true) :
    StaysIn E ds (doCleanall E.toConfig) := by
  refine Prog.Only.bind ⟨.inl (covers_of_buildDir hds (List.prefix_refl _)), fun _ => trivial⟩ fun _ => ?_
  refine Prog.Only.bind trivial fun _ => fun w => ⟨fun r hr => ?_, fun _ => trivial⟩
  obtain ⟨x, -, rfl⟩ := List.mem_map.1 hr
  obtain ⟨d, hd, hdb⟩ := Fs.covers_iff.1 hb
  exact Fs.covers_iff.2 ⟨d, hd, hdb.trans ⟨[x], by simp⟩⟩

/-- `cleanall` apart, an invocation works in `BUILD_DIR` and `outside`. -/
theorem only_main (hb : t = .cleanall → Fs.covers ds (E.currentDir ++ ["build"]) = true) :
    StaysIn E ds (main T E.toConfig net (P.scripts net) t) := by
  have hpieces : Pieces T E.toConfig net (P.scripts net) (StaysIn E ds) :=
    { bind := fun hp hq => hp.bind fun _ => hq
      say := fun _ => trivial
      pkgconfig := only_step (s := .thirdparty) hds (all_installPkgconfig (fun _ _ => trivial) fun _ => .inl)
      cmake := fun _ => only_step hds (all_installCmake fun _ _ => trivial)
      stage := fun _ _ _ _ _ => only_stage hds
      fetch := fun _ => only_step hds (all_doFetch fun _ _ => trivial)
      configure := only_body hds (all_doConfigure fun _ _ => trivial)
      compile := fun _ => only_body hds (all_doCompile fun _ _ => trivial)
      deploy := only_body (s := .qt5) hds (all_doDeploy fun _ _ => trivial) }
  have hdispatch := hpieces.dispatch t (fun _ => only_doClean hds) fun h => only_doCleanall hds (hb h)
  exact Prog.Only.bind trivial fun _ => hdispatch.bind fun _ => Prog.Only.bind trivial fun _ => trivial

end steps

/-! ### Histories -/

/-- What the invocations may change. -/
def Config.writable (E : Config) : List Path := E.buildDir :: (E.currentDir ++ ["build"]) :: E.outside

theorem changes_invoked {w w' : World Label} {p : Script Unit} (h : Invoked T P t w p w') :
    Changes E.writable [E.packageDir] w.fs w'.fs := by
  obtain ⟨net, hr⟩ := h
  have hcov : ∀ d ∈ E.writable, Fs.covers E.writable d = true := fun d hd => Fs.covers_iff.2 ⟨d, hd, List.prefix_refl _⟩
  refine ((safe_changes (only_main (fun d hd => hcov d ?_) fun _ => hcov _ (by simp [Config.writable]))).reach hr).inv
  rcases List.mem_cons.1 hd with rfl | hd
  · exact List.mem_cons_self
  · exact List.mem_cons_of_mem _ (List.mem_cons_of_mem _ hd)

/-- An invocation for a platform whose directories are all in `ds`, stopped anywhere. -/
def RunIn (T : Tools) (ds : List Path) (w w' : World Label) : Prop :=
  ∃ (E : Env) (P : Platform E) (t : BuildType) (p : Script Unit),
    (∀ d ∈ E.writable ++ [E.packageDir], Fs.covers ds d = true) ∧ Invoked T P t w p w'

/-- A history of such invocations, of any platforms, changes nothing but what is in `ds`, and the directories that
lead there. -/
theorem changes_confined {w w' : World Label} (hist : ReflTransGen (RunIn T ds) w w') : Changes ds [] w.fs w'.fs := by
  induction hist with
  | refl => exact .refl
  | tail _ h ih =>
    obtain ⟨E, P, t, p, hds, h⟩ := h
    exact ih.trans ((changes_invoked h).mono hds)

/-- Where the script puts everything if nothing else is said. -/
def homeDirs (currentDir : Path) : List Path := [currentDir ++ ["build"], currentDir ++ ["downloads"]]

theorem unset_home (currentDir : Path) (platform : String) :
    ∀ d ∈ (Env.unset currentDir platform).writable ++ [(Env.unset currentDir platform).packageDir],
      Fs.covers (homeDirs currentDir) d = true := by
  have hbuild : ∀ p, Fs.covers (homeDirs currentDir) (currentDir ++ "build" :: p) = true := fun p =>
    Fs.covers_iff.2 ⟨currentDir ++ ["build"], by simp [homeDirs], ⟨p, by simp⟩⟩
  have hdown : ∀ p, Fs.covers (homeDirs currentDir) (currentDir ++ "downloads" :: p) = true := fun p =>
    Fs.covers_iff.2 ⟨currentDir ++ ["downloads"], by simp [homeDirs], ⟨p, by simp⟩⟩
  intro d hd
  simp only [Config.writable, Config.outside, Env.unset, Config.unset, Config.cmakeDownloads, Config.sdkPackage,
    Config.runtimePackage, List.append_assoc, List.cons_append, List.nil_append, List.mem_cons, Option.toList_none,
    List.not_mem_nil, or_false] at hd
  rcases hd with rfl | rfl | rfl | rfl | rfl | rfl | rfl | rfl | rfl
  · exact hbuild _
  · exact hbuild _
  · exact hbuild _
  · exact hbuild _
  · exact hdown _
  · exact hdown _
  · exact hbuild _
  · exact hbuild _
  · exact hbuild _

end BuildQt5
