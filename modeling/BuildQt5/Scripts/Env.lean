import BuildQt5.Shell.Exec
import BuildQt5.Shell.Frame
import BuildQt5.Shell.Text

/-!
# The environment of a build

The variables `build-qt5.sh` sets up before it dispatches on the build type, as the steps read them,
and the labels that name what a step reports and what the programs it runs are about.

The variables are read as absolute paths without blanks or pattern characters. The files of
`PLATFORM_DIR` that the scripts read (`build.list`, `md5sum.txt`, the patches) are part of the
environment: nothing writes there.
-/

namespace BuildQt5
open Shell

inductive BuildType where
  | all | toolchain | thirdparty | fetch | configure | compile | vendor | deploy | clean | cleanall
deriving DecidableEq

/-- What leaves a stamp below `BUILD_DIR`: a directory, with a `lock` file in it while the body runs. -/
inductive Stage where
  | toolchain | cmake | thirdparty | qt5 | vendor
deriving DecidableEq

def Stage.dirName : Stage → String
  | .toolchain => "toolchain"
  | .cmake => "cmake"
  | .thirdparty => "3rdparty"
  | .qt5 => "qt5"
  | .vendor => "vendor"

theorem Stage.dirName_inj {s s' : Stage} (h : s.dirName = s'.dirName) : s = s' := by
  revert h; cases s <;> cases s' <;> decide

inductive LogKind where
  | function | title | error | normal
deriving DecidableEq

inductive Digest where
  | md5 | sha1 | sha256
deriving DecidableEq

/-- The external programs, with the arguments that tell one run of them from another. -/
inductive Job where
  | cp (src dst : Path)
  | cpAll (srcs : List Path) (dst : Path)
  | rsync (srcs : List Path) (dst : Path)
  | chmod (file : Path)
  | ln (target : String) (link : Path)
  | wget (url : String) (out : Path)
  /-- The self-extracting cmake package. -/
  | installer (file : Path)
  | unzip (file dest : Path)
  /-- `configure` of qtbase, or of a third-party source. -/
  | configure (dir : Path)
  | cmake (work : Path)
  | qmake (work : Path)
  | make (work : Path)
  | makeTarget (work : Path) (target : String)
  | pack (file : Path)
  | strip (files : List Path)
deriving DecidableEq

inductive Label where
  /-- A line printed by `print_log`. -/
  | say (kind : LogKind) (text : String)
  /-- `build-qt5.sh` is invoked with this build type. -/
  | invoked (t : BuildType)
  /-- The body of a stage begins, with the stamp set. -/
  | started (s : Stage)
  /-- The body of a stage has come to its end. -/
  | ended (s : Stage)
  /-- A stage is passed over because of its stamp, in this state. -/
  | skipped (s : Stage) (fs : Fs)
  /-- A function of a platform script returns early, with success. -/
  | returned (function : String)
  /-- The file has this digest. -/
  | verified (file : Path) (type : Digest) (num : String)
  /-- The module the next archive is unpacked for. -/
  | extract (module : String)
  | job (j : Job)
deriving DecidableEq

/-- The stage whose stamp a label is about. -/
def Label.stage : Label → Option Stage
  | .started s | .ended s | .skipped s _ => some s
  | _ => none

abbrev Script := Prog Label

/-- The variables of `build-qt5.sh`. -/
structure Config where
  platform : String
  currentDir : Path
  buildDir : Path
  sdkDir : Path
  runtimeDir : Path
  sourceDir : Path
  repoDir : Path
  downloadDir : Path
  packageDir : Path
  targetSysroot : Option Path
  noNetwork : Bool
  downloadInternalUrl : String
  pkgConfigSysrootDir : String
  cmakeDownloadUrl : String
  cmakeDownloadMd5 : String
  qtDownloadUrlPre : String
  qtDownloadUrlPost : String
  buildListTxt : String
  md5sumTxt : Option String
  /-- The patch files of a module, name and text, as `find` lists them. -/
  patches : String → List (String × String)
  qtBuildOther : Bool
  noDeployPackup : Bool
  stripExecutable : String
  targetLibName : String
  /-- `QT_SDK_CONFIGSTR`, `QT_SDK_ENV_CONFIGSTR`, `QT_RUNTIME_CONFIGSTR`, `QT_RUNTIME_ENV_CONFIGSTR` -/
  sdkConfigstr : String
  sdkEnvConfigstr : String
  runtimeConfigstr : String
  runtimeEnvConfigstr : String

/-- What the outside answers in one invocation. -/
structure Net where
  hasCurl : Bool
  /-- Exit code and body of `curl -s .../md5sum.txt`. -/
  md5sumTxt : Nat × String
  hasRsync : Bool
  hasPkgConfig : Bool
  /-- The URLs `wget --spider` finds. -/
  spider : String → Bool

/-- No tool and no network. -/
def Net.none : Net := ⟨false, (0, ""), false, false, fun _ => false⟩

namespace Config
variable (E : Config)

/-- The modules the loops over `BUILD_LIST` do not pass over. -/
def modules : List String := (words E.buildListTxt).filter fun d => d.toList.head? ≠ some '#'

def platformDir : Path := E.currentDir ++ ["platforms", E.platform]

def stageDir (s : Stage) : Path := E.buildDir ++ [s.dirName]

def lock (s : Stage) : Path := E.stageDir s ++ ["lock"]

def hostPrefix : Path := E.sdkDir ++ ["host", "usr"]

def targetPrefix : Path := E.sdkDir ++ ["target", "usr"]

def qmakeExecutable : Path := E.hostPrefix ++ ["bin", "qmake"]

def cmakeExecutable : Path := E.hostPrefix ++ ["bin", "cmake"]

def cmakeDownloads : Path := E.currentDir ++ ["downloads", "cmake"]

def sdkPackage : Path := E.packageDir ++ [E.platform ++ "-sdk.tar.bz2"]

def runtimePackage : Path := E.packageDir ++ [E.platform ++ "-runtime.tar.bz2"]

/-- Where the steps write outside the directories of the stages. -/
def outside : List Path :=
  [E.sdkDir, E.runtimeDir, E.downloadDir, E.cmakeDownloads, E.sdkPackage, E.runtimePackage] ++
    E.targetSysroot.toList

end Config

/-- The directories `build-qt5.sh` falls back to, the other variables unset. -/
def Config.unset (currentDir : Path) (platform : String) : Config where
  platform := platform
  currentDir := currentDir
  buildDir := currentDir ++ ["build", platform]
  sdkDir := currentDir ++ ["build", platform, "sdk"]
  runtimeDir := currentDir ++ ["build", platform, "runtime"]
  sourceDir := currentDir ++ ["sources"]
  repoDir := currentDir ++ ["repo"]
  downloadDir := currentDir ++ ["downloads"]
  packageDir := currentDir ++ ["build", platform]
  targetSysroot := none
  noNetwork := false
  downloadInternalUrl := ""
  pkgConfigSysrootDir := ""
  cmakeDownloadUrl := ""
  cmakeDownloadMd5 := ""
  qtDownloadUrlPre := ""
  qtDownloadUrlPost := ""
  buildListTxt := ""
  md5sumTxt := none
  patches := fun _ => []
  qtBuildOther := false
  noDeployPackup := false
  stripExecutable := ""
  targetLibName := "lib"
  sdkConfigstr := ""
  sdkEnvConfigstr := ""
  runtimeConfigstr := ""
  runtimeEnvConfigstr := ""

/-- An environment that keeps the directories of the stages to the stages. -/
structure Env extends Config where
  outside_apart : ∀ s, ∀ r ∈ toConfig.outside, Apart r (toConfig.stageDir s)

theorem Stage.dirName_ne_package (s : Stage) (platform : String) {kind : String}
    (hk : kind.toList.getLast? = some '2') : platform ++ kind ≠ s.dirName := by
  intro h
  have h2 : some '2' = s.dirName.toList.getLast? := by
    rw [← h, String.toList_append, List.getLast?_append, hk]; rfl
  cases s <;> exact absurd h2 (by decide)

/-- The directories the script falls back to are such an environment. -/
theorem unset_apart (currentDir : Path) (platform : String) (s : Stage) :
    ∀ r ∈ (Config.unset currentDir platform).outside,
      Apart r ((Config.unset currentDir platform).stageDir s) := by
  have hdown : ∀ p : Path, Apart (currentDir ++ "downloads" :: p)
      ((Config.unset currentDir platform).stageDir s) := by
    intro p
    have h : Apart (currentDir ++ ["downloads"]) (currentDir ++ ["build"]) := Apart.child (by decide)
    refine ((h.below ?_).symm.below ?_).symm
    · exact ⟨p, by simp⟩
    · show currentDir ++ ["build"] <+: currentDir ++ ["build", platform] ++ [s.dirName]
      exact ⟨[platform, s.dirName], by simp⟩
  have hsame : ∀ x, x ≠ s.dirName → Apart ((Config.unset currentDir platform).buildDir ++ [x])
      ((Config.unset currentDir platform).stageDir s) := fun x hx => Apart.child hx
  have hsdk : (Config.unset currentDir platform).sdkDir = (Config.unset currentDir platform).buildDir ++ ["sdk"] := by
    simp [Config.unset]
  have hrun : (Config.unset currentDir platform).runtimeDir =
      (Config.unset currentDir platform).buildDir ++ ["runtime"] := by
    simp [Config.unset]
  intro r hr
  simp only [Config.outside, List.cons_append, List.nil_append, List.mem_cons] at hr
  rcases hr with rfl | rfl | rfl | rfl | rfl | rfl | hr
  · rw [hsdk]; exact hsame _ (by cases s <;> decide)
  · rw [hrun]; exact hsame _ (by cases s <;> decide)
  · exact hdown []
  · exact hdown ["cmake"]
  · exact hsame _ (s.dirName_ne_package platform (by decide))
  · exact hsame _ (s.dirName_ne_package platform (by decide))
  · simp [Config.unset] at hr

/-- The environment with nothing set. -/
def Env.unset (currentDir : Path) (platform : String) : Env :=
  ⟨Config.unset currentDir platform, unset_apart currentDir platform⟩

namespace Env
variable {E : Env} {s s' : Stage} {p : Path}

/-- Where the whole of a step works. -/
def stepArea (E : Env) (s : Stage) : Area where
  mem p := Fs.covers E.outside p = true ∨ E.stageDir s <+: p
  dir p := p = E.buildDir ∨ p = E.packageDir

/-- Where the body of a stage works: not on its own stamp. -/
def bodyArea (E : Env) (s : Stage) : Area where
  mem p := Fs.covers E.outside p = true ∨ ∃ x, x ≠ "lock" ∧ E.stageDir s ++ [x] <+: p
  dir p := p = E.buildDir ∨ p = E.packageDir ∨ p = E.stageDir s

theorem stageDir_apart (h : s ≠ s') : Apart (E.stageDir s) (E.stageDir s') :=
  Apart.child fun hn => h (Stage.dirName_inj hn)

theorem apart_of_covers (h : Fs.covers E.outside p = true) : Apart p (E.stageDir s) := by
  obtain ⟨r, hr, hrp⟩ := Fs.covers_iff.1 h
  exact (E.outside_apart s r hr).below hrp

theorem not_stageDir_buildDir : ¬ E.stageDir s <+: E.buildDir := by
  intro h
  have := h.length_le
  simp [Config.stageDir] at this

theorem not_stageDir_packageDir : ¬ E.stageDir s <+: E.packageDir := by
  intro h
  exact (E.outside_apart s E.sdkPackage (by simp [Config.outside])).2 (h.trans (List.prefix_append _ _))

theorem stageDir_lock : E.stageDir s <+: E.lock s := List.prefix_append _ _

theorem stepArea_off (h : s ≠ s') : (E.stepArea s).Off (E.stageDir s') := by
  refine ⟨fun p hp => ?_, fun p hp => ?_⟩
  · rcases hp with hp | hp
    · exact apart_of_covers hp
    · exact (stageDir_apart h).below hp
  · rcases hp with rfl | rfl
    · exact not_stageDir_buildDir
    · exact not_stageDir_packageDir

theorem bodyArea_off : (E.bodyArea s).Off (E.lock s) := by
  refine ⟨fun p hp => ?_, fun p hp hq => ?_⟩
  · rcases hp with hp | ⟨x, hx, hp⟩
    · exact ((apart_of_covers hp).symm.below stageDir_lock).symm
    · exact (Apart.child hx).below hp
  · rcases hp with rfl | rfl | rfl
    · exact not_stageDir_buildDir (stageDir_lock.trans hq)
    · exact not_stageDir_packageDir (stageDir_lock.trans hq)
    · have := hq.length_le
      simp [Config.lock] at this

theorem within_stepArea {c : Cmd Label} (h : c.Within (E.bodyArea s)) : c.Within (E.stepArea s) := by
  refine h.mono (fun p hp => ?_) (fun p hp => ?_)
  · rcases hp with hp | ⟨x, -, hp⟩
    · exact .inl hp
    · exact .inr ((List.prefix_append _ _).trans hp)
  · rcases hp with rfl | rfl | rfl
    · exact .inr (.inl rfl)
    · exact .inr (.inr rfl)
    · exact .inl (.inr (List.prefix_refl _))

end Env

end BuildQt5
