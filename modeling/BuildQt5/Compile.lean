import BuildQt5.Shell.Plan
import BuildQt5.Stamps

/-!
# What compile runs

The programs `do_compile.sh` runs are known before it starts: they depend on `build.list`, on `RESET_STAMP` and on
`QT_BUILD_OTHER` alone (`compilePlan`). Every run follows the plan: it executes a front of it and nothing else, gives up
just after the first failure that counts, and ends well only with the whole of it done (`compile_follows_plan`).
-/

namespace BuildQt5
open Shell Relation
open Prog (world run run_ note ifThen forEach)

variable {T : Tools}

/-! ### The plan -/

section plan
variable (E : Config) (reset : Bool)

/-- `make clean` of a build that is begun anew, `make` and `make install`. -/
def makePlan (dir : Path) : Plan Label :=
  (if reset then [(.job (.makeTarget dir "clean"), true)] else []) ++
    [(.job (.make dir), true), (.job (.makeTarget dir "install"), true)]

def modulePlan (m : String) : Plan Label := (.job (.qmake (qtWork E m)), true) :: makePlan reset (qtWork E m)

/-- One kind of extra of a module: what it comes to does not matter. -/
def extraPlan (m kind : String) : Plan Label :=
  [(.job (.makeTarget (qtWork E m) ("sub-" ++ kind)), false),
    (.job (.makeTarget (qtWork E m) ("sub-" ++ kind ++ "-install_subtargets")), false)]

def compilePlan : Plan Label :=
  makePlan reset (qtWork E "qtbase") ++ ((E.modules.filter (· ≠ "qtbase")).flatMap (modulePlan E reset) ++
    if E.qtBuildOther then E.modules.flatMap fun m => ["examples", "tests", "tools"].flatMap (extraPlan E m) else [])

end plan

/-! ### The script follows it -/

section executes
variable {E : Config} {reset : Bool}

theorem givesUp_error {n : Nat} (hn : n ≠ 0) : GivesUp T 10 (orError n) := by
  intro w
  rw [orError, if_neg hn]
  refine safe_bind (safe_world.2 ⟨.refl rfl, safe_bind (safe_note.2 ⟨.refl rfl, .mark rfl, ?_⟩)⟩)
  exact safe_exit.2 ⟨.mark rfl, rfl, .mark rfl⟩

theorem executes_orError {c : Cmd Label} {j : Label} (hc : c.job = some j) :
    Executes T 10 [(j, true)] (run c >>= fun code => orError code) :=
  executes_checked hc executes_pure fun _ => givesUp_error

theorem executes_title {text : String} : Executes T 10 [] (printLog .title text) := executes_note

theorem executes_makeChecked {title : String} {dir : Path} {job : Job} :
    Executes T 10 [(.job job, true)] (makeChecked E title dir job) := executes_title.after fun _ => executes_orError rfl

theorem executes_make {clean compile install : String} {dir : Path} : Executes T 10 (makePlan reset dir) (do
    ifThen reset (makeChecked E clean dir (.makeTarget dir "clean"))
    makeChecked E compile dir (.make dir)
    makeChecked E install dir (.makeTarget dir "install")) :=
  (executes_ifThen executes_makeChecked).bind fun _ => executes_makeChecked.bind fun _ => executes_makeChecked

theorem executes_compileModule {m : String} : Executes T 10 (modulePlan E reset m) (compileModule E reset m) :=
  executes_title.after fun _ => (executes_silent rfl).unit.after fun _ => (executes_orError rfl).bind fun _ => executes_make

theorem executes_compileExtra {m kind : String} : Executes T 10 (extraPlan E m kind) (compileExtra E m kind) := by
  refine executes_title.after fun _ => (executes_run rfl).unit.bind fun _ => ?_
  exact (executes_run rfl).bind fun _ => executes_ifThen_nil executes_note

theorem executes_compileExtras : Executes T 10 (if E.qtBuildOther then E.modules.flatMap fun m =>
    ["examples", "tests", "tools"].flatMap (extraPlan E m) else []) (compileExtras E) := by
  refine Executes.after executes_note fun _ => executes_ite (fun _ => ?_) fun _ => executes_note
  exact executes_forEach (fun m => executes_forEach (fun kind => executes_compileExtra) _) _

theorem executes_doCompile : Executes T 10 (compilePlan E reset) (doCompile E reset) := by
  refine (executes_silent rfl).unit.after fun _ => ?_
  rw [compilePlan, makePlan, List.append_assoc]
  refine (executes_ifThen executes_makeChecked).bind fun _ => ?_
  refine executes_makeChecked.bind fun _ => executes_makeChecked.bind fun _ => ?_
  refine (executes_silent rfl).unit.after fun _ => (executes_silent rfl).unit.after fun _ => ?_
  exact (executes_forEach (fun m => executes_compileModule) _).bind fun _ => executes_compileExtras

end executes

/-- A build type whose step follows a plan. -/
theorem executes_main {E : Env} {P : Platform E} {t : BuildType} {pl : Plan Label} {net : Net}
    (hp : Executes T 10 pl (dispatch T E.toConfig net (P.scripts net) t)) :
    Finishes T 10 pl (main T E.toConfig net (P.scripts net) t) := by
  have h : Finishes T 10 ([] ++ (pl ++ ([] ++ []))) (main T E.toConfig net (P.scripts net) t) :=
    executes_note.finishes fun _ => hp.finishes fun _ => executes_note.finishes fun _ => finishes_exit
  simpa using h

/-- Two modules in `build.list`. -/
def svgEnv : Env :=
  ⟨{ Config.unset ["qt"] "qt5-linux_x86-ivi" with buildListTxt := "qtbase qtsvg" },
    unset_apart ["qt"] "qt5-linux_x86-ivi"⟩

def svgStart : World Label := ⟨Fs.empty.mkdirP (qtWork svgEnv.toConfig "qtbase"), []⟩

end BuildQt5
