import BuildQt5.Scripts.Fetch

/-!
# The other steps, and build-qt5.sh

`do_configure.sh`, `do_compile.sh`, `do_deploy.sh`, `do_clean` and the dispatch on the build type.
A script of the platform (`toolchain.sh`, `3rdparty.sh`, `vendor.sh`) is given by `scripts`.
-/

namespace BuildQt5
open Shell
open Prog (world run run_ note ifThen forEach)

/-- The step scripts of a platform, where it has them. -/
abbrev Scripts := Stage → Option (Script Unit)

section steps
variable (T : Tools) (E : Config) (net : Net) (reset : Bool)

def qtWork (m : String) : Path := E.stageDir .qt5 ++ ["work", m]

/-! ### do_configure.sh -/

def doConfigure : Script Unit := do
  run_ (.mkdirP E.buildDir)
  run_ (.mkdirP E.hostPrefix)
  run_ (.mkdirP E.targetPrefix)
  let w ← world
  let mkspecs := (w.fs.glob (qtSrc E) (dash "qtbase")).map fun x => qtSrc E ++ [x, "mkspecs"]
  ifThen (w.fs.isDir (E.platformDir ++ ["qt5", "mkspecs"]))
    (run_ (.ext (.job (.cpAll [E.platformDir ++ ["qt5", "mkspecs"]] (qtSrc E))) mkspecs []))
  run_ (.mkdirP (qtWork E "qtbase"))
  let code ← run (.ext (.job (.configure (qtWork E "qtbase"))) [qtWork E "qtbase"] [])
  orError code

/-! ### do_compile.sh -/

/-- `make -C dir` or `make -C dir target`: it needs the directory, and may install. -/
def makeCmd (dir : Path) (job : Job) : Cmd Label := .ext (.job job) [dir, E.sdkDir] [dir]

def makeChecked (title : String) (dir : Path) (job : Job) : Script Unit := do
  printLog .title title
  let code ← run (makeCmd E dir job)
  orError code

def compileModule (m : String) : Script Unit := do
  let dir := qtWork E m
  printLog .title ("qmake " ++ m)
  run_ (.mkdirP dir)
  let code ← run (.ext (.job (.qmake dir)) [dir] [])
  orError code
  ifThen reset (makeChecked E ("clean " ++ m) dir (.makeTarget dir "clean"))
  makeChecked E ("compile " ++ m) dir (.make dir)
  makeChecked E ("install " ++ m) dir (.makeTarget dir "install")

/-- One kind of extra of a module, whose failure is only reported. -/
def compileExtra (m kind : String) : Script Unit := do
  let dir := qtWork E m
  printLog .title ("compile " ++ m ++ "-" ++ kind)
  run_ (makeCmd E dir (.makeTarget dir ("sub-" ++ kind)))
  let code ← run (makeCmd E dir (.makeTarget dir ("sub-" ++ kind ++ "-install_subtargets")))
  ifThen (code ≠ 0) (printLog .normal "(ignore)")

def compileExtras : Script Unit := do
  printLog .function "compile examples/tests/tools"
  if E.qtBuildOther then
    forEach (fun m => forEach (compileExtra E m) ["examples", "tests", "tools"]) E.modules
  else printLog .normal "(ignore)"

def doCompile : Script Unit := do
  run_ (.mkdirP E.buildDir)
  let dir := qtWork E "qtbase"
  ifThen reset (makeChecked E "clean qtbase" dir (.makeTarget dir "clean"))
  makeChecked E "compile qtbase" dir (.make dir)
  makeChecked E "install qtbase" dir (.makeTarget dir "install")
  run_ (.mkdirP (E.hostPrefix ++ ["bin"]))
  run_ (.write (E.hostPrefix ++ ["bin", "qt.conf"]) (echoE E.sdkConfigstr))
  forEach (compileModule E reset) (E.modules.filter (· ≠ "qtbase"))
  compileExtras E

/-! ### do_deploy.sh -/

/-- The patterns of the files that are left out of the runtime, as what stands before and after the
`*`. -/
def devPatterns (lib : String) : List (String × String) :=
  [("include/", ""), ("doc/", ""), (lib ++ "/", ".a"), (lib ++ "/", ".o"), (lib ++ "/", ".la"),
    ("usr/etc/", ""), ("usr/include/", ""), ("usr/doc/", ""), ("usr/ssl/", ""), ("usr/man/", ""),
    ("usr/plugins/", ""), ("usr/qml/", ""), ("usr/share/doc/", ""), ("usr/share/man/", ""),
    ("usr/" ++ lib ++ "/cmake/", ""), ("usr/" ++ lib ++ "/metatypes/", ""),
    ("usr/" ++ lib ++ "/pkgconfig/", ""), ("usr/" ++ lib ++ "/", ".a"), ("usr/" ++ lib ++ "/", ".o"),
    ("usr/" ++ lib ++ "/", ".la"), ("usr/" ++ lib ++ "/", ".prl")]

/-- `real_path`: the path below the SDK's target directory, the first `lib` renamed. -/
def realPath (lib : String) (rel : Path) : String :=
  String.ofList (replaceFirst "lib".toList lib.toList (joinPath rel).toList)

/-- The loop passes over this `real_path`. -/
def passedOver (lib real : String) : Bool :=
  real = "" || (devPatterns lib).any fun x => between x.1 x.2 real

/-- `SDK_WHOLE_PATH` -/
def sdkTarget : Path := E.sdkDir ++ ["target"]

/-- `[ ! -d $BUILD_RUNTIME_DIR/$real_dir ] && mkdir -p $BUILD_RUNTIME_DIR/$real_dir`, without quotes: the test fails
on several matches. -/
def ensureDir (fs : Fs) (dir : Path) : Script Unit :=
  match pathExpand fs E.runtimeDir dir with
  | [d] => ifThen (!fs.isDir (E.runtimeDir ++ d)) (run_ (.mkdirP (E.runtimeDir ++ d)))
  | _ => pure ()

/-- `cp -fd src dst`, `dst` being the final name: it omits directories, and copies a link as it is. -/
def cpFile (src dst : Path) : Script Nat := do
  let w ← world
  if w.fs.isDir src then pure 1 else cp src dst

/-- The copy of the file `rel` of the SDK's target directory. It goes into `$BUILD_RUNTIME_DIR/$real_dir` if that is
a directory, and to that name if it is none. -/
def deployTo (rel dir : Path) : Script Unit := do
  let w ← world
  ensureDir E w.fs dir
  let w ← world
  let code ← cpFile (sdkTarget E ++ rel)
    (if w.fs.isDir (E.runtimeDir ++ dir) then E.runtimeDir ++ dir ++ [rel.getLastD ""] else E.runtimeDir ++ dir)
  orError code

/-- `real_dir`: the directory part of `real_path`. -/
def realDir (lib : String) (rel : Path) : Path := (splitPath (realPath lib rel)).dropLast

/-- One turn of the loop of `do_deploy.sh`. -/
def deployFile (rel : Path) : Script Unit :=
  if passedOver E.targetLibName (realPath E.targetLibName rel) then pure ()
  else deployTo E rel (realDir E.targetLibName rel)

/-- The files and links below `d`, with paths relative to it. -/
def filesBelow (fs : Fs) (d : Path) : List Path :=
  ((fs.below [d]).filter fs.isFile).map fun p => p.drop d.length

/-- `$(find $SDK_WHOLE_PATH -type f -o -type l)`, split at the newlines and expanded. -/
def deployNames (fs : Fs) : List Path :=
  (filesBelow fs (sdkTarget E)).flatMap (pathExpand fs (sdkTarget E))

/-- `[ -d src ] && cp -rfd src dst/` -/
def cpIfDir (src dst : Path) : Script Unit := do
  let w ← world
  ifThen (w.fs.isDir src) (cp_ src dst)

/-- `echo -e text > file && chmod +x file` -/
def writeExecutable (file : Path) (text : String) : Script Nat := do
  let code ← run (.write file (echoE text))
  if code = 0 then run (.ext (.job (.chmod file)) [] []) else pure code

def packup (file : Path) : Script Unit :=
  if E.noDeployPackup then printLog .normal "(ignore)"
  else do
    let code ← run (.ext (.job (.pack file)) [file] [])
    orError code

def installSysroot : Script Unit := do
  printLog .title "install sysroot"
  match E.targetSysroot with
  | none => printLog .normal "(ignore)"
  | some d => do
    run_ (.mkdirP d)
    let code ← run (.ext (.job (.cpAll [E.sdkDir ++ ["target"]] d)) [d] [])
    orError code

def installRuntime : Script Unit := do
  let R := E.runtimeDir
  printLog .title "install runtime"
  let w ← world
  ifThen (w.fs.isDir R) (run_ (.rmRf [R]))
  run_ (.mkdirP (R ++ ["etc"]))
  run_ (.mkdirP (R ++ ["usr", "bin"]))
  run_ (.mkdirP (R ++ ["usr", E.targetLibName]))
  run_ (.mkdirP (R ++ ["usr", "share"]))
  let w ← world
  forEach (deployFile E) (deployNames E w.fs)
  cpIfDir (E.targetPrefix ++ ["etc"]) (R ++ ["etc"])
  cpIfDir (E.targetPrefix ++ ["plugins"]) (R ++ ["usr", E.targetLibName, "plugins"])
  cpIfDir (E.targetPrefix ++ ["qml"]) (R ++ ["usr", E.targetLibName, "qml"])
  cpIfDir (E.currentDir ++ ["common", "fonts"]) (R ++ ["usr", "share", "fonts"])
  let w ← world
  ifThen (w.fs.isDir (E.platformDir ++ ["sysroot"]))
    (run_ (.ext (.job (.cpAll [E.platformDir ++ ["sysroot"]] R)) [R] []))
  let _ ← writeExecutable (R ++ ["etc", "qt5.sh"]) E.runtimeEnvConfigstr
  let code ← run (.write (R ++ ["usr", "bin", "qt.conf"]) (echoE E.runtimeConfigstr))
  orError code

def stripRuntime : Script Unit := do
  printLog .title "strip runtime"
  if E.stripExecutable = "" then printLog .normal "(ignore)"
  else do
    let code ← stripSymbol T E.stripExecutable E.runtimeDir
    orError code

def doDeploy : Script Unit := do
  run_ (.mkdirP E.buildDir)
  run_ (.mkdirP E.hostPrefix)
  run_ (.mkdirP E.targetPrefix)
  run_ (.mkdirP E.packageDir)
  let code ← writeExecutable (E.sdkDir ++ ["environment-setup"]) E.sdkEnvConfigstr
  orError code
  printLog .title "package sdk"
  packup E E.sdkPackage
  installSysroot E
  installRuntime E
  stripRuntime T E
  printLog .title "package runtime"
  packup E E.runtimePackage

/-! ### do_clean -/

def cleanOne (name : String) : Script Unit :=
  if name = "toolchain" then pure ()
  else do
    printLog .title ("remove " ++ name)
    let code ← run (.rmRf [E.buildDir ++ [name]])
    orError code

def doClean : Script Unit := do
  run_ (.mkdirP E.buildDir)
  printLog .function "clean"
  let w ← world
  forEach (cleanOne E) (w.fs.glob E.buildDir visible)

/-- `do_clean all`: `$CURRENT_DIR/build`, wherever `BUILD_DIR` is. -/
def doCleanall : Script Unit := do
  run_ (.mkdirP E.buildDir)
  printLog .function "cleanall"
  let w ← world
  run_ (.rmRf ((w.fs.glob (E.currentDir ++ ["build"]) visible).map fun x => E.currentDir ++ ["build", x]))

/-! ### build-qt5.sh -/

variable (scripts : Scripts)

def doToolchain : Script Unit := do
  printLog .function "toolchain"
  shellBuild E reset .toolchain false (scripts .toolchain)

def doThirdparty : Script Unit := do
  printLog .function "3rdparty"
  installPkgconfig E net
  installCmake T E net reset
  shellBuild E reset .thirdparty true (scripts .thirdparty)

def doVendor : Script Unit := do
  printLog .function "vendor"
  shellBuild E reset .vendor true (scripts .vendor)

def invokeFetch : Script Unit := do
  printLog .function "fetch"
  doFetch T E net reset

def invokeConfigure : Script Unit := do
  printLog .function "configure"
  doConfigure E

def invokeCompile : Script Unit := do
  printLog .function "compile"
  doCompile E reset

def invokeDeploy : Script Unit := do
  printLog .function "deploy"
  doDeploy T E

/-- `RESET_STAMP` is 0 in `all` alone. -/
def dispatch (t : BuildType) : Script Unit :=
  match t with
  | .all => do
    doToolchain E false scripts
    doThirdparty T E net false scripts
    invokeFetch T E net false
    invokeConfigure E
    invokeCompile E false
    doVendor E false scripts
    invokeDeploy T E
  | .toolchain => doToolchain E true scripts
  | .thirdparty => doThirdparty T E net true scripts
  | .fetch => invokeFetch T E net true
  | .configure => invokeConfigure E
  | .compile => invokeCompile E true
  | .vendor => doVendor E true scripts
  | .deploy => invokeDeploy T E
  | .clean => doClean E
  | .cleanall => doCleanall E

def main (t : BuildType) : Script Unit := do
  note (.invoked t)
  dispatch T E net scripts t
  printLog .function "all finished"
  .exit 0

/-- What holds of the scripts that the steps are put together from, and of programs one after the other. -/
structure Pieces (D : Script Unit → Prop) : Prop where
  bind : ∀ {p q : Script Unit}, D p → D q → D (p >>= fun _ => q)
  say : ∀ text, D (printLog .function text)
  pkgconfig : D (installPkgconfig E net)
  cmake : ∀ reset, D (installCmake T E net reset)
  stage : ∀ s reset normal, s ≠ .cmake → s ≠ .qt5 → D (shellBuild E reset s normal (scripts s))
  fetch : ∀ reset, D (doFetch T E net reset)
  configure : D (doConfigure E)
  compile : ∀ reset, D (doCompile E reset)
  deploy : D (doDeploy T E)

theorem Pieces.dispatch {T : Tools} {E : Config} {net : Net} {scripts : Scripts} {D : Script Unit → Prop}
    (h : Pieces T E net scripts D) (t : BuildType) (hclean : t = .clean → D (doClean E))
    (hcleanall : t = .cleanall → D (doCleanall E)) : D (dispatch T E net scripts t) := by
  have htoolchain : ∀ reset, D (doToolchain E reset scripts) := fun reset =>
    h.bind (h.say _) (h.stage _ _ _ (by decide) (by decide))
  have hthirdparty : ∀ reset, D (doThirdparty T E net reset scripts) := fun reset =>
    h.bind (h.say _) (h.bind h.pkgconfig (h.bind (h.cmake _) (h.stage _ _ _ (by decide) (by decide))))
  have hvendor : ∀ reset, D (doVendor E reset scripts) := fun reset =>
    h.bind (h.say _) (h.stage _ _ _ (by decide) (by decide))
  have hfetch : ∀ reset, D (invokeFetch T E net reset) := fun reset => h.bind (h.say _) (h.fetch _)
  have hconfigure : D (invokeConfigure E) := h.bind (h.say _) h.configure
  have hcompile : ∀ reset, D (invokeCompile E reset) := fun reset => h.bind (h.say _) (h.compile _)
  have hdeploy : D (invokeDeploy T E) := h.bind (h.say _) h.deploy
  cases t with
  | all =>
    exact h.bind (htoolchain _) (h.bind (hthirdparty _) (h.bind (hfetch _) (h.bind hconfigure (h.bind (hcompile _)
      (h.bind (hvendor _) hdeploy)))))
  | toolchain => exact htoolchain _
  | thirdparty => exact hthirdparty _
  | fetch => exact hfetch _
  | configure => exact hconfigure
  | compile => exact hcompile _
  | vendor => exact hvendor _
  | deploy => exact hdeploy
  | clean => exact hclean rfl
  | cleanall => exact hcleanall rfl

end steps

/-! ### Where the steps work -/

section areas
variable {E : Env} {reset : Bool} {M : Label → Prop} (hM : ∀ m : Label, m.stage = none → M m)

open Prog

theorem mem_qtWork (m : String) : (E.bodyArea .qt5).mem (qtWork E.toConfig m) := mem_bodyArea (by decide)

theorem within_makeCmd {m : String} {job : Job} :
    (makeCmd E.toConfig (qtWork E.toConfig m) job).Within (E.bodyArea .qt5) := by
  refine within_ext fun p hp => ?_
  simp only [List.mem_cons, List.not_mem_nil, or_false] at hp
  rcases hp with rfl | rfl
  · exact mem_qtWork _
  · exact .inl (mem_sdk (List.prefix_refl _))

include hM

theorem all_doConfigure : (doConfigure E.toConfig).All (Cmd.Within (E.bodyArea .qt5)) M := by
  refine All.bind (all_run_.2 (.inr (.inl rfl))) fun _ => ?_
  refine All.bind (all_run_.2 (.inl (.inl (mem_sdk (List.prefix_append _ _))))) fun _ => ?_
  refine All.bind (all_run_.2 (.inl (.inl (mem_sdk (List.prefix_append _ _))))) fun _ => ?_
  refine All.bind (all_world.2 trivial) fun w => All.bind (all_ifThen fun _ => all_run_.2 ?_) fun _ => ?_
  · refine within_ext fun p hp => ?_
    obtain ⟨x, -, rfl⟩ := List.mem_map.1 hp
    exact mem_qtSrc _
  · refine All.bind (all_run_.2 (.inl (mem_qtWork _))) fun _ => ?_
    exact All.bind (all_run.2 (within_ext (by simpa using mem_qtWork _))) fun _ => all_orError hM

theorem all_makeChecked {title m : String} {job : Job} :
    (makeChecked E.toConfig title (qtWork E.toConfig m) job).All (Cmd.Within (E.bodyArea .qt5)) M :=
  All.bind (all_printLog hM) fun _ => All.bind (all_run.2 (within_makeCmd)) fun _ => all_orError hM

theorem all_compileModule {m : String} :
    (compileModule E.toConfig reset m).All (Cmd.Within (E.bodyArea .qt5)) M := by
  refine All.bind (all_printLog hM) fun _ => All.bind (all_run_.2 (.inl (mem_qtWork _))) fun _ => ?_
  refine All.bind (all_run.2 (within_ext (by simpa using mem_qtWork _))) fun _ => ?_
  refine All.bind (all_orError hM) fun _ => All.bind (all_ifThen fun _ => all_makeChecked hM) fun _ => ?_
  exact All.bind (all_makeChecked hM) fun _ => all_makeChecked hM

theorem all_compileExtras : (compileExtras E.toConfig).All (Cmd.Within (E.bodyArea .qt5)) M := by
  refine All.bind (all_printLog hM) fun _ => all_ite (fun _ => ?_) fun _ => all_printLog hM
  refine all_forEach fun m _ => all_forEach fun kind _ => ?_
  refine All.bind (all_printLog hM) fun _ => All.bind (all_run_.2 (within_makeCmd)) fun _ => ?_
  exact All.bind (all_run.2 (within_makeCmd)) fun _ => all_ifThen fun _ => all_printLog hM

theorem all_doCompile : (doCompile E.toConfig reset).All (Cmd.Within (E.bodyArea .qt5)) M := by
  refine All.bind (all_run_.2 (.inr (.inl rfl))) fun _ => ?_
  refine All.bind (all_ifThen fun _ => all_makeChecked hM) fun _ => All.bind (all_makeChecked hM) fun _ => ?_
  refine All.bind (all_makeChecked hM) fun _ => All.bind (all_run_.2 (.inl (.inl mem_hostPrefix))) fun _ => ?_
  refine All.bind (all_run_.2 fun r hr => ?_) fun _ => ?_
  · rw [List.mem_singleton.1 hr]; exact .inl mem_hostPrefix
  · exact All.bind (all_forEach fun _ _ => all_compileModule hM) fun _ => all_compileExtras hM

omit hM in
theorem all_writeExecutable {A : Area} {file : Path} {text : String} (h : A.mem file) :
    (writeExecutable file text).All (Cmd.Within A) M := by
  refine All.bind (all_run.2 fun r hr => ?_) fun _ => ?_
  · rwa [List.mem_singleton.1 hr]
  · exact all_ite (fun _ => all_run.2 (within_ext (by simp))) fun _ => trivial

section deploy
variable {T : Tools} {A : Area} (hR : ∀ p, A.mem (E.runtimeDir ++ p))
include hR

omit hM in
theorem all_ensureDir {fs : Fs} {dir : Path} : (ensureDir E.toConfig fs dir).All (Cmd.Within A) M := by
  unfold ensureDir
  split
  · exact all_ifThen fun _ => all_run_.2 (.inl (hR _))
  · trivial

theorem all_deployTo {rel dir : Path} : (deployTo E.toConfig rel dir).All (Cmd.Within A) M := by
  refine All.bind (all_world.2 trivial) fun w => All.bind (all_ensureDir hR) fun _ => ?_
  refine All.bind (all_world.2 trivial) fun w => All.bind (All.bind (all_world.2 trivial) fun w => ?_) fun _ =>
    all_orError hM
  refine all_ite (fun _ => all_pure.2 trivial) fun _ => all_cp ?_
  split
  · rw [List.append_assoc]; exact hR _
  · exact hR _

theorem all_deployFile {rel : Path} : (deployFile E.toConfig rel).All (Cmd.Within A) M :=
  all_ite (fun _ => all_pure.2 trivial) fun _ => all_deployTo hM hR

theorem all_installRuntime : (installRuntime E.toConfig).All (Cmd.Within A) M := by
  have hR0 : A.mem E.runtimeDir := by simpa using hR []
  have hcp : ∀ src p, (cpIfDir src (E.runtimeDir ++ p)).All (Cmd.Within A) M := fun src p =>
    All.bind (all_world.2 trivial) fun w => all_ifThen fun _ => all_cp_ (hR p)
  refine All.bind (all_printLog hM) fun _ => All.bind (all_world.2 trivial) fun w => ?_
  refine All.bind (all_ifThen fun _ => all_run_.2 fun r hr => ?_) fun _ => ?_
  · rwa [List.mem_singleton.1 hr]
  refine All.bind (all_run_.2 (.inl (hR _))) fun _ => All.bind (all_run_.2 (.inl (hR _))) fun _ => ?_
  refine All.bind (all_run_.2 (.inl (hR _))) fun _ => All.bind (all_run_.2 (.inl (hR _))) fun _ => ?_
  refine All.bind (all_world.2 trivial) fun w => All.bind (all_forEach fun rel _ => all_deployFile hM hR) fun _ => ?_
  refine All.bind (hcp _ _) fun _ => All.bind (hcp _ _) fun _ => All.bind (hcp _ _) fun _ => ?_
  refine All.bind (hcp _ _) fun _ => All.bind (all_world.2 trivial) fun w => ?_
  refine All.bind (all_ifThen fun _ => all_run_.2 (within_ext (by simpa using hR0))) fun _ => ?_
  refine All.bind (all_writeExecutable (hR _)) fun _ => All.bind (all_run.2 fun r hr => ?_) fun _ => all_orError hM
  rw [List.mem_singleton.1 hr]; exact hR _

theorem all_stripOne {name : Path} : (stripOne T E.runtimeDir name).All (Cmd.Within A) M := by
  refine All.bind (all_world.2 trivial) fun w => all_ite (fun _ => all_note.2 (hM _ rfl)) fun _ => ?_
  refine all_ite (fun _ => all_note.2 (hM _ rfl)) fun _ => All.bind (all_note.2 (hM _ rfl)) fun _ => ?_
  refine all_run_.2 (within_ext fun p hp => ?_)
  obtain ⟨r, -, rfl⟩ := List.mem_map.1 hp
  exact hR _

theorem all_stripRuntime : (stripRuntime T E.toConfig).All (Cmd.Within A) M := by
  refine All.bind (all_printLog hM) fun _ => all_ite (fun _ => all_printLog hM) fun _ => ?_
  refine All.bind (all_ite (fun _ => trivial) fun _ => All.bind (all_world.2 trivial) fun w => ?_) fun _ =>
    all_orError hM
  exact All.bind (all_forEach fun name _ => all_stripOne hM hR) fun _ => trivial

end deploy

theorem all_doDeploy {T : Tools} {s : Stage} : (doDeploy T E.toConfig).All (Cmd.Within (E.bodyArea s)) M := by
  have hsdk : ∀ p, E.sdkDir <+: p → (E.bodyArea s).mem p := fun p hp => .inl (mem_sdk hp)
  have hR : ∀ p, (E.bodyArea s).mem (E.runtimeDir ++ p) := fun p =>
    .inl (Fs.covers_iff.2 ⟨E.runtimeDir, by simp [Config.outside], List.prefix_append _ _⟩)
  have hpack : ∀ file, (E.bodyArea s).mem file → (packup E.toConfig file).All (Cmd.Within (E.bodyArea s)) M :=
    fun file h => all_ite (fun _ => all_printLog hM) fun _ =>
      All.bind (all_run.2 (within_ext (by simpa using h))) fun _ => all_orError hM
  refine All.bind (all_run_.2 (.inr (.inl rfl))) fun _ => ?_
  refine All.bind (all_run_.2 (.inl (hsdk _ (List.prefix_append _ _)))) fun _ => ?_
  refine All.bind (all_run_.2 (.inl (hsdk _ (List.prefix_append _ _)))) fun _ => ?_
  refine All.bind (all_run_.2 (.inr (.inr (.inl rfl)))) fun _ => ?_
  refine All.bind (all_writeExecutable (hsdk _ (List.prefix_append _ _))) fun _ => ?_
  refine All.bind (all_orError hM) fun _ => All.bind (all_printLog hM) fun _ => ?_
  refine All.bind (hpack _ ?_) fun _ => All.bind ?_ fun _ => ?_
  · exact .inl (Fs.covers_iff.2 ⟨E.sdkPackage, by simp [Config.outside], List.prefix_refl _⟩)
  · refine All.bind (all_printLog hM) fun _ => ?_
    split
    · exact all_printLog hM
    · rename_i d hd
      have hmem : (E.bodyArea s).mem d :=
        .inl (Fs.covers_iff.2 ⟨d, by simp [Config.outside, hd], List.prefix_refl _⟩)
      refine All.bind (all_run_.2 (.inl hmem)) fun _ => ?_
      exact All.bind (all_run.2 (within_ext (by simpa using hmem))) fun _ => all_orError hM
  refine All.bind (all_installRuntime hM hR) fun _ => All.bind (all_stripRuntime hM hR) fun _ => ?_
  refine All.bind (all_printLog hM) fun _ => hpack _ ?_
  exact .inl (Fs.covers_iff.2 ⟨E.runtimePackage, by simp [Config.outside], List.prefix_refl _⟩)

end areas

end BuildQt5
