import BuildQt5.Scripts.Platforms
import BuildQt5.Shell.Tidy

/-!
# What the scripts are put together from

Every function of the scripts is tidy: it gives up through `print_log error` only, prints no headline of a
step, and leaves the downloading to `fetch_download`, which is the one procedure that runs `wget` and moves
files. `Calls D` says of a script that it is tidy but for procedures of `D`: the calls of `fetch_download`, with
the URL, the directory and the digest of each, and the commands that unpack an archive.
-/

namespace BuildQt5
open Shell
open Prog (world run run_ note ifThen forEach Tidy Composed tidy_pure tidy_world tidy_note tidy_run tidy_run_ tidy_ite
  tidy_ifThen tidy_forEach composed_ite composed_forEach)

/-- The line of `print_log error`. -/
def failureLine (log : List (Event Label)) : Label := .say .error ("*** " ++ lastLog log ++ " failed! ***")

/-- No file is moved, nothing is downloaded and nothing unpacked. -/
def Routine : Cmd Label → Prop
  | .mv _ _ | .tar _ _ | .ext (.job (.wget _ _)) _ _ | .ext (.job (.unzip _ _)) _ _ => False
  | _ => True

/-- Anything but the headline of a step. -/
def NotHeadline : Label → Prop
  | .say .function _ => False
  | _ => True

abbrev Plain {α : Type} (p : Script α) : Prop := p.Tidy Routine NotHeadline failureLine 10

abbrev Calls (D : Script Nat → Prop) {α : Type} (p : Script α) : Prop :=
  p.Composed Routine NotHeadline failureLine 10 D

/-- `toolchain.sh` from the download of the NDK to its unpacking. -/
def unpackNdk (T : Tools) (E : Config) (net : Net) (ndk : Ndk) : Script Nat := do
  let pkg := ndk.ndkName ++ "-linux-x86_64.zip"
  let dir := E.downloadDir ++ ["toolchain"]
  let code ← fetchDownload T E net ("https://mirrors.cloud.tencent.com/AndroidSDK/" ++ pkg) dir ""
    "b99a69907ca29e8181852645328b6004" .md5
  orError code
  printLog .title "decompress ndk"
  run_ (.mkdirP (E.stageDir .toolchain))
  removeOldNdk E
  run (.ext (.job (.unzip (dir ++ [pkg]) (E.stageDir .toolchain))) [E.stageDir .toolchain ++ [ndk.ndkName]] [])

/-- The download of a package and its unpacking. -/
def fetchUntar (T : Tools) (E : Config) (net : Net) (title url md5 file : String) : Script Nat := do
  fetchChecked T E net title url md5
  run (.tar [thirdpartyDownloads E ++ [file]] (thirdpartySrc E))

def unzipProtoc (T : Tools) (E : Config) (net : Net) : Script Nat := do
  let host := thirdpartySrc E ++ ["protoc-host"]
  fetchChecked T E net "download protoc-host"
    "https://github.com/protocolbuffers/protobuf/releases/download/v3.20.0/protoc-3.20.0-linux-x86_64.zip"
    "bda6439729a515d1d8c71b41e0ab1fb0"
  run_ (.mkdirP host)
  printLog .title "install protoc-host"
  run (.ext (.job (.unzip (thirdpartyDownloads E ++ ["protoc-3.20.0-linux-x86_64.zip"]) host)) [host] [])

/-- The packages of the third-party scripts: URL, MD5 and file. -/
def packages : List (String × String × String) :=
  [("http://sources.buildroot.net/libopenssl/openssl-1.1.1n.tar.gz", "2aad5635f9bb338bc2c6b7d19cbc9676",
      "openssl-1.1.1n.tar.gz"),
    ("http://sources.buildroot.net/boost/boost_1_74_0.tar.bz2", "da07ca30dd1c0d1fdedbd487efee01bd",
      "boost_1_74_0.tar.bz2"),
    ("https://github.com/protocolbuffers/protobuf/releases/download/v3.20.0/protoc-3.20.0-linux-x86_64.zip",
      "bda6439729a515d1d8c71b41e0ab1fb0", "protoc-3.20.0-linux-x86_64.zip"),
    ("https://github.com/protocolbuffers/protobuf/releases/download/v3.20.0/protobuf-cpp-3.20.0.tar.gz",
      "1db6ee0c403452514fd87e5c1a0f8405", "protobuf-cpp-3.20.0.tar.gz")]

/-- `D` holds of what downloads or unpacks: of `fetch_download`, and of a package from its download to its
unpacking. -/
structure Procedures (T : Tools) (E : Config) (net : Net) (ndk : Ndk) (D : Script Nat → Prop) : Prop where
  cmake : D (fetchDownload T E net E.cmakeDownloadUrl E.cmakeDownloads "" E.cmakeDownloadMd5 .md5)
  ndk : D (unpackNdk T E net ndk)
  package : ∀ x ∈ packages, D (fetchDownload T E net x.1 (thirdpartyDownloads E) "" x.2.1 .md5)
  tarball : ∀ title, ∀ x ∈ packages, D (fetchUntar T E net title x.1 x.2.1 x.2.2)
  protoc : D (unzipProtoc T E net)
  generator : ∀ (name : String) (work : Path),
    D (run (.ext (.job (.unzip (E.sourceDir ++ [name, name ++ "*.zip"]) work)) [work] []))
  source : ∀ list m, D (fetchDownload T E net (E.qtDownloadUrlPre ++ "/" ++ (m ++ E.qtDownloadUrlPost))
    (qtDownloads E) "" (digestOf list m) .md5)
  module : ∀ (fs : Fs) (m : String),
    D (run (.tar (expand fs (qtDownloads E) (between (m ++ "-") ".tar.xz") (m ++ "-*.tar.xz")) (qtSrc E)))

variable {T : Tools} {E : Config} {net : Net} {ndk : Ndk} {D : Script Nat → Prop} {s : Stage} {reset : Bool}

/-! ### common.sh -/

theorem plain_printLog {kind : LogKind} {text : String} (h : kind ≠ .function) : Plain (printLog kind text) := by
  cases kind with
  | function => exact absurd rfl h
  | title => exact tidy_note.2 trivial
  | error => exact .inl fun _ => rfl
  | normal => exact tidy_note.2 trivial

theorem plain_title {text : String} : Plain (printLog .title text) := plain_printLog (by decide)

theorem plain_error : Plain (printLog .error "") := plain_printLog (by decide)

theorem plain_normal {text : String} : Plain (printLog .normal text) := plain_printLog (by decide)

theorem plain_orError {code : Nat} : Plain (orError code) := tidy_ite (fun _ => trivial) fun _ => plain_error

theorem plain_cp {src dst : Path} : Plain (cp src dst) := tidy_run.2 trivial

theorem plain_cp_ {src dst : Path} : Plain (cp_ src dst) := plain_cp.bind fun _ => trivial

/-- A command whose status is looked at. -/
theorem plain_checked {c : Cmd Label} (h : Routine c) : Plain (do
    let code ← run c
    orError code) := (tidy_run.2 h).bind fun _ => plain_orError

theorem plain_stripSymbol {command : String} {dir : Path} : Plain (stripSymbol T command dir) := by
  refine tidy_ite (fun _ => trivial) fun _ => (tidy_world.2 trivial).bind fun w => Tidy.bind ?_ fun _ => trivial
  refine tidy_forEach fun name _ => (tidy_world.2 trivial).bind fun v => ?_
  refine tidy_ite (fun _ => tidy_note.2 trivial) fun _ => tidy_ite (fun _ => tidy_note.2 trivial) fun _ => ?_
  exact (tidy_note.2 trivial).bind fun _ => tidy_run_.2 trivial

theorem plain_unlock : Plain (unlock E s) :=
  (tidy_world.2 trivial).bind fun _ => tidy_ifThen fun _ => tidy_run_.2 trivial

theorem plain_skip {fs : Fs} : Plain (skip s fs) := (tidy_note.2 trivial).bind fun _ => plain_normal

theorem calls_lockedBody {body : Script Unit} (hb : Calls D body) : Calls D (lockedBody E s body) :=
  .bind (.tidy (tidy_note.2 trivial)) fun _ => hb.bind fun _ => .bind (.tidy (tidy_note.2 trivial)) fun _ =>
    .tidy plain_unlock

theorem calls_shellBuild {normal : Bool} {body : Option (Script Unit)} (hb : ∀ b, body = some b → Calls D b) :
    Calls D (shellBuild E reset s normal body) := by
  refine .bind (.tidy (tidy_run_.2 trivial)) fun _ => .bind (.tidy (tidy_world.2 trivial)) fun w => ?_
  refine composed_ite (fun _ => .tidy plain_skip) fun _ => ?_
  cases body with
  | none =>
    show Calls D (printLog .normal "(ignore)")
    exact .tidy plain_normal
  | some b =>
    refine .bind (.tidy (tidy_run_.2 trivial)) fun _ => .bind (.tidy (tidy_run_.2 trivial)) fun _ => ?_
    refine .bind (.tidy (tidy_ifThen fun _ => ?_)) fun _ => calls_lockedBody (hb b rfl)
    exact (tidy_run_.2 trivial).bind fun _ => (tidy_run_.2 trivial).bind fun _ =>
      (tidy_run_.2 trivial).bind fun _ => tidy_run_.2 trivial

theorem plain_installPkgconfig : Plain (installPkgconfig E net) := by
  refine plain_title.bind fun _ => (tidy_world.2 trivial).bind fun w => ?_
  refine tidy_ite (fun _ => plain_normal) fun _ => tidy_ite (fun _ => plain_normal) fun _ => ?_
  refine tidy_ite (fun _ => plain_normal) fun _ => (tidy_run_.2 trivial).bind fun _ => ?_
  exact plain_cp.bind fun _ => plain_orError

theorem calls_cmakeBody (hD : Procedures T E net ndk D) : Calls D (cmakeBody T E net) := by
  refine .bind (.call hD.cmake) fun _ => .tidy (plain_orError.bind fun _ => plain_title.bind fun _ => ?_)
  refine plain_cp_.bind fun _ => (tidy_run_.2 trivial).bind fun _ => (tidy_run.2 trivial).bind fun _ => ?_
  refine plain_orError.bind fun _ => (tidy_run_.2 trivial).bind fun _ => ?_
  refine (tidy_forEach fun x _ => plain_cp_).bind fun _ => (tidy_world.2 trivial).bind fun w => ?_
  exact tidy_ifThen fun _ => plain_cp_

theorem calls_installCmake (hD : Procedures T E net ndk D) : Calls D (installCmake T E net reset) := by
  refine .bind (.tidy plain_title) fun _ => .bind (.tidy (tidy_world.2 trivial)) fun w => ?_
  refine composed_ite (fun _ => .tidy plain_skip) fun _ => composed_ite (fun _ => .tidy plain_normal) fun _ => ?_
  refine .bind (.tidy (tidy_run_.2 trivial)) fun _ => .bind (.tidy (tidy_run_.2 trivial)) fun _ => ?_
  refine .bind (.tidy (tidy_run_.2 trivial)) fun _ => .bind (.tidy (tidy_run_.2 trivial)) fun _ => ?_
  exact calls_lockedBody (calls_cmakeBody hD)

theorem plain_copyProject {name : String} {realPath : Option Path} : Plain (copyProject E s name realPath) := by
  refine (tidy_world.2 trivial).bind fun w => ?_
  cases realPath with
  | none =>
    dsimp only
    split
    · exact plain_cp_
    · exact tidy_ite (fun _ => trivial) fun _ => plain_error
  | some dir => exact tidy_ite (fun _ => plain_cp_) fun _ => plain_error

theorem plain_configureProject {type : ProjectType} {name : String} : Plain (configureProject E s type name) := by
  refine (tidy_world.2 trivial).bind fun w => ?_
  cases type with
  | cmake => exact tidy_ite (fun _ => tidy_run_.2 trivial) fun _ => plain_error
  | qmake =>
    dsimp only
    split
    · exact plain_error
    · exact tidy_ite (fun _ => plain_checked trivial) fun _ => plain_error
    · exact plain_checked trivial
  | other => exact plain_error

theorem plain_buildProject {type : ProjectType} {name : String} {realPath : Option Path} :
    Plain (buildProject E s type name realPath) := by
  refine plain_title.bind fun _ => (tidy_ifThen fun _ => plain_error).bind fun _ => plain_copyProject.bind fun _ => ?_
  refine (tidy_run_.2 trivial).bind fun _ => plain_configureProject.bind fun _ => ?_
  refine (tidy_run.2 trivial).bind fun _ => plain_orError.bind fun _ => ?_
  exact plain_checked trivial

/-! ### do_fetch.sh -/

theorem plain_removeOld {m : String} : Plain (removeOld E m) := by
  refine (tidy_world.2 trivial).bind fun w => ?_
  split
  · exact tidy_ifThen fun _ => tidy_run_.2 trivial
  · trivial

theorem plain_copyModule {m : String} : Plain (copyModule E net m) := by
  refine plain_title.bind fun _ => (tidy_world.2 trivial).bind fun w => plain_checked ?_
  unfold copyCmd
  simp only
  split <;> trivial

theorem calls_extractModule (hD : Procedures T E net ndk D) {m : String} : Calls D (extractModule E m) := by
  refine .bind (.tidy plain_title) fun _ => .bind (.tidy (tidy_note.2 trivial)) fun _ => ?_
  exact .bind (.tidy (tidy_world.2 trivial)) fun w => .bind (.call (hD.module w.fs m)) fun _ => .tidy plain_orError

theorem plain_patchModule {m : String} : Plain (patchModule E m) := by
  refine tidy_ifThen fun _ => plain_title.bind fun _ => tidy_forEach fun file _ => ?_
  exact (tidy_world.2 trivial).bind fun _ => plain_checked trivial

theorem calls_fetchModule (hD : Procedures T E net ndk D) {list m : String} : Calls D (fetchModule T E net list m) := by
  refine .bind (.tidy plain_removeOld) fun _ => .bind ?_ fun _ => .tidy plain_patchModule
  refine .bind (.tidy (tidy_world.2 trivial)) fun w => composed_ite (fun _ => .tidy plain_copyModule) fun _ => ?_
  refine .bind (.tidy plain_title) fun _ => .bind (.tidy (tidy_run_.2 trivial)) fun _ => ?_
  exact .bind (.call (hD.source _ _)) fun _ => .bind (.tidy plain_orError) fun _ => calls_extractModule hD

theorem plain_md5List : Plain (md5List E net) := by
  refine tidy_ite (fun _ => tidy_ite (fun _ => trivial) fun _ => ?_) fun _ => plain_normal.bind fun _ => trivial
  exact (tidy_note.2 trivial).bind fun _ => plain_orError.bind fun _ => trivial

theorem calls_doFetch (hD : Procedures T E net ndk D) : Calls D (doFetch T E net reset) := by
  refine .bind (.tidy (tidy_run_.2 trivial)) fun _ => .bind (.tidy (tidy_world.2 trivial)) fun w => ?_
  refine composed_ite (fun _ => .tidy plain_skip) fun _ => ?_
  refine .bind (.tidy (tidy_run_.2 trivial)) fun _ => .bind (.tidy (tidy_run_.2 trivial)) fun _ => ?_
  refine .bind (.tidy (tidy_run_.2 trivial)) fun _ => calls_lockedBody ?_
  exact .bind (.tidy plain_md5List) fun list => composed_forEach fun m _ => calls_fetchModule hD

/-! ### The other steps -/

theorem plain_doConfigure : Plain (doConfigure E) := by
  refine (tidy_run_.2 trivial).bind fun _ => (tidy_run_.2 trivial).bind fun _ => (tidy_run_.2 trivial).bind fun _ => ?_
  refine (tidy_world.2 trivial).bind fun w => (tidy_ifThen fun _ => tidy_run_.2 trivial).bind fun _ => ?_
  exact (tidy_run_.2 trivial).bind fun _ => plain_checked trivial

theorem plain_makeChecked {title : String} {dir : Path} {job : Job}
    (h : Routine (makeCmd E dir job)) : Plain (makeChecked E title dir job) :=
  plain_title.bind fun _ => plain_checked h

theorem plain_compileModule {m : String} : Plain (compileModule E reset m) := by
  refine plain_title.bind fun _ => (tidy_run_.2 trivial).bind fun _ => (tidy_run.2 trivial).bind fun _ => ?_
  refine plain_orError.bind fun _ => (tidy_ifThen fun _ => plain_makeChecked (by trivial)).bind fun _ => ?_
  exact (plain_makeChecked (by trivial)).bind fun _ => plain_makeChecked (by trivial)

theorem plain_compileExtra {m kind : String} : Plain (compileExtra E m kind) :=
  plain_title.bind fun _ => (tidy_run_.2 trivial).bind fun _ => (tidy_run.2 trivial).bind fun _ =>
    tidy_ifThen fun _ => plain_normal

theorem plain_ensureDir {fs : Fs} {dir : Path} : Plain (ensureDir E fs dir) := by
  unfold ensureDir
  split
  · exact tidy_ifThen fun _ => tidy_run_.2 trivial
  · trivial

theorem plain_cpFile {src dst : Path} : Plain (cpFile src dst) := by
  refine (tidy_world.2 trivial).bind fun w => ?_
  split
  · trivial
  · exact plain_cp

theorem plain_deployTo {rel dir : Path} : Plain (deployTo E rel dir) :=
  (tidy_world.2 trivial).bind fun _ => plain_ensureDir.bind fun _ => (tidy_world.2 trivial).bind fun _ =>
    plain_cpFile.bind fun _ => plain_orError

theorem plain_deployFile {rel : Path} : Plain (deployFile E rel) :=
  tidy_ite (fun _ => trivial) fun _ => plain_deployTo

theorem plain_cpIfDir {src dst : Path} : Plain (cpIfDir src dst) :=
  (tidy_world.2 trivial).bind fun _ => tidy_ifThen fun _ => plain_cp_

theorem plain_writeExecutable {file : Path} {text : String} : Plain (writeExecutable file text) :=
  (tidy_run.2 trivial).bind fun _ => tidy_ite (fun _ => tidy_run.2 trivial) fun _ => trivial

theorem plain_packup {file : Path} : Plain (packup E file) :=
  tidy_ite (fun _ => plain_normal) fun _ => plain_checked trivial

theorem plain_installSysroot : Plain (installSysroot E) := by
  refine plain_title.bind fun _ => ?_
  split
  · exact plain_normal
  · exact (tidy_run_.2 trivial).bind fun _ => plain_checked trivial

theorem plain_installRuntime : Plain (installRuntime E) := by
  refine plain_title.bind fun _ => (tidy_world.2 trivial).bind fun w => ?_
  refine (tidy_ifThen fun _ => tidy_run_.2 trivial).bind fun _ => (tidy_run_.2 trivial).bind fun _ => ?_
  refine (tidy_run_.2 trivial).bind fun _ => (tidy_run_.2 trivial).bind fun _ => (tidy_run_.2 trivial).bind fun _ => ?_
  refine (tidy_world.2 trivial).bind fun v => (tidy_forEach fun rel _ => plain_deployFile).bind fun _ => ?_
  refine plain_cpIfDir.bind fun _ => plain_cpIfDir.bind fun _ => plain_cpIfDir.bind fun _ => ?_
  refine plain_cpIfDir.bind fun _ => (tidy_world.2 trivial).bind fun u => ?_
  refine (tidy_ifThen fun _ => tidy_run_.2 trivial).bind fun _ => plain_writeExecutable.bind fun _ => ?_
  exact plain_checked trivial

theorem plain_doDeploy : Plain (doDeploy T E) := by
  refine (tidy_run_.2 trivial).bind fun _ => (tidy_run_.2 trivial).bind fun _ => (tidy_run_.2 trivial).bind fun _ => ?_
  refine (tidy_run_.2 trivial).bind fun _ => plain_writeExecutable.bind fun _ => plain_orError.bind fun _ => ?_
  refine plain_title.bind fun _ => plain_packup.bind fun _ => plain_installSysroot.bind fun _ => ?_
  refine plain_installRuntime.bind fun _ => Tidy.bind ?_ fun _ => plain_title.bind fun _ => plain_packup
  refine plain_title.bind fun _ => tidy_ite (fun _ => plain_normal) fun _ => ?_
  exact plain_stripSymbol.bind fun _ => plain_orError

theorem plain_cleanOne {name : String} : Plain (cleanOne E name) :=
  tidy_ite (fun _ => trivial) fun _ => plain_title.bind fun _ => plain_checked trivial

/-! ### The platforms -/

section platforms

theorem plain_vendorSh {project : String} : Plain (vendorSh E project) := by
  refine Tidy.bind ?_ fun _ => (tidy_world.2 trivial).bind fun w => ?_
  · refine (tidy_world.2 trivial).bind fun w => tidy_ite (fun _ => tidy_note.2 trivial) fun _ => ?_
    exact tidy_forEach fun d _ => (tidy_world.2 trivial).bind fun _ => plain_buildProject
  · refine tidy_ite (fun _ => tidy_note.2 trivial) fun _ => ?_
    exact tidy_ite (fun _ => plain_buildProject) fun _ => plain_normal

theorem plain_removeOldNdk : Plain (removeOldNdk E) := by
  refine (tidy_world.2 trivial).bind fun w => ?_
  split
  · exact tidy_ifThen fun _ => tidy_run_.2 trivial
  · trivial

theorem plain_ln {target : String} {link : Path} : Plain (ln target link) := tidy_run.2 trivial

theorem plain_runAll (cs : List (Cmd Label)) (h : ∀ c ∈ cs, Routine c) : Plain (runAll cs) := by
  induction cs with
  | nil => trivial
  | cons c cs ih =>
    refine (tidy_run.2 (h c (by simp))).bind fun _ => tidy_ite (fun _ => ?_) fun _ => trivial
    exact ih fun c' hc' => h c' (by simp [hc'])

theorem plain_buildCxxruntime : Plain (buildCxxruntime E ndk) :=
  plain_title.bind fun _ => (tidy_run_.2 trivial).bind fun _ => plain_cp.bind fun _ => plain_orError

theorem plain_buildLibsffg : Plain (buildLibsffg E ndk) := by
  refine plain_title.bind fun _ => (tidy_run_.2 trivial).bind fun _ => tidy_ite (fun _ => ?_) fun _ => ?_
  · exact plain_cp.bind fun _ => plain_orError
  · refine plain_cp_.bind fun _ => (tidy_forEach fun x _ => ?_).bind fun _ => plain_ln.bind fun _ => plain_orError
    exact plain_ln.bind fun _ => trivial

theorem plain_buildDepend {title name : String} : Plain (buildDepend E title name) :=
  plain_title.bind fun _ => plain_buildProject

variable (hD : Procedures T E net ndk D)
include hD

theorem calls_installNdk : Calls D (installNdk T E net ndk) := by
  have hsplit : installNdk T E net ndk = (do
      printLog .title "download ndk"
      run_ (.mkdirP (E.downloadDir ++ ["toolchain"]))
      let code ← unpackNdk T E net ndk
      orError code) := by
    simp only [installNdk, unpackNdk, Prog.bind_assoc]
  rw [hsplit]
  exact .bind (.tidy plain_title) fun _ => .bind (.tidy (tidy_run_.2 trivial)) fun _ => .bind (.call hD.ndk) fun _ =>
    .tidy plain_orError

/-- A package, and what is done with it. -/
theorem calls_untar {x : String × String × String} (hx : x ∈ packages) (title : String) {rest : Script Unit}
    (hrest : Calls D rest) : Calls D (do
      fetchChecked T E net title x.1 x.2.1
      untar E x.2.2
      rest) := by
  have hsplit : (do
      fetchChecked T E net title x.1 x.2.1
      untar E x.2.2
      rest) = (do
      let code ← fetchUntar T E net title x.1 x.2.1 x.2.2
      orError code
      rest) := by
    simp only [untar, fetchUntar, Prog.bind_assoc]
  rw [hsplit]
  exact .bind (.call (hD.tarball title x hx)) fun _ => .bind (.tidy plain_orError) fun _ => hrest

theorem calls_buildOpenssl : Calls D (buildOpenssl T E net) := by
  refine calls_untar hD (x := packages[0]) (by decide) "download openssl" (.tidy ?_)
  refine (tidy_world.2 trivial).bind fun w => plain_title.bind fun _ => plain_cp_.bind fun _ => ?_
  refine (tidy_world.2 trivial).bind fun v => (plain_runAll _ fun c hc => ?_).bind fun _ => plain_orError
  simp only [List.mem_cons, List.not_mem_nil, or_false] at hc
  rcases hc with rfl | rfl | rfl <;> trivial

theorem calls_thirdpartyBase : Calls D (thirdpartyBase T E net ndk) := by
  refine .bind (.tidy plain_buildCxxruntime) fun _ => .bind (.tidy plain_buildLibsffg) fun _ => ?_
  exact .bind (.tidy plain_buildDepend) fun _ => .bind (.tidy plain_buildDepend) fun _ => calls_buildOpenssl hD

theorem calls_buildBoost : Calls D (buildBoost T E net) := by
  have hfetch : Calls D (fetchBoost T E net) :=
    .bind (.tidy plain_title) fun _ => .bind (.call (hD.package packages[1] (by decide))) fun _ => .tidy plain_orError
  refine .bind hfetch fun _ => .tidy (plain_title.bind fun _ => plain_cp_.bind fun _ => ?_)
  exact plain_cp_.bind fun _ => (tidy_run_.2 trivial).bind fun _ => plain_checked trivial

theorem calls_buildBoostLinux : Calls D (buildBoostLinux T E net) := by
  refine calls_untar hD (x := packages[1]) (by decide) "download boost" (.tidy (plain_cp_.bind fun _ => ?_))
  refine plain_title.bind fun _ => (tidy_run.2 trivial).bind fun _ => plain_orError.bind fun _ => ?_
  exact plain_checked trivial

theorem calls_buildCapicxx {generator target link runtime : String} :
    Calls D (buildCapicxx E generator target link runtime) := by
  refine .bind (.tidy plain_title) fun _ => .bind (.call (hD.generator _ _)) fun _ => .tidy ?_
  refine plain_orError.bind fun _ => plain_cp_.bind fun _ => plain_ln.bind fun _ => plain_orError.bind fun _ => ?_
  exact plain_buildProject

theorem calls_buildProtobuf : Calls D (buildProtobuf T E net) := by
  have hsplit : buildProtobuf T E net = (do
      let host := thirdpartySrc E ++ ["protoc-host"]
      let code ← unzipProtoc T E net
      orError code
      run_ (.mkdirP (E.hostPrefix ++ ["bin"]))
      run_ (.mkdirP (E.hostPrefix ++ ["include"]))
      run_ (.ext (.job (.cpAll [host ++ ["bin"]] (E.hostPrefix ++ ["bin"]))) [E.hostPrefix ++ ["bin"]] [])
      run_ (.ext (.job (.cpAll [host ++ ["include"]] (E.hostPrefix ++ ["include"]))) [E.hostPrefix ++ ["include"]] [])
      fetchChecked T E net "download protocbuf" packages[3].1 packages[3].2.1
      untar E packages[3].2.2
      let w ← world
      buildPlain E ((firstMatch w.fs (thirdpartySrc E) (star "protobuf") "protobuf*" []).getLastD "")) := by
    simp only [buildProtobuf, unzipProtoc, Prog.bind_assoc]
    rfl
  rw [hsplit]
  refine .bind (.call hD.protoc) fun _ => .bind (.tidy plain_orError) fun _ => ?_
  refine .bind (.tidy (tidy_run_.2 trivial)) fun _ => .bind (.tidy (tidy_run_.2 trivial)) fun _ => ?_
  refine .bind (.tidy (tidy_run_.2 trivial)) fun _ => .bind (.tidy (tidy_run_.2 trivial)) fun _ => ?_
  exact calls_untar hD (by decide) _ (.tidy ((tidy_world.2 trivial).bind fun _ => plain_buildProject))

theorem calls_thirdpartyIvi : Calls D (thirdpartyIvi T E net) := by
  refine .bind (.tidy plain_buildProject) fun _ => .bind (.tidy plain_buildProject) fun _ => ?_
  refine .bind (calls_buildCapicxx hD) fun _ => .bind (calls_buildCapicxx hD) fun _ => ?_
  refine .bind (calls_buildProtobuf hD) fun _ => .tidy (plain_buildProject.bind fun _ => ?_)
  exact (tidy_run_.2 trivial).bind fun _ => tidy_run_.2 trivial

theorem calls_thirdpartySh : Calls D (thirdpartySh T E net ndk) :=
  .bind (calls_thirdpartyBase hD) fun _ => .bind (calls_buildBoost hD) fun _ => calls_thirdpartyIvi hD

theorem calls_thirdpartyLinuxSh : Calls D (thirdpartyLinuxSh T E net) :=
  .bind (calls_buildBoostLinux hD) fun _ => calls_thirdpartyIvi hD

end platforms

end BuildQt5
