import BuildQt5.Scripts.Steps

/-!
# The platforms

The step scripts of `platforms/`: `toolchain.sh`, `3rdparty.sh` and `vendor.sh` of the two Android
platforms and of the Linux one. The archives they unpack hold one top directory, and the installation
of a package writes to the SDK.
-/

namespace BuildQt5
open Shell
open Prog (world run run_ note ifThen forEach)

/-- The scripts of a platform, which keep to the directory of their stage, the SDK and the downloads,
and leave the stamps alone. -/
structure Platform (E : Env) where
  scripts : Net → Scripts
  proper : ∀ net s b, scripts net s = some b → b.All (Cmd.Within (E.bodyArea s)) fun m => m.stage = none

/-- The variables of an Android platform's `config`. -/
structure Ndk where
  ndkName : String
  openglDirPrefix : String
  openglFileSuffix : String

section scripts
variable (T : Tools) (E : Config) (net : Net) (ndk : Ndk)

/-- `printf` of a pattern below `d`: its first match, or the pattern itself. -/
def firstMatch (fs : Fs) (d : Path) (f : String → Bool) (pattern : String) (rest : Path) : Path :=
  match (fs.glob d f).filter fun x => fs.get (d ++ [x] ++ rest) ≠ none with
  | x :: _ => d ++ [x] ++ rest
  | [] => d ++ [pattern] ++ rest

/-! ### toolchain.sh -/

/-- `[ -d .../android-ndk-* ] && rm -rf .../android-ndk-*` -/
def removeOldNdk : Script Unit := do
  let w ← world
  match w.fs.glob (E.stageDir .toolchain) (star "android-ndk-") with
  | [x] => ifThen (w.fs.isDir (E.stageDir .toolchain ++ [x])) (run_ (.rmRf [E.stageDir .toolchain ++ [x]]))
  | _ => pure ()

def installNdk : Script Unit := do
  let pkg := ndk.ndkName ++ "-linux-x86_64.zip"
  let dir := E.downloadDir ++ ["toolchain"]
  printLog .title "download ndk"
  run_ (.mkdirP dir)
  let code ← fetchDownload T E net ("https://mirrors.cloud.tencent.com/AndroidSDK/" ++ pkg) dir ""
    "b99a69907ca29e8181852645328b6004" .md5
  orError code
  printLog .title "decompress ndk"
  run_ (.mkdirP (E.stageDir .toolchain))
  removeOldNdk E
  let code ← run (.ext (.job (.unzip (dir ++ [pkg]) (E.stageDir .toolchain)))
    [E.stageDir .toolchain ++ [ndk.ndkName]] [])
  orError code

/-! ### vendor.sh -/

/-- The Qt demo projects: name, module, and place below the module's sources. -/
def demos : List (String × String × Path) :=
  [("digitalclock", "qtbase", ["examples", "widgets", "widgets", "digitalclock"]),
    ("gallery", "qtquickcontrols2", ["examples", "quickcontrols2", "gallery"]),
    ("hellocube", "qtquick3d", ["examples", "quick3d", "hellocube"])]

def buildDemo (d : String × String × Path) : Script Unit := do
  let w ← world
  buildProject E .vendor .qmake d.1
    (some (firstMatch w.fs (qtSrc E) (dash d.2.1) (d.2.1 ++ "-*") d.2.2))

def buildQtdemo : Script Unit := do
  let w ← world
  if !w.fs.isFile E.qmakeExecutable then note (.returned "do_build_qtdemo")
  else forEach (buildDemo E) demos

def buildVendor (project : String) : Script Unit := do
  let w ← world
  if !w.fs.isFile E.cmakeExecutable then note (.returned "do_build_vendor")
  else if w.fs.isDir (E.repoDir ++ [project]) then buildProject E .vendor .cmake project none
  else printLog .normal "(no vendor, ignore)"

def vendorSh (project : String) : Script Unit := do
  buildQtdemo E
  buildVendor E project

/-! ### 3rdparty.sh -/

def thirdpartySrc : Path := E.stageDir .thirdparty ++ ["src"]

def thirdpartyWork : Path := E.stageDir .thirdparty ++ ["work"]

def thirdpartyDownloads : Path := E.downloadDir ++ ["3rdparty"]

def androidDepends : Path := E.sourceDir ++ ["android_embedded_depends"]

/-- `print_log title`, `fetch_download` and the test of its status. -/
def fetchChecked (title url md5 : String) : Script Unit := do
  printLog .title title
  let code ← fetchDownload T E net url (thirdpartyDownloads E) "" md5 .md5
  orError code

def untar (file : String) : Script Unit := do
  let code ← run (.tar [thirdpartyDownloads E ++ [file]] (thirdpartySrc E))
  orError code

def ln (target : String) (link : Path) : Script Nat := run (.ext (.job (.ln target link)) [link] [])

def buildCxxruntime : Script Unit := do
  printLog .title "install libc++_shared.so"
  run_ (.mkdirP (E.targetPrefix ++ ["lib"]))
  let code ← cp (E.stageDir .toolchain ++ [ndk.ndkName, "toolchains", "llvm", "prebuilt", "linux-x86_64",
    "sysroot", "usr", "lib", "aarch64-linux-android", "libc++_shared.so"])
    (E.targetPrefix ++ ["lib", "libc++_shared.so"])
  orError code

/-- The status that is tested is that of the last command: of `cp`, or of the last `ln`. -/
def buildLibsffg : Script Unit := do
  let lib := E.targetPrefix ++ ["lib"]
  printLog .title "install libsffg"
  run_ (.mkdirP lib)
  if ndk.openglDirPrefix = "" || ndk.openglFileSuffix = "" then do
    let code ← cp (androidDepends E ++ ["libsffg", "libsffg.so"]) (lib ++ ["libsffg.so"])
    orError code
  else do
    cp_ (androidDepends E ++ ["libsffg_" ++ ndk.openglFileSuffix, "libsffg.so"]) (lib ++ ["libsffg.so"])
    forEach (fun x => do
        let _ ← ln (ndk.openglDirPrefix ++ "lib" ++ x ++ "_" ++ ndk.openglFileSuffix ++ ".so")
          (lib ++ ["lib" ++ x ++ ".so"])
        pure ())
      ["EGL", "GLES", "GLESv1_CM", "GLESv2"]
    let code ← ln (ndk.openglDirPrefix ++ "libGLESv3_" ++ ndk.openglFileSuffix ++ ".so") (lib ++ ["libGLESv3.so"])
    orError code

/-- `rt` and `pthread`; the status of `build_project` is that of its last `cd`. -/
def buildDepend (title name : String) : Script Unit := do
  printLog .title title
  buildProject E .thirdparty .cmake name (some (androidDepends E ++ [name]))

/-- `a && b && c`: the status of the first that fails. -/
def runAll : List (Cmd Label) → Script Nat
  | [] => pure 0
  | c :: cs => do
    let code ← run c
    if code = 0 then runAll cs else pure code

def buildOpenssl : Script Unit := do
  fetchChecked T E net "download openssl" "http://sources.buildroot.net/libopenssl/openssl-1.1.1n.tar.gz"
    "2aad5635f9bb338bc2c6b7d19cbc9676"
  untar E "openssl-1.1.1n.tar.gz"
  let w ← world
  let src := firstMatch w.fs (thirdpartySrc E) (star "openssl") "openssl*" []
  printLog .title "build openssl"
  cp_ src (thirdpartyWork E ++ [src.getLastD ""])
  let w ← world
  let work := firstMatch w.fs (thirdpartyWork E) (star "openssl") "openssl*" []
  let code ← runAll [.ext (.job (.configure work)) [work] [], .ext (.job (.make work)) [work] [work],
    .ext (.job (.makeTarget work "install")) [work, E.sdkDir] [work]]
  orError code

def fetchBoost : Script Unit :=
  fetchChecked T E net "download boost" "http://sources.buildroot.net/boost/boost_1_74_0.tar.bz2"
    "da07ca30dd1c0d1fdedbd487efee01bd"

def buildBoost : Script Unit := do
  let src := androidDepends E ++ ["Boost-for-Android"]
  let work := thirdpartyWork E ++ ["Boost-for-Android"]
  fetchBoost T E net
  printLog .title "build Boost"
  cp_ src (thirdpartySrc E ++ ["Boost-for-Android"])
  cp_ src work
  run_ (.ext (.job (.cpAll [thirdpartyDownloads E ++ ["boost*"]] work)) [work] [])
  let code ← run (.ext (.job (.makeTarget work "build-android.sh")) [work, E.sdkDir] [work])
  orError code

def buildBoostLinux : Script Unit := do
  let src := thirdpartySrc E ++ ["boost_1_74_0"]
  let work := thirdpartyWork E ++ ["boost_1_74_0"]
  fetchBoost T E net
  untar E "boost_1_74_0.tar.bz2"
  cp_ src work
  printLog .title "build Boost"
  let code ← run (.ext (.job (.configure work)) [work] [])
  orError code
  let code ← run (.ext (.job (.makeTarget work "b2")) [work, E.sdkDir] [work])
  orError code

/-- `dlt-daemon`, `vsomeip`: nothing but `build_project`. -/
def buildPlain (name : String) : Script Unit := buildProject E .thirdparty .cmake name none

/-- The two code generators of CommonAPI, and their runtimes. -/
def buildCapicxx (generator target link runtime : String) : Script Unit := do
  let work := thirdpartyWork E ++ [generator]
  printLog .title ("install " ++ generator)
  let code ← run (.ext (.job (.unzip (E.sourceDir ++ [generator, generator ++ "*.zip"]) work)) [work] [])
  orError code
  cp_ work (E.hostPrefix ++ ["share", generator])
  let code ← ln ("../share/" ++ generator ++ "/" ++ target) (E.hostPrefix ++ ["bin", link])
  orError code
  buildPlain E runtime

def buildProtobuf : Script Unit := do
  let host := thirdpartySrc E ++ ["protoc-host"]
  fetchChecked T E net "download protoc-host"
    "https://github.com/protocolbuffers/protobuf/releases/download/v3.20.0/protoc-3.20.0-linux-x86_64.zip"
    "bda6439729a515d1d8c71b41e0ab1fb0"
  run_ (.mkdirP host)
  printLog .title "install protoc-host"
  let code ← run (.ext (.job (.unzip (thirdpartyDownloads E ++ ["protoc-3.20.0-linux-x86_64.zip"]) host)) [host] [])
  orError code
  run_ (.mkdirP (E.hostPrefix ++ ["bin"]))
  run_ (.mkdirP (E.hostPrefix ++ ["include"]))
  run_ (.ext (.job (.cpAll [host ++ ["bin"]] (E.hostPrefix ++ ["bin"]))) [E.hostPrefix ++ ["bin"]] [])
  run_ (.ext (.job (.cpAll [host ++ ["include"]] (E.hostPrefix ++ ["include"]))) [E.hostPrefix ++ ["include"]] [])
  fetchChecked T E net "download protocbuf"
    "https://github.com/protocolbuffers/protobuf/releases/download/v3.20.0/protobuf-cpp-3.20.0.tar.gz"
    "1db6ee0c403452514fd87e5c1a0f8405"
  untar E "protobuf-cpp-3.20.0.tar.gz"
  let w ← world
  buildPlain E ((firstMatch w.fs (thirdpartySrc E) (star "protobuf") "protobuf*" []).getLastD "")

def buildFdbus : Script Unit := do
  buildPlain E "fdbus"
  run_ (.ext (.job (.cpAll [E.targetPrefix ++ ["usr"]] E.targetPrefix)) [E.targetPrefix] [])
  run_ (.rmRf [E.targetPrefix ++ ["usr"]])

/-- What `cluster` builds, and `ivi` before the rest. -/
def thirdpartyBase : Script Unit := do
  buildCxxruntime E ndk
  buildLibsffg E ndk
  buildDepend E "build rt" "rt"
  buildDepend E "build thread" "pthread"
  buildOpenssl T E net

/-- What the two `ivi` platforms build after boost. -/
def thirdpartyIvi : Script Unit := do
  buildPlain E "dlt-daemon"
  buildPlain E "vsomeip"
  buildCapicxx E "commonapi_core_generator" "commonapi-core-generator-linux-x86_64" "capicxx-core-gen"
    "capicxx-core-runtime"
  buildCapicxx E "commonapi_someip_generator" "commonapi-someip-generator-linux-x86_64" "capicxx-someip-gen"
    "capicxx-someip-runtime"
  buildProtobuf T E net
  buildFdbus E

def thirdpartySh : Script Unit := do
  thirdpartyBase T E net ndk
  buildBoost T E net
  thirdpartyIvi T E net

def thirdpartyLinuxSh : Script Unit := do
  buildBoostLinux T E net
  thirdpartyIvi T E net

end scripts

/-! ### Where the scripts work -/

section areas
variable {T : Tools} {E : Env} {net : Net} {ndk : Ndk} {M : Label → Prop}
  (hM : ∀ m : Label, m.stage = none → M m)

open Prog

theorem mem_thirdparty {x : String} (hx : x ≠ "lock") (p : Path) :
    (E.bodyArea .thirdparty).mem (E.stageDir .thirdparty ++ [x] ++ p) := by
  rw [List.append_assoc]; exact mem_bodyArea hx

theorem mem_firstMatch {A : Area} {fs : Fs} {d : Path} {f : String → Bool} {pattern : String}
    (h : ∀ p, A.mem (d ++ p)) : A.mem (firstMatch fs d f pattern []) := by
  unfold firstMatch
  split <;> simpa using h _

theorem ne_lock_of_star {x : String} (h : star "android-ndk-" x = true) : x ≠ "lock" := by
  rintro rfl; revert h; decide

include hM

theorem all_installNdk (hn : ndk.ndkName ≠ "lock") :
    (installNdk T E.toConfig net ndk).All (Cmd.Within (E.bodyArea .toolchain)) M := by
  have hdown : ∀ r, E.downloadDir ++ ["toolchain"] <+: r → (E.bodyArea .toolchain).mem r := fun r hr =>
    .inl (Fs.covers_iff.2 ⟨E.downloadDir, by simp [Config.outside], (List.prefix_append _ _).trans hr⟩)
  refine All.bind (all_printLog hM) fun _ => All.bind (all_run_.2 (.inl (hdown _ (List.prefix_refl _)))) fun _ => ?_
  refine All.bind (all_fetchDownload hM hdown) fun _ => All.bind (all_orError hM) fun _ => ?_
  refine All.bind (all_printLog hM) fun _ => All.bind (all_run_.2 (.inr (.inr (.inr rfl)))) fun _ => ?_
  refine All.bind (All.bind (all_world.2 trivial) fun w => ?_) fun _ => All.bind (all_run.2 ?_) fun _ => all_orError hM
  · split
    · rename_i x hx
      have hg : x ∈ w.fs.glob (E.stageDir .toolchain) (star "android-ndk-") := by simp [hx]
      refine all_ifThen fun _ => all_run_.2 fun r hr => ?_
      rw [List.mem_singleton.1 hr]
      exact mem_bodyArea (ne_lock_of_star (Fs.mem_glob.1 hg).2)
    · trivial
  · exact within_ext (by simpa using mem_bodyArea (p := []) hn)

theorem all_vendorSh {project : String} :
    (vendorSh E.toConfig project).All (Cmd.Within (E.bodyArea .vendor)) M := by
  refine All.bind (All.bind (all_world.2 trivial) fun w => ?_) fun _ => All.bind (all_world.2 trivial) fun w => ?_
  · refine all_ite (fun _ => all_note.2 (hM _ rfl)) fun _ => all_forEach fun d _ => ?_
    exact All.bind (all_world.2 trivial) fun w => all_buildProject hM
  · refine all_ite (fun _ => all_note.2 (hM _ rfl)) fun _ => ?_
    exact all_ite (fun _ => all_buildProject hM) fun _ => all_printLog hM

theorem all_fetchChecked {title url md5 : String} :
    (fetchChecked T E.toConfig net title url md5).All (Cmd.Within (E.bodyArea .thirdparty)) M := by
  have hdown : ∀ r, thirdpartyDownloads E.toConfig <+: r → (E.bodyArea .thirdparty).mem r := fun r hr =>
    .inl (Fs.covers_iff.2 ⟨E.downloadDir, by simp [Config.outside], (List.prefix_append _ _).trans hr⟩)
  exact All.bind (all_printLog hM) fun _ => All.bind (all_fetchDownload hM hdown) fun _ => all_orError hM

theorem all_untar {file : String} :
    (untar E.toConfig file).All (Cmd.Within (E.bodyArea .thirdparty)) M := by
  refine All.bind (all_run.2 fun r hr => ?_) fun _ => all_orError hM
  rw [List.mem_singleton.1 hr]
  exact mem_bodyArea (by decide)

omit hM in
theorem all_ln {target : String} {link : Path} {A : Area} (h : A.mem link) :
    (ln target link).All (Cmd.Within A) M := all_run.2 (within_ext (by simpa using h))

omit hM in
theorem all_runAll {P : Cmd Label → Prop} (cs : List (Cmd Label)) (h : ∀ c ∈ cs, P c) : (runAll cs).All P M := by
  induction cs with
  | nil => trivial
  | cons c cs ih =>
    refine All.bind (all_run.2 (h c (by simp))) fun _ => all_ite (fun _ => ?_) fun _ => trivial
    exact ih fun c' hc' => h c' (by simp [hc'])

omit hM in
/-- An external program of a third-party package works in its own directory and the SDK. -/
theorem within_package {job : Label} {work : Path} {makes : List Path} (hw : (E.bodyArea .thirdparty).mem work) :
    (Cmd.ext job [work] makes).Within (E.bodyArea .thirdparty) ∧
      (Cmd.ext job [work, E.sdkDir] makes).Within (E.bodyArea .thirdparty) := by
  have hsdk : (E.bodyArea .thirdparty).mem E.sdkDir := .inl (mem_sdk (List.prefix_refl _))
  exact ⟨within_ext (by simpa using hw), within_ext (by simpa using ⟨hw, hsdk⟩)⟩

theorem all_thirdpartyBase :
    (thirdpartyBase T E.toConfig net ndk).All (Cmd.Within (E.bodyArea .thirdparty)) M := by
  have htarget : ∀ p, (E.bodyArea .thirdparty).mem (E.targetPrefix ++ p) := fun p => .inl mem_targetPrefix
  have hlib : ∀ x, (E.bodyArea .thirdparty).mem (E.targetPrefix ++ ["lib"] ++ [x]) := fun x => by
    rw [List.append_assoc]; exact htarget _
  refine All.bind ?_ fun _ => All.bind ?_ fun _ => All.bind ?_ fun _ => All.bind ?_ fun _ => ?_
  · refine All.bind (all_printLog hM) fun _ => All.bind (all_run_.2 (.inl (htarget _))) fun _ => ?_
    exact All.bind (all_cp (htarget _)) fun _ => all_orError hM
  · refine All.bind (all_printLog hM) fun _ => All.bind (all_run_.2 (.inl (htarget _))) fun _ => ?_
    refine all_ite (fun _ => All.bind (all_cp (hlib _)) fun _ => all_orError hM) fun _ => ?_
    refine All.bind (all_cp_ (hlib _)) fun _ => All.bind (all_forEach fun x _ => ?_) fun _ => ?_
    · exact All.bind (all_ln (hlib _)) fun _ => trivial
    · exact All.bind (all_ln (hlib _)) fun _ => all_orError hM
  · exact All.bind (all_printLog hM) fun _ => all_buildProject hM
  · exact All.bind (all_printLog hM) fun _ => all_buildProject hM
  · refine All.bind (all_fetchChecked hM) fun _ => All.bind (all_untar hM) fun _ => ?_
    refine All.bind (all_world.2 trivial) fun w => All.bind (all_printLog hM) fun _ => ?_
    refine All.bind (all_cp_ (mem_thirdparty (by decide) _)) fun _ => All.bind (all_world.2 trivial) fun w => ?_
    have hwork : (E.bodyArea .thirdparty).mem
        (firstMatch w.fs (thirdpartyWork E.toConfig) (star "openssl") "openssl*" []) :=
      mem_firstMatch (mem_thirdparty (by decide))
    refine All.bind (all_runAll _ fun c hc => ?_) fun _ => all_orError hM
    simp only [List.mem_cons, List.not_mem_nil, or_false] at hc
    rcases hc with rfl | rfl | rfl
    · exact (within_package hwork).1
    · exact (within_package hwork).1
    · exact (within_package hwork).2

theorem all_fetchBoost : (fetchBoost T E.toConfig net).All (Cmd.Within (E.bodyArea .thirdparty)) M :=
  all_fetchChecked hM

theorem all_buildBoost : (buildBoost T E.toConfig net).All (Cmd.Within (E.bodyArea .thirdparty)) M := by
  have hwork : (E.bodyArea .thirdparty).mem (thirdpartyWork E.toConfig ++ ["Boost-for-Android"]) :=
    mem_thirdparty (by decide) _
  refine All.bind (all_fetchBoost hM) fun _ => All.bind (all_printLog hM) fun _ => ?_
  refine All.bind (all_cp_ (mem_thirdparty (by decide) _)) fun _ => All.bind (all_cp_ hwork) fun _ => ?_
  refine All.bind (all_run_.2 (within_package hwork).1) fun _ => ?_
  exact All.bind (all_run.2 (within_package hwork).2) fun _ => all_orError hM

theorem all_buildBoostLinux :
    (buildBoostLinux T E.toConfig net).All (Cmd.Within (E.bodyArea .thirdparty)) M := by
  have hwork : (E.bodyArea .thirdparty).mem (thirdpartyWork E.toConfig ++ ["boost_1_74_0"]) :=
    mem_thirdparty (by decide) _
  refine All.bind (all_fetchBoost hM) fun _ => All.bind (all_untar hM) fun _ => ?_
  refine All.bind (all_cp_ hwork) fun _ => All.bind (all_printLog hM) fun _ => ?_
  refine All.bind (all_run.2 (within_package hwork).1) fun _ => All.bind (all_orError hM) fun _ => ?_
  exact All.bind (all_run.2 (within_package hwork).2) fun _ => all_orError hM

theorem all_buildCapicxx {generator target link runtime : String} :
    (buildCapicxx E.toConfig generator target link runtime).All (Cmd.Within (E.bodyArea .thirdparty)) M := by
  have hhost : ∀ p, (E.bodyArea .thirdparty).mem (E.hostPrefix ++ p) := fun p => .inl mem_hostPrefix
  refine All.bind (all_printLog hM) fun _ => ?_
  refine All.bind (all_run.2 (within_package (mem_thirdparty (by decide) _)).1) fun _ => ?_
  refine All.bind (all_orError hM) fun _ => All.bind (all_cp_ (hhost _)) fun _ => ?_
  exact All.bind (all_ln (hhost _)) fun _ => All.bind (all_orError hM) fun _ => all_buildProject hM

theorem all_buildProtobuf :
    (buildProtobuf T E.toConfig net).All (Cmd.Within (E.bodyArea .thirdparty)) M := by
  have hhost : ∀ p, (E.bodyArea .thirdparty).mem (E.hostPrefix ++ p) := fun p => .inl mem_hostPrefix
  have hsrc : (E.bodyArea .thirdparty).mem (thirdpartySrc E.toConfig ++ ["protoc-host"]) :=
    mem_thirdparty (by decide) _
  refine All.bind (all_fetchChecked hM) fun _ => All.bind (all_run_.2 (.inl hsrc)) fun _ => ?_
  refine All.bind (all_printLog hM) fun _ => All.bind (all_run.2 (within_package hsrc).1) fun _ => ?_
  refine All.bind (all_orError hM) fun _ => All.bind (all_run_.2 (.inl (hhost _))) fun _ => ?_
  refine All.bind (all_run_.2 (.inl (hhost _))) fun _ => ?_
  refine All.bind (all_run_.2 (within_package (hhost _)).1) fun _ => ?_
  refine All.bind (all_run_.2 (within_package (hhost _)).1) fun _ => ?_
  refine All.bind (all_fetchChecked hM) fun _ => All.bind (all_untar hM) fun _ => ?_
  exact All.bind (all_world.2 trivial) fun w => all_buildProject hM

theorem all_thirdpartyIvi :
    (thirdpartyIvi T E.toConfig net).All (Cmd.Within (E.bodyArea .thirdparty)) M := by
  refine All.bind (all_buildProject hM) fun _ => All.bind (all_buildProject hM) fun _ => ?_
  refine All.bind (all_buildCapicxx hM) fun _ => All.bind (all_buildCapicxx hM) fun _ => ?_
  refine All.bind (all_buildProtobuf hM) fun _ => All.bind (all_buildProject hM) fun _ => ?_
  have htarget : (E.bodyArea .thirdparty).mem E.targetPrefix := .inl (mem_sdk (List.prefix_append _ _))
  refine All.bind (all_run_.2 (within_package htarget).1) fun _ => all_run_.2 fun r hr => ?_
  rw [List.mem_singleton.1 hr]
  exact .inl mem_targetPrefix

end areas

/-! ### The platforms -/

section platforms
variable (T : Tools) (E : Env) (ndk : Ndk)

/-- `qt5-android-ndk-ivi` -/
def androidIvi (hn : ndk.ndkName ≠ "lock") : Platform E where
  scripts net
    | .toolchain => some (installNdk T E.toConfig net ndk)
    | .thirdparty => some (thirdpartySh T E.toConfig net ndk)
    | .vendor => some (vendorSh E.toConfig "ivi")
    | _ => none
  proper
    | _, .toolchain, _, rfl => all_installNdk (fun _ h => h) hn
    | _, .thirdparty, _, rfl => (all_thirdpartyBase fun _ h => h).bind fun _ =>
        (all_buildBoost fun _ h => h).bind fun _ => all_thirdpartyIvi fun _ h => h
    | _, .vendor, _, rfl => all_vendorSh fun _ h => h

/-- `qt5-android-ndk-cluster` -/
def androidCluster (hn : ndk.ndkName ≠ "lock") : Platform E where
  scripts net
    | .toolchain => some (installNdk T E.toConfig net ndk)
    | .thirdparty => some (thirdpartyBase T E.toConfig net ndk)
    | .vendor => some (vendorSh E.toConfig "cluster")
    | _ => none
  proper
    | _, .toolchain, _, rfl => all_installNdk (fun _ h => h) hn
    | _, .thirdparty, _, rfl => all_thirdpartyBase fun _ h => h
    | _, .vendor, _, rfl => all_vendorSh fun _ h => h

/-- `qt5-linux_x86-ivi` -/
def linuxIvi : Platform E where
  scripts net
    | .thirdparty => some (thirdpartyLinuxSh T E.toConfig net)
    | .vendor => some (vendorSh E.toConfig "ivi")
    | _ => none
  proper
    | _, .thirdparty, _, rfl => (all_buildBoostLinux fun _ h => h).bind fun _ => all_thirdpartyIvi fun _ h => h
    | _, .vendor, _, rfl => all_vendorSh fun _ h => h

end platforms

/-- No script of the platform for any stage. -/
def bare (E : Env) : Platform E := ⟨fun _ _ => none, fun _ _ _ h => by cases h⟩

/-- The Android platform with nothing set in the environment. -/
def ndkEnv : Env := Env.unset ["qt"] "qt5-android-ndk-ivi"

theorem ndkName_ne_lock : (⟨"android-ndk-r22b", "", ""⟩ : Ndk).ndkName ≠ "lock" := by decide

def ndkIvi : Platform ndkEnv := androidIvi Tools.sample ndkEnv ⟨"android-ndk-r22b", "", ""⟩ ndkName_ne_lock

end BuildQt5
