import BuildQt5.SearchPaths

/-!
# toolchain.cmake

The part of the tool-chain file that computes `CMAKE_FIND_ROOT_PATH` and the linker flags, in the two environments it
runs in: that of `build-qt5.sh`, and that of the installed `environment-setup`. The one exports
`BUILD_TARGET_PREFIX=$BUILD_SDK_DIR/target/usr`, the other `BUILD_TARGET_PREFIX=$CURRENT_DIR/host/usr`, so the two never
agree unless the file stops with an error (`toolchain_agrees_iff`).
-/

namespace BuildQt5

/-- The variables of the environment the file reads, `none` where unset. -/
structure CmakeEnv where
  ndkLlvmPath : Option String
  buildTargetPrefix : Option String
  targetSysroot : Option String
  qtQmakeExecutable : Option String

/-- `EXISTS`, and what `qmake -query` prints. -/
structure Host where
  fileExists : String → Bool
  query : String → String → String

/-- The linker flags before the file is read. -/
structure LinkerFlags where
  sharedLinker : String
  moduleLinker : String
  exeLinker : String
deriving DecidableEq

structure SearchSettings where
  findRootPath : List String
  flags : LinkerFlags

/-! ### The environments -/

section environments
variable (root ndk : String) (e : CmakeEnv)

/-- After `build-qt5.sh` has exported, with `BUILD_SDK_DIR=root`; the platform's `config` exports `NDK_LLVM_PATH=ndk`. -/
def buildExports : CmakeEnv where
  ndkLlvmPath := some ndk
  buildTargetPrefix := some (root ++ "/target/usr")
  targetSysroot := e.targetSysroot
  qtQmakeExecutable := some (hostPrefixOf root ++ "/bin/qmake")

/-- After `root/environment-setup` with the platform's addition, which keeps an `NDK_LLVM_PATH` that is not empty. -/
def environmentSetupExports : CmakeEnv where
  ndkLlvmPath := if e.ndkLlvmPath.getD "" = "" then some ndk else e.ndkLlvmPath
  buildTargetPrefix := some (root ++ "/host/usr")
  targetSysroot := e.targetSysroot
  qtQmakeExecutable := some (root ++ "/host/usr/bin/qmake")

end environments

/-! ### The file -/

/-- What `if(NOT ..)` takes for false. -/
def isOff (s : String) : Bool :=
  Shell.upper s ∈ ["", "0", "N", "NO", "OFF", "FALSE", "IGNORE"] || s = "NOTFOUND" || "-NOTFOUND".toList <:+ s.toList

/-- `string(REPLACE ";" " ")` -/
def spaced (s : String) : String := String.ofList (s.toList.map fun c => if c = ';' then ' ' else c)

/-- `BUILD_TARGET_PREFIX`, or `usr` of `TARGET_SYSROOT`. -/
def targetRoot (e : CmakeEnv) : Option String := e.buildTargetPrefix.or (e.targetSysroot.map (· ++ "/usr"))

/-- `ANDROID_LINKER_FLAGS` -/
def androidLinkerFlags (e : CmakeEnv) : String :=
  spaced (";".intercalate (["-Wl,--build-id=sha1", "-Qunused-arguments"] ++
    ((targetRoot e).map fun r => ["-I" ++ r ++ "/include", "-L" ++ r ++ "/lib"]).getD []))

section file
variable (host : Host) (flags : LinkerFlags) (e : CmakeEnv)

def Host.answer (qmake property : String) : String :=
  String.ofList ((host.query qmake property).toList.filter (· ≠ '\n'))

/-- The part on Qt: what comes before the other roots. -/
def qtRoots : Except String (List String) :=
  match e.qtQmakeExecutable with
  | none => .ok []
  | some qmake =>
    if host.fileExists qmake then
      if isOff (host.answer qmake "QT_INSTALL_PREFIX") then .error "QT_INSTALL_PREFIX is empty"
      else if isOff (host.answer qmake "QT_HOST_PREFIX") then .error "QT_HOST_PREFIX is empty"
      else .ok [host.answer qmake "QT_INSTALL_PREFIX"]
    else .ok []

/-- What is computed with this `NDK_LLVM_PATH` and these roots for Qt. -/
def searchSettings (ndk : String) (qt : List String) : SearchSettings where
  findRootPath := qt ++ ((targetRoot e).toList ++ [ndk ++ "/sysroot" ++ "/usr"])
  flags :=
    { sharedLinker := flags.sharedLinker ++ " " ++ androidLinkerFlags e
      moduleLinker := flags.moduleLinker ++ " " ++ androidLinkerFlags e
      exeLinker := flags.exeLinker ++ " " ++ androidLinkerFlags e ++ " " ++ "-Wl,--gc-sections" }

def toolchain : Except String SearchSettings :=
  match e.ndkLlvmPath with
  | none => .error "You need to set the NDK_LLVM_PATH environment."
  | some ndk => (qtRoots host e).map (searchSettings flags e ndk)

end file

/-- `CMAKE_FIND_ROOT_PATH` as `cmake` holds it. -/
def SearchSettings.rootPath (s : SearchSettings) : String := ";".intercalate s.findRootPath

/-- The same search list and linker flags, with the target's tree in the list wherever there is one. -/
def SameSearch (root : String) (a b : Except String SearchSettings) : Prop :=
  a.map (fun s => (s.rootPath, s.flags)) = b.map (fun s => (s.rootPath, s.flags)) ∧
    ∀ s, a = .ok s ∨ b = .ok s → root ++ "/target/usr" ∈ s.findRootPath

/-- The file ends with an error: `qmake` is there and has no answer. -/
def StopsAt (host : Host) (qmake : String) : Prop :=
  host.fileExists qmake = true ∧
    (isOff (host.answer qmake "QT_INSTALL_PREFIX") = true ∨ isOff (host.answer qmake "QT_HOST_PREFIX") = true)

section
variable {host : Host} {root ndk : String} {flags : LinkerFlags} {e : CmakeEnv}

/-- Both environments name the same `qmake`. -/
theorem qtRoots_eq : qtRoots host (environmentSetupExports root ndk e) = qtRoots host (buildExports root ndk e) := by
  have hq : hostPrefixOf root ++ "/bin/qmake" = root ++ "/host/usr/bin/qmake" := by
    rw [hostPrefixOf, String.append_assoc]
    rfl
  simp only [qtRoots, environmentSetupExports, buildExports, hq]

theorem qtRoots_stops (h : StopsAt host (root ++ "/host/usr/bin/qmake")) :
    ∃ message, qtRoots host (environmentSetupExports root ndk e) = .error message := by
  simp only [qtRoots, environmentSetupExports, if_pos h.1]
  split
  · exact ⟨_, rfl⟩
  · rename_i hprefix
    rw [if_pos (h.2.resolve_left hprefix)]
    exact ⟨_, rfl⟩

theorem qtRoots_ok (h : ¬ StopsAt host (root ++ "/host/usr/bin/qmake")) :
    ∃ qt, qtRoots host (environmentSetupExports root ndk e) = .ok qt := by
  simp only [StopsAt, not_and, not_or] at h
  simp only [qtRoots, environmentSetupExports]
  split
  · rename_i hq
    rw [if_neg (h hq).1, if_neg (h hq).2]
    exact ⟨_, rfl⟩
  · exact ⟨_, rfl⟩

theorem rootPath_ne (qt : List String) (n n' : String) :
    ";".intercalate (qt ++ [root ++ "/target/usr", n]) ≠ ";".intercalate (qt ++ [root ++ "/host/usr", n']) := by
  induction qt with
  | nil => simp [← String.toList_inj]
  | cons x qt ih =>
    obtain ⟨y, ys, hy⟩ : ∃ y ys, qt ++ [root ++ "/target/usr", n] = y :: ys := List.exists_cons_of_ne_nil (by simp)
    obtain ⟨z, zs, hz⟩ : ∃ z zs, qt ++ [root ++ "/host/usr", n'] = z :: zs := List.exists_cons_of_ne_nil (by simp)
    rw [List.cons_append, List.cons_append, hy, hz, String.intercalate_cons_cons, String.intercalate_cons_cons, ← hy, ← hz]
    intro heq
    exact ih (by simpa using heq)

theorem androidLinkerFlags_ne :
    androidLinkerFlags (buildExports root ndk e) ≠ androidLinkerFlags (environmentSetupExports root ndk e) := by
  intro heq
  have hlist := congrArg String.toList heq
  simp [androidLinkerFlags, spaced, targetRoot, buildExports, environmentSetupExports] at hlist

theorem toolchain_environmentSetup : ∃ n, toolchain host flags (environmentSetupExports root ndk e) =
    (qtRoots host (environmentSetupExports root ndk e)).map
      (searchSettings flags (environmentSetupExports root ndk e) n) := by
  obtain ⟨n, hn⟩ : ∃ n, (environmentSetupExports root ndk e).ndkLlvmPath = some n := by
    simp only [environmentSetupExports]
    split
    · exact ⟨ndk, rfl⟩
    · rename_i h
      cases hv : e.ndkLlvmPath with
      | none => simp [hv] at h
      | some n => exact ⟨n, rfl⟩
  exact ⟨n, by rw [toolchain, hn]⟩

end

/-- In the environment of `environment-setup` the file computes what it does in that of `build-qt5.sh`, with
`target/usr` of the SDK in both, exactly when it stops with an error in both. Otherwise the two root paths differ and so
do the linker flags, and the build has `target/usr` among its roots. -/
theorem toolchain_agrees_iff (host : Host) (flags : LinkerFlags) (root ndk : String) (e : CmakeEnv) :
    (SameSearch root (toolchain host flags (buildExports root ndk e))
        (toolchain host flags (environmentSetupExports root ndk e)) ↔ StopsAt host (root ++ "/host/usr/bin/qmake")) ∧
    (StopsAt host (root ++ "/host/usr/bin/qmake") ∨
      ∃ b s, toolchain host flags (buildExports root ndk e) = .ok b ∧
        toolchain host flags (environmentSetupExports root ndk e) = .ok s ∧ b.rootPath ≠ s.rootPath ∧
        b.flags.sharedLinker ≠ s.flags.sharedLinker ∧ b.flags.moduleLinker ≠ s.flags.moduleLinker ∧
        b.flags.exeLinker ≠ s.flags.exeLinker ∧ root ++ "/target/usr" ∈ b.findRootPath) := by
  have hbuild : toolchain host flags (buildExports root ndk e) =
      (qtRoots host (buildExports root ndk e)).map (searchSettings flags (buildExports root ndk e) ndk) := rfl
  obtain ⟨n, hsetup⟩ := @toolchain_environmentSetup host root ndk flags e
  rw [qtRoots_eq] at hsetup
  by_cases hstop : StopsAt host (root ++ "/host/usr/bin/qmake")
  · obtain ⟨message, hm⟩ := @qtRoots_stops host root ndk e hstop
    rw [qtRoots_eq] at hm
    rw [hbuild, hsetup, hm]
    refine ⟨iff_of_true ⟨rfl, ?_⟩ hstop, .inl hstop⟩
    rintro s (h | h) <;> cases h
  · obtain ⟨qt, hqt⟩ := @qtRoots_ok host root ndk e hstop
    rw [qtRoots_eq] at hqt
    rw [hqt] at hbuild hsetup
    have hroot : (searchSettings flags (buildExports root ndk e) ndk qt).rootPath ≠
        (searchSettings flags (environmentSetupExports root ndk e) n qt).rootPath := rootPath_ne qt _ _
    have hflags := @androidLinkerFlags_ne root ndk e
    refine ⟨iff_of_false (fun h => ?_) hstop, .inr ⟨_, _, hbuild, hsetup, hroot, ?_, ?_, ?_, ?_⟩⟩
    · rw [hbuild, hsetup] at h
      exact hroot (Prod.mk.inj (Except.ok.inj h.1)).1
    · exact fun h => hflags (by simpa [searchSettings] using h)
    · exact fun h => hflags (by simpa [searchSettings] using h)
    · exact fun h => hflags (by simpa [searchSettings] using h)
    · simp [searchSettings, targetRoot, buildExports]

/-- Without `qmake` the build looks in `/sdk/target/usr`, and the installed SDK in `/sdk/host/usr`. -/
theorem toolchain_differs :
    let host : Host := ⟨fun _ => false, fun _ _ => ""⟩
    let flags : LinkerFlags := ⟨"", "", ""⟩
    let e : CmakeEnv := ⟨none, none, none, none⟩
    (toolchain host flags (buildExports "/sdk" "/ndk" e)).map SearchSettings.rootPath =
      .ok "/sdk/target/usr;/ndk/sysroot/usr" ∧
    (toolchain host flags (environmentSetupExports "/sdk" "/ndk" e)).map SearchSettings.rootPath =
      .ok "/sdk/host/usr;/ndk/sysroot/usr" ∧
    (toolchain host flags (environmentSetupExports "/sdk" "/ndk" e)).map (·.flags.sharedLinker) =
      .ok " -Wl,--build-id=sha1 -Qunused-arguments -I/sdk/host/usr/include -L/sdk/host/usr/lib" := by
  exact ⟨congrArg Except.ok (by decide +kernel), congrArg Except.ok (by decide +kernel),
    congrArg Except.ok (by decide +kernel)⟩

end BuildQt5
