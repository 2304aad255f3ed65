import BuildQt5.Scripts.Env
import BuildQt5.Shell.Glob

/-!
# common.sh

The functions of `common/common.sh` as scripts. `$?` tests are the tests on the exit code a command
hands to its continuation; a function that returns a status has it as its value. The status of a
command that the source does not look at is dropped (`run_`).
-/

namespace BuildQt5
open Shell
open Prog (world run run_ note ifThen forEach)

/-! ### print_log -/

/-- `LAST_LOG`: the last headline of this invocation. -/
def lastLog : List (Event Label) → String
  | .mark (.say .function text) :: _ | .mark (.say .title text) :: _ => text
  | .mark (.invoked _) :: _ => ""
  | _ :: log => lastLog log
  | [] => ""

def printLog (kind : LogKind) (text : String) : Script Unit :=
  match kind with
  | .function | .title => note (.say kind (upper text))
  | .error => do
    let w ← world
    note (.say .error ("*** " ++ lastLog w.log ++ " failed! ***"))
    .exit 10
  | .normal => note (.say .normal text)

def echo (text : String) : Script Unit := note (.say .normal text)

/-- `[ $? -ne 0 ] && print_log error` -/
def orError (code : Nat) : Script Unit := if code = 0 then pure () else printLog .error ""

/-- `cp -f` or `cp -rf` of `src` to its final name `dst`. -/
def cp (src dst : Path) : Script Nat := run (.cp (.job (.cp src dst)) src dst)

/-! ### Downloads -/

section fetch
variable (T : Tools)

/-- The text `fetch_verify` compares the number with; `md5sum` alone goes through `awk '{print $1}'`. -/
def realNum (path : Path) (type : Digest) (content : Option String) : String :=
  match type, content with
  | _, none => ""
  | .md5, some c => T.md5 c
  | .sha1, some c => T.sha1 c ++ "  " ++ path.getLastD ""
  | .sha256, some c => T.sha256 c ++ "  " ++ path.getLastD ""

def Digest.text : Digest → String
  | .md5 => "MD5"
  | .sha1 => "SHA1"
  | .sha256 => "SHA256"

def fetchVerify (path : Path) (num : String) (type : Digest) : Script Nat := do
  echo "Verifing..."
  let w ← world
  let real := realNum T path type (w.fs.content path)
  echo (type.text ++ " verify nummber = [" ++ num ++ "]")
  echo (type.text ++ " real   nummber = [" ++ real ++ "]")
  if num ≠ real then pure 1
  else do
    note (.verified path type num)
    pure 0

/-- `$fetch_dir` without a leading `$DOWNLOAD_DIR/`. -/
def fetchDirReal (E : Config) (dir : Path) : String :=
  if E.downloadDir <+: dir then joinPath (dir.drop E.downloadDir.length) else "/" ++ joinPath dir

/-- The URL that is downloaded, and whether the internal server was asked in vain. -/
def fetchUrl (E : Config) (net : Net) (url : String) (dir : Path) : String × Bool :=
  let replaced := String.ofList (replaceFirst "https://github.com".toList
    "https://endpoint.fastgit.org/https://github.com".toList url.toList)
  let inDir := E.downloadInternalUrl ++ "/" ++ fetchDirReal E dir ++ "/" ++ basename url
  let inTop := E.downloadInternalUrl ++ "/" ++ basename url
  if E.downloadInternalUrl = "" then (replaced, false)
  else if net.spider inDir then (inDir, false)
  else if net.spider inTop then (inTop, false)
  else (replaced, true)

/-- `wget` until it succeeds, `n` more times at most. -/
def wgetRetry (url : String) (cache : Path) : Nat → Script Bool
  | 0 => pure false
  | n + 1 => do
    let code ← run (.ext (.job (.wget url cache)) [cache] [])
    if code = 0 then pure true
    else do
      echo ("Download error, Retry... [" ++ toString (10 - n) ++ "/10]")
      wgetRetry url cache n

/-- The second half of `fetch_download`: get the file, put it in place, verify it. -/
def download (E : Config) (net : Net) (url : String) (dir : Path) (name num : String) (type : Digest) :
    Script Nat := do
  let path := dir ++ [name]
  let cache := dir ++ [name ++ ".download_cache"]
  ifThen (fetchUrl E net url dir).2 (printLog .normal "(internal url not exist, ignore)")
  echo "Downloading..."
  echo (fetchUrl E net url dir).1
  run_ (.mkdirP dir)
  let ok ← wgetRetry (fetchUrl E net url dir).1 cache 10
  if ok then do
    let w ← world
    if w.fs.isFile cache then do
      let code ← run (.mv cache path)
      if code = 0 then
        if num = "" then pure 0 else fetchVerify T path num type
      else pure 1
    else pure 1
  else pure 1

/-- The first half, on a file that is there: whether it is good. A bad one is removed. -/
def verifyOrRemove (path : Path) (num : String) (type : Digest) : Script Bool :=
  if num = "" then pure false
  else do
    let code ← fetchVerify T path num type
    if code = 0 then pure true
    else do
      run_ (.rmF path)
      pure false

def fetchDownload (E : Config) (net : Net) (url : String) (dir : Path) (realname num : String)
    (type : Digest) : Script Nat := do
  let name := if realname = "" then basename url else realname
  let path := dir ++ [name]
  let w ← world
  if w.fs.isFile path then do
    let good ← verifyOrRemove T path num type
    if good then pure 0
    else if E.noNetwork then do
      printLog .normal "(no network, ignore)"
      pure 0
    else download T E net url dir name num type
  else download T E net url dir name num type

/-- The commands `fetch_download` runs for the file `name`. -/
def fetchCmds (E : Config) (net : Net) (url : String) (dir : Path) (name : String) : List (Cmd Label) :=
  let path := dir ++ [name]
  let cache := dir ++ [name ++ ".download_cache"]
  [.mkdirP dir, .ext (.job (.wget (fetchUrl E net url dir).1 cache)) [cache] [], .mv cache path, .rmF path]

end fetch

/-! ### strip_symbol -/

section strip
variable (T : Tools)

/-- `find $strip_dir/* -path "*/part/*" -type f` with a test on the name, as paths below `dir`. -/
def findIn (fs : Fs) (dir : Path) (part : String) (f : String → Bool) : List Path :=
  ((fs.below [dir]).filter fun p => fs.isFile p && (p.drop dir.length).head?.any visible &&
    p.dropLast.contains part && f (p.getLastD "")).map (List.drop dir.length)

def isSharedObject (x : String) : Bool := ".so".toList <:+: x.toList.map Char.toLower

/-- `strip_all_list`: the programs without a dot in their name, and the shared objects. -/
def stripList (fs : Fs) (dir : Path) : List Path :=
  findIn fs dir "bin" (fun x => '.' ∉ x.toList) ++ findIn fs dir "lib" isSharedObject ++
    findIn fs dir "lib64" isSharedObject

/-- One turn of the loop. The status it tests before the strip command is that of the `if` above it, which is 0;
the status of the strip command is not looked at. -/
def stripOne (dir name : Path) : Script Unit := do
  let w ← world
  let files := (pathExpand w.fs dir name).map fun r => dir ++ r
  let messages := files.filterMap fun q => (w.fs.content q).map T.file
  if messages.any fun t => ", stripped".toList <:+: t.toList then echo "--ignore (has stripped)"
  else if !messages.any fun t => ", not stripped".toList <:+: t.toList then
    echo "--ignore (not a file that can be stripped)"
  else do
    echo "--pass"
    run_ (.ext (.job (.strip files)) files [])

def stripSymbol (command : String) (dir : Path) : Script Nat :=
  if command = "" then pure 1
  else do
    let w ← world
    forEach (stripOne T dir) ((stripList w.fs dir).flatMap (pathExpand w.fs dir))
    pure 0

end strip

/-! ### Stamps -/

section stamps
variable (E : Config)

/-- The test that passes a stage over: its directory is there and its lock is not. -/
def stamped (fs : Fs) (s : Stage) : Bool := fs.isDir (E.stageDir s) && !fs.isFile (E.lock s)

/-- `[ -f .../lock ] && rm -f .../lock` -/
def unlock (s : Stage) : Script Unit := do
  let w ← world
  ifThen (w.fs.isFile (E.lock s)) (run_ (.rmF (E.lock s)))

/-- The body of a stage, with the stamp set, up to the removal of the lock. -/
def lockedBody (s : Stage) (body : Script Unit) : Script Unit := do
  note (.started s)
  body
  note (.ended s)
  unlock E s

/-- The stage is passed over. -/
def skip (s : Stage) (fs : Fs) : Script Unit := do
  note (.skipped s fs)
  printLog .normal "(ignore)"

/-- What `shell_build` does with a step it does not pass over: `body` is the script of the platform for
it, if there is one. -/
def shellEnter (s : Stage) (normal : Bool) (body : Option (Script Unit)) : Script Unit :=
  match body with
  | none => printLog .normal "(ignore)"
  | some body => do
    run_ (.mkdirP (E.stageDir s))
    run_ (.write (E.lock s) "1")
    ifThen normal do
      run_ (.mkdirP (E.stageDir s ++ ["src"]))
      run_ (.mkdirP (E.stageDir s ++ ["work"]))
      run_ (.mkdirP E.hostPrefix)
      run_ (.mkdirP E.targetPrefix)
    lockedBody E s body

def shellBuild (reset : Bool) (s : Stage) (normal : Bool) (body : Option (Script Unit)) : Script Unit := do
  run_ (.mkdirP E.buildDir)
  let w ← world
  if !reset && stamped E w.fs s then skip s w.fs else shellEnter E s normal body

end stamps

section install
variable (T : Tools) (E : Config) (net : Net)

def installPkgconfig : Script Unit := do
  printLog .title "install pkg-config"
  let tool := E.currentDir ++ ["common", "tools", "pkg-config"]
  let w ← world
  if E.pkgConfigSysrootDir = "" then printLog .normal "(ignore)"
  else if !w.fs.isFile tool then printLog .normal "(ignore)"
  else if !net.hasPkgConfig then printLog .normal "(ignore)"
  else do
    run_ (.mkdirP (E.hostPrefix ++ ["bin"]))
    let code ← cp tool (E.hostPrefix ++ ["bin", "pkg-config"])
    orError code

/-- `cp -f` or `cp -rf`, the status not looked at. -/
def cp_ (src dst : Path) : Script Unit := do
  let _ ← cp src dst
  pure ()

/-- The files `install_cmake` copies to the host directory, below the installation and below
`BUILD_HOST_PREFIX`. -/
def cmakeCopies : List (Path × Path) :=
  let work := E.stageDir .cmake ++ ["work"]
  ["cmake", "ccmake", "cpack", "ctest"].map (fun x => (work ++ ["bin", x], E.hostPrefix ++ ["bin", x])) ++
    ["share", "man"].map (fun x => (work ++ [x], E.hostPrefix ++ [x]))

/-- The body of `install_cmake`. -/
def cmakeBody : Script Unit := do
  let pkg := basename E.cmakeDownloadUrl
  let src := E.stageDir .cmake ++ ["src"]
  let work := E.stageDir .cmake ++ ["work"]
  let code ← fetchDownload T E net E.cmakeDownloadUrl E.cmakeDownloads "" E.cmakeDownloadMd5 .md5
  orError code
  printLog .title "decompress cmake"
  cp_ (E.cmakeDownloads ++ [pkg]) (src ++ [pkg])
  run_ (.ext (.job (.chmod (src ++ [pkg]))) [src ++ [pkg]] [])
  let code ← run (.ext (.job (.installer (src ++ [pkg]))) [work] [])
  orError code
  run_ (.mkdirP (E.hostPrefix ++ ["bin"]))
  forEach (fun x => cp_ x.1 x.2) (cmakeCopies E)
  let w ← world
  ifThen (w.fs.isDir (E.platformDir ++ ["cmake"]))
    (cp_ (E.platformDir ++ ["cmake"]) (E.hostPrefix ++ ["cmake"]))

def cmakeEnter : Script Unit :=
  if E.cmakeDownloadUrl = "" then printLog .normal "(ignore)"
  else do
    run_ (.mkdirP (E.stageDir .cmake))
    run_ (.mkdirP (E.stageDir .cmake ++ ["src"]))
    run_ (.mkdirP (E.stageDir .cmake ++ ["work"]))
    run_ (.write (E.lock .cmake) "1")
    lockedBody E .cmake (cmakeBody T E net)

def installCmake (reset : Bool) : Script Unit := do
  printLog .title "download cmake"
  let w ← world
  if !reset && stamped E w.fs .cmake then skip .cmake w.fs else cmakeEnter T E net

end install

/-! ### build_project -/

inductive ProjectType where
  | cmake | qmake | other
deriving DecidableEq

section project
variable (E : Config) (s : Stage)

def projectRoot (name : String) : Path := E.stageDir s ++ ["src", name]

def projectWork (name : String) : Path := E.stageDir s ++ ["work", name]

/-- The places a project without an explicit path is looked for, in this order. -/
def candidates (name : String) : List Path :=
  [E.platformDir ++ [s.dirName, name], E.platformDir ++ ["sources", name], E.repoDir ++ [name],
    E.sourceDir ++ [name]]

/-- The sources come to `$BUILD_DIR/$SHELL_TYPE/src`. -/
def copyProject (name : String) (realPath : Option Path) : Script Unit := do
  let w ← world
  match realPath with
  | none =>
    match (candidates E s name).find? w.fs.isDir with
    | some dir => cp_ dir (projectRoot E s name)
    | none => if w.fs.isDir (projectRoot E s name) then pure () else printLog .error ""
  | some dir =>
    if w.fs.isDir dir then cp_ dir (E.stageDir s ++ ["src", dir.getLastD ""]) else printLog .error ""

/-- cmake is run, its status not looked at; qmake is run and must succeed. -/
def configureProject (type : ProjectType) (name : String) : Script Unit := do
  let root := projectRoot E s name
  let work := projectWork E s name
  let w ← world
  match type with
  | .cmake =>
    if w.fs.isFile (root ++ ["CMakeLists.txt"]) || w.fs.isFile (root ++ ["cmake", "CMakeLists.txt"]) then
      run_ (.ext (.job (.cmake work)) [work] [])
    else printLog .error ""
  | .qmake =>
    -- with several .pro files `[ ! -f a b ]` is an error of the test, which does not stop the script
    match w.fs.glob root (fun x => ".pro".toList <:+ x.toList) with
    | [] => printLog .error ""
    | [x] =>
      if w.fs.isFile (root ++ [x]) then do
        let code ← run (.ext (.job (.qmake work)) [work] [])
        orError code
      else printLog .error ""
    | _ => do
      let code ← run (.ext (.job (.qmake work)) [work] [])
      orError code
  | .other => printLog .error ""

/-- The two `make` runs at the end of `build_project`. -/
def makeProject (name : String) : Script Unit := do
  let work := projectWork E s name
  let code ← run (.ext (.job (.make work)) [work] [work])
  orError code
  let code ← run (.ext (.job (.makeTarget work "install")) [work, E.sdkDir] [work])
  orError code

def buildProject (type : ProjectType) (name : String) (realPath : Option Path) : Script Unit := do
  printLog .title ("build " ++ name)
  ifThen (name = "") (printLog .error "")
  copyProject E s name realPath
  run_ (.mkdirP (projectWork E s name))
  configureProject E s type name
  makeProject E s name

end project

/-! ### The rules of print_log -/

section rules
variable {T : Tools} {w : World Label} {I : World Label → Prop} {X : Nat → World Label → Prop} {Q : Unit → World Label → Prop}

theorem safe_printError (hI : I w) (he : ∀ text, I ⟨w.fs, .mark (.say .error text) :: w.log⟩ ∧
    X 10 ⟨w.fs, .mark (.say .error text) :: w.log⟩) : Safe T Alone I Q X (printLog .error "") w :=
  safe_bind (safe_world.2 ⟨hI, safe_bind (safe_note.2 ⟨hI, (he _).1, safe_exit.2 (he _)⟩)⟩)

theorem safe_orError {code : Nat} (hI : I w) (h0 : code = 0 → Q () w)
    (he : code ≠ 0 → ∀ text, I ⟨w.fs, .mark (.say .error text) :: w.log⟩ ∧
      X 10 ⟨w.fs, .mark (.say .error text) :: w.log⟩) : Safe T Alone I Q X (orError code) w := by
  unfold orError
  split
  · exact safe_pure.2 ⟨hI, h0 ‹_›⟩
  · exact safe_printError hI (he ‹_›)

end rules

/-! ### Where the functions work -/

section reports
variable {T : Tools} {E : Config} {net : Net} {P : Cmd Label → Prop} {M : Label → Prop}
  (hsay : ∀ kind text, M (.say kind text))
include hsay

open Prog

theorem all_printLog_of {kind : LogKind} {text : String} : (printLog kind text).All P M := by
  cases kind with
  | error => exact fun w => ⟨hsay _ _, Nat.succ_ne_zero 9⟩
  | _ => exact all_note.2 (hsay _ _)

theorem all_orError_of {code : Nat} : (orError code).All P M :=
  all_ite (fun _ => trivial) fun _ => all_printLog_of hsay

theorem all_wgetRetry {url : String} {cache : Path} (hc : P (.ext (.job (.wget url cache)) [cache] [])) (n : Nat) :
    (wgetRetry url cache n).All P M := by
  induction n with
  | zero => trivial
  | succ n ih =>
    refine All.bind (all_run.2 hc) fun code => ?_
    exact all_ite (fun _ => trivial) fun _ => All.bind (all_note.2 (hsay _ _)) fun _ => ih

variable (hverified : ∀ file type num, M (.verified file type num))
include hverified

theorem all_fetchVerify {path : Path} {num : String} {type : Digest} : (fetchVerify T path num type).All P M := by
  refine All.bind (all_note.2 (hsay _ _)) fun _ => All.bind (all_world.2 trivial) fun w => ?_
  refine All.bind (all_note.2 (hsay _ _)) fun _ => All.bind (all_note.2 (hsay _ _)) fun _ => ?_
  refine all_ite (fun _ => trivial) fun _ => ?_
  exact All.bind (all_note.2 (hverified _ _ _)) fun _ => trivial

theorem all_verifyOrRemove {path : Path} {num : String} {type : Digest} (hrm : P (.rmF path)) :
    (verifyOrRemove T path num type).All P M := by
  refine all_ite (fun _ => trivial) fun _ => All.bind (all_fetchVerify hsay hverified) fun code => ?_
  exact all_ite (fun _ => trivial) fun _ => All.bind (all_run_.2 hrm) fun _ => trivial

theorem all_download {url name num : String} {dir : Path} {type : Digest} :
    (download T E net url dir name num type).All (· ∈ fetchCmds E net url dir name) M := by
  refine All.bind (all_ifThen fun _ => all_printLog_of hsay) fun _ => ?_
  refine All.bind (all_note.2 (hsay _ _)) fun _ => All.bind (all_note.2 (hsay _ _)) fun _ => ?_
  refine All.bind (all_run_.2 (by simp [fetchCmds])) fun _ => ?_
  refine All.bind (all_wgetRetry hsay (by simp [fetchCmds]) 10) fun ok => ?_
  refine all_ite (fun _ => ?_) fun _ => trivial
  refine All.bind (all_world.2 trivial) fun w => all_ite (fun _ => ?_) fun _ => trivial
  refine All.bind (all_run.2 (by simp [fetchCmds])) fun code => all_ite (fun _ => ?_) fun _ => trivial
  exact all_ite (fun _ => trivial) fun _ => all_fetchVerify hsay hverified

theorem all_fetchDownload_cmds {url num : String} {dir : Path} {type : Digest} :
    (fetchDownload T E net url dir "" num type).All (· ∈ fetchCmds E net url dir (basename url)) M := by
  refine All.bind (all_world.2 trivial) fun w => all_ite (fun _ => ?_) fun _ => all_download hsay hverified
  refine All.bind (all_verifyOrRemove hsay hverified (by simp [fetchCmds])) fun good => ?_
  refine all_ite (fun _ => trivial) fun _ => all_ite (fun _ => ?_) fun _ => all_download hsay hverified
  exact All.bind (all_printLog_of hsay) fun _ => trivial

end reports

section areas
variable {T : Tools} {E : Env} {net : Net} {s : Stage} {A : Area} {M : Label → Prop}
  (hM : ∀ m : Label, m.stage = none → M m)
include hM

open Prog

theorem all_printLog {P : Cmd Label → Prop} {kind : LogKind} {text : String} : (printLog kind text).All P M :=
  all_printLog_of fun _ _ => hM _ rfl

theorem all_orError {P : Cmd Label → Prop} {code : Nat} : (orError code).All P M :=
  all_orError_of fun _ _ => hM _ rfl

omit hM in
theorem within_fetchCmds {url name : String} {dir : Path} (hd : ∀ r, dir <+: r → A.mem r) {c : Cmd Label}
    (hc : c ∈ fetchCmds E.toConfig net url dir name) : c.Within A := by
  have hfile : ∀ x, A.mem (dir ++ [x]) := fun x => hd _ (List.prefix_append _ _)
  simp only [fetchCmds, List.mem_cons, List.not_mem_nil, or_false] at hc
  rcases hc with rfl | rfl | rfl | rfl
  · exact .inl (hd _ (List.prefix_refl _))
  · simpa [Cmd.Within, Cmd.roots] using hfile _
  · simpa [Cmd.Within, Cmd.roots] using ⟨hfile _, hfile _⟩
  · simpa [Cmd.Within, Cmd.roots] using hfile _

theorem all_fetchDownload {url num : String} {dir : Path} {type : Digest} (hd : ∀ r, dir <+: r → A.mem r) :
    (fetchDownload T E.toConfig net url dir "" num type).All (Cmd.Within A) M :=
  (all_fetchDownload_cmds (fun _ _ => hM _ rfl) fun _ _ _ => hM _ rfl).mono (fun _ hc => within_fetchCmds hd hc)
    fun _ h => h

omit hM in
theorem all_cp {src dst : Path} (h : A.mem dst) : (cp src dst).All (Cmd.Within A) M :=
  all_run.2 (by simpa [Cmd.Within, Cmd.roots] using h)

omit hM in
theorem all_cp_ {src dst : Path} (h : A.mem dst) : (cp_ src dst).All (Cmd.Within A) M :=
  All.bind (all_cp h) fun _ => trivial

omit hM in
/-- An external program, by where it works. -/
theorem within_ext {job : Label} {foot makes : List Path} (h : ∀ p ∈ foot, A.mem p) :
    (Cmd.ext job foot makes).Within A := h

omit hM in
theorem all_lockedBody {body : Script Unit} (hs : M (.started s)) (he : M (.ended s))
    (hb : body.All (Cmd.Within (E.bodyArea s)) M) : (lockedBody E.toConfig s body).All
      (Cmd.Within (E.stepArea s)) M := by
  refine All.bind (all_note.2 hs) fun _ => All.bind (hb.mono (fun c => Env.within_stepArea) fun _ h => h) ?_
  refine fun _ => All.bind (all_note.2 he) fun _ => All.bind (all_world.2 trivial) fun w => ?_
  refine all_ifThen fun _ => all_run_.2 fun r hr => ?_
  rw [List.mem_singleton.1 hr]
  exact .inr Env.stageDir_lock

end areas

section stageAreas
variable {T : Tools} {E : Env} {net : Net} {s : Stage} {M : Label → Prop}

open Prog

theorem mem_sdk {p : Path} (h : E.sdkDir <+: p) : Fs.covers E.outside p = true :=
  Fs.covers_iff.2 ⟨_, by simp [Config.outside], h⟩

theorem mem_hostPrefix {p : Path} : Fs.covers E.outside (E.hostPrefix ++ p) = true :=
  mem_sdk (by rw [Config.hostPrefix, List.append_assoc]; exact List.prefix_append _ _)

theorem mem_targetPrefix {p : Path} : Fs.covers E.outside (E.targetPrefix ++ p) = true :=
  mem_sdk (by rw [Config.targetPrefix, List.append_assoc]; exact List.prefix_append _ _)

/-- A path in a directory of the stage other than its lock. -/
theorem mem_bodyArea {x : String} {p : Path} (hx : x ≠ "lock") : (E.bodyArea s).mem (E.stageDir s ++ x :: p) :=
  .inr ⟨x, hx, ⟨p, by simp⟩⟩

theorem all_shellEnter {normal : Bool} {body : Option (Script Unit)} (hM : ∀ m : Label, m.stage = none → M m)
    (hs : M (.started s)) (he : M (.ended s))
    (hb : ∀ b, body = some b → b.All (Cmd.Within (E.bodyArea s)) fun m => m.stage = none) :
    (shellEnter E.toConfig s normal body).All (Cmd.Within (E.stepArea s)) M := by
  have hown : ∀ p, E.stageDir s <+: p → (E.stepArea s).mem p := fun p h => .inr h
  cases body with
  | none =>
    show (printLog .normal "(ignore)").All _ _
    exact all_printLog hM
  | some b =>
    refine All.bind (all_run_.2 (.inl (hown _ (List.prefix_refl _)))) fun _ => ?_
    refine All.bind (all_run_.2 fun r hr => ?_) fun _ => ?_
    · rw [List.mem_singleton.1 hr]; exact hown _ Env.stageDir_lock
    refine All.bind (all_ifThen fun _ => ?_) fun _ => ?_
    · refine All.bind (all_run_.2 (.inl (hown _ (List.prefix_append _ _)))) fun _ => ?_
      refine All.bind (all_run_.2 (.inl (hown _ (List.prefix_append _ _)))) fun _ => ?_
      exact All.bind (all_run_.2 (.inl (.inl (mem_sdk (List.prefix_append _ _))))) fun _ =>
        all_run_.2 (.inl (.inl (mem_sdk (List.prefix_append _ _))))
    · exact all_lockedBody hs he ((hb b rfl).mono (fun _ h => h) hM)

theorem all_shellBuild {reset normal : Bool} {body : Option (Script Unit)}
    (hM : ∀ m : Label, m.stage = none ∨ m.stage = some s → M m)
    (hb : ∀ b, body = some b → b.All (Cmd.Within (E.bodyArea s)) fun m => m.stage = none) :
    (shellBuild E.toConfig reset s normal body).All (Cmd.Within (E.stepArea s)) M := by
  have hp : ∀ m : Label, m.stage = none → M m := fun m hm => hM m (.inl hm)
  refine All.bind (all_run_.2 (.inr (.inl rfl))) fun _ => All.bind (all_world.2 trivial) fun w => ?_
  refine all_ite (fun _ => All.bind (all_note.2 (hM _ (.inr rfl))) fun _ => all_printLog hp) fun _ => ?_
  exact all_shellEnter hp (hM _ (.inr rfl)) (hM _ (.inr rfl)) hb

theorem all_installPkgconfig {A : Area} (hM : ∀ m : Label, m.stage = none → M m)
    (hA : ∀ p, Fs.covers E.outside p = true → A.mem p) :
    (installPkgconfig E.toConfig net).All (Cmd.Within A) M := by
  refine All.bind (all_printLog hM) fun _ => All.bind (all_world.2 trivial) fun w => ?_
  refine all_ite (fun _ => all_printLog hM) fun _ => all_ite (fun _ => all_printLog hM) fun _ => ?_
  refine all_ite (fun _ => all_printLog hM) fun _ => ?_
  refine All.bind (all_run_.2 (.inl (hA _ mem_hostPrefix))) fun _ => ?_
  exact All.bind (all_cp (hA _ mem_hostPrefix)) fun _ => all_orError hM

theorem all_cmakeBody (hM : ∀ m : Label, m.stage = none → M m) :
    (cmakeBody T E.toConfig net).All (Cmd.Within (E.bodyArea .cmake)) M := by
  have hdown : ∀ r, E.cmakeDownloads <+: r → (E.bodyArea .cmake).mem r := fun r hr =>
    .inl (Fs.covers_iff.2 ⟨_, by simp [Config.outside], hr⟩)
  have hsrc : ∀ p, (E.bodyArea .cmake).mem (E.stageDir .cmake ++ ["src"] ++ p) := fun p => by
    rw [List.append_assoc]; exact mem_bodyArea (by decide)
  have hhost : ∀ p, (E.bodyArea .cmake).mem (E.hostPrefix ++ p) := fun p => .inl mem_hostPrefix
  refine All.bind (all_fetchDownload hM hdown) fun _ => All.bind (all_orError hM) fun _ => ?_
  refine All.bind (all_printLog hM) fun _ => All.bind (all_cp_ (hsrc _)) fun _ => ?_
  refine All.bind (all_run_.2 (within_ext (by simpa using hsrc _))) fun _ => ?_
  refine All.bind (all_run.2 (within_ext (by simpa using mem_bodyArea (p := []) (by decide)))) fun _ => ?_
  refine All.bind (all_orError hM) fun _ => All.bind (all_run_.2 (.inl (hhost _))) fun _ => ?_
  refine All.bind (all_forEach fun x hx => all_cp_ ?_) fun _ => All.bind (all_world.2 trivial) fun w => ?_
  · simp only [cmakeCopies, List.mem_append, List.mem_map] at hx
    obtain ⟨y, -, rfl⟩ | ⟨y, -, rfl⟩ := hx
    · exact hhost _
    · exact hhost _
  · exact all_ifThen fun _ => all_cp_ (hhost _)

theorem all_cmakeEnter (hM : ∀ m : Label, m.stage = none → M m) (hs : M (.started .cmake))
    (he : M (.ended .cmake)) : (cmakeEnter T E.toConfig net).All (Cmd.Within (E.stepArea .cmake)) M := by
  have hown : ∀ p, E.stageDir .cmake <+: p → (E.stepArea .cmake).mem p := fun p h => .inr h
  refine all_ite (fun _ => all_printLog hM) fun _ => ?_
  refine All.bind (all_run_.2 (.inl (hown _ (List.prefix_refl _)))) fun _ => ?_
  refine All.bind (all_run_.2 (.inl (hown _ (List.prefix_append _ _)))) fun _ => ?_
  refine All.bind (all_run_.2 (.inl (hown _ (List.prefix_append _ _)))) fun _ => ?_
  refine All.bind (all_run_.2 fun r hr => ?_) fun _ => all_lockedBody hs he (all_cmakeBody hM)
  rw [List.mem_singleton.1 hr]; exact hown _ Env.stageDir_lock

theorem all_installCmake {reset : Bool} (hM : ∀ m : Label, m.stage = none ∨ m.stage = some .cmake → M m) :
    (installCmake T E.toConfig net reset).All (Cmd.Within (E.stepArea .cmake)) M := by
  have hp : ∀ m : Label, m.stage = none → M m := fun m hm => hM m (.inl hm)
  refine All.bind (all_printLog hp) fun _ => All.bind (all_world.2 trivial) fun w => ?_
  refine all_ite (fun _ => All.bind (all_note.2 (hM _ (.inr rfl))) fun _ => all_printLog hp) fun _ => ?_
  exact all_cmakeEnter hp (hM _ (.inr rfl)) (hM _ (.inr rfl))

theorem all_buildProject {type : ProjectType} {name : String} {realPath : Option Path}
    (hM : ∀ m : Label, m.stage = none → M m) :
    (buildProject E.toConfig s type name realPath).All (Cmd.Within (E.bodyArea s)) M := by
  have hsrc : ∀ x, (E.bodyArea s).mem (E.stageDir s ++ ["src", x]) := fun x => mem_bodyArea (by decide)
  have hwork : (E.bodyArea s).mem (projectWork E.toConfig s name) := mem_bodyArea (by decide)
  have hsdk : (E.bodyArea s).mem E.sdkDir := .inl (mem_sdk (List.prefix_refl _))
  refine All.bind (all_printLog hM) fun _ => All.bind (all_ifThen fun _ => all_printLog hM) fun _ => ?_
  refine All.bind ?_ fun _ => All.bind (all_run_.2 (.inl hwork)) fun _ => All.bind ?_ fun _ => ?_
  · refine All.bind (all_world.2 trivial) fun w => ?_
    cases realPath with
    | none =>
      show (match (candidates E.toConfig s name).find? w.fs.isDir with
        | some dir => _ | none => _ : Script Unit).All _ _
      split
      · exact all_cp_ (hsrc _)
      · exact all_ite (fun _ => trivial) fun _ => all_printLog hM
    | some dir => exact all_ite (fun _ => all_cp_ (hsrc _)) fun _ => all_printLog hM
  · have hq : (do
        let code ← run (.ext (.job (.qmake (projectWork E.toConfig s name))) [projectWork E.toConfig s name] [])
        orError code : Script Unit).All (Cmd.Within (E.bodyArea s)) M :=
      All.bind (all_run.2 (within_ext (by simpa using hwork))) fun _ => all_orError hM
    refine All.bind (all_world.2 trivial) fun w => ?_
    cases type with
    | cmake => exact all_ite (fun _ => all_run_.2 (within_ext (by simpa using hwork))) fun _ => all_printLog hM
    | qmake =>
      show (match w.fs.glob (projectRoot E.toConfig s name) (fun x => ".pro".toList <:+ x.toList) with
        | [] => _ | [x] => _ | _ => _ : Script Unit).All _ _
      split
      · exact all_printLog hM
      · exact all_ite (fun _ => hq) fun _ => all_printLog hM
      · exact hq
    | other => exact all_printLog hM
  · refine All.bind (all_run.2 (within_ext (by simpa using hwork))) fun _ => ?_
    refine All.bind (all_orError hM) fun _ => ?_
    exact All.bind (all_run.2 (within_ext (by simpa using ⟨hwork, hsdk⟩))) fun _ => all_orError hM

end stageAreas

end BuildQt5
