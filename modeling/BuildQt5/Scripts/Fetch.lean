import BuildQt5.Scripts.Common

/-!
# do_fetch.sh

The md5 list, the loop over the modules with its copy and download branches, and the patch phase.
Blanks in a word of `BUILD_LIST` cannot occur, so `sed 's/ //g'` leaves it as it is; a module name has
no character that `grep -E` or a pattern reads as more than itself.
-/

namespace BuildQt5
open Shell
open Prog (world run run_ note ifThen forEach)

/-! ### The digest of a module -/

/-- `grep -E ".tar.xz"`, where a `.` is any character. -/
def hasTarXz : List Char → Bool
  | [] => false
  | _ :: cs =>
    (match cs with
      | 't' :: 'a' :: 'r' :: _ :: 'x' :: 'z' :: _ => true
      | _ => false) || hasTarXz cs

/-- `DMD5SUM`: what `grep`, `grep` and `awk` make of the list. -/
def digestOf (list m : String) : String :=
  "\n".intercalate
    (((lines list).filter fun l => decide ((m ++ "-").toList <:+: l) && hasTarXz l).map firstField)

/-! ### The module loop -/

section fetch
variable (T : Tools) (E : Config) (net : Net)

def qtSrc : Path := E.stageDir .qt5 ++ ["src"]

def qtDownloads : Path := E.downloadDir ++ ["qt5"]

/-- What a pattern below `d` expands to: the pattern itself when nothing matches. -/
def expand (fs : Fs) (d : Path) (f : String → Bool) (pattern : String) : List Path :=
  match fs.glob d f with
  | [] => [d ++ [pattern]]
  | xs => xs.map fun x => d ++ [x]

/-- `[ -d .../m-* ] && rm -rf .../m-*/`: the test fails on several matches. -/
def removeOld (m : String) : Script Unit := do
  let w ← world
  match w.fs.glob (qtSrc E) (dash m) with
  | [x] => ifThen (w.fs.isDir (qtSrc E ++ [x])) (run_ (.rmRf [qtSrc E ++ [x]]))
  | _ => pure ()

/-- `[ -f $SOURCE_DIR/m-*/m.pro ]` -/
def hasLocalSource (fs : Fs) (m : String) : Bool :=
  match (fs.glob E.sourceDir (dash m)).filter fun x => fs.get (E.sourceDir ++ [x, m ++ ".pro"]) ≠ none with
  | [x] => fs.isFile (E.sourceDir ++ [x, m ++ ".pro"])
  | _ => false

/-- The directories `$SOURCE_DIR/m-*/`. -/
def sourceTrees (fs : Fs) (m : String) : List String :=
  (fs.glob E.sourceDir (dash m)).filter fun x => fs.isDir (E.sourceDir ++ [x])

/-- `$BUILD_DIR/qt5/src/$(basename $SOURCE_DIR/m-*/)`; `basename` takes one argument, or one and a
suffix, and prints nothing when it is given more. -/
def rsyncDest (dirs : List String) : Path :=
  match dirs with
  | [x] | [x, _] => qtSrc E ++ [x]
  | _ => qtSrc E

/-- `rsync -r` of the trees to one directory, or `cp -rf` of each to its name. -/
def copyCmd (dirs : List String) : Cmd Label :=
  let srcs := dirs.map fun x => E.sourceDir ++ [x]
  let copies := dirs.map fun x => qtSrc E ++ [x]
  if net.hasRsync then .ext (.job (.rsync srcs (rsyncDest E dirs))) [rsyncDest E dirs] [rsyncDest E dirs]
  else .ext (.job (.cpAll srcs (qtSrc E))) copies copies

def copyModule (m : String) : Script Unit := do
  printLog .title ("copy " ++ m)
  let w ← world
  let code ← run (copyCmd E net (sourceTrees E w.fs m))
  orError code

/-- `tar -xf $DOWNLOAD_DIR/qt5/m-*.tar.xz -C $BUILD_DIR/qt5/src/` -/
def extractModule (m : String) : Script Unit := do
  printLog .title ("decompress " ++ m)
  note (.extract m)
  let w ← world
  let code ← run (.tar (expand w.fs (qtDownloads E) (between (m ++ "-") ".tar.xz") (m ++ "-*.tar.xz")) (qtSrc E))
  orError code

def downloadModule (list m : String) : Script Unit := do
  printLog .title ("download " ++ m)
  run_ (.mkdirP (qtDownloads E))
  let code ← fetchDownload T E net (E.qtDownloadUrlPre ++ "/" ++ (m ++ E.qtDownloadUrlPost)) (qtDownloads E) ""
    (digestOf list m) .md5
  orError code
  extractModule E m

/-- `patch -p1 -N -d $BUILD_DIR/qt5/src/m* < file` -/
def patchOne (m text : String) : Script Unit := do
  let w ← world
  let code ← run (.patch (expand w.fs (qtSrc E) (star m) (m ++ "*")) text)
  orError code

def patchModule (m : String) : Script Unit :=
  ifThen (E.patches m ≠ []) do
    printLog .title ("patch " ++ m)
    forEach (fun file => patchOne E m file.2) (E.patches m)

def sourceModule (list m : String) : Script Unit := do
  let w ← world
  if hasLocalSource E w.fs m then copyModule E net m else downloadModule T E net list m

def fetchModule (list m : String) : Script Unit := do
  removeOld E m
  sourceModule T E net list m
  patchModule E m

/-- `QT_PACKAGE_MD5SUM_LIST`: the online list when there is a network, whatever is in it. -/
def md5List : Script String := do
  let list := E.md5sumTxt.getD ""
  if net.hasCurl then
    if E.noNetwork then pure list
    else do
      echo "Try to get md5sum online..."
      orError net.md5sumTxt.1
      pure net.md5sumTxt.2
  else do
    printLog .normal "(no network, ignore)"
    pure list

def fetchBody : Script Unit := do
  let list ← md5List E net
  forEach (fetchModule T E net list) E.modules

def fetchEnter : Script Unit := do
  run_ (.mkdirP (qtSrc E))
  run_ (.mkdirP (E.stageDir .qt5 ++ ["work"]))
  run_ (.write (E.lock .qt5) "1")
  lockedBody E .qt5 (fetchBody T E net)

def doFetch (reset : Bool) : Script Unit := do
  run_ (.mkdirP E.buildDir)
  let w ← world
  if !reset && stamped E w.fs .qt5 then skip .qt5 w.fs else fetchEnter T E net

end fetch

/-! ### Where do_fetch works -/

section areas
variable {T : Tools} {E : Env} {net : Net} {M : Label → Prop} (hM : ∀ m : Label, m.stage = none → M m)

open Prog

theorem mem_qtSrc (p : Path) : (E.bodyArea .qt5).mem (qtSrc E.toConfig ++ p) := by
  rw [qtSrc, List.append_assoc]; exact mem_bodyArea (by decide)

theorem mem_expand {fs : Fs} {d p : Path} {f : String → Bool} {pattern : String}
    (h : p ∈ expand fs d f pattern) : ∃ x, p = d ++ [x] := by
  unfold expand at h
  split at h
  · exact ⟨pattern, List.mem_singleton.1 h⟩
  · obtain ⟨x, -, rfl⟩ := List.mem_map.1 h
    exact ⟨x, rfl⟩

theorem between_star {m : String} : between (m ++ "-") ".tar.xz" (m ++ "-*.tar.xz") = true := by
  have h : (m ++ "-*.tar.xz").toList = (m ++ "-").toList ++ '*' :: ".tar.xz".toList := by simp
  rw [between, h, List.drop_left]
  simp

/-- What `tar` is given is named like an archive of the module, also where nothing is. -/
theorem between_of_expand {fs : Fs} {d p : Path} {m : String}
    (h : p ∈ expand fs d (between (m ++ "-") ".tar.xz") (m ++ "-*.tar.xz")) :
    ∃ x, p = d ++ [x] ∧ between (m ++ "-") ".tar.xz" x = true := by
  unfold expand at h
  split at h
  · exact ⟨_, List.mem_singleton.1 h, between_star⟩
  · obtain ⟨x, hx, rfl⟩ := List.mem_map.1 h
    exact ⟨x, rfl, (Fs.mem_glob.1 hx).2⟩

theorem rejectPath_child (d : Path) (x : String) : rejectPath (d ++ [x]) = d ++ [x ++ ".rej"] := by
  simp [rejectPath]

theorem all_removeOld {m : String} : (removeOld E.toConfig m).All (Cmd.Within (E.bodyArea .qt5)) M := by
  refine All.bind (all_world.2 trivial) fun w => ?_
  split
  · refine all_ifThen fun _ => all_run_.2 fun r hr => ?_
    rw [List.mem_singleton.1 hr]; exact mem_qtSrc _
  · trivial

include hM

theorem all_copyModule {m : String} : (copyModule E.toConfig net m).All (Cmd.Within (E.bodyArea .qt5)) M := by
  refine All.bind (all_printLog hM) fun _ => All.bind (all_world.2 trivial) fun w => ?_
  refine All.bind (all_run.2 ?_) fun _ => all_orError hM
  have hdest : ∀ dirs, (E.bodyArea .qt5).mem (rsyncDest E.toConfig dirs) := by
    intro dirs
    unfold rsyncDest
    split
    · exact mem_qtSrc _
    · exact mem_qtSrc _
    · rw [← List.append_nil (qtSrc _)]; exact mem_qtSrc _
  unfold copyCmd
  simp only
  split
  · exact within_ext fun p hp => by rw [List.mem_singleton.1 hp]; exact hdest _
  · refine within_ext fun p hp => ?_
    obtain ⟨x, -, rfl⟩ := List.mem_map.1 hp
    exact mem_qtSrc _

theorem all_extractModule {m : String} :
    (extractModule E.toConfig m).All (Cmd.Within (E.bodyArea .qt5)) M := by
  refine All.bind (all_printLog hM) fun _ => All.bind (all_note.2 (hM _ rfl)) fun _ => ?_
  refine All.bind (all_world.2 trivial) fun w => All.bind (all_run.2 fun r hr => ?_) fun _ => all_orError hM
  rw [List.mem_singleton.1 hr, ← List.append_nil (qtSrc _)]
  exact mem_qtSrc _

theorem all_downloadModule {list m : String} :
    (downloadModule T E.toConfig net list m).All (Cmd.Within (E.bodyArea .qt5)) M := by
  have hdown : ∀ r, qtDownloads E.toConfig <+: r → (E.bodyArea .qt5).mem r := fun r hr =>
    .inl (Fs.covers_iff.2 ⟨E.downloadDir, by simp [Config.outside], (List.prefix_append _ _).trans hr⟩)
  refine All.bind (all_printLog hM) fun _ => ?_
  refine All.bind (all_run_.2 (.inl (hdown _ (List.prefix_refl _)))) fun _ => ?_
  refine All.bind (all_fetchDownload hM hdown) fun _ => All.bind (all_orError hM) fun _ => ?_
  exact all_extractModule hM

theorem all_patchModule {m : String} : (patchModule E.toConfig m).All (Cmd.Within (E.bodyArea .qt5)) M := by
  refine all_ifThen fun _ => All.bind (all_printLog hM) fun _ => all_forEach fun file _ => ?_
  refine All.bind (all_world.2 trivial) fun w => All.bind (all_run.2 fun r hr => ?_) fun _ => all_orError hM
  rcases List.mem_append.1 hr with hr | hr
  · obtain ⟨x, rfl⟩ := mem_expand hr
    exact mem_qtSrc _
  · obtain ⟨p, hp, rfl⟩ := List.mem_map.1 hr
    obtain ⟨x, rfl⟩ := mem_expand hp
    rw [rejectPath_child]; exact mem_qtSrc _

theorem all_fetchModule {list m : String} :
    (fetchModule T E.toConfig net list m).All (Cmd.Within (E.bodyArea .qt5)) M := by
  refine All.bind all_removeOld fun _ => All.bind ?_ fun _ => all_patchModule hM
  exact All.bind (all_world.2 trivial) fun w =>
    all_ite (fun _ => all_copyModule hM) fun _ => all_downloadModule hM

theorem all_md5List {P : Cmd Label → Prop} : (md5List E.toConfig net).All P M := by
  refine all_ite (fun _ => all_ite (fun _ => trivial) fun _ => ?_) fun _ => All.bind (all_printLog hM) fun _ => trivial
  exact All.bind (all_note.2 (hM _ rfl)) fun _ => All.bind (all_orError hM) fun _ => trivial

theorem all_fetchBody : (fetchBody T E.toConfig net).All (Cmd.Within (E.bodyArea .qt5)) M :=
  All.bind (all_md5List hM) fun _ => all_forEach fun _ _ => all_fetchModule hM

theorem all_fetchEnter (hs : M (.started .qt5)) (he : M (.ended .qt5)) :
    (fetchEnter T E.toConfig net).All (Cmd.Within (E.stepArea .qt5)) M := by
  have hown : ∀ p, E.stageDir .qt5 <+: p → (E.stepArea .qt5).mem p := fun p h => .inr h
  refine All.bind (all_run_.2 (.inl (hown _ (List.prefix_append _ _)))) fun _ => ?_
  refine All.bind (all_run_.2 (.inl (hown _ (List.prefix_append _ _)))) fun _ => ?_
  refine All.bind (all_run_.2 fun r hr => ?_) fun _ => all_lockedBody hs he (all_fetchBody hM)
  rw [List.mem_singleton.1 hr]; exact hown _ Env.stageDir_lock

omit hM in
theorem all_doFetch {reset : Bool} (hM : ∀ m : Label, m.stage = none ∨ m.stage = some .qt5 → M m) :
    (doFetch T E.toConfig net reset).All (Cmd.Within (E.stepArea .qt5)) M := by
  have hp : ∀ m : Label, m.stage = none → M m := fun m hm => hM m (.inl hm)
  refine All.bind (all_run_.2 (.inr (.inl rfl))) fun _ => All.bind (all_world.2 trivial) fun w => ?_
  refine all_ite (fun _ => All.bind (all_note.2 (hM _ (.inr rfl))) fun _ => all_printLog hp) fun _ => ?_
  exact all_fetchEnter hp (hM _ (.inr rfl)) (hM _ (.inr rfl))

end areas

end BuildQt5
