import BuildQt5.Compile
import BuildQt5.Increment
import BuildQt5.Invocation

/-!
# What exit code 0 of all means

Each script of a platform is there for something: the programs that unpack, build and install its packages (`goals`).
A body that has come to its end has run them all with success, in this order. That is recorded between the start and the
end of the body, whatever happens later (`Certified`); a stage that is passed over relies on the record of an earlier
invocation. So when an `all` exits with 0, every package of the platform has been installed, then or in an earlier
invocation, and nothing of it has been removed since; and Qt has been configured, compiled and installed in this
invocation, module by module (`all_built`).
-/

namespace BuildQt5
open Shell Relation
open Prog (world run run_ note ifThen forEach)

/-! ### What the scripts are for -/

abbrev Goal := Label → Prop

def runs (j : Job) : Goal := fun m => m = .job j

section goals
variable (E : Config) (ndk : Ndk)

/-- `build_project`: the status of the configuration is that of qmake only, so it is left out. -/
def projectGoals (s : Stage) (name : String) : List Goal :=
  [runs (.make (projectWork E s name)), runs (.makeTarget (projectWork E s name) "install")]

def ndkGoals : List Goal :=
  [runs (.unzip (E.downloadDir ++ ["toolchain"] ++ [ndk.ndkName ++ "-linux-x86_64.zip"]) (E.stageDir .toolchain))]

def cmakeGoals : List Goal := [runs (.installer (E.stageDir .cmake ++ ["src"] ++ [basename E.cmakeDownloadUrl]))]

def cxxruntimeGoals : List Goal :=
  [runs (.cp (E.stageDir .toolchain ++ [ndk.ndkName, "toolchains", "llvm", "prebuilt", "linux-x86_64", "sysroot", "usr",
    "lib", "aarch64-linux-android", "libc++_shared.so"]) (E.targetPrefix ++ ["lib", "libc++_shared.so"]))]

/-- The library, or the last of the links that go with the host's one. -/
def libsffgGoals : List Goal :=
  if ndk.openglDirPrefix = "" || ndk.openglFileSuffix = "" then
    [runs (.cp (androidDepends E ++ ["libsffg", "libsffg.so"]) (E.targetPrefix ++ ["lib"] ++ ["libsffg.so"]))]
  else
    [runs (.ln (ndk.openglDirPrefix ++ "libGLESv3_" ++ ndk.openglFileSuffix ++ ".so")
      (E.targetPrefix ++ ["lib"] ++ ["libGLESv3.so"]))]

/-- In a directory below `3rdparty/work` that is found by a pattern. -/
def inWork (f : Path → Job) : Goal := fun m => ∃ d, thirdpartyWork E <+: d ∧ m = .job (f d)

def opensslGoals : List Goal := [inWork E .configure, inWork E .make, inWork E (.makeTarget · "install")]

def thirdpartyBaseGoals : List Goal :=
  cxxruntimeGoals E ndk ++ (libsffgGoals E ndk ++ (projectGoals E .thirdparty "rt" ++
    (projectGoals E .thirdparty "pthread" ++ opensslGoals E)))

def boostGoals : List Goal := [runs (.makeTarget (thirdpartyWork E ++ ["Boost-for-Android"]) "build-android.sh")]

def boostLinuxGoals : List Goal :=
  [runs (.configure (thirdpartyWork E ++ ["boost_1_74_0"])),
    runs (.makeTarget (thirdpartyWork E ++ ["boost_1_74_0"]) "b2")]

def capicxxGoals (generator target link runtime : String) : List Goal :=
  [runs (.unzip (E.sourceDir ++ [generator, generator ++ "*.zip"]) (thirdpartyWork E ++ [generator])),
    runs (.ln ("../share/" ++ generator ++ "/" ++ target) (E.hostPrefix ++ ["bin", link]))] ++
    projectGoals E .thirdparty runtime

def protobufGoals : List Goal :=
  [runs (.unzip (thirdpartyDownloads E ++ ["protoc-3.20.0-linux-x86_64.zip"]) (thirdpartySrc E ++ ["protoc-host"])),
    inWork E .make, inWork E (.makeTarget · "install")]

def thirdpartyIviGoals : List Goal :=
  projectGoals E .thirdparty "dlt-daemon" ++ (projectGoals E .thirdparty "vsomeip" ++
    (capicxxGoals E "commonapi_core_generator" "commonapi-core-generator-linux-x86_64" "capicxx-core-gen"
      "capicxx-core-runtime" ++
    (capicxxGoals E "commonapi_someip_generator" "commonapi-someip-generator-linux-x86_64" "capicxx-someip-gen"
      "capicxx-someip-runtime" ++
    (protobufGoals E ++ projectGoals E .thirdparty "fdbus"))))

/-- What the body of a stage is for, for the platform of this name. -/
def goals (name : String) : Stage → List Goal
  | .toolchain => if name = "qt5-linux_x86-ivi" then [] else ndkGoals E ndk
  | .cmake => cmakeGoals E
  | .thirdparty =>
    if name = "qt5-android-ndk-ivi" then thirdpartyBaseGoals E ndk ++ (boostGoals E ++ thirdpartyIviGoals E)
    else if name = "qt5-android-ndk-cluster" then thirdpartyBaseGoals E ndk
    else boostLinuxGoals E ++ thirdpartyIviGoals E
  | .qt5 | .vendor => []

end goals

/-! ### The scripts achieve it -/

section achieves
variable {T : Tools} {E : Config} {net : Net} {ndk : Ndk} {s : Stage} {gs : List Goal}

theorem runs_self {j : Job} : runs j (.job j) := rfl

theorem achieves_say {kind : LogKind} {text : String} : Achieves T [] (printLog kind text) :=
  achieves_nil (P := fun _ => True) (all_printLog_of (M := fun _ => True) fun _ _ => trivial)

theorem achieves_orError {code : Nat} : Achieves T [] (orError code) :=
  achieves_nil (P := fun _ => True) (all_orError_of (M := fun _ => True) fun _ _ => trivial)

theorem achieves_cp {src dst : Path} : Achieves T [] (cp_ src dst) := achieves_cmd.after fun _ => achieves_pure

theorem achieves_fetch {url num : String} {dir : Path} {type : Digest} :
    Achieves T [] (fetchDownload T E net url dir "" num type) :=
  achieves_nil (all_fetchDownload_cmds (M := fun _ => True) (fun _ _ => trivial) fun _ _ _ => trivial)

theorem achieves_plain {α : Type} {p : Script α} (hp : Plain p) : Achieves T [] p := by
  have hall : ∀ rs rs' : List (Label × Nat), True → True → True := fun _ _ _ _ => trivial
  intro w
  refine (Safe.of_tidy (I := Since (fun _ => True) w) (fun c _ => ⟨fun v v' hv hm => ?_, fun v n v' hv hf => ?_⟩)
    (fun m v _ hv => hv.trans (.mark trivial) hall) (fun v hv => hv.trans (.mark trivial) hall) hp (.refl trivial)).mono
    (fun _ _ => trivial) (fun _ _ h => h.mono fun _ _ => meets_nil) fun n _ h => ?_
  · exact hv.trans (.mid trivial hm) hall
  · exact hv.trans (.fin trivial hf) hall
  · rw [h.1]
    decide

theorem fails_orError {n : Nat} (hn : n ≠ 0) (w : World Label) :
    Safe T Alone (fun _ => True) (fun _ _ => False) (fun m _ => m ≠ 0) (orError n) w := by
  rw [orError, if_neg hn]
  exact safe_printError trivial fun _ => ⟨trivial, by decide⟩

theorem achieves_run {c : Cmd Label} {j : Job} {g : Goal} (hc : c.job = some (.job j)) (hg : g (.job j)) :
    Achieves T [g] (run c >>= fun code => orError code) :=
  achieves_checked hc hg achieves_pure fun _ => fails_orError

theorem achieves_makeProject {name : String} : Achieves T (projectGoals E s name) (makeProject E s name) :=
  (achieves_run rfl runs_self).bind fun _ => achieves_run rfl runs_self

theorem achieves_buildProject {type : ProjectType} {name : String} {realPath : Option Path} :
    Achieves T (projectGoals E s name) (buildProject E s type name realPath) := by
  refine achieves_say.after fun _ => Achieves.after ?_ fun _ => (achieves_plain plain_copyProject).after fun _ => ?_
  · exact achieves_ite (fun _ => achieves_say) fun _ => achieves_pure
  · exact achieves_cmd_.after fun _ => (achieves_plain plain_configureProject).after fun _ => achieves_makeProject

theorem achieves_installNdk : Achieves T (ndkGoals E ndk) (installNdk T E net ndk) := by
  refine achieves_say.after fun _ => achieves_cmd_.after fun _ => achieves_fetch.after fun _ => ?_
  refine achieves_orError.after fun _ => achieves_say.after fun _ => achieves_cmd_.after fun _ => ?_
  exact (achieves_plain plain_removeOldNdk).after fun _ => achieves_run rfl runs_self

theorem achieves_cmakeBody : Achieves T (cmakeGoals E) (cmakeBody T E net) := by
  refine achieves_fetch.after fun _ => achieves_orError.after fun _ => achieves_say.after fun _ => ?_
  refine achieves_cp.after fun _ => achieves_cmd_.after fun _ => (achieves_run rfl runs_self).first fun _ => ?_
  refine achieves_cmd_.after fun _ => ?_
  refine Achieves.after (achieves_plain (Prog.tidy_forEach fun x _ => plain_cp_)) fun _ => ?_
  exact achieves_world.after fun w => achieves_plain (Prog.tidy_ifThen fun _ => plain_cp_)

theorem achieves_buildCxxruntime : Achieves T (cxxruntimeGoals E ndk) (buildCxxruntime E ndk) :=
  achieves_say.after fun _ => achieves_cmd_.after fun _ => achieves_run rfl runs_self

theorem achieves_buildLibsffg : Achieves T (libsffgGoals E ndk) (buildLibsffg E ndk) := by
  refine achieves_say.after fun _ => achieves_cmd_.after fun _ => ?_
  unfold libsffgGoals
  split
  · exact achieves_run rfl runs_self
  · refine achieves_cp.after fun _ => Achieves.after (achieves_plain (Prog.tidy_forEach fun x _ => ?_)) fun _ => ?_
    · exact plain_ln.bind fun _ => trivial
    · exact achieves_run rfl runs_self

theorem achieves_fetchChecked {title url md5 : String} : Achieves T [] (fetchChecked T E net title url md5) :=
  achieves_say.after fun _ => achieves_fetch.after fun _ => achieves_orError

theorem achieves_untar {file : String} : Achieves T [] (untar E file) :=
  achieves_cmd.after fun _ => achieves_orError

theorem prefix_firstMatch {fs : Fs} {d : Path} {f : String → Bool} {pattern : String} :
    d <+: firstMatch fs d f pattern [] := by
  unfold firstMatch
  split <;> simp

theorem achieves_runAll {cs : List (Cmd Label)} (h : List.Forall₂ (fun g c => ∃ j, c.job = some j ∧ g j) gs cs) :
    Achieves T gs (runAll cs >>= fun code => orError code) := by
  induction h with
  | nil => exact achieves_pure
  | @cons g c gs cs hc _ ih =>
    obtain ⟨j, hc, hg⟩ := hc
    refine achieves_checked (f := fun code => (if code = 0 then runAll cs else pure code) >>= fun code => orError code)
      hc hg ?_ fun n hn w => ?_
    · rw [if_pos rfl]
      exact ih
    · rw [if_neg hn]
      exact fails_orError hn w

theorem achieves_buildOpenssl : Achieves T (opensslGoals E) (buildOpenssl T E net) := by
  refine achieves_fetchChecked.after fun _ => achieves_untar.after fun _ => achieves_world.after fun w => ?_
  refine achieves_say.after fun _ => achieves_cp.after fun _ => achieves_world.after fun v => achieves_runAll ?_
  have hwork : thirdpartyWork E <+: firstMatch v.fs (thirdpartyWork E) (star "openssl") "openssl*" [] :=
    prefix_firstMatch
  exact .cons ⟨_, rfl, _, hwork, rfl⟩ (.cons ⟨_, rfl, _, hwork, rfl⟩ (.cons ⟨_, rfl, _, hwork, rfl⟩ .nil))

theorem achieves_thirdpartyBase : Achieves T (thirdpartyBaseGoals E ndk) (thirdpartyBase T E net ndk) :=
  achieves_buildCxxruntime.bind fun _ => achieves_buildLibsffg.bind fun _ =>
    (achieves_say.after fun _ => achieves_buildProject).bind fun _ =>
      (achieves_say.after fun _ => achieves_buildProject).bind fun _ => achieves_buildOpenssl

theorem achieves_buildBoost : Achieves T (boostGoals E) (buildBoost T E net) :=
  achieves_fetchChecked.after fun _ => achieves_say.after fun _ => achieves_cp.after fun _ => achieves_cp.after fun _ =>
    achieves_cmd_.after fun _ => achieves_run rfl runs_self

theorem achieves_buildBoostLinux : Achieves T (boostLinuxGoals E) (buildBoostLinux T E net) :=
  achieves_fetchChecked.after fun _ => achieves_untar.after fun _ => achieves_cp.after fun _ => achieves_say.after fun _ =>
    (achieves_run rfl runs_self).bind fun _ => achieves_run rfl runs_self

theorem achieves_buildCapicxx {generator target link runtime : String} :
    Achieves T (capicxxGoals E generator target link runtime) (buildCapicxx E generator target link runtime) :=
  achieves_say.after fun _ => (achieves_run rfl runs_self).bind fun _ => achieves_cp.after fun _ =>
    (achieves_run rfl runs_self).bind fun _ => achieves_buildProject

/-- A project in a directory that is found by a pattern. -/
theorem achieves_inWork {name : String} :
    Achieves T [inWork E .make, inWork E (.makeTarget · "install")] (buildPlain E name) := by
  have hwork : thirdpartyWork E <+: projectWork E .thirdparty name := ⟨[name], by simp [thirdpartyWork, projectWork]⟩
  refine achieves_buildProject.imp (.cons ?_ (.cons ?_ .nil))
  · rintro _ rfl
    exact ⟨_, hwork, rfl⟩
  · rintro _ rfl
    exact ⟨_, hwork, rfl⟩

theorem achieves_buildProtobuf : Achieves T (protobufGoals E) (buildProtobuf T E net) := by
  refine achieves_fetchChecked.after fun _ => achieves_cmd_.after fun _ => achieves_say.after fun _ => ?_
  refine (achieves_run rfl runs_self).bind fun _ => achieves_cmd_.after fun _ => achieves_cmd_.after fun _ => ?_
  refine achieves_cmd_.after fun _ => achieves_cmd_.after fun _ => achieves_fetchChecked.after fun _ => ?_
  exact achieves_untar.after fun _ => achieves_world.after fun w => achieves_inWork

theorem achieves_thirdpartyIvi : Achieves T (thirdpartyIviGoals E) (thirdpartyIvi T E net) :=
  achieves_buildProject.bind fun _ => achieves_buildProject.bind fun _ => achieves_buildCapicxx.bind fun _ =>
    achieves_buildCapicxx.bind fun _ => achieves_buildProtobuf.bind fun _ => achieves_buildProject.first fun _ =>
      achieves_cmd_.after fun _ => achieves_cmd_

end achieves

variable {T : Tools} {E : Env} {ndk : Ndk} {hn : ndk.ndkName ≠ "lock"} {name : String} {net : Net} {s s' : Stage}
  {w w' w₀ : World Label} {log : Log} {gs : List Goal}

theorem achieves_shipped {b : Script Unit} (h : (shipped T E ndk hn name).scripts net s = some b) :
    Achieves T (goals E.toConfig ndk name s) b := by
  have hvendor : ∀ project, Achieves T [] (vendorSh E.toConfig project) := fun _ => achieves_plain plain_vendorSh
  unfold shipped at h
  split at h
  · subst name
    cases s with
    | toolchain => exact Option.some.inj h ▸ achieves_installNdk
    | thirdparty =>
      exact Option.some.inj h ▸ achieves_thirdpartyBase.bind fun _ => achieves_buildBoost.bind fun _ =>
        achieves_thirdpartyIvi
    | vendor => exact Option.some.inj h ▸ hvendor _
    | cmake => cases h
    | qt5 => cases h
  split at h
  · subst name
    cases s with
    | toolchain => exact Option.some.inj h ▸ achieves_installNdk
    | thirdparty => exact Option.some.inj h ▸ achieves_thirdpartyBase
    | vendor => exact Option.some.inj h ▸ hvendor _
    | cmake => cases h
    | qt5 => cases h
  split at h
  · subst name
    cases s with
    | thirdparty => exact Option.some.inj h ▸ achieves_buildBoostLinux.bind fun _ => achieves_thirdpartyIvi
    | vendor => exact Option.some.inj h ▸ hvendor _
    | toolchain => cases h
    | cmake => cases h
    | qt5 => cases h
  · cases h

/-! ### The record -/

/-- Every body of `s` that has ended achieved the goals since its start. -/
def Certified (gs : List Goal) (s : Stage) (log : Log) : Prop :=
  ∀ l, .mark (.ended s) :: l <:+ log →
    ∃ evs b, l = evs ++ .mark (.started s) :: b ∧ .mark (.started s) ∉ evs ∧ Meets gs (executed evs)

theorem Certified.cons {e : Event Label} (h : Certified gs s log) (he : e ≠ .mark (.ended s)) :
    Certified gs s (e :: log) := by
  intro l hl
  rcases List.suffix_cons_iff.1 hl with hl | hl
  · exact absurd (List.cons.inj hl).1.symm he
  · exact h l hl

theorem Certified.append {evs : Log} (h : Certified gs s log) (he : .mark (.ended s) ∉ evs) :
    Certified gs s (evs ++ log) := by
  induction evs with
  | nil => exact h
  | cons e evs ih =>
    rw [List.mem_cons, not_or] at he
    exact (ih he.2).cons (Ne.symm he.1)

theorem Certified.grown {M : Label → Prop} (h : Certified gs s w.log) (hM : ¬ M (.ended s)) (hg : Grown M w w') :
    Certified gs s w'.log := by
  obtain ⟨evs, hl, he⟩ := hg
  rw [hl]
  exact h.append fun hm => hM (he _ hm)

/-- `p` ends no body of `s` without having achieved the goals. -/
def Records (T : Tools) (gs : List Goal) (s : Stage) (p : Script Unit) : Prop :=
  ∀ w, Certified gs s w.log →
    Safe T Alone (fun v => Certified gs s v.log) (fun _ v => Certified gs s v.log) (fun _ v => Certified gs s v.log) p w

theorem Records.bind {p q : Script Unit} (hp : Records T gs s p) (hq : Records T gs s q) :
    Records T gs s (p >>= fun _ => q) := fun w hw =>
  safe_bind ((hp w hw).mono (fun _ h => h) (fun _ v hv => hq v hv) fun _ _ h => h)

theorem Records.of_all {Q : Cmd Label → Prop} {M : Label → Prop} {p : Script Unit} (hp : p.All Q M)
    (hM : ¬ M (.ended s)) : Records T gs s p := fun _ hw =>
  (safe_grown hp).mono (fun _ h => hw.grown hM h) (fun _ _ h => hw.grown hM h) fun _ _ h => hw.grown hM h.2

theorem not_notOf : ¬ NotOf s (.ended s) := fun h => h rfl

theorem not_none : ¬ (Label.ended s).stage = none := nofun

theorem records_lockedBody {Q : Cmd Label → Prop} {b : Script Unit} (hb : Achieves T gs b)
    (hp : b.All Q fun m => m.stage = none) : Records T gs s (lockedBody E.toConfig s b) := by
  intro w hw
  have hstart : Certified gs s (.mark (.started s) :: w.log) := hw.cons (by simp)
  refine safe_bind (safe_note.2 ⟨hw, hstart, safe_bind ?_⟩)
  refine ((safe_grown hp).and (hb ⟨w.fs, .mark (.started s) :: w.log⟩)).mono
    (fun v h => Certified.grown hstart not_none h.1) (fun _ v hv => ?_) fun _ v h => Certified.grown hstart not_none h.1.2
  obtain ⟨⟨evs, hl, he⟩, evs', hl', hm⟩ := hv
  obtain rfl : evs = evs' := List.append_cancel_right (hl.symm.trans hl')
  have hv : Certified gs s v.log := by
    rw [hl]
    exact hstart.append fun h => not_none (he _ h)
  have hend : Certified gs s (.mark (.ended s) :: v.log) := by
    intro l hsuf
    rcases List.suffix_cons_iff.1 hsuf with h | h
    · rw [(List.cons.inj h).2, hl]
      exact ⟨evs, w.log, rfl, fun h => (by simpa [Label.stage] using he _ h), hm⟩
    · exact hv l h
  have hunlock : (unlock E.toConfig s).All (fun _ => True) fun m => m.stage = none :=
    Prog.All.bind (Prog.all_world.2 trivial) fun _ => Prog.all_ifThen fun _ => Prog.all_run_.2 trivial
  exact safe_bind (safe_note.2 ⟨hv, hend, Records.of_all hunlock not_none _ hend⟩)

theorem records_any {p : Script Unit} {Q : Cmd Label → Prop} (hp : p.All Q fun m => m.stage = none) :
    Records T gs s p :=
  Records.of_all hp not_none

theorem records_mkdirP {p : Path} : Records T gs s (run_ (.mkdirP p)) :=
  records_any (Q := fun _ => True) (Prog.all_run_.2 trivial)

theorem records_write {p : Path} {text : String} : Records T gs s (run_ (.write p text)) :=
  records_any (Q := fun _ => True) (Prog.all_run_.2 trivial)

theorem records_printLog {kind : LogKind} {text : String} : Records T gs s (printLog kind text) :=
  records_any (Q := fun _ => True) (all_printLog fun _ h => h)

/-- The test of the stamp. -/
theorem records_test {reset : Bool} {q : Script Unit} (hq : Records T gs s q) : Records T gs s (do
    let w ← world
    if !reset && stamped E.toConfig w.fs s then skip s w.fs else q) := by
  intro w hw
  refine safe_bind (safe_world.2 ⟨hw, safe_ite (fun _ => ?_) fun _ => hq w hw⟩)
  have hskip : (skip s w.fs).All (fun _ => True) fun m => m ≠ .ended s :=
    Prog.All.bind (Prog.all_note.2 (by simp)) fun _ => all_printLog_of fun _ _ => by simp
  exact Records.of_all hskip (by simp) w hw

theorem records_shellBuild {P : Platform E} {reset normal : Bool}
    (hb : ∀ b, P.scripts net s = some b → Achieves T gs b) :
    Records T gs s (shellBuild E.toConfig reset s normal (P.scripts net s)) := by
  refine records_mkdirP.bind (records_test ?_)
  cases hscript : P.scripts net s with
  | none =>
    show Records T gs s (printLog .normal "(ignore)")
    exact records_printLog
  | some b =>
    refine records_mkdirP.bind (records_write.bind (Records.bind ?_ ?_))
    · exact records_any (all_stageDirs (M := fun m => m.stage = none))
    · exact records_lockedBody (hb b hscript) (P.proper net s b hscript)

theorem records_installCmake {reset : Bool} :
    Records T (cmakeGoals E.toConfig) .cmake (installCmake T E.toConfig net reset) := by
  refine records_printLog.bind (records_test ?_)
  unfold cmakeEnter
  split
  · exact records_printLog
  · refine records_mkdirP.bind (records_mkdirP.bind (records_mkdirP.bind (records_write.bind ?_)))
    exact records_lockedBody achieves_cmakeBody (all_cmakeBody fun _ h => h)

theorem records_doFetch {reset : Bool} : Records T [] .qt5 (doFetch T E.toConfig net reset) := by
  refine records_mkdirP.bind (records_test ?_)
  refine records_mkdirP.bind (records_mkdirP.bind (records_write.bind ?_))
  have hbody : Achieves T [] (fetchBody T E.toConfig net) := achieves_nil (all_fetchBody fun _ h => h)
  exact records_lockedBody hbody (all_fetchBody (M := fun m => m.stage = none) fun _ h => h)

/-- Work for another stage. -/
theorem records_other {p : Script Unit} {Q : Cmd Label → Prop} (h : s' ≠ s)
    (hp : ∀ {M : Label → Prop}, (∀ m : Label, m.stage = none ∨ m.stage = some s' → M m) → p.All Q M) :
    Records T gs s p := Records.of_all (hp (M := NotOf s) fun _ => notOf_of_or h) not_notOf

theorem records_dispatch (t : BuildType) : Records T (goals E.toConfig ndk name s) s
    (dispatch T E.toConfig net ((shipped T E ndk hn name).scripts net) t) := by
  have hpieces : Pieces T E.toConfig net ((shipped T E ndk hn name).scripts net)
      (Records T (goals E.toConfig ndk name s) s) :=
    { bind := Records.bind
      say := fun _ => records_printLog
      pkgconfig := records_any (all_installPkgconfig (A := E.stepArea .thirdparty) (fun _ h => h) fun _ => .inl)
      cmake := fun reset => by
        by_cases h : Stage.cmake = s
        · subst h
          exact records_installCmake
        · exact records_other h all_installCmake
      stage := fun s' reset normal _ _ => by
        by_cases h : s' = s
        · subst h
          exact records_shellBuild fun b hb => achieves_shipped hb
        · exact records_other h fun hM => all_shellBuild hM ((shipped T E ndk hn name).proper net s')
      fetch := fun reset => by
        by_cases h : Stage.qt5 = s
        · subst h
          exact records_doFetch
        · exact records_other h all_doFetch
      configure := records_any (all_doConfigure fun _ h => h)
      compile := fun _ => records_any (all_doCompile fun _ h => h)
      deploy := records_any (all_doDeploy (s := .qt5) fun _ h => h) }
  by_cases ht : t = .clean ∨ t = .cleanall
  · exact Records.of_all (all_clean ht) not_notOf
  · rw [not_or] at ht
    exact hpieces.dispatch t (fun h => absurd h ht.1) fun h => absurd h ht.2

theorem Certified.invoked {t : BuildType} {p : Script Unit} (h : Certified (goals E.toConfig ndk name s) s w.log)
    (hr : Invoked T (shipped T E ndk hn name) t w p w') : Certified (goals E.toConfig ndk name s) s w'.log := by
  obtain ⟨net, hr⟩ := hr
  have hnote : ∀ m, m.stage = none → Records T (goals E.toConfig ndk name s) s (note m) := fun m hm =>
    records_any (Q := fun _ => True) (Prog.all_note.2 hm)
  have hexit : Records T (goals E.toConfig ndk name s) s (.exit 0) := fun w hw => safe_exit.2 ⟨hw, hw⟩
  exact ((((hnote _ rfl).bind ((records_dispatch t).bind (records_printLog.bind hexit))) w h).reach hr).inv

theorem certified_history (hw₀ : Fresh E w₀) (hist : ReflTransGen (StampedRun T (shipped T E ndk hn name)) w₀ w) :
    Certified (goals E.toConfig ndk name s) s w.log := by
  induction hist with
  | refl =>
    intro l hl
    rw [hw₀.log] at hl
    cases List.suffix_nil.1 hl
  | tail _ hr ih =>
    obtain ⟨t, p, hr, -⟩ := hr
    exact ih.invoked hr

/-! ### all -/

/-- What the steps for Qt itself are for: `configure`, the plan of `compile`, and the two packages of `deploy`. -/
def qtGoals (E : Config) : List Goal :=
  [runs (.configure (qtWork E "qtbase"))] ++
    (((compilePlan E false).filter (·.2)).map (fun x j => j = x.1) ++
      if E.noDeployPackup then [] else [runs (.pack E.sdkPackage), runs (.pack E.runtimePackage)])

theorem achieves_doConfigure : Achieves T [runs (.configure (qtWork E.toConfig "qtbase"))] (doConfigure E.toConfig) :=
  achieves_cmd_.after fun _ => achieves_cmd_.after fun _ => achieves_cmd_.after fun _ => achieves_world.after fun _ =>
    Achieves.after (achieves_plain (Prog.tidy_ifThen fun _ => Prog.tidy_run_.2 trivial)) fun _ =>
      achieves_cmd_.after fun _ => achieves_run rfl runs_self

theorem achieves_doDeploy : Achieves T
    (if E.noDeployPackup then [] else [runs (.pack E.sdkPackage), runs (.pack E.runtimePackage)])
    (doDeploy T E.toConfig) := by
  split
  · exact achieves_nil (all_doDeploy (s := .qt5) (M := fun _ => True) fun _ _ => trivial)
  · rename_i hpack
    have hpackup : ∀ file, Achieves T [runs (.pack file)] (packup E.toConfig file) := fun file => by
      rw [packup, if_neg hpack]
      exact achieves_run rfl runs_self
    refine achieves_cmd_.after fun _ => achieves_cmd_.after fun _ => achieves_cmd_.after fun _ => ?_
    refine achieves_cmd_.after fun _ => (achieves_plain plain_writeExecutable).after fun _ => ?_
    refine achieves_orError.after fun _ => achieves_say.after fun _ => (hpackup _).bind fun _ => ?_
    refine (achieves_plain plain_installSysroot).after fun _ => (achieves_plain plain_installRuntime).after fun _ => ?_
    refine Achieves.after (achieves_say.after fun _ => achieves_ite (fun _ => achieves_say) fun _ => ?_) fun _ =>
      achieves_say.after fun _ => hpackup _
    exact (achieves_plain plain_stripSymbol).after fun _ => achieves_orError

theorem achieves_all {P : Platform E} :
    Achieves T (qtGoals E.toConfig) (dispatch T E.toConfig net (P.scripts net) .all) := by
  have hstage : ∀ s normal, Achieves T [] (shellBuild E.toConfig false s normal (P.scripts net s)) := fun s normal =>
    achieves_nil (all_shellBuild (M := fun _ => True) (fun _ _ => trivial) (P.proper net s))
  refine Achieves.after (achieves_say.after fun _ => hstage _ _) fun _ => Achieves.after ?_ fun _ => ?_
  · refine achieves_say.after fun _ => (achieves_plain plain_installPkgconfig).after fun _ => ?_
    refine Achieves.after ?_ fun _ => hstage _ _
    exact achieves_nil (all_installCmake (M := fun _ => True) fun _ _ => trivial)
  have hfetch : Achieves T [] (doFetch T E.toConfig net false) :=
    achieves_nil (all_doFetch (M := fun _ => True) fun _ _ => trivial)
  refine Achieves.after (achieves_say.after fun _ => hfetch) fun _ => ?_
  refine Achieves.bind (achieves_say.after fun _ => achieves_doConfigure) fun _ => ?_
  refine Achieves.bind (achieves_say.after fun _ => executes_doCompile.achieves (by decide)) fun _ => ?_
  refine Achieves.after (achieves_say.after fun _ => hstage _ _) fun _ => ?_
  exact achieves_say.after fun _ => achieves_doDeploy

theorem met_of_all {P : Platform E} (hall : Invoked T P .all w (.exit 0) w') :
    Since (Meets (qtGoals E.toConfig)) w w' := by
  obtain ⟨net, hr⟩ := hall
  have hsafe : Safe T Alone (fun _ => True) (fun _ _ => True) (fun n v => n = 0 → Since (Meets (qtGoals E.toConfig)) w v)
      (main T E.toConfig net (P.scripts net) .all) w := by
    refine safe_bind (safe_note.2 ⟨trivial, trivial, safe_bind ?_⟩)
    refine (achieves_all _).mono (fun _ h => h) (fun _ v hv => ?_) fun n v h h0 => absurd h0 h
    refine safe_bind (safe_note.2 ⟨trivial, trivial, safe_exit.2 ⟨trivial, fun _ => ?_⟩⟩)
    have hstart : Since (· = []) w ⟨w.fs, .mark (.invoked .all) :: w.log⟩ := .mark rfl
    have hend : Since (Meets []) v ⟨v.fs, .mark (.say .function (upper "all finished")) :: v.log⟩ := .mark meets_nil
    exact hstart.nil_trans (hv.trans hend fun rs rs' h h' => by simpa using h.append h')
  exact (hsafe.reach hr).of_exit rfl

theorem steady_shipped : (shipped T E ndk hn name).Steady := by
  unfold shipped
  split
  · exact (steady_platforms hn).1
  split
  · exact (steady_platforms hn).2.1
  split
  · exact (steady_platforms hn).2.2
  · exact fun _ _ _ h => h

/-- The last body of `s` has achieved the goals, and nothing of what it left has been removed but the lock. -/
def Standing (E : Env) (gs : List Goal) (s : Stage) (log : Log) : Prop :=
  ∃ a evs b, log = a ++ .mark (.ended s) :: (evs ++ .mark (.started s) :: b) ∧ .mark (.started s) ∉ a ++ evs ∧
    (∀ r, .removed r ∈ a → E.stageDir s <+: r → r = E.lock s) ∧ Meets gs (executed evs)

theorem Certified.standing (h : Certified gs s log) (hi : Intact E s log) : Standing E gs s log := by
  obtain ⟨a, b, rfl, hs, hr⟩ := hi
  obtain ⟨evs, b, rfl, hs', hm⟩ := h b (List.suffix_append _ _)
  exact ⟨a, evs, b, rfl, by simp [hs, hs'], hr, hm⟩

/-- An archive unpacks to a directory with the first twelve letters of its name. -/
def cutTools : Tools := { Tools.sample with
  unpack := fun file _ =>
    ⟨String.ofList (file.toList.take 12), (Fs.empty.mkdirP ["cmake"]).write ["cmake", "CMakeLists.txt"] "", true⟩ }

def shippedEnv : Env := Env.unset ["qt"] "qt5-linux_x86-ivi"

abbrev shippedLinux : Platform shippedEnv :=
  shipped cutTools shippedEnv ⟨"android-ndk-r22b", "", ""⟩ ndkName_ne_lock "qt5-linux_x86-ivi"

/-- The packages have been downloaded, and the sources of the other projects are there. -/
def shippedStart : World Label :=
  let downloads := packages.foldl (fun fs x => fs.write ["qt", "downloads", "3rdparty", x.2.2] x.2.1)
    (Fs.empty.mkdirP ["qt", "downloads", "3rdparty"])
  ⟨["dlt-daemon", "vsomeip", "capicxx-core-runtime", "capicxx-someip-runtime", "fdbus"].foldl (fun fs x =>
    (fs.mkdirP ["qt", "sources", x]).write ["qt", "sources", x, "CMakeLists.txt"] "") downloads, []⟩

/-- The two copies of the code generators fail, which does not matter. -/
def shippedChoices : List Choice :=
  List.replicate 22 (.done 0) ++ .done 1 :: (List.replicate 7 (.done 0) ++ .done 1 :: List.replicate 25 (.done 0))

theorem shipped_run : execAny cutTools shippedChoices
    (main cutTools shippedEnv.toConfig Net.none (shippedLinux.scripts Net.none) .thirdparty) shippedStart (fun p w =>
      p.exited 0 && ([Stage.toolchain, .cmake, .thirdparty, .vendor].all (fun s => !decide (Pending shippedEnv s w.log)) &&
        execAny cutTools (List.replicate 40 (.done 0))
          (main cutTools shippedEnv.toConfig Net.none (shippedLinux.scripts Net.none) .all) w fun p' _ => p'.exited 0)) =
    true := by decide +kernel

end BuildQt5
