import BuildQt5.Scripts.Reports

/-!
# An invocation as its user sees it

`build-qt5.sh` from its command line to its exit code. The arguments and the platform are checked before
anything is done; a step prints its headline before it works; a failure is reported with the last headline
and ends the run with 10. So the headlines of a run are always the first ones of a fixed list (`outline`),
and the exit code tells which of these things happened (`exit_code_tells`).
-/

namespace BuildQt5
open Shell
open Prog (world run run_ note ifThen forEach tidy_pure tidy_world tidy_note tidy_run tidy_run_ tidy_ite tidy_ifThen
  tidy_forEach)

/-! ### The command line -/

def BuildType.word : BuildType → String
  | .all => "all"
  | .toolchain => "toolchain"
  | .thirdparty => "3rdparty"
  | .fetch => "fetch"
  | .configure => "configure"
  | .compile => "compile"
  | .vendor => "vendor"
  | .deploy => "deploy"
  | .clean => "clean"
  | .cleanall => "cleanall"

def BuildType.list : List BuildType :=
  [.all, .toolchain, .thirdparty, .fetch, .configure, .compile, .vendor, .deploy, .clean, .cleanall]

/-- `case "$BUILD_TYPE" in` -/
def BuildType.ofWord (x : String) : Option BuildType := BuildType.list.find? fun t => t.word = x

theorem BuildType.ofWord_eq_some {x : String} {t : BuildType} : BuildType.ofWord x = some t ↔ t.word = x := by
  constructor
  · intro h
    simpa using List.find?_some h
  · rintro rfl
    cases t <;> rfl

/-- `p` gives up with a report only, and prints no headline of a step. -/
abbrev Candid {α : Type} (p : Script α) : Prop := p.Tidy (fun _ => True) NotHeadline failureLine 10

/-- The checkout a build is started from: what its `config` files and step scripts make of a platform. -/
structure Checkout (T : Tools) where
  /-- `PROGRAM_PATH` -/
  program : String
  currentDir : Path
  config : String → Config
  scripts : String → Net → Scripts
  proper : ∀ platform net s b, scripts platform net s = some b → Calls Candid b

section start
variable {T : Tools} (K : Checkout T) (net : Net)

/-- `$CURRENT_DIR/common/common.sh` is there. -/
def Checkout.whole (fs : Fs) : Bool := fs.isFile (K.currentDir ++ ["common", "common.sh"])

def Checkout.platformConfig (platform : String) : Path := K.currentDir ++ ["platforms", platform, "config"]

def printAvailable : Script Unit := do
  echo "Available platforms are as follows:"
  let w ← world
  forEach (fun name => ifThen (w.fs.isFile (K.platformConfig name)) (echo ("[" ++ name ++ "]")))
    (w.fs.glob (K.currentDir ++ ["platforms"]) visible)

def printParameter : Script Unit := do
  printAvailable K
  echo ""
  echo "Parameter error, Usage:"
  forEach (fun t => echo (K.program ++ " [platform] " ++ BuildType.word t)) BuildType.list
  .exit 1

/-- `build-qt5.sh args..`, the arguments being words without blanks or pattern characters. -/
def start (args : List String) : Script Unit := do
  let w ← world
  if !K.whole w.fs then do
    echo "Error: Can not find common.sh!"
    .exit 1
  else match args with
    | [platform, type] =>
      if platform = "" || type = "" then printParameter K
      else if !w.fs.isFile (K.platformConfig platform) then do
        printAvailable K
        echo ""
        echo ("Error: Can not find platform [" ++ platform ++ "]!")
        .exit 2
      else match BuildType.ofWord type with
        | some t => main T (K.config platform) net (K.scripts platform net) t
        | none => printParameter K
    | _ => printParameter K

end start

/-! ### Headlines -/

/-- The headlines of the steps in a log, oldest first. -/
def headlines (log : List (Event Label)) : List String :=
  (log.filterMap fun e => match e with
    | .mark (.say .function text) => some text
    | _ => none).reverse

theorem headlines_append (l l' : List (Event Label)) : headlines (l ++ l') = headlines l' ++ headlines l := by
  simp [headlines, List.filterMap_append]

theorem headlines_eq_nil {l : List (Event Label)} (h : ∀ m, .mark m ∈ l → NotHeadline m) : headlines l = [] := by
  rw [headlines, List.reverse_eq_nil_iff, List.filterMap_eq_nil_iff]
  intro e he
  split
  · exact absurd (h _ he) (by simp [NotHeadline])
  · rfl

/-- The steps of an invocation, as they announce themselves. -/
def steps : BuildType → List String
  | .all => ["toolchain", "3rdparty", "fetch", "configure", "compile", "compile examples/tests/tools", "vendor",
      "deploy"]
  | .compile => ["compile", "compile examples/tests/tools"]
  | t => [t.word]

/-- All the headlines of an invocation that comes to its end. -/
def outline (t : BuildType) : List String := (steps t ++ ["all finished"]).map upper

/-- The headlines since `w` are the first ones of `xs`. -/
def Saying (xs : List String) (w v : World Label) : Prop := ∃ evs, v.log = evs ++ w.log ∧ headlines evs <+: xs

/-- The headlines since `w` are `xs`. -/
def Said (xs : List String) (w v : World Label) : Prop := ∃ evs, v.log = evs ++ w.log ∧ headlines evs = xs

theorem Said.saying {xs : List String} {w v : World Label} (h : Said xs w v) : Saying xs w v := by
  obtain ⟨evs, hl, he⟩ := h
  exact ⟨evs, hl, he ▸ List.prefix_refl _⟩

theorem Said.trans_saying {xs ys : List String} {w v u : World Label} (h : Said xs w v) (h' : Saying ys v u) :
    Saying (xs ++ ys) w u := by
  obtain ⟨evs, hl, rfl⟩ := h
  obtain ⟨evs', hl', hp⟩ := h'
  refine ⟨evs' ++ evs, by rw [hl', hl, List.append_assoc], ?_⟩
  rw [headlines_append]
  exact (List.prefix_append_right_inj _).2 hp

theorem Said.trans {xs ys : List String} {w v u : World Label} (h : Said xs w v) (h' : Said ys v u) :
    Said (xs ++ ys) w u := by
  obtain ⟨evs, hl, rfl⟩ := h
  obtain ⟨evs', hl', rfl⟩ := h'
  exact ⟨evs' ++ evs, by rw [hl', hl, List.append_assoc], headlines_append _ _⟩

theorem Saying.append {xs : List String} (ys : List String) {w v : World Label} (h : Saying xs w v) :
    Saying (xs ++ ys) w v := by
  obtain ⟨evs, hl, hp⟩ := h
  exact ⟨evs, hl, hp.trans (List.prefix_append _ _)⟩

theorem said_of_grown {w v : World Label} (h : Grown NotHeadline w v) : Said [] w v := by
  obtain ⟨evs, hl, he⟩ := h
  exact ⟨evs, hl, headlines_eq_nil he⟩

/-! ### What the procedures say -/

section candid
variable {α : Type} {T : Tools} {E : Config} {net : Net} {ndk : Ndk}

theorem candid_of_plain {p : Script α} (h : Plain p) : Candid p := h.mono (fun _ _ => trivial) fun _ h => h

theorem candid_of_calls {p : Script α} (h : Calls Candid p) : Candid p :=
  h.to_tidy (fun _ _ => trivial) (fun _ h => h) fun _ h => h

theorem candid_run {c : Cmd Label} : Candid (run c) := tidy_run.2 trivial

theorem tidy_fetchVerify {P : Cmd Label → Prop} {path : Path} {num : String} {type : Digest} :
    (fetchVerify T path num type).Tidy P NotHeadline failureLine 10 := by
  refine (tidy_note.2 trivial).bind fun _ => (tidy_world.2 trivial).bind fun w => (tidy_note.2 trivial).bind fun _ => ?_
  refine (tidy_note.2 trivial).bind fun _ => tidy_ite (fun _ => trivial) fun _ => ?_
  exact (tidy_note.2 trivial).bind fun _ => trivial

theorem candid_wgetRetry {url : String} {cache : Path} (n : Nat) : Candid (wgetRetry url cache n) := by
  induction n with
  | zero => trivial
  | succ n ih =>
    refine candid_run.bind fun _ => tidy_ite (fun _ => trivial) fun _ => ?_
    exact (tidy_note.2 trivial).bind fun _ => ih

theorem candid_download {url name num : String} {dir : Path} {type : Digest} :
    Candid (download T E net url dir name num type) := by
  refine (tidy_ifThen fun _ => tidy_note.2 trivial).bind fun _ => (tidy_note.2 trivial).bind fun _ => ?_
  refine (tidy_note.2 trivial).bind fun _ => (tidy_run_.2 trivial).bind fun _ => (candid_wgetRetry 10).bind fun ok => ?_
  refine tidy_ite (fun _ => (tidy_world.2 trivial).bind fun w => ?_) fun _ => trivial
  refine tidy_ite (fun _ => candid_run.bind fun _ => ?_) fun _ => trivial
  exact tidy_ite (fun _ => tidy_ite (fun _ => trivial) fun _ => tidy_fetchVerify) fun _ => trivial

theorem candid_fetchDownload {url realname num : String} {dir : Path} {type : Digest} :
    Candid (fetchDownload T E net url dir realname num type) := by
  refine (tidy_world.2 trivial).bind fun w => tidy_ite (fun _ => ?_) fun _ => candid_download
  refine Prog.Tidy.bind ?_ fun good => tidy_ite (fun _ => trivial) fun _ => ?_
  · refine tidy_ite (fun _ => trivial) fun _ => tidy_fetchVerify.bind fun _ => tidy_ite (fun _ => trivial) fun _ => ?_
    exact (tidy_run_.2 trivial).bind fun _ => trivial
  · exact tidy_ite (fun _ => (tidy_note.2 trivial).bind fun _ => trivial) fun _ => candid_download

theorem procedures_candid : Procedures T E net ndk Candid := by
  have hchecked : ∀ {title url md5}, Candid (fetchChecked T E net title url md5) := fun {_ _ _} =>
    (candid_of_plain plain_title).bind fun _ => candid_fetchDownload.bind fun _ => candid_of_plain plain_orError
  have hsay : ∀ {text}, Candid (printLog .title text) := fun {_} => candid_of_plain plain_title
  refine ⟨candid_fetchDownload, ?_, fun _ _ => candid_fetchDownload, fun _ _ _ => hchecked.bind fun _ => candid_run, ?_,
    fun _ _ => candid_run, fun _ _ => candid_fetchDownload, fun _ _ => candid_run⟩
  · refine candid_fetchDownload.bind fun _ => (candid_of_plain plain_orError).bind fun _ => hsay.bind fun _ => ?_
    exact (tidy_run_.2 trivial).bind fun _ => (candid_of_plain plain_removeOldNdk).bind fun _ => candid_run
  · exact hchecked.bind fun _ => (tidy_run_.2 trivial).bind fun _ => hsay.bind fun _ => candid_run

end candid

/-! ### What the scripts print -/

/-- `p` prints the headlines `xs` in this order, and gives up with a report only. -/
def Speaks {α : Type} (T : Tools) (xs : List String) (p : Script α) : Prop :=
  ∀ w, Safe T Alone (Saying xs w) (fun _ => Said xs w) (fun n v => n = 10 ∧ Reported failureLine v ∧ Saying xs w v) p w

section speaks
variable {α β : Type} {T : Tools} {E : Config} {net : Net} {reset : Bool}

theorem Speaks.bind {xs ys : List String} {p : Script α} {f : α → Script β} (hp : Speaks T xs p)
    (hf : ∀ a, Speaks T ys (f a)) : Speaks T (xs ++ ys) (p >>= f) := by
  intro w
  refine safe_bind ((hp w).mono (fun _ h => h.append ys) (fun a v hv => ?_) fun n v h => ⟨h.1, h.2.1, h.2.2.append ys⟩)
  exact (hf a v).mono (fun _ h => hv.trans_saying h) (fun _ _ h => hv.trans h)
    fun n u h => ⟨h.1, h.2.1, hv.trans_saying h.2.2⟩

/-- A tidy program that prints no headline. -/
theorem speaks_of_tidy {P : Cmd Label → Prop} {p : Script α} (h : p.Tidy P NotHeadline failureLine 10) :
    Speaks T [] p := by
  intro w
  have herr : ∀ v, Grown NotHeadline w v → Grown NotHeadline w ⟨v.fs, .mark (failureLine v.log) :: v.log⟩ :=
    fun v hv => hv.trans (.mark (by trivial))
  refine (Safe.of_tidy (fun c _ => ⟨fun v v' hv hm => hv.trans (.mid hm), fun v n v' hv hf => hv.trans (.fin hf)⟩)
    (fun m v hm hv => hv.trans (.mark hm)) herr h .refl).mono (fun v hv => (said_of_grown hv).saying)
    (fun _ v hv => said_of_grown hv) fun n v hv => ⟨hv.1, hv.2.1, (said_of_grown hv.2.2).saying⟩

/-- What a tidy program without headlines leaves to say. -/
theorem Speaks.after {xs : List String} {p : Script α} {f : α → Script β} (hp : Plain p)
    (hf : ∀ a, Speaks T xs (f a)) : Speaks T xs (p >>= f) := (speaks_of_tidy hp).bind hf

theorem speaks_headline {text : String} : Speaks T [upper text] (printLog .function text) := by
  intro w
  have hsaid : Said [upper text] w ⟨w.fs, .mark (.say .function (upper text)) :: w.log⟩ :=
    ⟨[.mark (.say .function (upper text))], rfl, rfl⟩
  exact safe_note.2 ⟨⟨[], rfl, List.nil_prefix⟩, hsaid.saying, hsaid⟩

/-- A step: its headline and a body without one. -/
theorem speaks_step {text : String} {body : Script Unit} (hb : Speaks T [] body) :
    Speaks T [upper text] (printLog .function text >>= fun _ => body) := speaks_headline.bind fun _ => hb

/-! ### The steps -/

theorem speaks_compileExtras : Speaks T [upper "compile examples/tests/tools"] (compileExtras E) := by
  refine speaks_step (speaks_of_tidy (P := Routine) (tidy_ite (fun _ => ?_) fun _ => plain_normal))
  exact tidy_forEach fun m _ => tidy_forEach fun kind _ => plain_compileExtra

theorem speaks_doCompile : Speaks T [upper "compile examples/tests/tools"] (doCompile E reset) := by
  have hmake : ∀ title dir target, Plain (makeChecked E title dir (.makeTarget dir target)) := fun _ _ _ =>
    plain_makeChecked (by trivial)
  refine .after (tidy_run_.2 trivial) fun _ => .after (tidy_ifThen fun _ => hmake _ _ _) fun _ => ?_
  refine .after (plain_makeChecked (by trivial)) fun _ => .after (hmake _ _ _) fun _ => ?_
  refine .after (tidy_run_.2 trivial) fun _ => .after (tidy_run_.2 trivial) fun _ => ?_
  exact .after (tidy_forEach fun m _ => plain_compileModule) fun _ => speaks_compileExtras

theorem speaks_doClean : Speaks T [upper "clean"] (doClean E) := by
  refine .after (tidy_run_.2 trivial) fun _ => speaks_step (speaks_of_tidy (P := Routine) ?_)
  exact (tidy_world.2 trivial).bind fun _ => tidy_forEach fun name _ => plain_cleanOne

theorem speaks_doCleanall : Speaks T [upper "cleanall"] (doCleanall E) := by
  refine .after (tidy_run_.2 trivial) fun _ => speaks_step (speaks_of_tidy (P := Routine) ?_)
  exact (tidy_world.2 trivial).bind fun _ => tidy_run_.2 trivial

variable {scripts : Scripts} (hs : ∀ s b, scripts s = some b → Calls Candid b)
include hs

theorem speaks_dispatch (t : BuildType) : Speaks T ((steps t).map upper) (dispatch T E net scripts t) := by
  have hD : Procedures T E net ⟨"", "", ""⟩ Candid := procedures_candid
  have hstage : ∀ {reset normal s}, Speaks T [] (shellBuild E reset s normal (scripts s)) := fun {_ _ s} =>
    speaks_of_tidy (candid_of_calls (calls_shellBuild (hs s)))
  have htoolchain : ∀ {reset}, Speaks T [upper "toolchain"] (doToolchain E reset scripts) := speaks_step hstage
  have hvendor : ∀ {reset}, Speaks T [upper "vendor"] (doVendor E reset scripts) := speaks_step hstage
  have hcmake : ∀ {reset}, Speaks T [] (installCmake T E net reset) := fun {_} =>
    speaks_of_tidy (candid_of_calls (calls_installCmake hD))
  have hthird : ∀ {reset}, Speaks T [upper "3rdparty"] (doThirdparty T E net reset scripts) := fun {_} =>
    speaks_step (.after plain_installPkgconfig fun _ => hcmake.bind fun _ => hstage)
  have hfetch : ∀ {reset}, Speaks T [upper "fetch"] (invokeFetch T E net reset) := fun {_} =>
    speaks_step (speaks_of_tidy (candid_of_calls (calls_doFetch hD)))
  have hconfigure : Speaks T [upper "configure"] (invokeConfigure E) := speaks_step (speaks_of_tidy plain_doConfigure)
  have hcompile : ∀ {reset}, Speaks T [upper "compile", upper "compile examples/tests/tools"] (invokeCompile E reset) :=
    fun {_} => speaks_headline.bind fun _ => speaks_doCompile
  have hdeploy : Speaks T [upper "deploy"] (invokeDeploy T E) := speaks_step (speaks_of_tidy plain_doDeploy)
  cases t with
  | all =>
    exact htoolchain.bind fun _ => hthird.bind fun _ => hfetch.bind fun _ => hconfigure.bind fun _ =>
      hcompile.bind fun _ => hvendor.bind fun _ => hdeploy
  | toolchain => exact htoolchain
  | thirdparty => exact hthird
  | fetch => exact hfetch
  | configure => exact hconfigure
  | compile => exact hcompile
  | vendor => exact hvendor
  | deploy => exact hdeploy
  | clean => exact speaks_doClean
  | cleanall => exact speaks_doCleanall

/-- What `main` has printed wherever it is, and what it has done when it exits. -/
theorem safe_main (t : BuildType) (w : World Label) : Safe T Alone (Saying (outline t) w) (fun _ _ => False)
    (fun n v => n = 0 ∧ Said (outline t) w v ∨ n = 10 ∧ Reported failureLine v ∧ Saying ((steps t).map upper) w v)
    (main T E net scripts t) w := by
  have hout : outline t = (steps t).map upper ++ [upper "all finished"] := List.map_append
  have hspeaks : Speaks T ((steps t).map upper) (do
      note (.invoked t)
      dispatch T E net scripts t) := .after (tidy_note.2 trivial) fun _ => speaks_dispatch hs t
  have hmain : main T E net scripts t = (note (.invoked t) >>= fun _ => dispatch T E net scripts t) >>= fun _ =>
      printLog .function "all finished" >>= fun _ => .exit 0 := rfl
  rw [hmain, hout]
  refine safe_bind ((hspeaks w).mono (fun _ h => h.append _) (fun _ v hv => ?_) fun n v h => .inr h)
  have hsaid : Said [upper "all finished"] v ⟨v.fs, .mark (.say .function (upper "all finished")) :: v.log⟩ :=
    ⟨[.mark (.say .function (upper "all finished"))], rfl, rfl⟩
  have hend := hv.trans hsaid
  exact safe_bind (safe_note.2 ⟨hv.saying.append _, hend.saying, safe_exit.2 ⟨hend.saying, .inl ⟨rfl, hend⟩⟩⟩)

end speaks

/-! ### Lines -/

/-- Nothing happened from `w` to `v` but that the lines `xs` were printed. -/
def Printed (xs : List String) (w v : World Label) : Prop :=
  v.fs = w.fs ∧ v.log = (xs.map fun x => Event.mark (Label.say .normal x)).reverse ++ w.log

theorem Printed.trans {xs ys : List String} {w v u : World Label} (h : Printed xs w v) (h' : Printed ys v u) :
    Printed (xs ++ ys) w u := by
  refine ⟨h'.1.trans h.1, ?_⟩
  rw [h'.2, h.2, List.map_append, List.reverse_append, List.append_assoc]

/-- `p` prints the lines that `xs` makes of the file system, and does nothing else. -/
def Prints (T : Tools) (xs : Fs → List String) (p : Script Unit) : Prop :=
  ∀ w, Safe T Alone (fun v => v.fs = w.fs) (fun _ => Printed (xs w.fs) w) (fun _ _ => False) p w

section prints
variable {T : Tools} {K : Checkout T} {w : World Label}

theorem prints_echo (text : String) : Prints T (fun _ => [text]) (echo text) := fun _ =>
  safe_note.2 ⟨rfl, rfl, rfl, rfl⟩

theorem Prints.bind {xs ys : Fs → List String} {p : Script Unit} {f : Unit → Script Unit} (hp : Prints T xs p)
    (hf : Prints T ys (f ())) : Prints T (fun fs => xs fs ++ ys fs) (p >>= f) := by
  intro w
  refine safe_bind ((hp w).mono (fun _ h => h) (fun _ v hv => ?_) fun _ _ h => h)
  refine (hf v).mono (fun u hu => hu.trans hv.1) (fun _ u hu => hv.trans ?_) fun _ _ h => h
  rwa [hv.1] at hu

theorem prints_forEach {γ : Type} {f : γ → Script Unit} {line : γ → List String}
    (h : ∀ x, Prints T (fun _ => line x) (f x)) (xs : List γ) : Prints T (fun _ => xs.flatMap line) (forEach f xs) := by
  induction xs with
  | nil => exact fun w => safe_pure.2 ⟨rfl, rfl, rfl⟩
  | cons x xs ih => exact (h x).bind ih

/-- The lines of `print_available`. -/
def Checkout.offer (K : Checkout T) (fs : Fs) : List String :=
  "Available platforms are as follows:" :: (fs.glob (K.currentDir ++ ["platforms"]) visible).flatMap fun name =>
    if fs.isFile (K.platformConfig name) then ["[" ++ name ++ "]"] else []

/-- The lines of `print_parameter`. -/
def Checkout.usage (K : Checkout T) (fs : Fs) : List String :=
  K.offer fs ++ ["", "Parameter error, Usage:"] ++ BuildType.list.map fun t => K.program ++ " [platform] " ++ t.word

/-- The lines printed for a platform that is not there. -/
def Checkout.unknown (K : Checkout T) (platform : String) (fs : Fs) : List String :=
  K.offer fs ++ ["", "Error: Can not find platform [" ++ platform ++ "]!"]

theorem prints_printAvailable : Prints T K.offer (printAvailable K) := by
  refine (prints_echo _).bind fun w => safe_bind (safe_world.2 ⟨rfl, ?_⟩)
  have hline : ∀ name, Prints T (fun _ => if w.fs.isFile (K.platformConfig name) then ["[" ++ name ++ "]"] else [])
      (ifThen (w.fs.isFile (K.platformConfig name)) (echo ("[" ++ name ++ "]"))) := by
    intro name
    unfold ifThen
    split
    · exact prints_echo _
    · exact fun w => safe_pure.2 ⟨rfl, rfl, rfl⟩
  exact prints_forEach hline (w.fs.glob (K.currentDir ++ ["platforms"]) visible) w

/-- `p` prints the lines `xs` and exits with `n`. -/
def Rejects (T : Tools) (xs : Fs → List String) (n : Nat) (p : Script Unit) : Prop :=
  ∀ w, Safe T Alone (fun v => v.fs = w.fs) (fun _ _ => False) (fun m v => m = n ∧ Printed (xs w.fs) w v) p w

theorem rejects_exit {n : Nat} : Rejects T (fun _ => []) n (.exit n) := fun _ => safe_exit.2 ⟨rfl, rfl, rfl, rfl⟩

theorem Prints.rejects {xs ys : Fs → List String} {n : Nat} {p : Script Unit} {f : Unit → Script Unit}
    (hp : Prints T xs p) (hf : Rejects T ys n (f ())) : Rejects T (fun fs => xs fs ++ ys fs) n (p >>= f) := by
  intro w
  refine safe_bind ((hp w).mono (fun _ h => h) (fun _ v hv => ?_) fun _ _ h => h.elim)
  refine (hf v).mono (fun u hu => hu.trans hv.1) (fun _ _ h => h) fun m u hu => ⟨hu.1, hv.trans ?_⟩
  have := hu.2
  rwa [hv.1] at this

theorem rejects_printParameter : Rejects T K.usage 1 (printParameter K) := by
  have hwords : Prints T (fun _ => BuildType.list.flatMap fun t => [K.program ++ " [platform] " ++ t.word])
      (forEach (fun t => echo (K.program ++ " [platform] " ++ BuildType.word t)) BuildType.list) :=
    prints_forEach (fun t => prints_echo _) _
  have husage : K.usage = fun fs => K.offer fs ++ ([""] ++ (["Parameter error, Usage:"] ++
      ((BuildType.list.flatMap fun t => [K.program ++ " [platform] " ++ t.word]) ++ []))) := by
    funext fs
    simp [Checkout.usage, List.map_eq_flatMap]
  rw [husage]
  exact prints_printAvailable.rejects ((prints_echo _).rejects ((prints_echo _).rejects (hwords.rejects rejects_exit)))

theorem rejects_unknown {platform : String} : Rejects T (K.unknown platform) 2 (do
    printAvailable K
    echo ""
    echo ("Error: Can not find platform [" ++ platform ++ "]!")
    .exit 2) := by
  have hunknown : K.unknown platform = fun fs => K.offer fs ++ ([""] ++
      (["Error: Can not find platform [" ++ platform ++ "]!"] ++ [])) := rfl
  rw [hunknown]
  exact prints_printAvailable.rejects ((prints_echo _).rejects ((prints_echo _).rejects rejects_exit))

end prints

/-! ### The repository -/

section repository
variable (T : Tools) (E : Env) (ndk : Ndk) (hn : ndk.ndkName ≠ "lock")

/-- The platform of this name. -/
def shipped (name : String) : Platform E :=
  if name = "qt5-android-ndk-ivi" then androidIvi T E ndk hn
  else if name = "qt5-android-ndk-cluster" then androidCluster T E ndk hn
  else if name = "qt5-linux_x86-ivi" then linuxIvi T E
  else bare E

variable {T E ndk hn} in
theorem calls_shipped {name : String} {net : Net} {D : Script Nat → Prop}
    (hD : Procedures T E.toConfig net ndk D) {s : Stage} {b : Script Unit}
    (h : (shipped T E ndk hn name).scripts net s = some b) : Calls D b := by
  unfold shipped at h
  split at h
  · cases s with
    | toolchain => exact Option.some.inj h ▸ calls_installNdk hD
    | thirdparty => exact Option.some.inj h ▸ calls_thirdpartySh hD
    | vendor => exact Option.some.inj h ▸ .tidy plain_vendorSh
    | cmake => cases h
    | qt5 => cases h
  split at h
  · cases s with
    | toolchain => exact Option.some.inj h ▸ calls_installNdk hD
    | thirdparty => exact Option.some.inj h ▸ calls_thirdpartyBase hD
    | vendor => exact Option.some.inj h ▸ .tidy plain_vendorSh
    | cmake => cases h
    | qt5 => cases h
  split at h
  · cases s with
    | thirdparty => exact Option.some.inj h ▸ calls_thirdpartyLinuxSh hD
    | vendor => exact Option.some.inj h ▸ .tidy plain_vendorSh
    | toolchain => cases h
    | cmake => cases h
    | qt5 => cases h
  · cases h

/-- This repository, `env` being what the `config` files make of a platform. -/
def repository (program : String) (currentDir : Path) (env : String → Env) : Checkout T where
  program := program
  currentDir := currentDir
  config platform := (env platform).toConfig
  scripts platform := (shipped T (env platform) ndk hn platform).scripts
  proper _ _ _ _ := calls_shipped procedures_candid

end repository

/-- A checkout with one platform in it. -/
def checkedOut : World Label :=
  ⟨(((Fs.empty.mkdirP ["qt", "common"]).write ["qt", "common", "common.sh"] "").mkdirP
    ["qt", "platforms", "qt5-linux_x86-ivi"]).write ["qt", "platforms", "qt5-linux_x86-ivi", "config"] "", []⟩

def sampleCheckout : Checkout Tools.sample :=
  repository Tools.sample ⟨"android-ndk-r22b", "", ""⟩ ndkName_ne_lock "./build-qt5.sh" ["qt"] (Env.unset ["qt"])

/-! ### What is built, and what is refused -/

section tells
variable {T : Tools} (K : Checkout T) (fs : Fs)

/-- The command line asks for the step `t` of a platform that is there. -/
structure Accepted (args : List String) (platform : String) (t : BuildType) : Prop where
  whole : K.whole fs = true
  args : args = [platform, t.word]
  named : platform ≠ ""
  config : fs.isFile (K.platformConfig platform) = true

/-- The command line is refused: the lines that say so, and the exit code. -/
inductive Refused : List String → List String → Nat → Prop
  | common {args : List String} (hc : K.whole fs = false) : Refused args ["Error: Can not find common.sh!"] 1
  | number {args : List String} (hc : K.whole fs = true)
      (ha : ∀ platform type, args = [platform, type] → platform = "" ∨ type = "") : Refused args (K.usage fs) 1
  | platform {platform type : String} (hc : K.whole fs = true) (hp : platform ≠ "") (ht : type ≠ "")
      (hf : fs.isFile (K.platformConfig platform) = false) : Refused [platform, type] (K.unknown platform fs) 2
  | type {platform type : String} (hc : K.whole fs = true) (hp : platform ≠ "")
      (hf : fs.isFile (K.platformConfig platform) = true) (ht : ∀ t : BuildType, t.word ≠ type) :
      Refused [platform, type] (K.usage fs) 1

variable {K fs}

theorem BuildType.word_ne_empty (t : BuildType) : t.word ≠ "" := by cases t <;> decide

/-- No command line is both. -/
theorem Accepted.not_refused {args lines : List String} {platform : String} {t : BuildType} {n : Nat}
    (h : Accepted K fs args platform t) : ¬ Refused K fs args lines n := by
  obtain ⟨hc, rfl, hp, hf⟩ := h
  intro hr
  cases hr with
  | common hc' => simp [hc'] at hc
  | number _ ha =>
    rcases ha _ _ rfl with h | h
    · exact hp h
    · exact t.word_ne_empty h
  | platform _ _ _ hf' => simp [hf'] at hf
  | type _ _ _ ht => exact ht t rfl

/-- What an invocation that exits with `n` has told its user from `w` to `v`: for an accepted command line all its
steps or the first of them and a failure, for a refused one the lines that say so. -/
def Told (K : Checkout T) (args : List String) (w : World Label) (n : Nat) (v : World Label) : Prop :=
  (∃ platform t, Accepted K w.fs args platform t ∧
    (n = 0 ∧ Said (outline t) w v ∨ n = 10 ∧ Reported failureLine v ∧ Saying ((steps t).map upper) w v)) ∨
  ∃ lines, Refused K w.fs args lines n ∧ Printed lines w v

variable {net : Net} {args : List String} {w w' : World Label} {n : Nat}

theorem Rejects.told {lines : Fs → List String} {m : Nat} {p : Script Unit} (hp : Rejects T lines m p)
    (hr : Refused K w.fs args (lines w.fs) m) :
    Safe T Alone (fun _ => True) (fun _ _ => False) (Told K args w) p w := by
  refine (hp w).mono (fun _ _ => trivial) (fun _ _ h => h) fun n v h => .inr ⟨_, ?_, h.2⟩
  rw [h.1]
  exact hr

theorem safe_start : Safe T Alone (fun _ => True) (fun _ _ => False) (Told K args w) (start K net args) w := by
  refine safe_bind (safe_world.2 ⟨trivial, safe_ite (fun hc => ?_) fun hc => ?_⟩)
  · exact ((prints_echo _).rejects rejects_exit).told (.common (by simpa using hc))
  have hwhole : K.whole w.fs = true := by simpa using hc
  split
  · rename_i platform type
    refine safe_ite (fun ha => ?_) fun ha => ?_
    · refine rejects_printParameter.told (.number hwhole ?_)
      rintro _ _ ⟨⟩
      simpa using ha
    have hne : platform ≠ "" ∧ type ≠ "" := not_or.1 fun h => ha (by simpa using h)
    refine safe_ite (fun hf => ?_) fun hf => ?_
    · exact rejects_unknown.told (.platform hwhole hne.1 hne.2 (by simpa using hf))
    split
    · rename_i t ht
      refine (safe_main (K.proper platform net) t w).mono (fun _ _ => trivial) (fun _ _ h => h) fun n v h => ?_
      exact .inl ⟨platform, t, ⟨hwhole, by rw [BuildType.ofWord_eq_some.1 ht], hne.1, by simpa using hf⟩, h⟩
    · rename_i ht
      refine rejects_printParameter.told (.type hwhole hne.1 (by simpa using hf) fun t h => ?_)
      rw [BuildType.ofWord_eq_some.2 h] at ht
      cases ht
  · rename_i hargs
    exact rejects_printParameter.told (.number hwhole fun platform type h => absurd h (hargs platform type))

theorem bracket_inj {name name' : String} (h : "[" ++ name ++ "]" = "[" ++ name' ++ "]") : name = name' := by
  have hlist := congrArg String.toList h
  simp only [String.toList_append, List.append_cancel_left_eq, List.append_cancel_right_eq, List.append_assoc] at hlist
  exact String.toList_injective hlist

theorem mem_offer {name : String} : "[" ++ name ++ "]" ∈ K.offer fs ↔
    visible name = true ∧ fs.isFile (K.platformConfig name) = true := by
  have hfirst : "[" ++ name ++ "]" ≠ "Available platforms are as follows:" := by
    intro h
    have := congrArg (fun x : String => x.toList.head?) h
    simp at this
  simp only [Checkout.offer, List.mem_cons, hfirst, false_or, List.mem_flatMap, Fs.mem_glob]
  constructor
  · rintro ⟨name', ⟨-, hv⟩, hline⟩
    split at hline
    · rw [bracket_inj (List.mem_singleton.1 hline)]
      exact ⟨hv, ‹_›⟩
    · cases hline
  · rintro ⟨hv, hf⟩
    refine ⟨name, ⟨fun hnone => ?_, hv⟩, by simp [hf]⟩
    obtain ⟨c, hc⟩ := Fs.isFile_iff.1 hf
    have habove : K.currentDir ++ ["platforms"] ++ [name] <+: K.platformConfig name := ⟨["config"], by
      simp [Checkout.platformConfig]⟩
    rw [Fs.get_eq_none_below hnone habove] at hc
    cases hc

theorem mem_offer_of_refused {args lines : List String} {name : String} (hw : K.whole fs = true)
    (hr : Refused K fs args lines n) : "[" ++ name ++ "]" ∈ lines ↔ "[" ++ name ++ "]" ∈ K.offer fs := by
  -- the other lines do not end with a bracket
  have hlast : ∀ x : String, x.toList.getLast? ≠ some ']' → "[" ++ name ++ "]" ≠ x := by
    rintro x hx rfl
    rw [String.toList_append, List.getLast?_append] at hx
    exact hx rfl
  have hword : ∀ t : BuildType, "[" ++ name ++ "]" ≠ K.program ++ " [platform] " ++ t.word := by
    intro t
    refine hlast _ ?_
    rw [String.toList_append, List.getLast?_append]
    cases t <;> simp [BuildType.word]
  have husage : "[" ++ name ++ "]" ∈ K.usage fs ↔ "[" ++ name ++ "]" ∈ K.offer fs := by
    have h1 := hlast "" (by simp)
    have h2 := hlast "Parameter error, Usage:" (by decide)
    simp only [Checkout.usage, List.mem_append, List.mem_cons, List.not_mem_nil, h1, h2, or_false, List.mem_map]
    exact or_iff_left fun ⟨t, _, ht⟩ => hword t ht.symm
  cases hr with
  | common hc => simp [hc] at hw
  | number => exact husage
  | type => exact husage
  | @platform platform type =>
    have h1 := hlast "" (by simp)
    have h2 := hlast ("Error: Can not find platform [" ++ platform ++ "]!") (by
      rw [String.toList_append, List.getLast?_append]
      simp)
    simp only [Checkout.unknown, List.mem_append, List.mem_cons, List.not_mem_nil, h1, h2, or_false]

end tells

end BuildQt5
