import BuildQt5.Deploy

/-!
# What the install phase of do_deploy.sh makes

After the loop five things are put over what it copied: `usr/etc`, the plugins and the QML modules of the SDK, the
fonts, and two files that are written. Where all commands succeed the runtime is made of these layers, the last one on
top (`runtimeText`, `ends_installRuntime`), and has the files it should have if and only if no layer covers a file of
the SDK with another content and no development file lies among the plugins or QML modules (`runtime_complete_iff`).
-/

namespace BuildQt5
open Shell
open Prog (world run run_ note ifThen forEach)

/-! ### Layers -/

/-- What the file `q` holds when `ls` is laid over `f`, the first of the list on top. -/
def overlaid (ls : List (Path → Option String)) (f : Path → Option String) (q : Path) : Option String :=
  ls.foldr (fun l x => (l q).or x) (f q)

/-- The files of the tree `src` at `dst`. -/
def treeLayer (fs : Fs) (src dst q : Path) : Option String :=
  if fs.isDir src = true ∧ dst <+: q then fs.content (src ++ q.drop dst.length) else none

/-- The file `p` with this text. -/
def textLayer (p : Path) (text : String) (q : Path) : Option String := if q = p then some text else none

/-- What the loop copies to `q`. -/
def loopText (E : Config) (fs : Fs) (q : Path) : Option String :=
  ((filesBelow fs (sdkTarget E)).find? fun rel => Copies E.targetLibName rel ∧ destOf E.targetLibName rel = q).bind
    fun rel => fs.content (sdkTarget E ++ rel)

/-- What is put over it, the last first. -/
def overlays (E : Config) (fs : Fs) : List (Path → Option String) :=
  [textLayer ["usr", "bin", "qt.conf"] (echoE E.runtimeConfigstr),
    textLayer ["etc", "qt5.sh"] (echoE E.runtimeEnvConfigstr),
    treeLayer fs (E.currentDir ++ ["common", "fonts"]) ["usr", "share", "fonts"],
    treeLayer fs (E.targetPrefix ++ ["qml"]) ["usr", E.targetLibName, "qml"],
    treeLayer fs (E.targetPrefix ++ ["plugins"]) ["usr", E.targetLibName, "plugins"],
    treeLayer fs (E.targetPrefix ++ ["etc"]) ["etc"]]

/-- The runtime made from `fs`. -/
def runtimeText (E : Config) (fs : Fs) : Path → Option String := overlaid (overlays E fs) (loopText E fs)

section layers
variable {ls : List (Path → Option String)} {f : Path → Option String} {q : Path} {c : String}

theorem overlaid_cons {l : Path → Option String} : overlaid (l :: ls) f q = (l q).or (overlaid ls f q) := rfl

theorem mem_of_overlaid (h : overlaid ls f q = some c) : f q = some c ∨ ∃ l ∈ ls, l q = some c := by
  induction ls with
  | nil => exact .inl h
  | cons l ls ih =>
    rw [overlaid_cons, Option.or_eq_some_iff] at h
    rcases h with h | ⟨-, h⟩
    · exact .inr ⟨l, List.mem_cons_self, h⟩
    · rcases ih h with h | ⟨l', hl', h⟩
      · exact .inl h
      · exact .inr ⟨l', List.mem_cons_of_mem _ hl', h⟩

theorem overlaid_ne_none {l : Path → Option String} (hl : l ∈ ls) (h : l q ≠ none) : overlaid ls f q ≠ none := by
  induction ls with
  | nil => cases hl
  | cons l' ls ih =>
    rw [overlaid_cons, Ne, Option.or_eq_none_iff]
    rintro ⟨h', hrest⟩
    rcases List.mem_cons.1 hl with rfl | hl
    · exact h h'
    · exact ih hl hrest

/-- Layers that agree where they have the file. -/
theorem overlaid_of_agree (hls : ∀ l ∈ ls, ∀ c', l q = some c' → c' = c)
    (h : f q = some c ∨ ∃ l ∈ ls, l q = some c) : overlaid ls f q = some c := by
  induction ls with
  | nil => simpa [overlaid] using h
  | cons l ls ih =>
    rw [overlaid_cons]
    cases hl : l q with
    | some c' => rw [hls l List.mem_cons_self c' hl]; rfl
    | none =>
      refine ih (fun l' hl' => hls l' (List.mem_cons_of_mem _ hl')) ?_
      rcases h with h | ⟨l', hl', h⟩
      · exact .inl h
      · rcases List.mem_cons.1 hl' with rfl | hl'
        · rw [hl] at h; cases h
        · exact .inr ⟨l', hl', h⟩

end layers

/-! ### The phases -/

/-- Where the runtime can be made, on a platform without a `sysroot` of its own. -/
structure RuntimeSite (E : Config) (fs : Fs) : Prop where
  layout : Layout E fs
  way : ∀ q, q <+: E.runtimeDir → fs.get q = none ∨ fs.get q = some .dir
  fonts : Apart E.runtimeDir (E.currentDir ++ ["common", "fonts"])
  sysroot : Apart E.runtimeDir (E.platformDir ++ ["sysroot"])
  noSysroot : fs.isDir (E.platformDir ++ ["sysroot"]) = false

/-- Nothing has changed but at, above and below `R`. -/
def Beside (R : Path) (fs fs' : Fs) : Prop := ∀ p, Apart R p → fs'.get p = fs.get p

/-- `BUILD_RUNTIME_DIR` has no files, and can be made. -/
structure Swept (E : Config) (fs₀ fs : Fs) : Prop where
  beside : Beside E.runtimeDir fs₀ fs
  way : ∀ q, q <+: E.runtimeDir → fs.get q = none ∨ fs.get q = some .dir
  none : ∀ q c, fs.get (E.runtimeDir ++ q) ≠ some (.file c)

/-- The runtime holds `f`. -/
structure Laid (E : Config) (fs₀ : Fs) (f : Path → Option String) (fs : Fs) : Prop where
  beside : Beside E.runtimeDir fs₀ fs
  text : ∀ q, fs.content (E.runtimeDir ++ q) = f q

section phases
variable {T : Tools} {E : Config} {fs₀ fs : Fs} {f : Path → Option String} {w : World Label} {src d : Path}

theorem Beside.agree {R : Path} {fs' : Fs} (h : Beside R fs₀ fs) (h' : Fs.Agree [R ++ d] fs fs') : Beside R fs₀ fs' := by
  intro p hp
  rw [h' p, h p hp]
  refine Bool.eq_false_iff.2 fun hc => ?_
  obtain ⟨r, hr, hpre⟩ := Fs.covers_iff.1 hc
  rw [List.mem_singleton.1 hr] at hpre
  exact hp.1 ((List.prefix_append _ _).trans hpre)

theorem Beside.content {R p : Path} (h : Beside R fs₀ fs) (hp : Apart R p) : fs.content p = fs₀.content p := by
  rw [Fs.content, h p hp, Fs.content]

theorem Swept.mkdirP (h : Swept E fs₀ fs) : Swept E fs₀ (fs.mkdirP (E.runtimeDir ++ d)) := by
  refine ⟨fun p hp => ?_, fun q hq => ?_, fun q c hc => ?_⟩
  · rw [Fs.get_mkdirP_of_not, h.beside p hp]
    intro hpre
    rcases List.prefix_or_prefix_of_prefix hpre (List.prefix_append _ _) with h' | h'
    · exact hp.2 h'
    · exact hp.1 h'
  · rcases @Fs.get_mkdirP fs (E.runtimeDir ++ d) q with h' | ⟨-, h', -⟩
    · rw [h']; exact h.way q hq
    · exact .inr h'
  · rcases @Fs.get_mkdirP fs (E.runtimeDir ++ d) (E.runtimeDir ++ q) with h' | ⟨-, h', -⟩
    · exact h.none q c (h' ▸ hc)
    · rw [h'] at hc; cases hc

/-- A directory made below it makes it. -/
theorem Swept.root (h : Swept E fs₀ fs) (hd : d ≠ []) :
    (fs.mkdirP (E.runtimeDir ++ d)).get E.runtimeDir = some .dir := by
  have hdir : (fs.mkdirP (E.runtimeDir ++ d)).get (E.runtimeDir ++ d) = some .dir := by
    refine Fs.isDir_mkdirP fun q hq => ?_
    rcases List.prefix_or_prefix_of_prefix hq (List.prefix_append _ _) with hup | ⟨r, rfl⟩
    · exact h.way q hup
    · rcases hg : fs.get (E.runtimeDir ++ r) with _ | _ | c
      · exact .inl rfl
      · exact .inr rfl
      · exact absurd hg (h.none r c)
  exact Fs.get_append d (by simp [hdir]) hd

theorem RuntimeSite.swept (h : RuntimeSite E fs) (hdir : fs.isDir E.runtimeDir = false) : Swept E fs fs := by
  refine ⟨fun p _ => rfl, h.way, fun q c hq => ?_⟩
  have hnone : fs.get E.runtimeDir = none := by
    rcases h.way _ (List.prefix_refl _) with h' | h'
    · exact h'
    · simp [Fs.isDir, h'] at hdir
  rw [Fs.get_eq_none_below hnone (List.prefix_append _ q)] at hq
  cases hq

theorem RuntimeSite.swept_rm (h : RuntimeSite E fs) : Swept E fs (fs.rmTrees [E.runtimeDir]) := by
  have hR : E.runtimeDir ≠ [] := fun h0 => h.layout.apart.1 (h0 ▸ List.nil_prefix)
  have hget : ∀ q, ¬ E.runtimeDir <+: q → (fs.rmTrees [E.runtimeDir]).get q = fs.get q := by
    intro q hq
    by_cases hnil : q = []
    · simp [hnil]
    · rw [Fs.get_rmTrees hnil, if_neg (by simpa [Fs.covers] using hq)]
  have hgone : ∀ q, (fs.rmTrees [E.runtimeDir]).get (E.runtimeDir ++ q) = .none := by
    intro q
    rw [Fs.get_rmTrees (by simp [hR]), if_pos (by simp [Fs.covers])]
  refine ⟨fun p hp => hget p hp.1, fun q hq => ?_, fun q c hq => by rw [hgone] at hq; cases hq⟩
  by_cases heq : q = E.runtimeDir
  · have := hgone []
    rw [List.append_nil] at this
    exact .inl (heq ▸ this)
  · rw [hget q fun h' => heq (hq.eq_of_length_le h'.length_le)]
    exact h.way q hq

/-- The loop, from there. -/
theorem Deployed.laid (hsdk : ∀ p, fs.get (sdkTarget E ++ p) = fs₀.get (sdkTarget E ++ p))
    (hb : Beside E.runtimeDir fs₀ fs) {fs' : Fs} (h : Deployed E fs (filesBelow fs (sdkTarget E)) fs') :
    Laid E fs₀ (loopText E fs₀) fs' := by
  refine ⟨fun p hp => ?_, fun q => ?_⟩
  · rw [h.same p, hb p hp]
    simpa [Fs.covers] using hp.1
  · rw [loopText]
    cases hfind : (filesBelow fs₀ (sdkTarget E)).find? fun rel =>
        Copies E.targetLibName rel ∧ destOf E.targetLibName rel = q with
    | some rel =>
      have hrel := List.mem_of_find?_eq_some hfind
      obtain ⟨hc, rfl⟩ : Copies E.targetLibName rel ∧ destOf E.targetLibName rel = q := by
        simpa using List.find?_some hfind
      obtain ⟨c, hs, hR⟩ := h.arrived rel ((mem_filesBelow_congr hsdk).2 hrel) hc
      rw [Option.bind_some, Fs.content_eq_some.2 hR, Fs.content_eq_some.2 (hsdk rel ▸ hs)]
    | none =>
      cases hc : fs'.content (E.runtimeDir ++ q) with
      | none => rfl
      | some c =>
        obtain ⟨rel, hrel, hcop, rfl⟩ := h.from_sdk q c (Fs.content_eq_some.1 hc)
        have := List.find?_eq_none.1 hfind rel ((mem_filesBelow_congr hsdk).1 hrel)
        simp [hcop] at this

theorem ends_cpIfDir (h : Laid E fs₀ f w.fs) (hsrc : Apart E.runtimeDir src) :
    Ends T (fun _ w' => Laid E fs₀ (fun q => (treeLayer fs₀ src d q).or (f q)) w'.fs) (cpIfDir src (E.runtimeDir ++ d))
      w := by
  have hisDir : w.fs.isDir src = fs₀.isDir src := by rw [Fs.isDir, Fs.isDir, h.beside src hsrc]
  refine sure_world.2 ⟨trivial, sure_ite (fun hdir => ?_) fun hdir => ⟨trivial, h.beside, fun q => ?_⟩⟩
  · refine sure_bind ⟨trivial, fun n w' hf hn => ⟨trivial, trivial, ?_⟩⟩
    obtain rfl : n = 0 := hn
    have hdir' := Fs.isDir_iff.1 hdir
    have hagree : Fs.Agree [E.runtimeDir ++ d] w.fs w'.fs := by
      have hfin := hf.1
      simp only [Cmd.Fin, if_true, hdir', Cmd.Copied] at hfin
      exact hfin.2.1
    refine ⟨h.beside.agree hagree, fun q => ?_⟩
    by_cases hq : d <+: q
    · obtain ⟨r, rfl⟩ := hq
      rw [treeLayer, if_pos ⟨hisDir ▸ hdir, List.prefix_append _ _⟩, List.drop_left, ← h.text, ← List.append_assoc,
        Cmd.content_of_fin_cp hdir' hf.1, h.beside.content (hsrc.symm.below (List.prefix_append _ r)).symm]
    · rw [treeLayer, if_neg fun h => hq h.2, Option.none_or, ← h.text, Fs.content, hagree _, Fs.content]
      simpa [Fs.covers] using hq
  · rw [treeLayer, if_neg fun h => hdir (hisDir ▸ h.1), Option.none_or, h.text]

theorem ends_write {β : Type} {k : Nat → Script β} {Q : β → World Label → Prop} {text : String}
    (h : Laid E fs₀ f w.fs)
    (hk : ∀ w', Laid E fs₀ (fun q => (textLayer d text q).or (f q)) w'.fs → Ends T Q (k 0) w') :
    Ends T Q (run (.write (E.runtimeDir ++ d) text) >>= k) w := by
  refine sure_run.2 ⟨trivial, fun n w' hf hn => ?_⟩
  obtain rfl : n = 0 := hn
  obtain ⟨⟨hfs, hcode⟩, -⟩ := hf
  refine hk w' ⟨h.beside.agree (d := d) fun p hp => ?_, fun q => ?_⟩
  · rw [hfs, Fs.get_write_of_ne]
    rintro rfl
    simp [Fs.covers] at hp
  · by_cases hq : q = d
    · rw [textLayer, if_pos hq, hq, Fs.content_eq_some.2 (hcode.1 rfl)]
      rfl
    · rw [textLayer, if_neg hq, Option.none_or, ← h.text, Fs.content, hfs,
        Fs.get_write_of_ne fun heq => hq (List.append_cancel_left heq), Fs.content]

theorem ends_writeExecutable {k : Nat → Script Unit} {Q : Unit → World Label → Prop} {text : String}
    (h : Laid E fs₀ f w.fs)
    (hk : ∀ w', Laid E fs₀ (fun q => (textLayer d (echoE text) q).or (f q)) w'.fs → Ends T Q (k 0) w') :
    Ends T Q (writeExecutable (E.runtimeDir ++ d) text >>= k) w := by
  refine sure_bind (ends_write h fun w' h' => ?_)
  rw [if_pos rfl]
  refine ⟨trivial, fun n v hf hn => ⟨trivial, ?_⟩⟩
  obtain rfl : n = 0 := hn
  have hsame : ∀ p, v.fs.get p = w'.fs.get p := fun p => hf.1.1 p rfl
  exact hk v ⟨fun p hp => (hsame p).trans (h'.beside p hp), fun q => by rw [Fs.content, hsame, ← h'.text, Fs.content]⟩

/-- The directories are made. -/
theorem Swept.step (h : Swept E fs₀ w.fs) {n : Nat} {w' : World Label}
    (hf : (Cmd.mkdirP (E.runtimeDir ++ d)).FinW T w n w') : Swept E fs₀ w'.fs := by
  rw [hf.1.2]
  exact h.mkdirP

/-- What the install phase leaves when all its commands succeed. -/
theorem ends_installRuntime (h : RuntimeSite E w.fs) (ht : Tame E w.fs) :
    Ends T (fun _ w' => Laid E w.fs (runtimeText E w.fs) w'.fs) (installRuntime E) w := by
  have hsdk : ∀ p, Apart E.runtimeDir (sdkTarget E ++ p) := fun p =>
    (h.layout.apart.symm.below (List.prefix_append _ _)).symm
  refine sure_note.2 ⟨trivial, sure_world.2 ⟨trivial, sure_bind ?_⟩⟩
  have hrm : Ends T (fun _ w' => Swept E w.fs w'.fs)
      (ifThen (w.fs.isDir E.runtimeDir) (run_ (.rmRf [E.runtimeDir])))
      ⟨w.fs, .mark (.say .title (upper "install runtime")) :: w.log⟩ := by
    refine sure_ite (fun _ => ⟨trivial, fun n w' hf hn => ⟨trivial, ?_⟩⟩) fun hdir => ⟨trivial, ?_⟩
    · have hfs : w'.fs = w.fs.rmTrees [E.runtimeDir] := hf.1.trans (if_pos hn)
      show Swept E w.fs w'.fs
      rw [hfs]
      exact h.swept_rm
    · exact h.swept (by simpa using hdir)
  refine hrm.mono (fun _ _ h => h) (fun _ w1 h1 => ?_) fun _ _ h => h
  refine sure_run_.2 ⟨trivial, fun _ w2 hf2 _ => ?_⟩
  have hroot2 : w2.fs.get E.runtimeDir = some .dir := by rw [hf2.1.2]; exact h1.root (by simp)
  refine sure_run_.2 ⟨trivial, fun _ w3 hf3 _ => ?_⟩
  refine sure_run_.2 ⟨trivial, fun _ w4 hf4 _ => ?_⟩
  refine sure_run_.2 ⟨trivial, fun _ w5 hf5 _ => ?_⟩
  have h5 : Swept E w.fs w5.fs := (((h1.step hf2).step hf3).step hf4).step hf5
  have hroot : w5.fs.get E.runtimeDir = some .dir := by
    rw [hf5.1.2, hf4.1.2, hf3.1.2]
    exact Fs.get_mkdirP_of_some (Fs.get_mkdirP_of_some (Fs.get_mkdirP_of_some hroot2))
  have hget : ∀ p, w5.fs.get (sdkTarget E ++ p) = w.fs.get (sdkTarget E ++ p) := fun p => h5.beside _ (hsdk p)
  refine sure_world.2 ⟨trivial, sure_bind ?_⟩
  have hloop := sure_deployLoop (T := T) (C := succeeds) (P := fun _ => True) (X := fun _ _ => True)
    (h.layout.congr hget) (ht.congr hget) (fun _ _ => trivial) (fun _ _ _ => trivial) ⟨hroot, h5.none⟩
  refine hloop.mono (fun _ _ _ => trivial) (fun _ w6 h6 => ?_) fun _ _ h => h
  have hlaid : Laid E w.fs (loopText E w.fs) w6.fs := h6.1.laid hget h5.beside
  have husr : ∀ x, Apart E.runtimeDir (E.targetPrefix ++ [x]) := fun x => by
    have := hsdk ["usr", x]
    simpa [sdkTarget, Config.targetPrefix] using this
  refine sure_bind ((ends_cpIfDir hlaid (husr _)).mono (fun _ _ h => h) (fun _ w7 h7 => ?_) fun _ _ h => h)
  refine sure_bind ((ends_cpIfDir h7 (husr _)).mono (fun _ _ h => h) (fun _ w8 h8 => ?_) fun _ _ h => h)
  refine sure_bind ((ends_cpIfDir h8 (husr _)).mono (fun _ _ h => h) (fun _ w9 h9 => ?_) fun _ _ h => h)
  refine sure_bind ((ends_cpIfDir h9 h.fonts).mono (fun _ _ h => h) (fun _ w10 h10 => ?_) fun _ _ h => h)
  have hno : w10.fs.isDir (E.platformDir ++ ["sysroot"]) = false := by
    rw [Fs.isDir, h10.beside _ h.sysroot]; exact h.noSysroot
  refine sure_world.2 ⟨trivial, ?_⟩
  rw [hno]
  refine ends_writeExecutable h10 fun w11 h11 => ends_write h11 fun w12 h12 => ?_
  exact ⟨trivial, h12⟩

end phases

/-! ### Development files -/

/-- The patterns of files the loop passes over and a later copy installs. -/
def laterPatterns : List (String × String) := [("usr/etc/", ""), ("usr/plugins/", ""), ("usr/qml/", "")]

/-- The path matches a pattern of the loop that is about development files. -/
def isDevelopment (lib : String) (rel : Path) : Bool :=
  realPath lib rel = "" ||
    ((devPatterns lib).filter (· ∉ laterPatterns)).any fun x => between x.1 x.2 (realPath lib rel)

/-- What the later copies install. -/
def CopiedLater (rel : Path) : Prop := ∃ d ∈ ["etc", "plugins", "qml"], ∃ x r, rel = "usr" :: d :: x :: r

/-- Where a file of the SDK is in the runtime. -/
def installedAs (lib : String) (rel : Path) : Path :=
  match rel with
  | "usr" :: "etc" :: x :: r => "etc" :: x :: r
  | "usr" :: "plugins" :: x :: r => "usr" :: lib :: "plugins" :: x :: r
  | "usr" :: "qml" :: x :: r => "usr" :: lib :: "qml" :: x :: r
  | _ => destOf lib rel

/-- The name of a library or a file for the linker. -/
def isDevName (x : String) : Bool := [".a", ".o", ".la", ".prl"].any fun e => e.toList <:+ x.toList

section development
variable {lib : String} {rel s : Path}

theorem installedAs_of_copies (h : ¬ CopiedLater rel) : installedAs lib rel = destOf lib rel := by
  unfold installedAs
  split
  · exact absurd ⟨"etc", by simp, _, _, rfl⟩ h
  · exact absurd ⟨"plugins", by simp, _, _, rfl⟩ h
  · exact absurd ⟨"qml", by simp, _, _, rfl⟩ h
  · rfl

theorem realPath_late {d x : String} {r : Path} (hd : d ∈ ["etc", "plugins", "qml"]) :
    ("usr/" ++ d ++ "/").toList <+: (realPath lib ("usr" :: d :: x :: r)).toList := by
  have hnot : ¬ "lib".toList <:+: d.toList := by
    simp only [List.mem_cons, List.not_mem_nil, or_false] at hd
    rcases hd with rfl | rfl | rfl <;> decide
  obtain ⟨y, q, hq⟩ := List.exists_cons_of_ne_nil
    (fun h0 => absurd (replaceIn_eq_nil_iff.1 h0) (by simp) : renamed lib (x :: r) ≠ [])
  have hren : renamed lib ("usr" :: d :: x :: r) = "usr" :: d :: y :: q := by
    rw [← hq, renamed, replaceIn_cons (by decide), replaceIn_cons hnot]
    rfl
  rw [realPath_eq, hren, joinPath_cons_cons, joinPath_cons_cons]
  exact ⟨(joinPath (y :: q)).toList, by simp⟩

/-- A file the later copies install is no development file. -/
theorem not_development_of_late (hl : LibName lib) (h : CopiedLater rel) : isDevelopment lib rel = false := by
  obtain ⟨d, hd, x, r, rfl⟩ := h
  have hpre := @realPath_late lib d x r hd
  have hne : realPath lib ("usr" :: d :: x :: r) ≠ "" := by
    intro h0
    rw [h0] at hpre
    simp at hpre
  rw [isDevelopment, Bool.or_eq_false_iff, decide_eq_false_iff_not, List.any_eq_false]
  refine ⟨hne, fun y hy hmatch => ?_⟩
  -- no other pattern begins as these do
  have hapart : ∀ y ∈ (devPatterns lib).filter (· ∉ laterPatterns),
      ¬ y.1.toList <+: ("usr/" ++ d ++ "/").toList ∧ ¬ ("usr/" ++ d ++ "/").toList <+: y.1.toList := by
    simp only [List.mem_cons, List.not_mem_nil, or_false] at hd
    rcases hl with rfl | rfl <;> rcases hd with rfl | rfl | rfl <;> decide
  rw [between, Bool.and_eq_true, decide_eq_true_iff] at hmatch
  rcases List.prefix_or_prefix_of_prefix hmatch.1 hpre with h' | h'
  · exact (hapart y hy).1 h'
  · exact (hapart y hy).2 h'

theorem copies_or_later (hl : LibName lib) (hrel : ∀ x ∈ rel, IsName x) (h : isDevelopment lib rel = false) :
    Copies lib rel ∨ CopiedLater rel := by
  by_cases hc : Copies lib rel
  · exact .inl hc
  refine .inr ?_
  rw [isDevelopment, Bool.or_eq_false_iff, List.any_eq_false] at h
  have hpass : passedOver lib (realPath lib rel) = true := by simpa [Copies] using hc
  rw [passedOver, h.1, Bool.false_or, List.any_eq_true] at hpass
  obtain ⟨y, hy, hmatch⟩ := hpass
  have hlater : y ∈ laterPatterns := by
    by_contra hno
    exact h.2 y (List.mem_filter.2 ⟨hy, by simpa using hno⟩) hmatch
  obtain ⟨d, hd, hpre⟩ : ∃ d ∈ ["etc", "plugins", "qml"], y.1 = "usr/" ++ d ++ "/" := by
    simp only [laterPatterns, List.mem_cons, List.not_mem_nil, or_false] at hlater
    rcases hlater with rfl | rfl | rfl
    · exact ⟨"etc", by simp, rfl⟩
    · exact ⟨"plugins", by simp, rfl⟩
    · exact ⟨"qml", by simp, rfl⟩
  have hds : '/' ∉ d.toList ∧ ¬ "lib".toList <:+: d.toList := by
    simp only [List.mem_cons, List.not_mem_nil, or_false] at hd
    rcases hd with rfl | rfl | rfl <;> decide
  rw [between, Bool.and_eq_true, decide_eq_true_iff, hpre, realPath_eq] at hmatch
  have hnames := isName_renamed hl hrel
  have htext : ("usr/" ++ d ++ "/").toList = "usr".toList ++ '/' :: (d.toList ++ '/' :: []) := by simp
  obtain ⟨x, r, hx, h1⟩ := joinPath_starts (by decide) hnames (htext ▸ hmatch.1)
  obtain ⟨r', rfl, hr'⟩ := replaceIn_eq_cons (by decide) hl.pre (by decide) hx
  obtain ⟨z, q, hz, -⟩ := joinPath_starts hds.1 (fun y hy => hnames y (hx ▸ List.mem_cons_of_mem _ hy)) h1
  obtain ⟨s, rfl, hs⟩ := replaceIn_eq_cons (by decide) hl.pre hds.2 (hr'.trans hz)
  obtain ⟨z', q', rfl⟩ := List.exists_cons_of_ne_nil
    (fun h0 => by rw [h0] at hs; simp [replaceIn] at hs : s ≠ [])
  exact ⟨d, hd, z', q', rfl⟩

/-- What the loop copies below the library directory is no development file by its name. -/
theorem not_devName_of_copies (hl : LibName lib) (h : Copies lib rel) (hs : s ≠ [])
    (hdest : destOf lib rel = "usr" :: lib :: s) : isDevName (s.getLastD "") = false := by
  have hsplit : "usr" :: lib :: s = ("usr" :: lib :: s.dropLast) ++ [s.getLastD ""] := by
    rw [List.cons_append, List.cons_append, dropLast_getLastD hs]
  obtain ⟨hdir, -⟩ := List.append_inj' (hdest.trans hsplit) rfl
  -- the `lib` that was renamed is in a directory, so the loop tests the path it copies to
  have hlib : ∃ x ∈ rel.dropLast, "lib".toList <:+: x.toList := by
    by_contra hno
    rw [renamed_of_not fun x hx hi => hno ⟨x, hx, hi⟩] at hdir
    exact hno ⟨lib, by simp [hdir], hl.pre.isInfix⟩
  have hreal : renamed lib rel = "usr" :: lib :: s := by
    rw [← hdest, destOf, renamed, renamed, ← replaceIn_append hlib, dropLast_getLastD h.ne_nil]
  by_contra hdev
  rw [Bool.not_eq_false, isDevName, List.any_eq_true] at hdev
  obtain ⟨e, he, hsuf⟩ := hdev
  have hmem : ("usr/" ++ lib ++ "/", e) ∈ devPatterns lib := by
    simp only [List.mem_cons, List.not_mem_nil, or_false] at he
    rcases he with rfl | rfl | rfl | rfl <;> simp [devPatterns]
  have htext : (realPath lib rel).toList = ("usr/" ++ lib ++ "/").toList ++ (joinPath s).toList := by
    obtain ⟨y, t, rfl⟩ := List.exists_cons_of_ne_nil hs
    rw [realPath_eq, hreal, joinPath_cons_cons, joinPath_cons_cons]
    simp
  have hmatch : between ("usr/" ++ lib ++ "/") e (realPath lib rel) = true := by
    rw [between, htext, List.drop_left, Bool.and_eq_true, decide_eq_true_iff, decide_eq_true_iff]
    exact ⟨List.prefix_append _ _, (of_decide_eq_true hsuf).trans (joinPath_ends hs)⟩
  have hpass : passedOver lib (realPath lib rel) = true := by
    rw [passedOver, Bool.or_eq_true]
    exact .inr (List.any_eq_true.2 ⟨_, hmem, hmatch⟩)
  simp [Copies, hpass] at h

end development

/-! ### The runtime that is made -/

/-- Every file of the SDK that is no development file is in the runtime, with its content. -/
def Complete (E : Config) (fs fs' : Fs) : Prop :=
  ∀ rel ∈ filesBelow fs (sdkTarget E), isDevelopment E.targetLibName rel = false →
    fs'.content (E.runtimeDir ++ installedAs E.targetLibName rel) = fs.content (sdkTarget E ++ rel)

/-- No development file by its name is below the library directory. -/
def Slim (E : Config) (fs' : Fs) : Prop :=
  ∀ s c, s ≠ [] → fs'.content (E.runtimeDir ++ "usr" :: E.targetLibName :: s) = some c → isDevName (s.getLastD "") = false

/-- Nothing of another content is put over a file of the SDK. -/
def Uncovered (E : Config) (fs : Fs) : Prop :=
  ∀ rel ∈ filesBelow fs (sdkTarget E), isDevelopment E.targetLibName rel = false → ∀ l ∈ overlays E fs,
    l (installedAs E.targetLibName rel) = none ∨ l (installedAs E.targetLibName rel) = fs.content (sdkTarget E ++ rel)

/-- No development file by its name is among the plugins and QML modules of the SDK. -/
def SlimPlugins (E : Config) (fs : Fs) : Prop :=
  ∀ rel ∈ filesBelow fs (sdkTarget E), ["usr", "plugins"] <+: rel ∨ ["usr", "qml"] <+: rel →
    isDevName (rel.getLastD "") = false

section complete
variable {T : Tools} {E : Config} {fs : Fs} {rel q : Path} {c : String}

theorem targetPrefix_append (x : String) (r : Path) : E.targetPrefix ++ [x] ++ r = sdkTarget E ++ "usr" :: x :: r := by
  simp [Config.targetPrefix, sdkTarget]

/-- The layer a later copy lays, read at a file of it. -/
theorem treeLayer_later {d x : String} {r : Path} (dst : Path) (h : fs.content (sdkTarget E ++ "usr" :: d :: x :: r) = some c) :
    treeLayer fs (E.targetPrefix ++ [d]) dst (dst ++ x :: r) = some c := by
  rw [← targetPrefix_append] at h
  have hdir : fs.get (E.targetPrefix ++ [d]) = some .dir := by
    refine Fs.get_append (x :: r) ?_ (by simp)
    rw [Fs.content_eq_some.1 h]
    exact Option.some_ne_none _
  rw [treeLayer, if_pos ⟨Fs.isDir_iff.2 hdir, List.prefix_append _ _⟩, List.drop_left, h]

/-- And from it. -/
theorem later_of_treeLayer {d : String} {dst : Path} (h : treeLayer fs (E.targetPrefix ++ [d]) dst q = some c) :
    ∃ x r, q = dst ++ x :: r ∧ fs.content (sdkTarget E ++ "usr" :: d :: x :: r) = some c := by
  unfold treeLayer at h
  split at h
  · rename_i hcond
    obtain ⟨hdir, r, rfl⟩ := hcond
    rw [List.drop_left] at h
    cases r with
    | nil =>
      rw [List.append_nil, Fs.content, Fs.isDir_iff.1 hdir] at h
      cases h
    | cons x r => exact ⟨x, r, rfl, by rw [← targetPrefix_append]; exact h⟩
  · cases h

theorem eq_of_textLayer {p : Path} {text : String} (h : textLayer p text q = some c) : q = p := by
  unfold textLayer at h
  split at h
  · assumption
  · cases h

theorem prefix_of_treeLayer {src dst : Path} (h : treeLayer fs src dst q = some c) : dst <+: q := by
  unfold treeLayer at h
  split at h
  · rename_i hcond
    exact hcond.2
  · cases h

theorem mem_files_of_content (h : fs.content (sdkTarget E ++ rel) = some c) : rel ∈ filesBelow fs (sdkTarget E) :=
  mem_filesBelow.2 ⟨c, by simp [sdkTarget], Fs.content_eq_some.1 h⟩

/-- A file the later copies install is in the layer of one of them. -/
theorem exists_layer (h : CopiedLater rel) (hc : fs.content (sdkTarget E ++ rel) = some c) :
    ∃ l ∈ overlays E fs, l (installedAs E.targetLibName rel) = some c := by
  obtain ⟨d, hd, x, r, rfl⟩ := h
  simp only [List.mem_cons, List.not_mem_nil, or_false] at hd
  rcases hd with rfl | rfl | rfl
  · exact ⟨_, by simp [overlays], treeLayer_later ["etc"] hc⟩
  · exact ⟨_, by simp [overlays], treeLayer_later ["usr", E.targetLibName, "plugins"] hc⟩
  · exact ⟨_, by simp [overlays], treeLayer_later ["usr", E.targetLibName, "qml"] hc⟩

theorem loopText_copies (hl : Layout E fs) (h : Copies E.targetLibName rel)
    (hc : fs.content (sdkTarget E ++ rel) = some c) : loopText E fs (destOf E.targetLibName rel) = some c := by
  rw [loopText]
  cases hfind : (filesBelow fs (sdkTarget E)).find? fun r =>
      Copies E.targetLibName r ∧ destOf E.targetLibName r = destOf E.targetLibName rel with
  | some r =>
    obtain ⟨hr, heq⟩ : Copies E.targetLibName r ∧ destOf E.targetLibName r = destOf E.targetLibName rel := by
      simpa using List.find?_some hfind
    obtain rfl := destOf_injective hl.libName hr.ne_nil h.ne_nil heq
    exact hc
  | none =>
    have := List.find?_eq_none.1 hfind rel (mem_files_of_content hc)
    simp [h] at this

theorem copies_of_loopText (h : loopText E fs q = some c) :
    ∃ rel, Copies E.targetLibName rel ∧ destOf E.targetLibName rel = q := by
  obtain ⟨rel, hfind, -⟩ := Option.bind_eq_some_iff.1 h
  exact ⟨rel, by simpa using List.find?_some hfind⟩

/-- A layer is on top where it has the file, or is a later copy of a file of the SDK. -/
theorem runtimeText_layer {l : Path → Option String} (h : l ∈ overlays E fs) (hc : l q = some c) :
    runtimeText E fs q = some c ∨
      ∃ rel, CopiedLater rel ∧ installedAs E.targetLibName rel = q ∧ fs.content (sdkTarget E ++ rel) = some c := by
  simp only [overlays, List.mem_cons, List.not_mem_nil, or_false] at h
  rcases h with rfl | rfl | rfl | rfl | rfl | rfl
  · rw [runtimeText, overlays, overlaid_cons, hc]
    exact .inl rfl
  · have hq := eq_of_textLayer hc
    have htop : textLayer ["usr", "bin", "qt.conf"] (echoE E.runtimeConfigstr) q = none := if_neg (by simp [hq])
    rw [runtimeText, overlays, overlaid_cons, overlaid_cons, htop, hc]
    exact .inl rfl
  · obtain ⟨r, rfl⟩ := prefix_of_treeLayer hc
    have htop : textLayer ["usr", "bin", "qt.conf"] (echoE E.runtimeConfigstr) (["usr", "share", "fonts"] ++ r) = none :=
      if_neg (by simp)
    have hnext : textLayer ["etc", "qt5.sh"] (echoE E.runtimeEnvConfigstr) (["usr", "share", "fonts"] ++ r) = none :=
      if_neg (by simp)
    rw [runtimeText, overlays, overlaid_cons, overlaid_cons, overlaid_cons, htop, hnext, hc]
    exact .inl rfl
  · obtain ⟨x, r, rfl, hs⟩ := later_of_treeLayer hc
    exact .inr ⟨_, ⟨"qml", by simp, x, r, rfl⟩, rfl, hs⟩
  · obtain ⟨x, r, rfl, hs⟩ := later_of_treeLayer hc
    exact .inr ⟨_, ⟨"plugins", by simp, x, r, rfl⟩, rfl, hs⟩
  · obtain ⟨x, r, rfl, hs⟩ := later_of_treeLayer hc
    exact .inr ⟨_, ⟨"etc", by simp, x, r, rfl⟩, rfl, hs⟩

theorem complete_iff {fs' : Fs} (hl : Layout E fs) (h : Laid E fs (runtimeText E fs) fs') :
    Complete E fs fs' ↔ Uncovered E fs := by
  constructor
  · intro hcomp rel hrel hdev l hmem
    cases hc : l (installedAs E.targetLibName rel) with
    | none => exact .inl rfl
    | some c =>
      refine .inr ?_
      rw [← hcomp rel hrel hdev, h.text]
      rcases runtimeText_layer hmem hc with htop | ⟨rel', hlater, hsame, hc'⟩
      · exact htop.symm
      · -- a later copy of a file that must be there itself
        rw [← hsame, ← h.text, hcomp rel' (mem_files_of_content hc') (not_development_of_late hl.libName hlater), hc']
  · intro hun rel hrel hdev
    obtain ⟨c, -, hfile⟩ := mem_filesBelow.1 hrel
    have hc : fs.content (sdkTarget E ++ rel) = some c := Fs.content_eq_some.2 hfile
    rw [h.text, hc]
    refine overlaid_of_agree (fun l hmem c' hc' => ?_) ?_
    · rcases hun rel hrel hdev l hmem with h0 | h0
      · rw [h0] at hc'; cases hc'
      · exact Option.some.inj (hc'.symm.trans (h0.trans hc))
    · by_cases hlater : CopiedLater rel
      · exact .inr (exists_layer hlater hc)
      · rw [installedAs_of_copies hlater]
        exact .inl (loopText_copies hl ((copies_or_later hl.libName (hl.isName rel hrel) hdev).resolve_right hlater) hc)

theorem slim_iff {fs' : Fs} (hl : Layout E fs) (h : Laid E fs (runtimeText E fs) fs') :
    Slim E fs' ↔ SlimPlugins E fs := by
  have hlib : E.targetLibName ≠ "bin" ∧ E.targetLibName ≠ "share" := by
    rcases hl.libName with h | h <;> rw [h] <;> decide
  constructor
  · intro hslim rel hrel hpre
    obtain ⟨c, -, hfile⟩ := mem_filesBelow.1 hrel
    obtain ⟨d, hd, t, rfl⟩ : ∃ d ∈ ["plugins", "qml"], ∃ t, rel = "usr" :: d :: t := by
      rcases hpre with ⟨t, rfl⟩ | ⟨t, rfl⟩
      · exact ⟨"plugins", by simp, t, rfl⟩
      · exact ⟨"qml", by simp, t, rfl⟩
    have hlater : d ∈ ["etc", "plugins", "qml"] := List.mem_cons_of_mem _ hd
    simp only [List.mem_cons, List.not_mem_nil, or_false] at hd
    cases t with
    | nil => rcases hd with rfl | rfl <;> decide
    | cons x r =>
      obtain ⟨l, hmem, hc⟩ := exists_layer (E := E) ⟨d, hlater, x, r, rfl⟩ (Fs.content_eq_some.2 hfile)
      have hplace : installedAs E.targetLibName ("usr" :: d :: x :: r) = "usr" :: E.targetLibName :: d :: x :: r := by
        rcases hd with rfl | rfl <;> rfl
      rw [hplace] at hc
      obtain ⟨c', hc'⟩ := Option.ne_none_iff_exists'.1
        (overlaid_ne_none (f := loopText E fs) hmem (hc ▸ Option.some_ne_none c))
      exact hslim (d :: x :: r) c' (by simp) (by rw [h.text]; exact hc')
  · intro hslim s c hs hc
    rw [h.text] at hc
    rcases mem_of_overlaid hc with hloop | ⟨l, hmem, hl'⟩
    · obtain ⟨rel, hcop, hdest⟩ := copies_of_loopText hloop
      exact not_devName_of_copies hl.libName hcop hs hdest
    · simp only [overlays, List.mem_cons, List.not_mem_nil, or_false] at hmem
      rcases hmem with rfl | rfl | rfl | rfl | rfl | rfl
      · exact absurd (eq_of_textLayer hl') (by simp [hlib.1])
      · exact absurd (eq_of_textLayer hl') (by simp)
      · obtain ⟨r, hr⟩ := prefix_of_treeLayer hl'
        exact absurd hr.symm (by simp [hlib.2])
      · obtain ⟨x, r, hq, hfile⟩ := later_of_treeLayer hl'
        obtain rfl : s = "qml" :: x :: r := by simpa using hq
        exact hslim ("usr" :: "qml" :: x :: r) (mem_files_of_content hfile) (.inr ⟨x :: r, rfl⟩)
      · obtain ⟨x, r, hq, hfile⟩ := later_of_treeLayer hl'
        obtain rfl : s = "plugins" :: x :: r := by simpa using hq
        exact hslim ("usr" :: "plugins" :: x :: r) (mem_files_of_content hfile) (.inl ⟨x :: r, rfl⟩)
      · obtain ⟨x, r, hq, -⟩ := later_of_treeLayer hl'
        simp at hq

/-- A library, a plugin and a configuration file. -/
def pluginSdk : World Label := sdkWith
  [(["usr", "lib", "libfoo.so"], "foo"), (["usr", "plugins", "p", "libp.so"], "p"), (["usr", "etc", "foo.conf"], "conf")]

theorem pluginSdk_site : RuntimeSite lib64Config pluginSdk.fs where
  layout := ⟨.inr rfl, ⟨by decide +kernel, by decide +kernel⟩, by decide +kernel⟩
  way q hq := by
    have hall : ∀ q ∈ lib64Config.runtimeDir.inits, pluginSdk.fs.get q = none ∨ pluginSdk.fs.get q = some .dir := by
      decide +kernel
    exact hall q ((List.mem_inits _ _).2 hq)
  fonts := ⟨by decide +kernel, by decide +kernel⟩
  sysroot := ⟨by decide +kernel, by decide +kernel⟩
  noSysroot := by decide +kernel

/-- A file for the linker among the plugins. -/
def prlSdk : World Label := sdkWith [(["usr", "plugins", "p", "libp.prl"], "prl")]

end complete

end BuildQt5
