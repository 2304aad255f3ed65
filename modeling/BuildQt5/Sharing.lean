import BuildQt5.Integrity

/-!
# Two builds on one DOWNLOAD_DIR

Two builds download and unpack the same archive, in any order of their commands. Nothing keeps the second
build from replacing or removing the archive after the first one has verified it (`spoiled_archive`). It is
the only way they can spoil each other's work: as long as neither happens from the start of a verification
to the extraction, what is unpacked is what was verified (`shared_archive`), whatever else the second build
does in between.
-/

namespace BuildQt5
open Shell

section pair
variable {T : Tools} {E E' : Env} {net net' : Net} {list list' m m' : String}

/-- The right build does not get to remove or to replace the archive while the left one holds it. -/
def Considerate (E : Config) (list m : String) (s : Pair Label Unit Unit) : Prop :=
  holding (digestOf list m) s.leftLog = true → ∀ c k, s.right = .cmd c k →
    c ≠ .rmF (archiveFile E m) ∧ ∀ src, c ≠ .mv src (archiveFile E m)

/-- `c` removes or replaces the file, or leaves it alone. -/
def Handles (file : Path) (c : Cmd Label) : Prop := c = .rmF file ∨ (∃ src, c = .mv src file) ∨ c.Off file

theorem handles_downloadModule :
    (downloadModule T E.toConfig net list m).All (Handles (archiveFile E.toConfig m)) fun _ => True := by
  have hdir : Handles (archiveFile E.toConfig m) (.mkdirP (qtDownloads E.toConfig)) := by
    refine .inr (.inr fun h => ?_)
    have := h.length_le
    simp [archiveFile] at this
  refine Prog.All.bind (all_printLog_of fun _ _ => trivial) fun _ => Prog.All.bind (Prog.all_run_.2 hdir) fun _ => ?_
  refine Prog.All.bind ?_ fun _ => Prog.All.bind (all_orError_of fun _ _ => trivial) fun _ => ?_
  · refine (all_fetchDownload_cmds (fun _ _ => trivial) fun _ _ _ => trivial).mono (fun c hc => ?_) fun _ h => h
    simp only [fetchCmds, List.mem_cons, List.not_mem_nil, or_false] at hc
    rcases hc with rfl | rfl | rfl | rfl
    · exact hdir
    · refine .inr (.inr fun r hr => ?_)
      rw [List.mem_singleton.1 hr]
      refine Apart.child fun h => ?_
      have := congrArg String.length h
      simp [archiveName, String.length_append] at this
    · exact .inr (.inl ⟨_, rfl⟩)
    · exact .inl rfl
  · refine Prog.All.bind (all_printLog_of fun _ _ => trivial) fun _ => Prog.All.bind (Prog.all_note.2 trivial) fun _ => ?_
    refine Prog.All.bind (Prog.all_world.2 trivial) fun w => Prog.All.bind (Prog.all_run.2 (.inr (.inr ?_))) fun _ =>
      all_orError_of fun _ _ => trivial
    intro r hr
    rw [List.mem_singleton.1 hr]
    exact apart_qtSrc

/-- A step of a build that handles the file leaves it alone, or is the end of an `rm -f` or `mv -f`. -/
theorem content_of_step {file : Path} {q q' : Script Unit} {v v' : World Label}
    (hq : q.All (Handles file) fun _ => True) (hs : Step T Alone (q, v) (q', v'))
    (hne : ∀ c k, q = .cmd c k → c ≠ .rmF file ∧ ∀ src, c ≠ .mv src file) :
    v'.fs.content file = v.fs.content file := by
  have hoff : ∀ c k, q = .cmd c k → c.Off file := by
    rintro c k rfl
    rcases hq.1 with h | ⟨src, h⟩ | h
    · exact absurd h (hne c k rfl).1
    · exact absurd h ((hne c k rfl).2 src)
    · exact h
  cases hs with
  | look => rfl
  | mark => rfl
  | mid hm => exact (Framed.mid (M := fun _ => True) (hoff _ _ rfl) hm).content
  | fin hf => exact (Framed.fin (M := fun _ => True) (hoff _ _ rfl) hf).content
  | other h => exact h.elim

/-- What the right build may do to the left one. -/
def Meanwhile (E : Config) (list m : String) (v v' : World Label) : Prop :=
  v'.log = v.log ∧ (holding (digestOf list m) v.log = true →
    v'.fs.content (archiveFile E m) = v.fs.content (archiveFile E m))

/-- In every interleaving in which the other build neither removes nor replaces the archive from the start
of a verification to the extraction, this build has the archive, with its digest, when it comes to unpack
it, and unpacks it with that digest. -/
theorem shared_archive {s s' : Pair Label Unit Unit} (hleft : s.left = downloadModule T E.toConfig net list m)
    (hright : s.right = downloadModule T E'.toConfig net' list' m')
    (hfile : archiveFile E'.toConfig m' = archiveFile E.toConfig m) (hnum : digestOf list m ≠ "")
    (hnet : E.noNetwork = false) (hrun : Pair.Reach T (Considerate E.toConfig list m) s s') :
    (∀ evs, s'.leftLog = .mark (.extract m) :: (evs ++ s.leftLog) → Good T E.toConfig list m s'.fs) ∧
    ∀ evs pre a c l, s'.leftLog = evs ++ s.leftLog → evs = pre ++ .unpacked a c :: .mark (.extract m) :: l →
      Meant E.toConfig m a → T.md5 c = digestOf list m := by
  have hspares : Spares E.toConfig list m (Meanwhile E.toConfig list m) :=
    ⟨fun _ _ h => h.1, fun _ _ h => h.2, fun h => by rw [hnet] at h; cases h⟩
  have hmine : Reach T (Meanwhile E.toConfig list m) (s.left, ⟨s.fs, s.leftLog⟩) (s'.left, ⟨s'.fs, s'.leftLog⟩) := by
    refine (Pair.reach_left (K := Prog.All (Handles (archiveFile E.toConfig m)) fun _ => True)
      (fun _ _ h hs => h.step hs) (fun s hG q w hK hs => ⟨rfl, fun hh => ?_⟩) ?_ hrun).1
    · rw [hright, ← hfile]; exact handles_downloadModule
    · have hsame := content_of_step hK hs (hG hh)
      exact hsame
  have hidle : Idle T E.toConfig list s.leftLog ⟨s.fs, s.leftLog⟩ := ⟨[], rfl, by simp [Past], by simp⟩
  rw [hleft] at hmine
  obtain ⟨evs', hl, hpast, hnow⟩ := ((triple_downloadModule hspares _ hidle).reach hmine).inv
  refine ⟨fun evs hevs => ?_, fun evs pre a c l hevs hext hm => ?_⟩
  · have heq : evs' ++ s.leftLog = (.mark (.extract m) :: evs) ++ s.leftLog := hl.symm.trans hevs
    exact hnow m evs (List.append_cancel_right heq) hnum hnet
  · obtain rfl : evs' = evs := List.append_cancel_right (hl.symm.trans hevs)
    exact hpast pre a c m l hext hm hnum

end pair

/-- Another platform, which shares the download directory. -/
def linuxEnv : Env :=
  ⟨{ Config.unset ["qt"] "qt5-linux" with
      buildListTxt := "qtbase"
      qtDownloadUrlPre := "https://download.qt.io"
      qtDownloadUrlPost := "-src.tar.xz" },
    unset_apart ["qt"] "qt5-linux"⟩

/-- Both builds have set up their directories. -/
def sharedFs : Fs :=
  ((Fs.empty.mkdirP ["qt", "downloads", "qt5"]).mkdirP ["qt", "build", "qt5-android-ndk-ivi", "qt5", "src"]).mkdirP
    ["qt", "build", "qt5-linux", "qt5", "src"]

def qtbaseFile : Path := ["qt", "downloads", "qt5", "qtbase-src.tar.xz"]

def qtbaseCache : Path := ["qt", "downloads", "qt5", "qtbase-src.tar.xz.download_cache"]

/-- Both builds are about to download the module. -/
def sharedStart : Pair Label Unit Unit :=
  ⟨downloadModule Tools.sample qtbaseEnv.toConfig Net.none "good  qtbase-src.tar.xz" "qtbase", [],
    downloadModule Tools.sample linuxEnv.toConfig Net.none "good  qtbase-src.tar.xz" "qtbase", [], sharedFs⟩

/-- The download of one build: two directories, `wget`, `mv`. -/
def goodDownload : List Choice := [.done 0, .done 0, .did 0 (sharedFs.write qtbaseCache "good"), .done 0]

/-- One build downloads and verifies the archive while the other one has not begun. -/
theorem shared_archive_qtbase : ∃ s' : Pair Label Unit Unit,
    Pair.Reach Tools.sample (Considerate qtbaseEnv.toConfig "good  qtbase-src.tar.xz" "qtbase") sharedStart s' ∧
    s'.leftLog.head? = some (.mark (.extract "qtbase")) ∧
    Good Tools.sample qtbaseEnv.toConfig "good  qtbase-src.tar.xz" "qtbase" s'.fs := by
  have hrun : execAny Tools.sample goodDownload sharedStart.left ⟨sharedFs, []⟩
      (fun _ w => w.log.head? = some (.mark (.extract "qtbase"))) = true := by decide
  obtain ⟨p, w, hr, hw⟩ := reach_of_execAny hrun
  have hhead : w.log.head? = some (.mark (.extract "qtbase")) := of_decide_eq_true hw
  obtain ⟨l, hl⟩ : ∃ l, w.log = .mark (.extract "qtbase") :: l := by
    cases hlog : w.log with
    | nil => rw [hlog] at hhead; cases hhead
    | cons e l => rw [hlog] at hhead; exact ⟨l, by cases hhead; rfl⟩
  have hreach := Pair.reach_of_left (G := Considerate qtbaseEnv.toConfig "good  qtbase-src.tar.xz" "qtbase")
    (s := sharedStart) hr
  refine ⟨_, hreach, hhead, ?_⟩
  exact (shared_archive rfl rfl (by decide) (by decide) rfl hreach).1 l (by rw [hl]; simp [sharedStart])

/-- The second build finds no archive; the first one downloads a good archive and verifies it; the second
one is delivered a bad one, puts it in place, and the first one unpacks it. -/
theorem spoiled_archive : ∃ s' : Pair Label Unit Unit,
    Pair.Reach Tools.sample (fun _ => True) sharedStart s' ∧
    .mark (.verified qtbaseFile .md5 "good") ∈ s'.leftLog ∧
    .unpacked qtbaseFile "bad" ∈ s'.leftLog ∧ Tools.sample.md5 "bad" ≠ "good" := by
  have hrun : execAny Tools.sample [.done 0, .done 0] sharedStart.right ⟨sharedFs, []⟩ (fun q₁ v₁ =>
      execAny Tools.sample goodDownload sharedStart.left ⟨v₁.fs, []⟩ fun p₂ v₂ =>
        execAny Tools.sample [.did 0 ((sharedFs.write qtbaseFile "good").write qtbaseCache "bad"), .done 0] q₁
          ⟨v₂.fs, v₁.log⟩ fun _ v₃ =>
          execAny Tools.sample [.done 0] p₂ ⟨v₃.fs, v₂.log⟩ fun _ v₄ =>
            decide (.mark (.verified qtbaseFile .md5 "good") ∈ v₄.log ∧ .unpacked qtbaseFile "bad" ∈ v₄.log)) =
      true := by decide
  obtain ⟨q₁, v₁, h₁, hrun⟩ := reach_of_execAny hrun
  obtain ⟨p₂, v₂, h₂, hrun⟩ := reach_of_execAny hrun
  obtain ⟨q₃, v₃, h₃, hrun⟩ := reach_of_execAny hrun
  obtain ⟨p₄, v₄, h₄, hrun⟩ := reach_of_execAny hrun
  have hlog := of_decide_eq_true hrun
  refine ⟨⟨p₄, v₄.log, q₃, v₃.log, v₄.fs⟩, ?_, hlog.1, hlog.2, by decide⟩
  have s₁ := Pair.reach_of_right (s := sharedStart) (fun _ => trivial) h₁
  have s₂ := s₁.trans (Pair.reach_of_left h₂)
  have s₃ := s₂.trans (Pair.reach_of_right (fun _ => trivial) h₃)
  exact s₃.trans (Pair.reach_of_left h₄)

end BuildQt5
