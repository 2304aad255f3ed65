import BuildQt5.Scripts.Platforms

/-!
# The stamps of the stages

A stage is passed over when its directory is there and its `lock` is not. `Intact` is what that should
mean: the last body that was started ended, and nothing of what it left was removed. Over a history of
invocations, each of which may be killed at any point, the stamp means that (`Sound`) as long as no
invocation is killed between the making of a stage's directory and the writing of its lock (`Pending`),
and no `clean` stops after it has taken something, but not the directory, from a stage without lock
(`Torn`).
-/

namespace BuildQt5
open Shell Relation
open Prog (world run run_ note ifThen forEach)

abbrev Log := List (Event Label)

variable {T : Tools} {E : Env} {s s' : Stage} {w w' : World Label} {log : Log}

/-- The last body started for `s` ended, and nothing below its directory but the lock was removed
since. -/
def Intact (E : Env) (s : Stage) (log : Log) : Prop :=
  ∃ a b, log = a ++ .mark (.ended s) :: b ∧ .mark (.started s) ∉ a ∧
    ∀ r, .removed r ∈ a → E.stageDir s <+: r → r = E.lock s

/-- Whenever `s` was passed over, it was intact. -/
def Skips (E : Env) (s : Stage) (log : Log) : Prop :=
  ∀ fs l, .mark (.skipped s fs) :: l <:+ log → Intact E s l

/-- The directory of `s` was made, and its lock not written since: of the two events the making is the
newer. -/
def Pending (E : Env) (s : Stage) (log : Log) : Prop :=
  log.find? (fun e => e = .made (E.stageDir s) ∨ e = .wrote (E.lock s)) = some (.made (E.stageDir s))

instance : Decidable (Pending E s log) := inferInstanceAs (Decidable (_ = _))

/-- Between `w` and `w'` something of `s` was removed, and what is left counts as done. -/
def Torn (E : Env) (s : Stage) (w w' : World Label) : Prop :=
  stamped E.toConfig w'.fs s = true ∧
    ∃ evs, w'.log = evs ++ w.log ∧ ∃ r, .removed r ∈ evs ∧ E.stageDir s <+: r

/-! ### Logs -/

def NotOf (s : Stage) (m : Label) : Prop := m.stage ≠ some s

theorem Intact.append {evs : Log} (h : Intact E s log) (hs : .mark (.started s) ∉ evs)
    (hr : ∀ r, .removed r ∈ evs → ¬ E.stageDir s <+: r) : Intact E s (evs ++ log) := by
  obtain ⟨a, b, rfl, hs', hr'⟩ := h
  refine ⟨evs ++ a, b, by simp, fun hm => ?_, fun r hm hpre => ?_⟩
  · rcases List.mem_append.1 hm with hm | hm
    · exact hs hm
    · exact hs' hm
  · rcases List.mem_append.1 hm with hm | hm
    · exact absurd hpre (hr r hm)
    · exact hr' r hm hpre

theorem Pending.append {evs : Log} (h : Pending E s log) (he : .wrote (E.lock s) ∉ evs) :
    Pending E s (evs ++ log) := by
  unfold Pending at h ⊢
  rw [List.find?_append]
  cases hf : evs.find? (fun e => e = .made (E.stageDir s) ∨ e = .wrote (E.lock s)) with
  | none => exact h
  | some e =>
    have he' : e = .made (E.stageDir s) ∨ e = .wrote (E.lock s) := by simpa using List.find?_some hf
    rcases he' with rfl | rfl
    · rfl
    · exact absurd (List.mem_of_find?_eq_some hf) he

theorem suffix_of_cons {e : Event Label} {fs : Fs} {l : Log} (he : ∀ fs, e ≠ .mark (.skipped s fs))
    (h : .mark (.skipped s fs) :: l <:+ e :: log) : .mark (.skipped s fs) :: l <:+ log := by
  rcases List.suffix_cons_iff.1 h with h | h
  · exact absurd (List.cons.inj h).1.symm (he fs)
  · exact h

theorem suffix_of_append {evs : Log} {fs : Fs} {l : Log} (he : ∀ e ∈ evs, ∀ fs, e ≠ .mark (.skipped s fs))
    (h : .mark (.skipped s fs) :: l <:+ evs ++ log) : .mark (.skipped s fs) :: l <:+ log := by
  induction evs with
  | nil => exact h
  | cons e evs ih => exact ih (fun x hx => he x (by simp [hx])) (suffix_of_cons (he e (by simp)) h)

theorem Skips.cons {e : Event Label} (h : Skips E s log) (he : ∀ fs, e ≠ .mark (.skipped s fs)) :
    Skips E s (e :: log) := fun fs l hl => h fs l (suffix_of_cons he hl)

theorem Skips.append {evs : Log} (h : Skips E s log)
    (he : ∀ e ∈ evs, ∀ fs, e ≠ .mark (.skipped s fs)) : Skips E s (evs ++ log) := fun fs l hl =>
  h fs l (suffix_of_append he hl)

theorem Skips.skipped {fs : Fs} (h : Skips E s log) (hi : Intact E s log) :
    Skips E s (.mark (.skipped s fs) :: log) := by
  intro fs' l hl
  rcases List.suffix_cons_iff.1 hl with hl | hl
  · rw [(List.cons.inj hl).2]; exact hi
  · exact h fs' l hl

theorem ne_skipped_of_off {e : Event Label} {q : Path} (h : e.Off q (NotOf s)) (fs : Fs) :
    e ≠ .mark (.skipped s fs) := by
  rintro rfl; exact h rfl

/-! ### The invariant -/

/-- The stamp of `s` is sound. -/
structure StampInv (E : Env) (s : Stage) (w : World Label) : Prop where
  clear : ∀ q, q <+: E.stageDir s → w.fs.get q = none ∨ w.fs.get q = some .dir
  lockFree : w.fs.get (E.lock s) ≠ some .dir
  stamp : stamped E.toConfig w.fs s = true → Intact E s w.log

structure Sound (E : Env) (s : Stage) (w : World Label) : Prop extends StampInv E s w where
  skips : Skips E s w.log

/-- What holds at every point: the stamp is sound, or its directory has just been made. -/
def Crash (E : Env) (s : Stage) (w : World Label) : Prop :=
  Skips E s w.log ∧ (StampInv E s w ∨ Pending E s w.log)

theorem Sound.crash (h : Sound E s w) : Crash E s w := ⟨h.skips, .inl h.toStampInv⟩

theorem stamped_iff {fs : Fs} : stamped E.toConfig fs s = true ↔
    fs.get (E.stageDir s) = some .dir ∧ fs.isFile (E.lock s) = false := by
  simp [stamped, Fs.isDir]

theorem Sound.framed (h : Sound E s w) (hf : Framed (E.stageDir s) (NotOf s) w w') : Sound E s w' := by
  obtain ⟨evs, hl, he⟩ := hf.log
  have hlock := hf.same _ (Env.stageDir_lock (E := E) (s := s))
  refine ⟨⟨fun q hq => ?_, ?_, fun hst => ?_⟩, ?_⟩
  · rcases hf.above q hq with h0 | h0
    · rw [h0]; exact h.clear q hq
    · exact .inr h0.2
  · rw [hlock]; exact h.lockFree
  · rw [hl]
    refine (h.stamp ?_).append (fun hm => he _ hm rfl) fun r hm => he _ hm
    rw [stamped_iff, hf.same _ (List.prefix_refl _), Fs.isFile, hlock] at hst
    exact stamped_iff.2 hst
  · rw [hl]; exact h.skips.append fun e hm => ne_skipped_of_off (he e hm)

/-- `p` keeps the stamp of `s` sound, and nothing worse than a pending stamp is seen on the way. -/
def Keeps (T : Tools) (E : Env) (s : Stage) (p : Script Unit) : Prop :=
  ∀ w, Sound E s w → Safe T Alone (Crash E s) (fun _ => Sound E s) (fun _ => Sound E s) p w

theorem Keeps.bind {p : Script Unit} {f : Unit → Script Unit} (hp : Keeps T E s p)
    (hf : Keeps T E s (f ())) : Keeps T E s (p >>= f) :=
  fun w hw => safe_bind ((hp w hw).mono (fun _ h => h) (fun _ v h => hf v h) fun _ _ h => h)

/-- A program that works elsewhere keeps the stamp. -/
theorem Keeps.of_all {A : Area} {p : Script Unit} (hp : p.All (Cmd.Within A) (NotOf s))
    (hA : A.Off (E.stageDir s)) : Keeps T E s p :=
  fun _ hw => (safe_frame hp hA).mono (fun _ h => (hw.framed h).crash) (fun _ _ h => hw.framed h)
    fun _ _ h => hw.framed h.2

theorem notOf_of_none {m : Label} (h : m.stage = none) : NotOf s m := by simp [NotOf, h]

theorem notOf_of_or {m : Label} (hs : s ≠ s') (h : m.stage = none ∨ m.stage = some s) : NotOf s' m := by
  rcases h with h | h
  · exact notOf_of_none h
  · simpa [NotOf, h] using hs

/-! ### A stage with its stamp set -/

/-- The lock is there. -/
structure Locked (E : Env) (s : Stage) (w : World Label) : Prop where
  clear : ∀ q, q <+: E.stageDir s → w.fs.get q = none ∨ w.fs.get q = some .dir
  lock : w.fs.isFile (E.lock s) = true
  skips : Skips E s w.log

theorem Locked.sound (h : Locked E s w) : Sound E s w := by
  obtain ⟨c, hc⟩ := Fs.isFile_iff.1 h.lock
  refine ⟨⟨h.clear, by simp [hc], fun hst => ?_⟩, h.skips⟩
  rw [stamped_iff, h.lock] at hst
  exact absurd hst.2 (by simp)

theorem Locked.framed {M : Label → Prop} (h : Locked E s w) (hM : ∀ fs, ¬ M (.skipped s fs))
    (hf : Framed (E.lock s) M w w') : Locked E s w' := by
  obtain ⟨evs, hl, he⟩ := hf.log
  refine ⟨fun q hq => ?_, ?_, ?_⟩
  · rcases hf.above q (hq.trans Env.stageDir_lock) with h0 | h0
    · rw [h0]; exact h.clear q hq
    · exact .inr h0.2
  · rw [Fs.isFile, hf.same _ (List.prefix_refl _)]; exact h.lock
  · rw [hl]
    refine h.skips.append fun e hm fs hfs => ?_
    have := he e hm
    rw [hfs] at this
    exact hM fs this

/-- The labels of a body and its start. -/
def BodyLabel (s : Stage) (m : Label) : Prop := m.stage = none ∨ m = .started s

theorem safe_locked {α : Type} {p : Script α} (hp : p.All (Cmd.Within (E.bodyArea s)) (BodyLabel s))
    (hw : Locked E s w) :
    Safe T Alone (Crash E s) (fun _ => Locked E s) (fun _ => Sound E s) p w := by
  have hM : ∀ fs, ¬ BodyLabel s (.skipped s fs) := by
    rintro fs (h | h) <;> cases h
  exact (safe_frame hp Env.bodyArea_off).mono (fun _ h => (hw.framed hM h).sound.crash)
    (fun _ _ h => hw.framed hM h) fun _ _ h => (hw.framed hM h.2).sound

theorem lock_ne_nil : E.lock s ≠ [] := by simp [Config.lock]

theorem lock_ne_of_above {q : Path} (h : q <+: E.stageDir s) : q ≠ E.lock s := by
  rintro rfl
  have := h.length_le
  simp [Config.lock] at this

theorem safe_unlock (hw : Locked E s w) (hi : Intact E s w.log) :
    Safe T Alone (Crash E s) (fun _ => Sound E s) (fun _ => Sound E s) (unlock E.toConfig s) w := by
  refine safe_bind (safe_world.2 ⟨hw.sound.crash, ?_⟩)
  rw [ifThen, if_pos hw.lock]
  have hget : ∀ q, (w.fs.erase (E.lock s)).get q = w.fs.get q ∨
      q = E.lock s ∧ (w.fs.erase (E.lock s)).get q = none := by
    intro q
    rw [Fs.get_erase lock_ne_nil]
    split
    · exact .inr ⟨(‹_ ∧ _›).1, rfl⟩
    · exact .inl rfl
  have hsound : Sound E s ⟨w.fs.erase (E.lock s), .removed (E.lock s) :: w.log⟩ := by
    refine ⟨⟨fun q hq => ?_, ?_, fun _ => ?_⟩, hw.skips.cons (by simp)⟩
    · rcases hget q with h | h
      · show (w.fs.erase (E.lock s)).get q = none ∨ _
        rw [h]; exact hw.clear q hq
      · exact absurd h.1 (lock_ne_of_above hq)
    · rcases hget (E.lock s) with h | h
      · show (w.fs.erase (E.lock s)).get (E.lock s) ≠ _
        rw [h]; exact hw.sound.lockFree
      · simp [h.2]
    · obtain ⟨a, b, hl, hs, hr⟩ := hi
      refine ⟨.removed (E.lock s) :: a, b, by simp [hl], by simp [hs], fun r hm hpre => ?_⟩
      rcases List.mem_cons.1 hm with hm | hm
      · cases hm; rfl
      · exact hr r hm hpre
  rw [safe_rmF, if_pos hw.lock, Cmd.events, if_pos hw.lock]
  exact ⟨hw.sound.crash, hsound.crash, hsound⟩

theorem safe_lockedBody {body : Script Unit}
    (hb : body.All (Cmd.Within (E.bodyArea s)) fun m => m.stage = none) (hw : Locked E s w) :
    Safe T Alone (Crash E s) (fun _ => Sound E s) (fun _ => Sound E s) (lockedBody E.toConfig s body) w := by
  refine safe_bind ((safe_locked (Prog.all_note.2 (.inr rfl)) hw).mono (fun _ h => h) ?_ fun _ _ h => h)
  refine fun _ v hv => safe_bind ((safe_locked (hb.mono (fun _ h => h) fun _ => .inl) hv).mono
    (fun _ h => h) ?_ fun _ _ h => h)
  intro _ v hv
  have hended : Locked E s ⟨v.fs, .mark (.ended s) :: v.log⟩ := ⟨hv.clear, hv.lock, hv.skips.cons (by simp)⟩
  refine safe_bind (safe_note.2 ⟨hv.sound.crash, hended.sound.crash, safe_unlock hended ?_⟩)
  exact ⟨[], v.log, rfl, by simp, by simp⟩

/-! ### Setting the stamp -/

/-- The directory is there, and the stamp sound or pending. -/
structure Made (E : Env) (s : Stage) (w : World Label) : Prop where
  clear : ∀ q, q <+: E.stageDir s → w.fs.get q = none ∨ w.fs.get q = some .dir
  dir : w.fs.get (E.stageDir s) = some .dir
  lockFree : w.fs.get (E.lock s) ≠ some .dir
  stamp : Pending E s w.log ∨ (stamped E.toConfig w.fs s = true → Intact E s w.log)
  skips : Skips E s w.log

theorem Made.crash (h : Made E s w) : Crash E s w := by
  refine ⟨h.skips, ?_⟩
  rcases h.stamp with hp | hp
  · exact .inr hp
  · exact .inl ⟨h.clear, h.lockFree, hp⟩

theorem Sound.made (h : Sound E s w) : Made E s ⟨w.fs.mkdirP (E.stageDir s),
    (Cmd.mkdirP (E.stageDir s)).events w.fs 0 ++ w.log⟩ := by
  have hdir : (w.fs.mkdirP (E.stageDir s)).get (E.stageDir s) = some .dir := Fs.isDir_mkdirP h.clear
  have hlock : (w.fs.mkdirP (E.stageDir s)).get (E.lock s) = w.fs.get (E.lock s) :=
    Fs.get_mkdirP_of_not fun hp => lock_ne_of_above (List.prefix_refl _)
      ((Env.stageDir_lock).eq_of_length_le hp.length_le)
  refine ⟨fun q hq => ?_, hdir, by simpa [hlock] using h.lockFree, ?_, ?_⟩
  · rcases @Fs.get_mkdirP w.fs (E.stageDir s) q with h0 | h0
    · show (w.fs.mkdirP (E.stageDir s)).get q = none ∨ _
      rw [h0]; exact h.clear q hq
    · exact .inr h0.2.1
  · rcases h.clear _ (List.prefix_refl _) with h0 | h0
    · left
      rw [Cmd.events, if_pos ⟨h0, hdir⟩]
      exact List.find?_cons_of_pos (by simp)
    · right
      intro hst
      rw [Cmd.events, if_neg (by simp [h0]), List.nil_append]
      refine h.stamp (stamped_iff.2 ⟨h0, ?_⟩)
      have := (stamped_iff.1 hst).2
      rwa [Fs.isFile, hlock] at this
  · rw [Cmd.events]
    split
    · exact h.skips.cons (by simp)
    · exact h.skips

theorem Made.mkdirP {x : String} (h : Made E s w) (hx : x ≠ "lock") :
    Made E s ⟨w.fs.mkdirP (E.stageDir s ++ [x]),
      (Cmd.mkdirP (E.stageDir s ++ [x])).events w.fs 0 ++ w.log⟩ := by
  have hlock : (w.fs.mkdirP (E.stageDir s ++ [x])).get (E.lock s) = w.fs.get (E.lock s) :=
    Fs.get_mkdirP_of_not (Apart.child hx).2
  have hdir : (w.fs.mkdirP (E.stageDir s ++ [x])).get (E.stageDir s) = some .dir :=
    Fs.get_mkdirP_of_some h.dir
  have hevs : ∀ e ∈ (Cmd.mkdirP (E.stageDir s ++ [x]) : Cmd Label).events w.fs 0,
      e = .made (E.stageDir s ++ [x]) := by
    intro e he
    rw [Cmd.events] at he
    split at he
    · exact List.mem_singleton.1 he
    · simp at he
  refine ⟨fun q hq => ?_, hdir, by simpa [hlock] using h.lockFree, ?_, ?_⟩
  · rcases @Fs.get_mkdirP w.fs (E.stageDir s ++ [x]) q with h0 | h0
    · show (w.fs.mkdirP (E.stageDir s ++ [x])).get q = none ∨ _
      rw [h0]; exact h.clear q hq
    · exact .inr h0.2.1
  · rcases h.stamp with hp | hp
    · exact .inl (hp.append fun hm => by cases hevs _ hm)
    · refine .inr fun hst => (hp (stamped_iff.2 ⟨h.dir, ?_⟩)).append (fun hm => by cases hevs _ hm)
        fun r hm => by cases hevs _ hm
      have := (stamped_iff.1 hst).2
      rwa [Fs.isFile, hlock] at this
  · exact h.skips.append fun e he fs => by rw [hevs e he]; simp

theorem locked_of_dir {n : Nat} (hclear : ∀ q, q <+: E.stageDir s → w.fs.get q = none ∨ w.fs.get q = some .dir)
    (hdir : w.fs.get (E.stageDir s) = some .dir) (hfree : w.fs.get (E.lock s) ≠ some .dir) (hskips : Skips E s w.log) :
    Locked E s ⟨w.fs.write (E.lock s) "1", (Cmd.write (E.lock s) "1").events w.fs n ++ w.log⟩ := by
  refine ⟨fun q hq => ?_, ?_, ?_⟩
  · show (w.fs.write (E.lock s) "1").get q = none ∨ _
    rw [Fs.get_write_of_ne (lock_ne_of_above hq)]
    exact hclear q hq
  · have hd : w.fs.get (E.lock s).dropLast = some .dir := by
      rw [Config.lock, List.dropLast_concat]; exact hdir
    refine Fs.isFile_iff.2 ⟨"1", ?_⟩
    show (w.fs.write (E.lock s) "1").get _ = _
    rw [Fs.get_write, if_pos ⟨rfl, hd, hfree⟩]
  · rw [Cmd.events]
    split
    · exact hskips.cons (by simp)
    · exact hskips

theorem Made.locked {n : Nat} (h : Made E s w) :
    Locked E s ⟨w.fs.write (E.lock s) "1", (Cmd.write (E.lock s) "1").events w.fs n ++ w.log⟩ :=
  locked_of_dir h.clear h.dir h.lockFree h.skips

theorem safe_skip {fs : Fs} (h : Sound E s w) (hst : stamped E.toConfig w.fs s = true) :
    Safe T Alone (Crash E s) (fun _ => Sound E s) (fun _ => Sound E s) (skip s fs) w := by
  have hskip : Sound E s ⟨w.fs, .mark (.skipped s fs) :: w.log⟩ := by
    have hi := h.stamp hst
    refine ⟨⟨h.clear, h.lockFree, fun _ => ?_⟩, h.skips.skipped hi⟩
    have hlog : Intact E s ([.mark (.skipped s fs)] ++ w.log) := hi.append (by simp) (by simp)
    exact hlog
  refine safe_bind (safe_note.2 ⟨h.crash, hskip.crash, ?_⟩)
  have hsay : Sound E s ⟨w.fs, .mark (.say .normal "(ignore)") :: .mark (.skipped s fs) :: w.log⟩ :=
    hskip.framed (.mark (notOf_of_none rfl))
  exact safe_note.2 ⟨hskip.crash, hsay.crash, hsay⟩

/-! ### The steps keep the stamps -/

theorem keeps_printLog {kind : LogKind} {text : String} : Keeps T E s (printLog kind text) :=
  Keeps.of_all (A := ⟨fun _ => False, fun _ => False⟩) (all_printLog fun _ => notOf_of_none)
    ⟨fun _ h => h.elim, fun _ h => h.elim⟩

theorem keeps_note {m : Label} (hm : m.stage = none) : Keeps T E s (note m) := fun w hw => by
  have hn := hw.framed (.mark (notOf_of_none hm))
  exact safe_note.2 ⟨hw.crash, hn.crash, hn⟩

theorem safe_buildDir (h : Sound E s w) : Safe T Alone (Crash E s) (fun _ => Sound E s) (fun _ => Sound E s)
    (run_ (.mkdirP E.buildDir)) w := by
  have hall : (run_ (.mkdirP E.buildDir) : Script Unit).All
      (Cmd.Within ⟨fun _ => False, fun p => p = E.buildDir⟩) (NotOf s) := Prog.all_run_.2 (.inr rfl)
  refine Keeps.of_all hall ⟨fun _ h => h.elim, ?_⟩ w h
  rintro p rfl
  exact Env.not_stageDir_buildDir

/-- The directories `shell_build` makes for a normal step. -/
theorem all_stageDirs {normal : Bool} {M : Label → Prop} : (ifThen normal do
      run_ (.mkdirP (E.stageDir s ++ ["src"]))
      run_ (.mkdirP (E.stageDir s ++ ["work"]))
      run_ (.mkdirP E.hostPrefix)
      run_ (.mkdirP E.targetPrefix)).All (Cmd.Within (E.bodyArea s)) M := by
  have hsdk : ∀ p, E.sdkDir <+: p → (E.bodyArea s).mem p := fun p h => .inl (mem_sdk h)
  refine Prog.all_ifThen fun _ => Prog.All.bind (Prog.all_run_.2 (.inl (mem_bodyArea (by decide)))) fun _ => ?_
  refine Prog.All.bind (Prog.all_run_.2 (.inl (mem_bodyArea (by decide)))) fun _ => ?_
  exact Prog.All.bind (Prog.all_run_.2 (.inl (hsdk _ (List.prefix_append _ _)))) fun _ =>
    Prog.all_run_.2 (.inl (hsdk _ (List.prefix_append _ _)))

theorem safe_shellBuild_own {reset normal : Bool} {body : Option (Script Unit)}
    (hb : ∀ b, body = some b → b.All (Cmd.Within (E.bodyArea s)) fun m => m.stage = none) :
    Keeps T E s (shellBuild E.toConfig reset s normal body) := by
  intro w hw
  refine safe_bind ((safe_buildDir hw).mono (fun _ h => h) ?_ fun _ _ h => h)
  refine fun _ v hv => safe_bind (safe_world.2 ⟨hv.crash, ?_⟩)
  split
  · rename_i hst
    rw [Bool.and_eq_true] at hst
    exact safe_skip hv hst.2
  cases body with
  | none =>
    simp only [shellEnter]
    exact keeps_printLog v hv
  | some b =>
    simp only [shellEnter]
    refine safe_bind (safe_mkdirP.2 ⟨hv.crash, hv.made.crash, ?_⟩)
    refine safe_bind (safe_write hv.made.crash fun n _ => ⟨hv.made.locked.sound.crash, ?_⟩)
    exact safe_bind ((safe_locked all_stageDirs hv.made.locked).mono (fun _ h => h)
      (fun _ v hv => safe_lockedBody (hb b rfl) hv) fun _ _ h => h)

theorem keeps_shellBuild {reset normal : Bool} {body : Option (Script Unit)}
    (hb : ∀ b, body = some b → b.All (Cmd.Within (E.bodyArea s')) fun m => m.stage = none) :
    Keeps T E s (shellBuild E.toConfig reset s' normal body) := by
  by_cases h : s' = s
  · subst h; exact safe_shellBuild_own hb
  · exact Keeps.of_all (all_shellBuild (fun _ => notOf_of_or h) hb) (Env.stepArea_off h)

theorem safe_installCmake_own {net : Net} {reset : Bool} :
    Keeps T E .cmake (installCmake T E.toConfig net reset) := by
  refine Keeps.bind keeps_printLog fun w hw => safe_bind (safe_world.2 ⟨hw.crash, ?_⟩)
  split
  · rename_i hst
    rw [Bool.and_eq_true] at hst
    exact safe_skip hw hst.2
  unfold cmakeEnter
  split
  · exact keeps_printLog w hw
  have h1 := hw.made
  have h2 := h1.mkdirP (x := "src") (by decide)
  have h3 := h2.mkdirP (x := "work") (by decide)
  refine safe_bind (safe_mkdirP.2 ⟨hw.crash, h1.crash, ?_⟩)
  refine safe_bind (safe_mkdirP.2 ⟨h1.crash, h2.crash, ?_⟩)
  refine safe_bind (safe_mkdirP.2 ⟨h2.crash, h3.crash, ?_⟩)
  refine safe_bind (safe_write h3.crash fun n _ => ⟨h3.locked.sound.crash, ?_⟩)
  exact safe_lockedBody (all_cmakeBody fun _ h => h) h3.locked

theorem keeps_installCmake {net : Net} {reset : Bool} : Keeps T E s (installCmake T E.toConfig net reset) := by
  by_cases h : Stage.cmake = s
  · subst h; exact safe_installCmake_own
  · exact Keeps.of_all (all_installCmake fun _ => notOf_of_or h) (Env.stepArea_off h)

theorem stepArea_of_body {p : Script Unit} {M : Label → Prop} (h : p.All (Cmd.Within (E.bodyArea s)) M) :
    p.All (Cmd.Within (E.stepArea s)) M := h.mono (fun _ => Env.within_stepArea) fun _ h => h

variable {net : Net} {reset : Bool} {P : Platform E}

theorem keeps_doToolchain : Keeps T E s (doToolchain E.toConfig reset (P.scripts net)) :=
  keeps_printLog.bind (keeps_shellBuild (P.proper net _))

theorem keeps_doVendor : Keeps T E s (doVendor E.toConfig reset (P.scripts net)) :=
  keeps_printLog.bind (keeps_shellBuild (P.proper net _))

section notQt5
variable (hs : s ≠ .qt5)
include hs

theorem keeps_elsewhere {p : Script Unit} (hp : p.All (Cmd.Within (E.stepArea .qt5)) (NotOf s)) :
    Keeps T E s p := Keeps.of_all hp (Env.stepArea_off (Ne.symm hs))

theorem keeps_doThirdparty : Keeps T E s (doThirdparty T E.toConfig net reset (P.scripts net)) :=
  keeps_printLog.bind ((keeps_elsewhere hs (all_installPkgconfig (fun _ => notOf_of_none) fun _ => .inl)).bind
    (keeps_installCmake.bind (keeps_shellBuild (P.proper net _))))

theorem keeps_invokeFetch : Keeps T E s (invokeFetch T E.toConfig net reset) :=
  keeps_printLog.bind (keeps_elsewhere hs (all_doFetch fun _ => notOf_of_or (Ne.symm hs)))

theorem keeps_invokeConfigure : Keeps T E s (invokeConfigure E.toConfig) :=
  keeps_printLog.bind (keeps_elsewhere hs (stepArea_of_body (all_doConfigure fun _ => notOf_of_none)))

theorem keeps_invokeCompile : Keeps T E s (invokeCompile E.toConfig reset) :=
  keeps_printLog.bind (keeps_elsewhere hs (stepArea_of_body (all_doCompile fun _ => notOf_of_none)))

theorem keeps_invokeDeploy : Keeps T E s (invokeDeploy T E.toConfig) :=
  keeps_printLog.bind (keeps_elsewhere hs (stepArea_of_body (all_doDeploy fun _ => notOf_of_none)))

theorem keeps_main {t : BuildType} (ht : t ≠ .clean ∧ t ≠ .cleanall) :
    Keeps T E s (main T E.toConfig net (P.scripts net) t) := by
  refine (keeps_note rfl).bind (Keeps.bind ?_ (keeps_printLog.bind fun w hw => safe_exit.2 ⟨hw.crash, hw⟩))
  cases t with
  | all =>
    exact keeps_doToolchain.bind ((keeps_doThirdparty hs).bind ((keeps_invokeFetch hs).bind
      ((keeps_invokeConfigure hs).bind ((keeps_invokeCompile hs).bind
        (keeps_doVendor.bind (keeps_invokeDeploy hs))))))
  | toolchain => exact keeps_doToolchain
  | thirdparty => exact keeps_doThirdparty hs
  | fetch => exact keeps_invokeFetch hs
  | configure => exact keeps_invokeConfigure hs
  | compile => exact keeps_invokeCompile hs
  | vendor => exact keeps_doVendor
  | deploy => exact keeps_invokeDeploy hs
  | clean => exact absurd rfl ht.1
  | cleanall => exact absurd rfl ht.2

end notQt5

/-! ### clean and cleanall -/

/-- `clean` and `cleanall` make `BUILD_DIR` and otherwise only remove. -/
theorem all_clean {t : BuildType} (ht : t = .clean ∨ t = .cleanall) : (dispatch T E.toConfig net (P.scripts net) t).All
    (fun c => c.Off (E.stageDir s) ∨ ∃ ps, c = .rmRf ps) (NotOf s) := by
  open Prog in
  have hM : ∀ m : Label, m.stage = none → NotOf s m := fun _ => notOf_of_none
  rcases ht with rfl | rfl
  · refine All.bind (all_run_.2 (.inl Env.not_stageDir_buildDir)) fun _ => All.bind (all_printLog hM) fun _ => ?_
    refine All.bind (all_world.2 trivial) fun w => all_forEach fun name _ => all_ite (fun _ => trivial) fun _ => ?_
    exact All.bind (all_printLog hM) fun _ => All.bind (all_run.2 (.inr ⟨_, rfl⟩)) fun _ => all_orError hM
  · refine All.bind (all_run_.2 (.inl Env.not_stageDir_buildDir)) fun _ => All.bind (all_printLog hM) fun _ => ?_
    exact All.bind (all_world.2 trivial) fun w => all_run_.2 (.inr ⟨_, rfl⟩)

theorem safe_clean {t : BuildType} (ht : t = .clean ∨ t = .cleanall) :
    Safe T Alone (Thinned (E.stageDir s) (NotOf s) w) (fun _ _ => True) (fun _ => Thinned (E.stageDir s) (NotOf s) w)
      (main T E.toConfig net (P.scripts net) t) w := by
  have hmark : ∀ v m, Thinned (E.stageDir s) (NotOf s) w v → m.stage = none →
      Thinned (E.stageDir s) (NotOf s) w ⟨v.fs, .mark m :: v.log⟩ := fun v m h hm =>
    h.trans (Framed.mark (notOf_of_none hm)).thinned
  have h0 := hmark w (.invoked t) Framed.refl.thinned rfl
  refine safe_bind (safe_note.2 ⟨Framed.refl.thinned, h0, safe_bind ?_⟩)
  refine ((safe_thin (all_clean ht)).mono (fun _ h => h0.trans h) (fun _ v h => ?_) fun _ _ h => h0.trans h.2)
  have h1 := h0.trans h
  have h2 := hmark v (.say .function (upper "all finished")) h1 rfl
  exact safe_bind (safe_note.2 ⟨h1, h2, safe_exit.2 ⟨h2, h2⟩⟩)

theorem Skips.thinned (h : Skips E s w.log) (ht : Thinned (E.stageDir s) (NotOf s) w w') :
    Skips E s w'.log := by
  obtain ⟨evs, hl, -, he⟩ := ht.log
  rw [hl]
  refine h.append fun e hm fs => ?_
  rcases he e hm with he | ⟨r, rfl⟩
  · exact ne_skipped_of_off he fs
  · simp

theorem Sound.thinned (h : Sound E s w) (ht : Thinned (E.stageDir s) (NotOf s) w w') (hn : ¬ Torn E s w w') :
    Sound E s w' := by
  obtain ⟨evs, hl, hg, he⟩ := ht.log
  refine ⟨⟨fun q hq => ?_, ?_, fun hst => ?_⟩, h.skips.thinned ht⟩
  · rcases ht.above q hq with h0 | h0
    · rw [h0]; exact h.clear q hq
    · exact h0
  · rcases hg _ Env.stageDir_lock with h0 | h0
    · rw [h0]; exact h.lockFree
    · simp [h0.1]
  · have hno : ∀ r, .removed r ∈ evs → ¬ E.stageDir s <+: r := fun r hr hpre =>
      hn ⟨hst, evs, hl, r, hr, hpre⟩
    have hsame : ∀ r, E.stageDir s <+: r → w'.fs.get r = w.fs.get r := by
      intro r hr
      rcases hg r hr with h0 | h0
      · exact h0
      · exact absurd hr (hno r h0.2)
    rw [stamped_iff, hsame _ (List.prefix_refl _), Fs.isFile, hsame _ Env.stageDir_lock] at hst
    rw [hl]
    refine (h.stamp (stamped_iff.2 hst)).append (fun hm => ?_) hno
    rcases he _ hm with h0 | ⟨r, h0⟩
    · exact h0 rfl
    · cases h0

/-! ### Histories -/

/-- The invocation `build-qt5.sh platform t` at `w` is at `w'` with `p` still to do. -/
def Invoked (T : Tools) (P : Platform E) (t : BuildType) (w : World Label) (p : Script Unit)
    (w' : World Label) : Prop :=
  ∃ net, Reach T Alone (main T E.toConfig net (P.scripts net) t, w) (p, w')

/-- No directory of a stage is there, and no file in the place of one above. -/
structure Fresh (E : Env) (w : World Label) : Prop where
  log : w.log = []
  clear : ∀ s q, q <+: E.stageDir s → w.fs.get q = none ∨ w.fs.get q = some .dir
  absent : ∀ s, w.fs.get (E.stageDir s) = none

theorem Fresh.sound (h : Fresh E w) : Sound E s w := by
  refine ⟨⟨h.clear s, ?_, fun hst => ?_⟩, fun fs l hl => ?_⟩
  · rw [Fs.get_eq_none_below (h.absent s) Env.stageDir_lock]; simp
  · rw [stamped_iff, h.absent s] at hst; cases hst.1
  · rw [h.log] at hl; cases List.suffix_nil.1 hl

/-- One invocation of a history, stopped anywhere but where a stamp is pending or a stage torn. -/
def StampedRun (T : Tools) (P : Platform E) (w w' : World Label) : Prop :=
  ∃ t p, Invoked T P t w p w' ∧ ∀ s, s ≠ .qt5 → ¬ Pending E s w'.log ∧
    (t = .clean ∨ t = .cleanall → ¬ Torn E s w w')

theorem Sound.skips_invoked {t : BuildType} {p : Script Unit} (h : Sound E s w) (hs : s ≠ .qt5)
    (hr : Invoked T P t w p w') : Skips E s w'.log := by
  obtain ⟨net, hr⟩ := hr
  by_cases ht : t = .clean ∨ t = .cleanall
  · exact h.skips.thinned ((safe_clean ht).reach hr).inv
  · rw [not_or] at ht
    exact ((keeps_main hs ht w h).reach hr).inv.1

theorem StampedRun.sound (h : Sound E s w) (hs : s ≠ .qt5) (hr : StampedRun T P w w') : Sound E s w' := by
  obtain ⟨t, p, ⟨net, hr⟩, hcut⟩ := hr
  obtain ⟨hpend, htorn⟩ := hcut s hs
  by_cases ht : t = .clean ∨ t = .cleanall
  · exact h.thinned ((safe_clean ht).reach hr).inv (htorn ht)
  · rw [not_or] at ht
    obtain ⟨hsk, hst⟩ := ((keeps_main hs ht w h).reach hr).inv
    rcases hst with hst | hst
    · exact ⟨hst, hsk⟩
    · exact absurd hst hpend

theorem history_sound {w₀ : World Label} (hw₀ : Fresh E w₀) (hist : ReflTransGen (StampedRun T P) w₀ w)
    (hs : s ≠ .qt5) : Sound E s w := by
  induction hist with
  | refl => exact hw₀.sound
  | tail _ hr ih => exact hr.sound ih hs

/-- The newest event of passing over a stage, and the log before it. -/
def newestSkip : Log → Option (Stage × Fs × Log)
  | .mark (.skipped s fs) :: log => some (s, fs, log)
  | _ :: log => newestSkip log
  | [] => none

theorem suffix_of_newestSkip {fs : Fs} {l : Log} (h : newestSkip log = some (s, fs, l)) :
    .mark (.skipped s fs) :: l <:+ log := by
  induction log with
  | nil => cases h
  | cons e log ih =>
    by_cases he : ∃ s' fs', e = .mark (.skipped s' fs')
    · obtain ⟨s', fs', rfl⟩ := he
      cases h
      exact List.suffix_refl _
    · have hn : newestSkip (e :: log) = newestSkip log := by
        rw [newestSkip]
        rintro s' fs' rfl
        exact he ⟨s', fs', rfl⟩
      rw [hn] at h
      exact (ih h).trans (List.suffix_cons _ _)

theorem fresh_of_check {fs : Fs} (h : ∀ s ∈ [Stage.toolchain, .cmake, .thirdparty, .qt5, .vendor],
    fs.get (E.stageDir s) = none ∧
      ∀ q ∈ (E.stageDir s).inits, fs.get q = none ∨ fs.get q = some .dir) : Fresh E ⟨fs, []⟩ := by
  have hs : ∀ s, s ∈ [Stage.toolchain, .cmake, .thirdparty, .qt5, .vendor] := fun s => by cases s <;> decide
  exact ⟨rfl, fun s q hq => (h s (hs s)).2 q ((List.mem_inits _ _).2 hq), fun s => (h s (hs s)).1⟩

/-- The package of the toolchain is there already. -/
def ndkStart : World Label :=
  ⟨(Fs.empty.mkdirP ["qt", "downloads", "toolchain"]).write
    ["qt", "downloads", "toolchain", "android-ndk-r22b-linux-x86_64.zip"]
    "b99a69907ca29e8181852645328b6004", []⟩

theorem ndkStart_fresh : Fresh ndkEnv ndkStart := fresh_of_check (by decide)

def ndkMain (t : BuildType) : Script Unit :=
  main Tools.sample ndkEnv.toConfig Net.none (ndkIvi.scripts Net.none) t

end BuildQt5
