import BuildQt5.Stamps

/-!
# Cleaning

What a completed `clean` or `cleanall` means for the `all` that follows. From a state in which the
directory of a stage is absent, `all` does not pass the stage over, and runs its body to the end if it
comes to its own end (`own_dispatch`); the rest of the module is about which directories are absent
when `clean` and `cleanall` are done.
-/

namespace BuildQt5
open Shell Relation
open Prog (world run run_ note ifThen forEach)

variable {T : Tools} {E : Env} {s s' : Stage} {w w' w₀ : World Label} {net : Net} {P : Platform E}

/-- The stage `s` was not passed over between `w` and `w'`. -/
def Unskipped (s : Stage) (w w' : World Label) : Prop := Grown (fun m => ∀ fs, m ≠ .skipped s fs) w w'

/-- A body of `s` began and ended between `w` and `w'`. -/
def DoneIn (s : Stage) (w w' : World Label) : Prop :=
  ∃ evs, w'.log = evs ++ w.log ∧ .mark (.started s) ∈ evs ∧ .mark (.ended s) ∈ evs

def Absent (E : Env) (s : Stage) (w : World Label) : Prop := w.fs.get (E.stageDir s) = none

theorem DoneIn.grown {M : Label → Prop} {w'' : World Label} (h : DoneIn s w w') (hg : Grown M w' w'') :
    DoneIn s w w'' := by
  obtain ⟨evs, hl, hs, he⟩ := h
  obtain ⟨evs', hl', -⟩ := hg
  exact ⟨evs' ++ evs, by simp [hl, hl'], by simp [hs], by simp [he]⟩

theorem DoneIn.of_grown {M : Label → Prop} {w'' : World Label} (hg : Grown M w w') (h : DoneIn s w' w'') :
    DoneIn s w w'' := by
  obtain ⟨evs, hl, -⟩ := hg
  obtain ⟨evs', hl', hs, he⟩ := h
  exact ⟨evs' ++ evs, by simp [hl, hl'], by simp [hs], by simp [he]⟩

/-! ### The stages of an `all` from a state without stamps -/

section phases
variable (T E s w₀) (has : Prop)

/-- What the own step of `s` comes to: its body has run, if there is one. -/
def Did (w : World Label) : Prop := Unskipped s w₀ w ∧ (has → DoneIn s w₀ w)

/-- `p` comes before the own step of `s`. -/
def Early (p : Script Unit) : Prop :=
  ∀ w, Unskipped s w₀ w → Absent E s w → Safe T Alone (Unskipped s w₀)
    (fun _ w' => Unskipped s w₀ w' ∧ Absent E s w') (fun n w' => n ≠ 0 ∧ Unskipped s w₀ w') p w

/-- `p` ends with the own step of `s`, or after it. -/
def Own (p : Script Unit) : Prop :=
  ∀ w, Unskipped s w₀ w → Absent E s w → Safe T Alone (Unskipped s w₀) (fun _ => Did s w₀ has)
    (fun n w' => n ≠ 0 ∧ Unskipped s w₀ w') p w

/-- `p` comes after the own step of `s`. -/
def Late (p : Script Unit) : Prop :=
  ∀ w, Did s w₀ has w → Safe T Alone (Unskipped s w₀) (fun _ => Did s w₀ has)
    (fun n w' => n ≠ 0 ∧ Unskipped s w₀ w') p w

variable {T E s w₀ has}

theorem Early.bind {p : Script Unit} {f : Unit → Script Unit} (hp : Early T E s w₀ p)
    (hf : Early T E s w₀ (f ())) : Early T E s w₀ (p >>= f) := fun w hu ha =>
  safe_bind ((hp w hu ha).mono (fun _ h => h) (fun _ v h => hf v h.1 h.2) fun _ _ h => h)

theorem Early.own {p : Script Unit} {f : Unit → Script Unit} (hp : Early T E s w₀ p)
    (hf : Own T E s w₀ has (f ())) : Own T E s w₀ has (p >>= f) := fun w hu ha =>
  safe_bind ((hp w hu ha).mono (fun _ h => h) (fun _ v h => hf v h.1 h.2) fun _ _ h => h)

theorem Own.late {p : Script Unit} {f : Unit → Script Unit} (hp : Own T E s w₀ has p)
    (hf : Late T s w₀ has (f ())) : Own T E s w₀ has (p >>= f) := fun w hu ha =>
  safe_bind ((hp w hu ha).mono (fun _ h => h) (fun _ v h => hf v h) fun _ _ h => h)

theorem Late.bind {p : Script Unit} {f : Unit → Script Unit} (hp : Late T s w₀ has p)
    (hf : Late T s w₀ has (f ())) : Late T s w₀ has (p >>= f) := fun w hd =>
  safe_bind ((hp w hd).mono (fun _ h => h) (fun _ v h => hf v h) fun _ _ h => h)

theorem unskipped_of_notOf (h : Grown (NotOf s) w w') : Unskipped s w w' :=
  h.mono fun m hm fs => by rintro rfl; exact hm rfl

theorem Early.of_all {A : Area} {p : Script Unit} (hp : p.All (Cmd.Within A) (NotOf s))
    (hA : A.Off (E.stageDir s)) : Early T E s w₀ p := by
  intro w hu ha
  have habs : ∀ v, Framed (E.stageDir s) (NotOf s) w v → Absent E s v := fun v h =>
    (h.same _ (List.prefix_refl _)).trans ha
  exact (safe_frame hp hA).mono (fun _ h => hu.trans (unskipped_of_notOf h.grown))
    (fun _ v h => ⟨hu.trans (unskipped_of_notOf h.grown), habs v h⟩)
    fun _ _ h => ⟨h.1, hu.trans (unskipped_of_notOf h.2.grown)⟩

theorem Late.of_all {Q : Cmd Label → Prop} {p : Script Unit} (hp : p.All Q (NotOf s)) : Late T s w₀ has p := by
  intro w hd
  exact (safe_grown hp).mono (fun _ h => hd.1.trans (unskipped_of_notOf h))
    (fun _ v h => ⟨hd.1.trans (unskipped_of_notOf h), fun hh => (hd.2 hh).grown h⟩)
    fun _ _ h => ⟨h.1, hd.1.trans (unskipped_of_notOf h.2)⟩

/-- A program that ends with the body of `s`, and passes nothing over. -/
theorem Own.of_all {Q : Cmd Label → Prop} {p : Script Unit} (hp : p.All Q fun m => ∀ fs, m ≠ .skipped s fs)
    (hd : ∀ w, Safe T Alone (fun _ => True) (fun _ w' => has → DoneIn s w w') (fun _ _ => True) p w) :
    Own T E s w₀ has p := by
  intro w hu _
  refine ((safe_grown hp).and (hd w)).mono (fun _ h => hu.trans h.1) (fun _ v h => ?_)
    fun _ _ h => ⟨h.1.1, hu.trans h.1.2⟩
  exact ⟨hu.trans h.1, fun hh => .of_grown hu (h.2 hh)⟩

end phases

/-! ### The own steps -/

theorem all_any {α : Type} {Q : Cmd Label → Prop} {M : Label → Prop} {p : Script α} (hp : p.All Q M) :
    p.All (fun _ => True) fun _ => True := hp.mono (fun _ _ => trivial) fun _ _ => trivial

theorem safe_grow {α : Type} {Q : Cmd Label → Prop} {M : Label → Prop} {p : Script α} (hp : p.All Q M) :
    Safe T Alone (fun _ => True) (fun _ => Grown M w) (fun _ _ => True) p w :=
  (safe_grown hp).mono (fun _ _ => trivial) (fun _ _ h => h) fun _ _ _ => trivial

theorem done_lockedBody {body : Script Unit} (hb : body.All (fun _ => True) fun _ => True) :
    Safe T Alone (fun _ => True) (fun _ w' => DoneIn s w w') (fun _ _ => True) (lockedBody E.toConfig s body) w := by
  refine safe_bind (safe_note.2 ⟨trivial, trivial, safe_bind ((safe_grow hb).mono (fun _ h => h) ?_ fun _ _ h => h)⟩)
  rintro _ v ⟨evs, hl, -⟩
  have hun : (unlock E.toConfig s).All (fun _ => True) fun _ => True :=
    Prog.All.bind (Prog.all_world.2 trivial) fun v => Prog.all_ifThen fun _ => Prog.all_run_.2 trivial
  refine safe_bind (safe_note.2 ⟨trivial, trivial, (safe_grow hun).mono (fun _ h => h) ?_ fun _ _ h => h⟩)
  intro _ v' hg
  have hd : DoneIn s w ⟨v.fs, .mark (.ended s) :: v.log⟩ :=
    ⟨.mark (.ended s) :: (evs ++ [.mark (.started s)]), by simp [hl], by simp, by simp⟩
  exact hd.grown hg

theorem done_after {α : Type} {p : Script α} {f : α → Script Unit} (hp : p.All (fun _ => True) fun _ => True)
    (hf : ∀ a w, Safe T Alone (fun _ => True) (fun _ w' => DoneIn s w w') (fun _ _ => True) (f a) w) :
    Safe T Alone (fun _ => True) (fun _ w' => DoneIn s w w') (fun _ _ => True) (p >>= f) w := by
  refine safe_bind ((safe_grow hp).mono (fun _ h => h) (fun a v hg => ?_) fun _ _ h => h)
  exact (hf a v).mono (fun _ h => h) (fun _ _ h => .of_grown hg h) fun _ _ h => h

theorem all_run_any {c : Cmd Label} : (run_ c).All (fun _ => True) fun _ => True := Prog.all_run_.2 trivial

theorem done_shellEnter {normal : Bool} {body : Option (Script Unit)}
    (hb : ∀ b, body = some b → b.All (Cmd.Within (E.bodyArea s)) fun m => m.stage = none) :
    Safe T Alone (fun _ => True) (fun _ w' => body.isSome = true → DoneIn s w w') (fun _ _ => True)
      (shellEnter E.toConfig s normal body) w := by
  cases body with
  | none =>
    have hp : (shellEnter E.toConfig s normal none).All (fun _ => True) fun _ => True := by
      simp only [shellEnter]
      exact all_printLog fun _ _ => trivial
    exact (safe_grow hp).mono (fun _ h => h) (fun _ _ _ h => absurd h (by simp)) fun _ _ h => h
  | some b =>
    have hd : Safe T Alone (fun _ => True) (fun _ w' => DoneIn s w w') (fun _ _ => True)
        (shellEnter E.toConfig s normal (some b)) w := by
      refine done_after all_run_any fun _ v => done_after all_run_any fun _ v => ?_
      refine done_after (Prog.all_ifThen fun _ => ?_) fun _ v => done_lockedBody (all_any (hb b rfl))
      exact all_run_any.bind fun _ => all_run_any.bind fun _ => all_run_any.bind fun _ => all_run_any
    exact hd.mono (fun _ h => h) (fun _ _ h _ => h) fun _ _ h => h

theorem ne_skipped_of_stage {m : Label} (h : m.stage = none) (fs : Fs) : m ≠ .skipped s fs := by
  rintro rfl; cases h

theorem absent_not_stamped (h : Absent E s w) : stamped E.toConfig w.fs s = false := by
  simp [stamped, Fs.isDir, Absent] at *
  simp [h]

theorem early_printLog {kind : LogKind} {text : String} : Early T E s w₀ (printLog kind text) :=
  Early.of_all (A := ⟨fun _ => False, fun _ => False⟩) (all_printLog fun _ => notOf_of_none)
    ⟨fun _ h => h.elim, fun _ h => h.elim⟩

theorem own_world {f : World Label → Script Unit} {has : Prop}
    (hf : ∀ w, Absent E s w → Own T E s w₀ has (f w)) : Own T E s w₀ has (world >>= f) := fun w hu ha =>
  safe_bind (safe_world.2 ⟨hu, hf w ha w hu ha⟩)

theorem own_shellBuild {normal : Bool} {body : Option (Script Unit)}
    (hb : ∀ b, body = some b → b.All (Cmd.Within (E.bodyArea s)) fun m => m.stage = none) :
    Own T E s w₀ (body.isSome = true) (shellBuild E.toConfig false s normal body) := by
  have hall : (run_ (.mkdirP E.buildDir) : Script Unit).All
      (Cmd.Within ⟨fun _ => False, fun p => p = E.buildDir⟩) (NotOf s) := Prog.all_run_.2 (.inr rfl)
  refine (Early.of_all hall ⟨fun _ h => h.elim, ?_⟩).own (own_world fun w ha => ?_)
  · rintro p rfl; exact Env.not_stageDir_buildDir
  · rw [absent_not_stamped ha, if_neg (by simp)]
    exact Own.of_all (all_shellEnter (fun _ h => ne_skipped_of_stage h) (by simp) (by simp) hb)
      fun w => done_shellEnter hb

theorem own_installCmake : Own T E .cmake w₀ (E.cmakeDownloadUrl ≠ "") (installCmake T E.toConfig net false) := by
  refine early_printLog.own (own_world fun w ha => ?_)
  rw [absent_not_stamped ha, if_neg (by simp)]
  refine Own.of_all (all_cmakeEnter (fun _ h => ne_skipped_of_stage h) (by simp) (by simp)) fun w => ?_
  unfold cmakeEnter
  split
  · rename_i h
    exact (safe_grow (all_printLog (P := fun _ => True) (M := fun _ => True) fun _ _ => trivial)).mono
      (fun _ h => h) (fun _ _ _ h' => absurd h h') fun _ _ h => h
  · refine Safe.mono (done_after all_run_any fun _ v => done_after all_run_any fun _ v =>
      done_after all_run_any fun _ v => done_after all_run_any fun _ v => ?_) (fun _ h => h)
      (fun _ _ h _ => h) fun _ _ h => h
    exact done_lockedBody (all_any (all_cmakeBody (M := fun _ => True) fun _ _ => trivial))

theorem own_doFetch : Own T E .qt5 w₀ True (doFetch T E.toConfig net false) := by
  have hall : (run_ (.mkdirP E.buildDir) : Script Unit).All
      (Cmd.Within ⟨fun _ => False, fun p => p = E.buildDir⟩) (NotOf .qt5) := Prog.all_run_.2 (.inr rfl)
  refine (Early.of_all hall ⟨fun _ h => h.elim, ?_⟩).own (own_world fun w ha => ?_)
  · rintro p rfl; exact Env.not_stageDir_buildDir
  · rw [absent_not_stamped ha, if_neg (by simp)]
    refine Own.of_all (all_fetchEnter (fun _ h => ne_skipped_of_stage h) (by simp) (by simp)) fun w => ?_
    refine Safe.mono (done_after all_run_any fun _ v => done_after all_run_any fun _ v =>
      done_after all_run_any fun _ v => ?_) (fun _ h => h) (fun _ _ h _ => h) fun _ _ h => h
    exact done_lockedBody (all_any (all_fetchBody (M := fun _ => True) fun _ _ => trivial))

/-! ### all -/

/-- There is a body of `s` to run. -/
def HasBody (P : Platform E) : Stage → Prop
  | .cmake => E.cmakeDownloadUrl ≠ ""
  | .qt5 => True
  | s => ∀ net, (P.scripts net s).isSome = true

/-- From `w` on, `s` was not passed over, and the run has ended well only with the body of `s` done. -/
def Redone (P : Platform E) (s : Stage) (w : World Label) (p : Script Unit) (w' : World Label) : Prop :=
  Unskipped s w w' ∧ (p = .exit 0 → HasBody P s → DoneIn s w w')

theorem Own.imp {has has' : Prop} {p : Script Unit} (h : Own T E s w₀ has p) (hi : has' → has) :
    Own T E s w₀ has' p := fun w hu ha =>
  (h w hu ha).mono (fun _ h => h) (fun _ _ h => ⟨h.1, fun hh => h.2 (hi hh)⟩) fun _ _ h => h

section others
variable (hs : s' ≠ s)
include hs

theorem early_step {p : Script Unit} (hp : p.All (Cmd.Within (E.stepArea s')) (NotOf s)) : Early T E s w₀ p :=
  Early.of_all hp (Env.stepArea_off hs)

theorem early_shellBuild {normal : Bool} : Early T E s w₀ (shellBuild E.toConfig false s' normal (P.scripts net s')) :=
  early_step hs (all_shellBuild (fun _ => notOf_of_or hs) (P.proper net _))

theorem late_shellBuild {normal : Bool} {has : Prop} :
    Late T s w₀ has (shellBuild E.toConfig false s' normal (P.scripts net s')) :=
  Late.of_all (all_shellBuild (fun _ => notOf_of_or hs) (P.proper net _))

end others

theorem late_printLog {kind : LogKind} {text : String} {has : Prop} : Late T s w₀ has (printLog kind text) :=
  Late.of_all (all_printLog (P := fun _ => True) fun _ => notOf_of_none)

theorem all_pkgconfig : (installPkgconfig E.toConfig net).All
    (Cmd.Within ⟨fun p => Fs.covers E.outside p = true, fun _ => False⟩) (NotOf s) :=
  all_installPkgconfig (fun _ => notOf_of_none) fun _ h => h

theorem early_installPkgconfig : Early T E s w₀ (installPkgconfig E.toConfig net) :=
  Early.of_all all_pkgconfig ⟨fun _ hp => Env.apart_of_covers hp, fun _ h => h.elim⟩

/-- The steps between the fetch and the vendor step. -/
theorem early_configure_compile (hs : s ≠ .qt5) :
    Early T E s w₀ (invokeConfigure E.toConfig) ∧ Early T E s w₀ (invokeCompile E.toConfig false) :=
  ⟨early_printLog.bind (early_step hs.symm (stepArea_of_body (all_doConfigure fun _ => notOf_of_none))),
    early_printLog.bind (early_step hs.symm (stepArea_of_body (all_doCompile fun _ => notOf_of_none)))⟩

theorem late_configure_compile {has : Prop} :
    Late T s w₀ has (invokeConfigure E.toConfig) ∧ Late T s w₀ has (invokeCompile E.toConfig false) :=
  ⟨late_printLog.bind (.of_all (all_doConfigure fun _ => notOf_of_none)),
    late_printLog.bind (.of_all (all_doCompile fun _ => notOf_of_none))⟩

theorem late_invokeDeploy {has : Prop} : Late T s w₀ has (invokeDeploy T E.toConfig) :=
  late_printLog.bind (.of_all (all_doDeploy (s := .qt5) fun _ => notOf_of_none))

theorem early_doToolchain (hs : s ≠ .toolchain) : Early T E s w₀ (doToolchain E.toConfig false (P.scripts net)) :=
  early_printLog.bind (early_shellBuild hs.symm)

theorem early_doThirdparty (hs : s ≠ .cmake ∧ s ≠ .thirdparty) :
    Early T E s w₀ (doThirdparty T E.toConfig net false (P.scripts net)) :=
  early_printLog.bind (early_installPkgconfig.bind
    ((early_step hs.1.symm (all_installCmake fun _ => notOf_of_or hs.1.symm)).bind (early_shellBuild hs.2.symm)))

theorem late_doVendor {has : Prop} (hs : s ≠ .vendor) : Late T s w₀ has (doVendor E.toConfig false (P.scripts net)) :=
  late_printLog.bind (late_shellBuild hs.symm)

theorem late_invokeFetch {has : Prop} (hs : s ≠ .qt5) : Late T s w₀ has (invokeFetch T E.toConfig net false) :=
  late_printLog.bind (.of_all (all_doFetch fun _ => notOf_of_or hs.symm))

/-- What follows the third-party step, for the stages up to that one. -/
theorem late_fetch_rest {has : Prop} (hq : s ≠ .qt5) (hv : s ≠ .vendor) : Late T s w₀ has (do
    invokeFetch T E.toConfig net false
    invokeConfigure E.toConfig
    invokeCompile E.toConfig false
    doVendor E.toConfig false (P.scripts net)
    invokeDeploy T E.toConfig) :=
  (late_invokeFetch hq).bind (late_configure_compile.1.bind (late_configure_compile.2.bind
    ((late_doVendor hv).bind late_invokeDeploy)))

/-- `all` from a state without the directory of `s`. -/
theorem own_dispatch : Own T E s w₀ (HasBody P s) (dispatch T E.toConfig net (P.scripts net) .all) := by
  have hbody : ∀ s, ∀ b, P.scripts net s = some b → b.All (Cmd.Within (E.bodyArea s)) fun m => m.stage = none :=
    P.proper net
  cases s with
  | toolchain =>
    refine ((early_printLog.own (own_shellBuild (hbody _))).imp fun h => h net).late (Late.bind ?_ ?_)
    · exact late_printLog.bind ((Late.of_all all_pkgconfig).bind
        ((Late.of_all (all_installCmake fun _ => notOf_of_or (by decide))).bind (late_shellBuild (by decide))))
    · exact late_fetch_rest (by decide) (by decide)
  | cmake =>
    refine (early_doToolchain (by decide)).own (Own.late ?_ (late_fetch_rest (by decide) (by decide)))
    exact early_printLog.own (early_installPkgconfig.own (own_installCmake.late (late_shellBuild (by decide))))
  | thirdparty =>
    refine (early_doToolchain (by decide)).own (Own.late ?_ (late_fetch_rest (by decide) (by decide)))
    refine early_printLog.own (early_installPkgconfig.own (Early.own ?_ ((own_shellBuild (hbody _)).imp fun h => h net)))
    have hne : Stage.cmake ≠ .thirdparty := by decide
    exact early_step hne (all_installCmake fun _ => notOf_of_or hne)
  | qt5 =>
    refine (early_doToolchain (by decide)).own ((early_doThirdparty (by decide)).own (Own.late ?_ ?_))
    · exact early_printLog.own own_doFetch
    · exact late_configure_compile.1.bind (late_configure_compile.2.bind
        ((late_doVendor (by decide)).bind late_invokeDeploy))
  | vendor =>
    refine (early_doToolchain (by decide)).own ((early_doThirdparty (by decide)).own (Early.own ?_ ?_))
    · have hne : Stage.qt5 ≠ .vendor := by decide
      exact early_printLog.bind (early_step hne (all_doFetch fun _ => notOf_of_or hne))
    · refine (early_configure_compile (by decide)).1.own ((early_configure_compile (by decide)).2.own (Own.late ?_ ?_))
      · exact (early_printLog.own (own_shellBuild (hbody _))).imp fun h => h net
      · exact late_invokeDeploy

theorem safe_all (h : Absent E s w) : Safe T Alone (Unskipped s w) (fun _ _ => True)
    (fun n w' => Unskipped s w w' ∧ (n = 0 → HasBody P s → DoneIn s w w'))
    (main T E.toConfig net (P.scripts net) .all) w := by
  have hexit : ∀ n v, n ≠ 0 ∧ Unskipped s w v →
      Unskipped s w v ∧ (n = 0 → HasBody P s → DoneIn s w v) := fun n v hv => ⟨hv.2, fun h0 => absurd h0 hv.1⟩
  have hinvoked : Early T E s w (note (.invoked .all)) := by
    refine Early.of_all (A := ⟨fun _ => False, fun _ => False⟩) (Prog.all_note.2 (notOf_of_none rfl)) ?_
    exact ⟨fun _ h => h.elim, fun _ h => h.elim⟩
  refine safe_bind ((hinvoked w .refl h).mono (fun _ h => h) (fun _ v hv => ?_) hexit)
  refine safe_bind ((own_dispatch (P := P) v hv.1 hv.2).mono (fun _ h => h) (fun _ v hv => ?_) hexit)
  refine safe_bind ((late_printLog v hv).mono (fun _ h => h) (fun _ v hv => ?_) hexit)
  exact safe_exit.2 ⟨hv.1, hv.1, fun _ => hv.2⟩

theorem redone_of_absent {p : Script Unit} (h : Absent E s w) (hr : Invoked T P .all w p w') :
    Redone P s w p w' := by
  obtain ⟨net, hr⟩ := hr
  have hsafe := (safe_all h).reach hr
  refine ⟨hsafe.inv, ?_⟩
  rintro rfl
  exact hsafe.of_exit.2 rfl

/-! ### clean -/

/-- The directories of stages that are there are among these names, that of the toolchain apart. -/
def Left (E : Env) (names : List String) (w : World Label) : Prop :=
  ∀ s, s ≠ .toolchain → w.fs.get (E.stageDir s) ≠ none → s.dirName ∈ names

theorem Left.thinned {names : List String} {M : Label → Prop} (h : Left E names w) (ht : Thinned [] M w w') :
    Left E names w' := by
  obtain ⟨evs, -, hg, -⟩ := ht.log
  intro s hs hne
  rcases hg (E.stageDir s) List.nil_prefix with h0 | h0
  · exact h s hs (h0 ▸ hne)
  · exact absurd h0.1 hne

theorem stageDir_ne_nil : E.stageDir s ≠ [] := by simp [Config.stageDir]

theorem safe_cleanOne {name : String} {names : List String} (h : Left E (name :: names) w) :
    Safe T Alone (fun _ => True) (fun _ => Left E names) (fun n _ => n ≠ 0) (cleanOne E.toConfig name) w := by
  have hrest : ∀ v : World Label, Left E (name :: names) v →
      (∀ s, s ≠ .toolchain → s.dirName = name → v.fs.get (E.stageDir s) = none) → Left E names v := by
    intro v hv hname s hs hne
    rcases List.mem_cons.1 (hv s hs hne) with h0 | h0
    · exact absurd (hname s hs h0) hne
    · exact h0
  unfold cleanOne
  split
  · rename_i hname
    refine safe_pure.2 ⟨trivial, hrest w h fun s hs h0 => ?_⟩
    exact absurd (Stage.dirName_inj (h0.trans hname : s.dirName = Stage.dirName .toolchain)) hs
  · refine safe_bind (safe_note.2 ⟨trivial, trivial, safe_bind ?_⟩)
    refine safe_busy (Left E (name :: names)) h (fun _ _ => trivial)
      (fun v v' hv hm => hv.thinned (.mid (M := fun _ => True) hm)) (fun v n v' hv hf => ?_)
    refine safe_pure.2 ⟨trivial, safe_orError trivial (fun hn => ?_) fun _ _ => ⟨trivial, by decide⟩⟩
    refine hrest v' (hv.thinned (.fin (M := fun _ => True) hf)) fun s _ hname => ?_
    have hfs : v'.fs = v.fs.rmTrees [E.buildDir ++ [name]] := by
      have := hf.1
      simpa only [Cmd.Fin, if_pos hn] using this
    rw [hfs, Fs.get_rmTrees stageDir_ne_nil, if_pos]
    exact Fs.covers_iff.2 ⟨_, List.mem_singleton.2 rfl, by rw [Config.stageDir, hname]⟩

/-- When `clean` is done, no stage is left but the toolchain. -/
theorem safe_doClean : Safe T Alone (fun _ => True) (fun _ => Left E []) (fun n _ => n ≠ 0)
    (doClean E.toConfig) w := by
  refine safe_bind (safe_mkdirP.2 ⟨trivial, trivial, safe_bind (safe_note.2 ⟨trivial, trivial, ?_⟩)⟩)
  refine safe_bind (safe_world.2 ⟨trivial, ?_⟩)
  refine safe_forEach (Left E) ?_ (fun name names v hv => safe_cleanOne hv) _ ?_
  · rintro names v hv v' hr
    rw [alone_iff.1 hr]
    exact ⟨trivial, hv⟩
  · exact fun s _ hne => Fs.mem_glob.2 ⟨hne, by cases s <;> decide⟩

/-- The directory of the toolchain is left alone by `clean`. -/
theorem keeps_doClean : Keeps T E .toolchain (doClean E.toConfig) := by
  open Prog in
  have hM : ∀ m : Label, m.stage = none → NotOf .toolchain m := fun _ => notOf_of_none
  refine Keeps.of_all (A := ⟨fun p => ∃ x, x ≠ "toolchain" ∧ p = E.buildDir ++ [x], fun p => p = E.buildDir⟩) ?_ ?_
  · refine All.bind (all_run_.2 (.inr rfl)) fun _ => All.bind (all_printLog hM) fun _ => ?_
    refine All.bind (all_world.2 trivial) fun w => all_forEach fun name _ => all_ite (fun _ => trivial) fun hn => ?_
    refine All.bind (all_printLog hM) fun _ => All.bind (all_run.2 fun r hr => ?_) fun _ => all_orError hM
    exact ⟨name, hn, List.mem_singleton.1 hr⟩
  · refine ⟨?_, ?_⟩
    · rintro _ ⟨x, hx, rfl⟩
      exact Apart.child hx
    · rintro _ rfl
      exact Env.not_stageDir_buildDir

theorem safe_clean_main : Safe T Alone (fun _ => True) (fun _ _ => True) (fun n w' => n = 0 → Left E [] w')
    (main T E.toConfig net (P.scripts net) .clean) w := by
  refine safe_bind (safe_note.2 ⟨trivial, trivial, safe_bind ?_⟩)
  refine (safe_doClean (E := E)).mono (fun _ h => h) (fun _ v hv => ?_) fun _ _ hn h0 => absurd h0 hn
  exact safe_bind (safe_note.2 ⟨trivial, trivial, safe_exit.2 ⟨trivial, fun _ => hv⟩⟩)

theorem keeps_clean_main : Keeps T E .toolchain (main T E.toConfig net (P.scripts net) .clean) :=
  (keeps_note rfl).bind (keeps_doClean.bind (keeps_printLog.bind fun _ hw => safe_exit.2 ⟨hw.crash, hw⟩))

/-! ### cleanall -/

/-- `BUILD_DIR` is `$CURRENT_DIR/build`, or in an entry of that which `*` matches. -/
def InBuild (E : Env) : Prop :=
  E.buildDir = E.currentDir ++ ["build"] ∨ ∃ x, visible x = true ∧ E.currentDir ++ ["build", x] <+: E.buildDir

theorem InBuild.stageDir (h : InBuild E) (s : Stage) :
    ∃ x, visible x = true ∧ E.currentDir ++ ["build", x] <+: E.stageDir s := by
  rcases h with h | ⟨x, hx, hpre⟩
  · refine ⟨s.dirName, by cases s <;> decide, ?_⟩
    rw [Config.stageDir, h, List.append_assoc]
    exact List.prefix_refl _
  · exact ⟨x, hx, hpre.trans (List.prefix_append _ _)⟩

/-- Every `rm -rf` between `w` and `w'` succeeded. -/
def RmDone (w w' : World Label) : Prop :=
  ∃ evs, w'.log = evs ++ w.log ∧ ∀ ps n, .rmExit ps n ∈ evs → n = 0

/-- An `rm -rf` ended between `w` and `w'`, and if it succeeded no stage is left. -/
def Wiped (E : Env) (w w' : World Label) : Prop :=
  ∃ evs ps n, w'.log = evs ++ w.log ∧ .rmExit ps n ∈ evs ∧ (n = 0 → ∀ s, Absent E s w')

theorem Wiped.absent (h : Wiped E w w') (hr : RmDone w w') : Absent E s w' := by
  obtain ⟨evs, ps, n, hl, he, ha⟩ := h
  obtain ⟨evs', hl', hn⟩ := hr
  rw [hl] at hl'
  rw [← List.append_cancel_right hl'] at hn
  exact ha (hn ps n he) s

theorem Wiped.of_grown {M : Label → Prop} {w'' : World Label} (hg : Grown M w w') (h : Wiped E w' w'') :
    Wiped E w w'' := by
  obtain ⟨evs, hl, -⟩ := hg
  obtain ⟨evs', ps, n, hl', he, ha⟩ := h
  exact ⟨evs' ++ evs, ps, n, by simp [hl, hl'], by simp [he], ha⟩

theorem Wiped.mark {m : Label} (h : Wiped E w w') : Wiped E w ⟨w'.fs, .mark m :: w'.log⟩ := by
  obtain ⟨evs, ps, n, hl, he, ha⟩ := h
  exact ⟨.mark m :: evs, ps, n, by simp [hl], by simp [he], ha⟩

theorem safe_doCleanall (hE : InBuild E) : Safe T Alone (fun _ => True) (fun _ => Wiped E w) (fun n _ => n ≠ 0)
    (doCleanall E.toConfig) w := by
  refine safe_bind (safe_mkdirP.2 ⟨trivial, trivial, safe_bind (safe_note.2 ⟨trivial, trivial, ?_⟩)⟩)
  refine safe_bind (safe_world.2 ⟨trivial, ?_⟩)
  have hmade : Grown (fun _ => True) w ⟨w.fs.mkdirP E.buildDir, (Cmd.mkdirP E.buildDir).events w.fs 0 ++ w.log⟩ :=
    .fin (T := T) (c := .mkdirP E.buildDir) (n := 0) ⟨⟨rfl, rfl⟩, rfl⟩
  have hgrown : Grown (fun _ => True) w ⟨w.fs.mkdirP E.buildDir, .mark (.say .function (upper "cleanall")) ::
      ((Cmd.mkdirP E.buildDir).events w.fs 0 ++ w.log)⟩ := hmade.trans (.mark trivial)
  generalize (⟨w.fs.mkdirP E.buildDir, _⟩ : World Label) = u at hgrown ⊢
  generalize hps : ((u.fs.glob (E.currentDir ++ ["build"]) visible).map fun x => E.currentDir ++ ["build", x]) = ps
  have hcov : ∀ s, u.fs.get (E.stageDir s) ≠ none → Fs.covers ps (E.stageDir s) = true := by
    intro s hne
    obtain ⟨x, hx, hpre⟩ := hE.stageDir s
    have hdir : u.fs.get (E.currentDir ++ ["build"] ++ [x]) ≠ none := by
      rw [List.append_assoc]
      by_contra h0
      exact hne (Fs.get_eq_none_below h0 hpre)
    refine Fs.covers_iff.2 ⟨_, ?_, hpre⟩
    rw [← hps]
    exact List.mem_map.2 ⟨x, Fs.mem_glob.2 ⟨hdir, hx⟩, rfl⟩
  -- what is there of the stages is always among what the pattern named
  refine safe_busy (fun v => Grown (fun _ => True) w v ∧ ∀ s, v.fs.get (E.stageDir s) ≠ none →
    Fs.covers ps (E.stageDir s) = true) ⟨hgrown, hcov⟩ (fun _ _ => trivial) ?_ ?_
  · rintro v v' ⟨hv, hc⟩ hm
    refine ⟨hv.trans (.mid hm), fun s hne => ?_⟩
    obtain ⟨evs, -, hg, -⟩ := (Thinned.mid (q := []) (M := fun _ => True) hm).log
    rcases hg (E.stageDir s) List.nil_prefix with h0 | h0
    · exact hc s (h0 ▸ hne)
    · exact absurd h0.1 hne
  · rintro v n v' ⟨⟨evs, hl, -⟩, hc⟩ hf
    refine safe_pure.2 ⟨trivial, (Cmd.rmRf ps).events v.fs n ++ evs, ps, n, ?_, by simp [Cmd.events], fun hn s => ?_⟩
    · rw [hf.2, hl, List.append_assoc]
    · have hfs : v'.fs = v.fs.rmTrees ps := by
        have := hf.1
        simpa only [Cmd.Fin, if_pos hn] using this
      rw [Absent, hfs, Fs.get_rmTrees stageDir_ne_nil]
      split
      · rfl
      · rename_i hno
        by_contra hne
        exact hno (hc s hne)

theorem safe_cleanall_main (hE : InBuild E) : Safe T Alone (fun _ => True) (fun _ _ => True)
    (fun n w' => n = 0 → Wiped E w w') (main T E.toConfig net (P.scripts net) .cleanall) w := by
  refine safe_bind (safe_note.2 ⟨trivial, trivial, safe_bind ?_⟩)
  refine (safe_doCleanall hE).mono (fun _ h => h) (fun _ v hv => ?_) fun _ _ hn h0 => absurd h0 hn
  refine safe_bind (safe_note.2 ⟨trivial, trivial, safe_exit.2 ⟨trivial, fun _ => ?_⟩⟩)
  exact .of_grown (.mark (M := fun _ => True) trivial) hv.mark

/-! ### Histories -/

/-- One invocation of a history, that ended or was killed with no stamp of the toolchain pending, and
was no `cleanall` that left the toolchain torn. -/
def SettledRun (T : Tools) (P : Platform E) (w w' : World Label) : Prop :=
  ∃ t p, Invoked T P t w p w' ∧ ((∃ n, p = .exit n) ∨ ¬ Pending E .toolchain w'.log) ∧
    (t = .cleanall → ¬ Torn E .toolchain w w')

theorem SettledRun.sound (h : Sound E .toolchain w) (hr : SettledRun T P w w') : Sound E .toolchain w' := by
  obtain ⟨t, p, ⟨net, hr⟩, hstop, htorn⟩ := hr
  have hsettle : ∀ {q : Script Unit}, Keeps T E .toolchain q → Reach T Alone (q, w) (p, w') →
      Sound E .toolchain w' := by
    intro q hk hr
    have hsafe := (hk w h).reach hr
    rcases hstop with ⟨n, rfl⟩ | hp
    · exact hsafe.of_exit
    · exact ⟨hsafe.inv.2.resolve_right hp, hsafe.inv.1⟩
  by_cases ht : t = .cleanall
  · subst ht
    exact h.thinned ((safe_clean (.inr rfl)).reach hr).inv (htorn rfl)
  · by_cases hc : t = .clean
    · subst hc; exact hsettle keeps_clean_main hr
    · exact hsettle (keeps_main (by decide) ⟨hc, ht⟩) hr

theorem settled_sound (hw₀ : Fresh E w₀) (hist : ReflTransGen (SettledRun T P) w₀ w) : Sound E .toolchain w := by
  induction hist with
  | refl => exact hw₀.sound
  | tail _ hr ih => exact hr.sound ih

def plainMain (E : Env) (t : BuildType) : Script Unit :=
  main Tools.sample E.toConfig Net.none ((bare E).scripts Net.none) t

/-- `BUILD_DIR` set to a place outside of `$CURRENT_DIR/build`. -/
def outsideEnv : Env where
  toConfig := { Config.unset ["qt"] "qt5-android-ndk-ivi" with
    buildDir := ["work"], sdkDir := ["work", "sdk"], runtimeDir := ["work", "runtime"], packageDir := ["work"] }
  outside_apart := fun s => by cases s <;> decide

def outsideIvi : Platform outsideEnv := androidIvi Tools.sample outsideEnv ⟨"android-ndk-r22b", "", ""⟩ ndkName_ne_lock

def outsideMain (t : BuildType) : Script Unit :=
  main Tools.sample outsideEnv.toConfig Net.none (outsideIvi.scripts Net.none) t

/-- No `rm -rf` that failed, and no stage that was passed over. -/
def cleanEvent : Event Label → Bool
  | .rmExit _ n => n = 0
  | .mark (.skipped _ _) => false
  | _ => true

end BuildQt5
