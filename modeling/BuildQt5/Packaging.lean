import BuildQt5.Runtime

/-!
# Failing copies before the runtime is packaged

`do_deploy.sh` goes on to package the runtime when its install and strip phases come to their end. The loop tests each of
its copies; the copies after it and the runs of the strip command are tested by nobody (`Unchecked`). So a run that goes
on had all its copies and strips succeed if and only if the unchecked ones did (`packaged_iff`).
-/

namespace BuildQt5
open Shell
open Prog (world run run_ note ifThen forEach)

/-- The two phases between the title "install runtime" and the packaging. -/
def runtimePhases (T : Tools) (E : Config) : Script Unit := installRuntime E >>= fun _ => stripRuntime T E

/-- The copies after the loop, source and destination. -/
def laterCopies (E : Config) : List (Path × Path) :=
  [(E.targetPrefix ++ ["etc"], E.runtimeDir ++ ["etc"]),
    (E.targetPrefix ++ ["plugins"], E.runtimeDir ++ ["usr", E.targetLibName, "plugins"]),
    (E.targetPrefix ++ ["qml"], E.runtimeDir ++ ["usr", E.targetLibName, "qml"]),
    (E.currentDir ++ ["common", "fonts"], E.runtimeDir ++ ["usr", "share", "fonts"])]

/-- A copy or a run of the strip command. -/
def Job.fills : Job → Prop
  | .cp _ _ | .cpAll _ _ | .strip _ => True
  | _ => False

/-- One whose status nobody tests. -/
def Unchecked (E : Config) : Job → Prop
  | .cp src dst => (src, dst) ∈ laterCopies E
  | .cpAll _ _ | .strip _ => True
  | _ => False

theorem Unchecked.fills {E : Config} {j : Job} (h : Unchecked E j) : j.fills := by
  cases j <;> trivial

/-- No copy that is tested failed between `w` and `w'`. -/
def Clear (E : Config) (w w' : World Label) : Prop :=
  ∃ l, ran w'.log = l ++ ran w.log ∧ ∀ j n, (.job j, n) ∈ l → j.fills → ¬ Unchecked E j → n = 0

/-- The run has ended through `print_log error`. -/
def ByError (n : Nat) (w : World Label) : Prop := n = 10 ∧ ∃ text log, w.log = .mark (.say .error text) :: log

section clear
variable {T : Tools} {E : Config} {w₀ w w' : World Label}

theorem Clear.refl : Clear E w w := ⟨[], rfl, by simp⟩

theorem Clear.of_ran (h : Clear E w₀ w) (hr : ran w'.log = ran w.log) : Clear E w₀ w' := by
  obtain ⟨l, hl, hall⟩ := h
  exact ⟨l, hr.trans hl, hall⟩

theorem Clear.cons (h : Clear E w₀ w) {j : Job} {n : Nat} (hr : ran w'.log = (.job j, n) :: ran w.log)
    (hj : j.fills → ¬ Unchecked E j → n = 0) : Clear E w₀ w' := by
  obtain ⟨l, hl, hall⟩ := h
  refine ⟨(.job j, n) :: l, by rw [hr, hl]; rfl, fun j' n' hmem => ?_⟩
  rcases List.mem_cons.1 hmem with heq | hmem
  · obtain ⟨hj', rfl⟩ := Prod.mk.inj heq
    cases hj'
    exact hj
  · exact hall j' n' hmem

/-- The state of the two phases: a run that ends does so by an error or clear. -/
abbrev Clears (T : Tools) (E : Config) (w₀ : World Label) (p : Script Unit) (w : World Label) : Prop :=
  Safe T Alone (fun _ => True) (fun _ w' => Clear E w₀ w') ByError p w

theorem clears_orError {n : Nat} (h : n = 0 → Clear E w₀ w) : Clears T E w₀ (orError n) w :=
  safe_orError trivial h fun _ _ => ⟨trivial, rfl, _, _, rfl⟩

theorem clears_seq {p : Script Unit} {f : Unit → Script Unit} (hp : Clears T E w₀ p w)
    (hf : ∀ w', Clear E w₀ w' → Clears T E w₀ (f ()) w') : Clears T E w₀ (p >>= f) w :=
  safe_bind (hp.mono (fun _ h => h) (fun _ w' h => hf w' h) fun _ _ h => h)

/-- A command that is no program leaves the state clear. -/
theorem clears_silent {c : Cmd Label} (hc : c.job = none) (h : Clear E w₀ w) : Clears T E w₀ (run_ c) w :=
  safe_bind (f := fun _ => .pure ()) ((safe_silent hc).mono (fun _ h => h)
    (fun _ _ hr => safe_pure.2 ⟨trivial, h.of_ran hr⟩) fun _ _ h => h)

/-- A program nobody tests, or that does not fill the runtime. -/
theorem clears_job {c : Cmd Label} {j : Job} (hc : c.job = some (.job j)) (hj : j.fills → Unchecked E j)
    (h : Clear E w₀ w) : Clears T E w₀ (run_ c) w :=
  (safe_job_ hc).mono (fun _ h => h) (fun _ _ ⟨_, hr⟩ => h.cons hr fun hf hno => absurd (hj hf) hno) fun _ _ h => h

theorem clears_ifThen {b : Bool} {p : Script Unit} (hp : Clears T E w₀ p w) (h : Clear E w₀ w) :
    Clears T E w₀ (ifThen b p) w :=
  safe_ite (fun _ => hp) fun _ => safe_pure.2 ⟨trivial, h⟩

theorem clears_forEach {α : Type} {f : α → Script Unit} {xs : List α}
    (hf : ∀ x w, Clear E w₀ w → Clears T E w₀ (f x) w) (h : Clear E w₀ w) : Clears T E w₀ (forEach f xs) w := by
  induction xs generalizing w with
  | nil => exact safe_pure.2 ⟨trivial, h⟩
  | cons x xs ih => exact clears_seq (hf x w h) fun w' h' => ih h'

/-! ### The phases -/

theorem clears_ensureDir {fs : Fs} (dir : Path) (h : Clear E w₀ w) : Clears T E w₀ (ensureDir E fs dir) w := by
  unfold ensureDir
  split
  · exact clears_ifThen (clears_silent rfl h) h
  · exact safe_pure.2 ⟨trivial, h⟩

/-- The copy of the loop, with its test. -/
theorem clears_cpFile {src dst : Path} (h : Clear E w₀ w) : Clears T E w₀ (cpFile src dst >>= orError) w := by
  refine safe_bind (safe_bind (safe_world.2 ⟨trivial, safe_ite (fun _ => ?_) fun _ => ?_⟩))
  · exact safe_pure.2 ⟨trivial, clears_orError fun h0 => absurd h0 (by decide)⟩
  · refine (safe_job (j := .job (.cp src dst)) rfl).mono (fun _ h => h) (fun n v hr => ?_) fun _ _ h => h
    exact clears_orError fun hn => h.cons hr fun _ _ => hn

theorem clears_deployTo (rel dir : Path) (h : Clear E w₀ w) : Clears T E w₀ (deployTo E rel dir) w := by
  refine safe_bind (safe_world.2 ⟨trivial, clears_seq (clears_ensureDir dir h) fun w' h' => ?_⟩)
  exact safe_bind (safe_world.2 ⟨trivial, clears_cpFile h'⟩)

theorem clears_deployFile (rel : Path) (h : Clear E w₀ w) : Clears T E w₀ (deployFile E rel) w := by
  unfold deployFile
  split
  · exact safe_pure.2 ⟨trivial, h⟩
  · exact clears_deployTo rel _ h

theorem clears_cpIfDir {src dst : Path} (hmem : (src, dst) ∈ laterCopies E) (h : Clear E w₀ w) :
    Clears T E w₀ (cpIfDir src dst) w := by
  refine safe_bind (safe_world.2 ⟨trivial, safe_ite (fun _ => ?_) fun _ => safe_pure.2 ⟨trivial, h⟩⟩)
  exact clears_job (c := .cp (.job (.cp src dst)) src dst) rfl (fun _ => hmem) h

theorem clears_writeExecutable {file : Path} {text : String} {f : Nat → Script Unit} (h : Clear E w₀ w)
    (hf : ∀ n w', Clear E w₀ w' → Clears T E w₀ (f n) w') : Clears T E w₀ (writeExecutable file text >>= f) w := by
  refine safe_bind (safe_bind ((safe_silent rfl).mono (fun _ h => h) (fun n v hr => ?_) fun _ _ h => h))
  have hv : Clear E w₀ v := h.of_ran hr
  refine safe_ite (fun _ => ?_) fun _ => safe_pure.2 ⟨trivial, hf _ _ hv⟩
  refine (safe_job (j := .job (.chmod file)) rfl).mono (fun _ h => h) (fun m v' hr' => ?_) fun _ _ h => h
  exact hf _ _ (hv.cons hr' fun hfill => hfill.elim)

theorem clears_installRuntime : Clears T E w (installRuntime E) w := by
  refine safe_bind (safe_note.2 ⟨trivial, trivial, safe_bind (safe_world.2 ⟨trivial, ?_⟩)⟩)
  have h0 : Clear E w ⟨w.fs, .mark (.say .title (upper "install runtime")) :: w.log⟩ := Clear.refl.of_ran rfl
  refine clears_seq (clears_ifThen (clears_silent rfl h0) h0) fun w1 h1 => ?_
  refine clears_seq (clears_silent rfl h1) fun w2 h2 => clears_seq (clears_silent rfl h2) fun w3 h3 => ?_
  refine clears_seq (clears_silent rfl h3) fun w4 h4 => clears_seq (clears_silent rfl h4) fun w5 h5 => ?_
  refine safe_bind (safe_world.2 ⟨trivial, ?_⟩)
  refine clears_seq (clears_forEach (fun rel _ h => clears_deployFile rel h) h5) fun w6 h6 => ?_
  refine clears_seq (clears_cpIfDir (by simp [laterCopies]) h6) fun w7 h7 => ?_
  refine clears_seq (clears_cpIfDir (by simp [laterCopies]) h7) fun w8 h8 => ?_
  refine clears_seq (clears_cpIfDir (by simp [laterCopies]) h8) fun w9 h9 => ?_
  refine clears_seq (clears_cpIfDir (by simp [laterCopies]) h9) fun w10 h10 => ?_
  refine safe_bind (safe_world.2 ⟨trivial, ?_⟩)
  refine clears_seq (clears_ifThen (clears_job rfl (fun _ => trivial) h10) h10) fun w11 h11 => ?_
  refine clears_writeExecutable h11 fun _ w12 h12 => ?_
  refine safe_bind ((safe_silent rfl).mono (fun _ h => h) (fun n v hr => ?_) fun _ _ h => h)
  exact clears_orError fun _ => h12.of_ran hr

theorem clears_stripOne (dir name : Path) (h : Clear E w₀ w) : Clears T E w₀ (stripOne T dir name) w := by
  refine safe_bind (safe_world.2 ⟨trivial, safe_ite (fun _ => ?_) fun _ => safe_ite (fun _ => ?_) fun _ => ?_⟩)
  · exact safe_note.2 ⟨trivial, trivial, h.of_ran rfl⟩
  · exact safe_note.2 ⟨trivial, trivial, h.of_ran rfl⟩
  · exact safe_bind (safe_note.2 ⟨trivial, trivial, clears_job rfl (fun _ => trivial) (h.of_ran rfl)⟩)

theorem clears_stripRuntime (h : Clear E w₀ w) : Clears T E w₀ (stripRuntime T E) w := by
  refine safe_bind (safe_note.2 ⟨trivial, trivial, safe_ite (fun _ => ?_) fun _ => ?_⟩)
  · exact safe_note.2 ⟨trivial, trivial, h.of_ran rfl⟩
  · rename_i hcmd
    have hmark : Clear E w₀ ⟨w.fs, .mark (.say .title (upper "strip runtime")) :: w.log⟩ := h.of_ran rfl
    have hstrip : Safe T Alone (fun _ => True) (fun _ w' => Clear E w₀ w') ByError
        (stripSymbol T E.stripExecutable E.runtimeDir) ⟨w.fs, .mark (.say .title (upper "strip runtime")) :: w.log⟩ := by
      rw [stripSymbol, if_neg hcmd]
      refine safe_bind (safe_world.2 ⟨trivial, safe_bind ?_⟩)
      refine (clears_forEach (fun name _ h => clears_stripOne E.runtimeDir name h) hmark).mono (fun _ h => h)
        (fun _ v hv => ?_) fun _ _ h => h
      exact safe_pure.2 ⟨trivial, hv⟩
    exact safe_bind (hstrip.mono (fun _ h => h) (fun _ v hv => clears_orError fun _ => hv) fun _ _ h => h)

/-- Every run of the two phases that comes to their end, so that the runtime is packaged, had all its copies and strips
succeed if and only if those that nobody tests did; every other run that ends does so through `print_log error`. -/
theorem packaged_iff {p : Script Unit} (h : Reach T Alone (runtimePhases T E, w) (p, w')) :
    (p = .pure () → ∃ l, ran w'.log = l ++ ran w.log ∧
      ((∀ j n, (.job j, n) ∈ l → j.fills → n = 0) ↔ ∀ j n, (.job j, n) ∈ l → Unchecked E j → n = 0)) ∧
    ∀ n, p = .exit n → ByError n w' := by
  have hsafe : Clears T E w (runtimePhases T E) w := clears_seq clears_installRuntime fun _ h => clears_stripRuntime h
  have hend := hsafe.reach h
  refine ⟨?_, ?_⟩
  · rintro rfl
    obtain ⟨l, hl, hall⟩ := hend.of_pure
    refine ⟨l, hl, fun hok j n hmem hun => hok j n hmem hun.fills, fun hok j n hmem hfill => ?_⟩
    by_cases hun : Unchecked E j
    · exact hok j n hmem hun
    · exact hall j n hmem hfill hun
  · rintro n rfl
    exact hend.of_exit

end clear

/-- A platform with a strip command. -/
def stripConfig : Config := { lib64Config with stripExecutable := "strip" }

theorem packaged_plugin : ∃ w' l, Reach Tools.sample Alone (runtimePhases Tools.sample stripConfig, pluginSdk) (.pure (), w') ∧
    ran w'.log = l ++ ran pluginSdk.log ∧ ∀ j n, (.job j, n) ∈ l → j.fills → n = 0 := by
  have hrun : execAny Tools.sample (List.replicate 13 (.done 0)) (runtimePhases Tools.sample stripConfig) pluginSdk
      (fun p w => p.returned && (ran w.log).all fun x => x.2 = 0) = true := by decide +kernel
  obtain ⟨p, w', hr, hw⟩ := reach_of_execAny hrun
  rw [Bool.and_eq_true] at hw
  obtain rfl := eq_pure_of_returned hw.1
  obtain ⟨l, hl, hiff⟩ := (packaged_iff hr).1 rfl
  refine ⟨w', l, hr, hl, hiff.2 fun j n hmem _ => ?_⟩
  have hall := List.all_eq_true.1 hw.2 (.job j, n) (by rw [hl]; exact List.mem_append_left _ hmem)
  exact of_decide_eq_true hall

/-- The copy of the plugins fails and so does the strip command, and the runtime is packaged. -/
theorem failed_copy_packaged : ∃ w',
    Reach Tools.sample Alone (runtimePhases Tools.sample stripConfig, pluginSdk) (.pure (), w') ∧
    (.job (.cp (stripConfig.targetPrefix ++ ["plugins"]) (stripConfig.runtimeDir ++ ["usr", "lib64", "plugins"])), 1)
      ∈ ran w'.log ∧
    (.job (.strip [stripConfig.runtimeDir ++ ["usr", "lib64", "libfoo.so"]]), 1) ∈ ran w'.log := by
  have hrun : execAny Tools.sample (List.replicate 7 (.done 0) ++ [.done 1] ++ List.replicate 3 (.done 0) ++ [.done 1])
      (runtimePhases Tools.sample stripConfig) pluginSdk (fun p w => p.returned &&
        (ran w.log).contains (.job (.cp (stripConfig.targetPrefix ++ ["plugins"])
          (stripConfig.runtimeDir ++ ["usr", "lib64", "plugins"])), 1) &&
        (ran w.log).contains (.job (.strip [stripConfig.runtimeDir ++ ["usr", "lib64", "libfoo.so"]]), 1)) = true := by
    decide +kernel
  obtain ⟨p, w', hr, hw⟩ := reach_of_execAny hrun
  rw [Bool.and_eq_true, Bool.and_eq_true] at hw
  obtain rfl := eq_pure_of_returned hw.1.1
  exact ⟨w', hr, List.contains_iff_mem.1 hw.1.2, List.contains_iff_mem.1 hw.2⟩

end BuildQt5
