import BuildQt5.Shell.Footprint
import BuildQt5.Shell.Rely

/-!
# Many processes on one file system

A `Crowd` is a family of processes on one file system. Each of them has its own program and its own log, and may at
any time take a step or be replaced by another program (`Start`), so a process may be killed anywhere and started
again. If every process keeps an invariant of its own, and what each of them does to the file system spoils nobody
else's, then all the invariants hold in every state the crowd gets to (`Crowd.reach_inv`).

A process whose commands are all off `d` does no more to the others than `Around d`: it leaves what is at or below
`d` alone.
-/

namespace Shell
open Relation

variable {J ι σ α β : Type} {T : Tools}

/-! ### Work elsewhere -/

/-- Nothing happens at or below `d`, and at most directories are made above it. -/
structure Around (d : Path) (v v' : World ι) : Prop where
  same : ∀ r, d <+: r → v'.fs.get r = v.fs.get r
  above : ∀ r, r <+: d → v'.fs.get r = v.fs.get r ∨ v.fs.get r = none ∧ v'.fs.get r = some .dir
  log : v'.log = v.log

section around
variable {d q : Path} {M : ι → Prop} {v v' : World ι}

theorem Around.framed (h : Around d v v') (hq : d <+: q) : Framed q M v v' :=
  Framed.below ⟨h.same, h.above, [], h.log, by simp⟩ hq

/-- A step of a program off `d`, as one with another log sees it. -/
theorem around_of_step {p p' : Prog ι α} {w w' : World ι} (log : List (Event ι))
    (hp : p.Only fun c => c.Off d) (hs : Step T Alone (p, w) (p', w')) :
    Around d (⟨w.fs, log⟩ : World ι) ⟨w'.fs, log⟩ := by
  have hframe : Framed d (fun _ => True) w w' := by
    cases hs with
    | look => exact .refl
    | mark => exact .mark trivial
    | mid hm => exact .mid hp.1 hm
    | fin hf => exact .fin hp.1 hf
    | other h => exact h.elim
  exact ⟨hframe.same, hframe.above, rfl⟩

end around

/-! ### Crowds -/

/-- A process: its program, its log, and what it keeps in mind from its start. -/
structure Proc (ι σ α : Type) where
  prog : Prog ι α
  log : List (Event ι)
  mind : σ

structure Crowd (J ι σ α : Type) where
  fs : Fs
  proc : J → Proc ι σ α

namespace Crowd
variable [DecidableEq J] {Start : J → Proc ι σ α → Fs → Proc ι σ α → Prop} {s s' : Crowd J ι σ α}

/-- The process `j` takes a step, or is replaced. -/
inductive Step (T : Tools) (Start : J → Proc ι σ α → Fs → Proc ι σ α → Prop) (j : J) :
    Crowd J ι σ α → Crowd J ι σ α → Prop
  | run {s : Crowd J ι σ α} {p : Prog ι α} {w : World ι}
      (h : Shell.Step T Alone ((s.proc j).prog, ⟨s.fs, (s.proc j).log⟩) (p, w)) :
      Step T Start j s ⟨w.fs, Function.update s.proc j ⟨p, w.log, (s.proc j).mind⟩⟩
  | start {s : Crowd J ι σ α} {a : Proc ι σ α} (h : Start j (s.proc j) s.fs a) :
      Step T Start j s ⟨s.fs, Function.update s.proc j a⟩

/-- By steps of the processes `K`. -/
def ReachBy (T : Tools) (Start : J → Proc ι σ α → Fs → Proc ι σ α → Prop) (K : J → Prop) :
    Crowd J ι σ α → Crowd J ι σ α → Prop := ReflTransGen fun s s' => ∃ j, K j ∧ Step T Start j s s'

def Reach (T : Tools) (Start : J → Proc ι σ α → Fs → Proc ι σ α → Prop) : Crowd J ι σ α → Crowd J ι σ α → Prop :=
  ReachBy T Start fun _ => True

theorem ReachBy.reach {K : J → Prop} (h : ReachBy T Start K s s') : Reach T Start s s' :=
  ReflTransGen.mono (fun _ _ ⟨j, _, hj⟩ => ⟨j, trivial, hj⟩) _ _ h

/-- Every process keeps its own invariant, and `G`, what it does to the file system, keeps those of the others. -/
structure Keeping (T : Tools) (Start : J → Proc ι σ α → Fs → Proc ι σ α → Prop) (I : J → Proc ι σ α → Fs → Prop)
    (G : J → Fs → Fs → Prop) : Prop where
  run : ∀ j a fs p w, I j a fs → Shell.Step T Alone (a.prog, ⟨fs, a.log⟩) (p, w) →
    I j ⟨p, w.log, a.mind⟩ w.fs ∧ G j fs w.fs
  start : ∀ j a fs b, I j a fs → Start j a fs b → I j b fs
  other : ∀ i j a fs fs', i ≠ j → I j a fs → G i fs fs' → I j a fs'

variable {I : J → Proc ι σ α → Fs → Prop} {G : J → Fs → Fs → Prop}

theorem Keeping.step (h : Keeping T Start I G) {i : J} (hI : ∀ j, I j (s.proc j) s.fs) (hs : Step T Start i s s') (j : J) :
    I j (s'.proc j) s'.fs := by
  by_cases hij : i = j
  · subst hij
    cases hs with
    | run hr => simpa using (h.run _ _ _ _ _ (hI i) hr).1
    | start hst => simpa using h.start _ _ _ _ (hI i) hst
  · cases hs with
    | run hr => simpa [Function.update_of_ne (Ne.symm hij)] using h.other i j _ _ _ hij (hI j) (h.run _ _ _ _ _ (hI i) hr).2
    | start hst => simpa [Function.update_of_ne (Ne.symm hij)] using hI j

/-- The rule of parallel composition. -/
theorem reach_inv (h : Keeping T Start I G) (hI : ∀ j, I j (s.proc j) s.fs) (hr : Reach T Start s s') (j : J) :
    I j (s'.proc j) s'.fs := by
  induction hr generalizing j with
  | refl => exact hI j
  | tail _ hs ih =>
    obtain ⟨i, -, hs⟩ := hs
    exact h.step ih hs j

/-- A process that runs while the others wait. -/
theorem reach_of_run {K : J → Prop} {j : J} (hj : K j) {p : Prog ι α} {w : World ι}
    (h : Shell.Reach T Alone ((s.proc j).prog, ⟨s.fs, (s.proc j).log⟩) (p, w)) :
    ReachBy T Start K s ⟨w.fs, Function.update s.proc j ⟨p, w.log, (s.proc j).mind⟩⟩ := by
  generalize hc : (p, w) = c at h
  induction h generalizing p w with
  | refl =>
    cases hc
    show ReachBy T Start K s ⟨s.fs, Function.update s.proc j (s.proc j)⟩
    rw [Function.update_eq_self]
    exact .refl
  | @tail c' _ _ hs ih =>
    subst hc
    obtain ⟨p', w'⟩ := c'
    refine (ih rfl).tail ⟨j, hj, ?_⟩
    have hstep : Step T Start j _ _ := .run (s := ⟨w'.fs, Function.update s.proc j ⟨p', w'.log, (s.proc j).mind⟩⟩)
      (p := p) (w := w) (by simpa using hs)
    simpa using hstep

/-- A process that is replaced, and then runs while the others wait. -/
theorem reach_of_start {K : J → Prop} {j : J} (hj : K j) {a : Proc ι σ α} {p : Prog ι α} {w : World ι} (ha : Start j (s.proc j) s.fs a)
    (h : Shell.Reach T Alone (a.prog, ⟨s.fs, a.log⟩) (p, w)) :
    ReachBy T Start K s ⟨w.fs, Function.update s.proc j ⟨p, w.log, a.mind⟩⟩ := by
  have hrun : ReachBy T Start K (⟨s.fs, Function.update s.proc j a⟩ : Crowd J ι σ α) _ :=
    reach_of_run hj (p := p) (w := w) (by simpa using h)
  simp only [Function.update_self, Function.update_idem] at hrun
  exact .head ⟨j, hj, .start ha⟩ hrun

end Crowd

end Shell
