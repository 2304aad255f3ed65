import BuildQt5.Shell.Whole

/-!
# Runs under a given behaviour

A `Behaviour` says how every command ends on every file system. Under it a program has one run, which
`Prog.eval` computes; if the behaviour is one the semantics allows (`Follows`), that run is a run of the
program (`runs_eval`). `sober` is such a behaviour: the commands of the shell do their work where they
can, the external programs fail.
-/

namespace Shell
open Relation

variable {ι α β : Type} {T : Tools}

/-- The exit code of a command, and what it leaves. -/
abbrev Behaviour (ι : Type) := Cmd ι → Fs → Nat × Fs

/-- The commands behave as the semantics has it. -/
def Follows (T : Tools) (B : Behaviour ι) : Prop := ∀ (c : Cmd ι) (fs : Fs), c.Fin T fs (B c fs).1 (B c fs).2

namespace Prog

/-- The value of the run, or the exit code, and the world at its end. -/
def eval (B : Behaviour ι) : Prog ι α → World ι → Except Nat α × World ι
  | .pure a, w => (.ok a, w)
  | .exit n, w => (.error n, w)
  | .look k, w => (k w).eval B w
  | .mark m k, w => k.eval B ⟨w.fs, .mark m :: w.log⟩
  | .cmd c k, w => (k (B c w.fs).1).eval B ⟨(B c w.fs).2, c.events w.fs (B c w.fs).1 ++ w.log⟩

/-- The program that has come to this end. -/
def ofEnd : Except Nat α → Prog ι α
  | .ok a => .pure a
  | .error n => .exit n

end Prog

section eval
variable {B : Behaviour ι} {w v : World ι}

theorem runs_eval (hB : Follows T B) (p : Prog ι α) (w : World ι) :
    Runs T (fun _ _ => True) (p, w) (.ofEnd (p.eval B w).1, (p.eval B w).2) := by
  induction p generalizing w with
  | pure a => exact .refl
  | exit n => exact .refl
  | look k ih => exact .head .look (ih w w)
  | mark m k ih => exact .head .mark (ih _)
  | cmd c k ih => exact .head (.fin ⟨hB c w.fs, rfl⟩ trivial) (ih _ _)

theorem runs_of_eval (hB : Follows T B) {p : Prog ι α} {r : Except Nat α} (h : p.eval B w = (r, v)) :
    Runs T (fun _ _ => True) (p, w) (.ofEnd r, v) := by
  have hr : Runs T _ _ _ := runs_eval hB p w
  rwa [h] at hr

theorem reach_of_eval (hB : Follows T B) {p : Prog ι α} {r : Except Nat α} (h : p.eval B w = (r, v)) :
    Reach T Alone (p, w) (.ofEnd r, v) := (runs_of_eval hB h).reach

theorem eval_bind {p : Prog ι α} {f : α → Prog ι β} {a : α} (h : p.eval B w = (.ok a, v)) :
    (p >>= f).eval B w = (f a).eval B v := by
  rw [Prog.bind_eq]
  induction p generalizing w with
  | pure b => cases h; rfl
  | exit n => cases h
  | look k ih => exact ih w h
  | mark m k ih => exact ih h
  | cmd c k ih => exact ih _ h

theorem eval_world {f : World ι → Prog ι β} : (Prog.world >>= f).eval B w = (f w).eval B w := rfl

theorem eval_note {m : ι} {f : Unit → Prog ι β} :
    (Prog.note m >>= f).eval B w = (f ()).eval B ⟨w.fs, .mark m :: w.log⟩ := rfl

theorem eval_run {c : Cmd ι} {f : Nat → Prog ι β} : (Prog.run c >>= f).eval B w =
    (f (B c w.fs).1).eval B ⟨(B c w.fs).2, c.events w.fs (B c w.fs).1 ++ w.log⟩ := rfl

theorem eval_run_ {c : Cmd ι} {f : Unit → Prog ι β} : (Prog.run_ c >>= f).eval B w =
    (f ()).eval B ⟨(B c w.fs).2, c.events w.fs (B c w.fs).1 ++ w.log⟩ := rfl

end eval

/-! ### Sober behaviour -/

/-- `mv -f a b`, `a` being a file with this content, where it can be done. -/
def moveFile (fs : Fs) (a b : Path) : Option String → Nat × Fs
  | some c => if a ≠ b ∧ (fs.write b c).get b = some (.file c) then (0, (fs.write b c).erase a) else (1, fs)
  | none => (1, fs)

def sober : Behaviour ι
  | .mkdirP p, fs => (0, fs.mkdirP p)
  | .write p s, fs => (if (fs.write p s).get p = some (.file s) then 0 else 1, fs.write p s)
  | .rmF p, fs => (0, if fs.isFile p then fs.erase p else fs)
  | .rmRf ps, fs => (0, fs.rmTrees ps)
  | .mv a b, fs => moveFile fs a b (fs.content a)
  | .tar _ _, fs | .patch _ _, fs | .cp _ _ _, fs | .ext _ _ _, fs => (1, fs)

theorem moveFile_moved (fs : Fs) (a b : Path) (x : Option String) :
    if (moveFile fs a b x).1 = 0 then Cmd.Moved fs (moveFile fs a b x).2 a b x else (moveFile fs a b x).2 = fs := by
  cases x with
  | none => exact rfl
  | some c =>
    unfold moveFile
    by_cases h : a ≠ b ∧ (fs.write b c).get b = some (.file c)
    · simp only [if_pos h]
      exact ⟨h.1, h.2, rfl⟩
    · simp [if_neg h]

theorem sober_follows : Follows T (sober : Behaviour ι) := by
  intro c fs
  cases c with
  | mkdirP p => exact ⟨rfl, rfl⟩
  | write p s =>
    refine ⟨rfl, ?_⟩
    show (if (fs.write p s).get p = some (.file s) then 0 else 1) = 0 ↔ (fs.write p s).get p = some (.file s)
    split <;> simp_all
  | rmF p => exact ⟨rfl, rfl⟩
  | rmRf ps => exact rfl
  | mv a b => exact moveFile_moved fs a b (fs.content a)
  | tar as dest =>
    show Cmd.PartUnpacked T fs fs dest _
    cases Cmd.archive fs as with
    | none => rfl
    | some x => exact Fs.Agree.refl _ _
  | patch dirs text => exact Fs.Agree.refl _ _
  | cp job src dst => exact Fs.Agree.refl _ _
  | ext job foot makes => exact ⟨Fs.Agree.refl _ _, fun h => absurd h Nat.one_ne_zero⟩

/-- `B`, but for one external program, which ends as `f` says. -/
def Behaviour.but [DecidableEq ι] (B : Behaviour ι) (job : ι) (foot makes : List Path) (f : Fs → Nat × Fs) :
    Behaviour ι
  | .ext j foot' makes', fs => if j = job ∧ foot' = foot ∧ makes' = makes then f fs else B (.ext j foot' makes') fs
  | c, fs => B c fs

section but
variable [DecidableEq ι] {B : Behaviour ι} {job : ι} {foot makes : List Path} {f : Fs → Nat × Fs}

theorem but_follows (hB : Follows T B) (hf : ∀ fs, (Cmd.ext job foot makes).Fin T fs (f fs).1 (f fs).2) :
    Follows T (B.but job foot makes f) := by
  intro c fs
  cases c with
  | ext j foot' makes' =>
    simp only [Behaviour.but]
    by_cases h : j = job ∧ foot' = foot ∧ makes' = makes
    · rw [if_pos h, h.1, h.2.1, h.2.2]
      exact hf fs
    · rw [if_neg h]
      exact hB _ fs
  | _ => exact hB _ fs

theorem but_self {fs : Fs} : B.but job foot makes f (.ext job foot makes) fs = f fs := if_pos ⟨rfl, rfl, rfl⟩

end but

/-- What `g` has for a command, where the semantics allows that, and `B` otherwise. -/
def Behaviour.trying (B : Behaviour ι) (T : Tools) (g : Cmd ι → Fs → Option (Nat × Fs)) : Behaviour ι := fun c fs =>
  match g c fs with
  | some r => if c.Fin T fs r.1 r.2 then r else B c fs
  | none => B c fs

theorem trying_follows {B : Behaviour ι} {g : Cmd ι → Fs → Option (Nat × Fs)} (hB : Follows T B) :
    Follows T (B.trying T g) := by
  intro c fs
  unfold Behaviour.trying
  split
  · split
    · assumption
    · exact hB c fs
  · exact hB c fs

/-- Every command has its usual effect where it can, and the external programs succeed. -/
def able (T : Tools) : Behaviour ι := sober.trying T fun c fs => some (0, c.outcome T fs 0)

/-- `f` holds of what the run under `B` comes to. -/
def evalAny (B : Behaviour ι) (p : Prog ι α) (w : World ι) (f : Prog ι α → World ι → Bool) : Bool :=
  match p.eval B w with
  | (r, w') => f (.ofEnd r) w'

theorem reach_of_evalAny {B : Behaviour ι} (hB : Follows T B) {p : Prog ι α} {w : World ι}
    {f : Prog ι α → World ι → Bool} (h : evalAny B p w f = true) :
    ∃ p' w', Reach T Alone (p, w) (p', w') ∧ f p' w' = true :=
  ⟨_, _, (runs_eval hB p w).reach, h⟩

/-- A file, with the directories above it. -/
def Fs.place (fs : Fs) (p : Path) (c : String) : Fs := (fs.mkdirP p.dropLast).write p c

end Shell
