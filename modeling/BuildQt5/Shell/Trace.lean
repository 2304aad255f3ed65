import BuildQt5.Shell.Logic

/-!
# The programs a run executes

`ran` is what a log says about the external programs: each run of one with its exit code, newest
first. What every run of a program executes is said with `Safe` (`safe_job`, `safe_silent`). What some
run executes is said with `CanRun α g p b js`: on a file system that looks like `g`, `p` can return `b`
having executed exactly `js`, with the exit codes `α` and nothing changed.
-/

namespace Shell
open Relation

variable {ι β γ : Type} {T : Tools} {R : World ι → World ι → Prop}

def ran (log : List (Event ι)) : List (ι × Nat) :=
  log.filterMap fun e => match e with
    | .ran j n => some (j, n)
    | _ => none

theorem ran_append (l l' : List (Event ι)) : ran (l ++ l') = ran l ++ ran l' := List.filterMap_append

@[simp] theorem ran_mark (m : ι) (l : List (Event ι)) : ran (.mark m :: l) = ran l := rfl

theorem ran_removed (ps : List Path) : ran (ps.map fun p => (.removed p : Event ι)) = [] := by
  induction ps with
  | nil => rfl
  | cons p ps ih => exact ih

namespace Cmd

/-- The external program a command is a run of. -/
def job : Cmd ι → Option ι
  | .cp job _ _ | .ext job _ _ => some job
  | _ => none

theorem ran_events {c : Cmd ι} {fs : Fs} {n : Nat} : ran (c.events fs n) = (c.job.map fun j => (j, n)).toList := by
  cases c with
  | mkdirP p => simp only [events]; split <;> rfl
  | write p s => simp only [events]; split <;> rfl
  | rmF p => simp only [events]; split <;> rfl
  | rmRf ps =>
    simp only [events]
    split
    · exact ran_removed _
    · rfl
  | mv a b => simp only [events]; split <;> rfl
  | tar as dest =>
    simp only [events]
    split
    · cases archive fs as <;> rfl
    · rfl
  | _ => rfl

theorem ran_fin {c : Cmd ι} {w w' : World ι} {n : Nat} (h : c.FinW T w n w') :
    ran w'.log = (c.job.map fun j => (j, n)).toList ++ ran w.log := by
  rw [h.2, ran_append, ran_events]

theorem ran_mid {c : Cmd ι} {w w' : World ι} (h : c.MidW T w w') : ran w'.log = ran w.log := by
  obtain ⟨evs, h, hl⟩ := h
  obtain ⟨fs', log'⟩ := w'
  rw [hl, ran_append]
  cases h <;> rfl

end Cmd

/-! ### What every run executes -/

theorem safe_job {c : Cmd ι} {j : ι} {w : World ι} {X : Nat → World ι → Prop} (hc : c.job = some j) :
    Safe T Alone (fun _ => True) (fun n w' => ran w'.log = (j, n) :: ran w.log) X (Prog.run c) w := by
  refine safe_busy (fun v => ran v.log = ran w.log) rfl (fun _ _ => trivial)
    (fun v v' hv hm => (Cmd.ran_mid hm).trans hv) fun v n v' hv hf => safe_pure.2 ⟨trivial, ?_⟩
  rw [Cmd.ran_fin hf, hc, hv]
  rfl

theorem safe_job_ {c : Cmd ι} {j : ι} {w : World ι} {X : Nat → World ι → Prop} (hc : c.job = some j) :
    Safe T Alone (fun _ => True) (fun _ w' => ∃ n, ran w'.log = (j, n) :: ran w.log) X (Prog.run_ c) w :=
  safe_bind (f := fun _ => .pure ()) ((safe_job hc).mono (fun _ h => h) (fun n _ hv => safe_pure.2 ⟨trivial, n, hv⟩)
    fun _ _ h => h)

theorem safe_silent {c : Cmd ι} {w : World ι} {X : Nat → World ι → Prop} (hc : c.job = none) :
    Safe T Alone (fun _ => True) (fun _ w' => ran w'.log = ran w.log) X (Prog.run c) w := by
  refine safe_busy (fun v => ran v.log = ran w.log) rfl (fun _ _ => trivial)
    (fun v v' hv hm => (Cmd.ran_mid hm).trans hv) fun v n v' hv hf => safe_pure.2 ⟨trivial, ?_⟩
  rw [Cmd.ran_fin hf, hc, hv]
  rfl

/-! ### What some run executes -/

theorem Step.bind {p p' : Prog ι β} {w w' : World ι} (f : β → Prog ι γ) (h : Step T R (p, w) (p', w')) :
    Step T R (p >>= f, w) (p' >>= f, w') := by
  cases h with
  | look => exact .look
  | mark => exact .mark
  | mid hm => exact .mid hm
  | fin hf => exact .fin hf
  | other hR => exact .other hR

theorem Reach.bind {p p' : Prog ι β} {w w' : World ι} (f : β → Prog ι γ) (h : Reach T R (p, w) (p', w')) :
    Reach T R (p >>= f, w) (p' >>= f, w') := by
  refine ReflTransGen.lift (fun c : Prog ι β × World ι => (c.1 >>= f, c.2)) (fun a b hab => ?_) _ _ h
  exact Step.bind f hab

def CanRun (T : Tools) (α : ι → Nat) (g : Path → Option Node) (p : Prog ι β) (b : β) (js : List ι) : Prop :=
  ∀ w : World ι, w.fs.get = g → ∃ w', Reach T Alone (p, w) (.pure b, w') ∧ w'.fs.get = g ∧
    ran w'.log = js.map (fun j => (j, α j)) ++ ran w.log

section canRun
variable {α : ι → Nat} {g : Path → Option Node} {p : Prog ι β} {a : β} {b : γ} {js js' : List ι}

theorem canRun_pure : CanRun T α g (.pure b : Prog ι γ) b [] := fun w hw => ⟨w, .refl, hw, rfl⟩

theorem CanRun.bind {f : β → Prog ι γ} {js'' : List ι} (hp : CanRun T α g p a js) (hf : CanRun T α g (f a) b js')
    (hjs : js'' = js' ++ js) : CanRun T α g (p >>= f) b js'' := by
  intro w hw
  obtain ⟨v, hr, hv, hl⟩ := hp w hw
  obtain ⟨v', hr', hv', hl'⟩ := hf v hv
  refine ⟨v', (hr.bind f).trans hr', hv', ?_⟩
  rw [hl', hl, hjs, List.map_append, List.append_assoc]

theorem canRun_note {m : ι} : CanRun T α g (Prog.note m) () [] := fun w hw =>
  ⟨⟨w.fs, .mark m :: w.log⟩, .single .mark, hw, rfl⟩

theorem canRun_world {f : World ι → Prog ι γ} (h : ∀ w, w.fs.get = g → CanRun T α g (f w) b js) :
    CanRun T α g (Prog.world >>= f) b js := by
  intro w hw
  obtain ⟨v, hr, hv⟩ := h w hw w hw
  exact ⟨v, .head .look hr, hv⟩

/-- A command that can end with this exit code and leave everything as it is. -/
def Cmd.Idle (T : Tools) (g : Path → Option Node) (c : Cmd ι) (n : Nat) : Prop :=
  ∀ fs : Fs, fs.get = g → ∃ fs', c.Fin T fs n fs' ∧ fs'.get = g

theorem canRun_job {c : Cmd ι} {j : ι} {k : Nat → Prog ι γ} (hc : c.job = some j) (hi : c.Idle T g (α j))
    (hk : CanRun T α g (k (α j)) b js) : CanRun T α g (.cmd c k) b (js ++ [j]) := by
  intro w hw
  obtain ⟨fs', hf, hg⟩ := hi w.fs hw
  obtain ⟨v, hr, hv, hl⟩ := hk ⟨fs', c.events w.fs (α j) ++ w.log⟩ hg
  refine ⟨v, .head (.fin ⟨hf, rfl⟩) hr, hv, ?_⟩
  rw [hl, ran_append, Cmd.ran_events, hc]
  simp

theorem canRun_run {c : Cmd ι} {j : ι} (hc : c.job = some j) (hi : c.Idle T g (α j)) :
    CanRun T α g (Prog.run c) (α j) [j] := canRun_job hc hi canRun_pure

theorem canRun_mkdirP {q : Path} (hq : g q = some .dir) : CanRun T α g (Prog.run_ (.mkdirP q)) () [] := by
  intro w hw
  refine ⟨⟨w.fs.mkdirP q, (Cmd.mkdirP q).events w.fs 0 ++ w.log⟩, .single (.fin ⟨⟨rfl, rfl⟩, rfl⟩), ?_, ?_⟩
  · funext r
    rcases @Fs.get_mkdirP w.fs q r with h | ⟨h, -, hpre⟩
    · rw [h, hw]
    · rw [← hw] at hq
      by_cases hr : r = q
      · rw [hr, hq] at h; cases h
      · rw [Fs.get_above (by simp [hq]) hpre hr] at h; cases h
  · rw [ran_append, Cmd.ran_events]
    rfl

theorem canRun_forEach {δ : Type} {f : δ → Prog ι Unit} {jobs : δ → List ι} (xs : List δ)
    (h : ∀ x ∈ xs, CanRun T α g (f x) () (jobs x)) :
    CanRun T α g (Prog.forEach f xs) () (xs.reverse.flatMap jobs) := by
  induction xs with
  | nil => exact canRun_pure
  | cons x xs ih =>
    rw [List.reverse_cons, List.flatMap_append, List.flatMap_singleton]
    exact (h x (by simp)).bind (ih fun y hy => h y (by simp [hy])) rfl

theorem idle_ext {j : ι} {foot makes : List Path} {n : Nat} (hm : ∀ q ∈ makes, g q = some .dir) :
    (Cmd.ext j foot makes).Idle T g n := fun fs hfs =>
  ⟨fs, ⟨Fs.Agree.refl _ _, fun _ q hq => by rw [hfs, hm q hq]⟩, hfs⟩

/-- A copy of a file that is there already. -/
theorem idle_cp_file {j : ι} {src dst : Path} {c : String} {n : Nat} (hs : g src = some (.file c))
    (hd : g dst = some (.file c)) : (Cmd.cp j src dst).Idle T g n := by
  intro fs hfs
  by_cases hn : n = 0
  · have hdir : fs.get dst.dropLast = some .dir := Fs.get_dropLast (by simp [hfs, hd])
    have hw : ∀ q, (fs.write dst c).get q = fs.get q := by
      intro q
      rw [Fs.get_write]
      split
      · rename_i h
        rw [h.1, hfs, hd]
      · rfl
    refine ⟨fs.write dst c, ?_, by funext q; rw [hw, hfs]⟩
    have hcopied : Cmd.Copied fs (fs.write dst c) src dst (some (.file c)) := ⟨by rw [hw, hfs, hd], rfl⟩
    simpa only [Cmd.Fin, if_pos hn, hfs, hs] using hcopied
  · exact ⟨fs, by simp only [Cmd.Fin, if_neg hn]; exact Fs.Agree.refl _ _, hfs⟩

/-- A copy of a tree that is there already. -/
theorem idle_cp_dir {j : ι} {src dst : Path} {n : Nat} (hs : g src = some .dir)
    (hd : ∀ r, g (dst ++ r) = g (src ++ r)) : (Cmd.cp j src dst).Idle T g n := by
  intro fs hfs
  refine ⟨fs, ?_, hfs⟩
  by_cases hn : n = 0
  · have hdst : fs.get dst = some .dir := by
      have := hd []
      rw [List.append_nil, List.append_nil] at this
      rw [hfs, this, hs]
    simp only [Cmd.Fin, if_pos hn, hfs, hs, Cmd.Copied]
    refine ⟨by rw [← hfs]; exact Fs.get_dropLast (by simp [hdst]), Fs.Agree.refl _ _, ?_, ?_, ?_, ?_⟩
    · rintro e he ⟨r, hr⟩
      rw [← hr, List.drop_left, hd]
      rcases g (src ++ r) with _ | _ | c <;> rfl
    · rintro e he ⟨r, hr⟩
      rw [← hr, List.drop_left, hd]
      cases g (src ++ r) <;> rfl
    · rintro e he ⟨r, hr⟩
      rw [← hr, List.drop_left, hd]
    · rintro ⟨q, m⟩ he -
      rw [← hfs]
      exact Fs.get_of_mem he
  · simp only [Cmd.Fin, if_neg hn]
    exact Fs.Agree.refl _ _

end canRun

end Shell
