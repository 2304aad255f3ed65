import BuildQt5.Shell.Frame

/-!
# Programs that report before they give up

`p.Tidy P M err code`: every command of `p` satisfies `P` and every label `M`, and `p` gives up in one way
only: it looks at the log, records `err` of it and exits with `code`. `Composed` is the same for a program
that calls procedures of a set `D` besides. An assertion that the commands, the labels and the procedures
keep is kept by the whole program, and a run that gives up has reported (`Composed.safe`).
-/

namespace Shell

variable {ι α β γ : Type}

namespace Prog

def Tidy (P : Cmd ι → Prop) (M : ι → Prop) (err : List (Event ι) → ι) (code : Nat) : Prog ι α → Prop
  | .pure _ => True
  | .exit _ => False
  | .look k => (∀ w, k w = .mark (err w.log) (.exit code)) ∨ ∀ w, (k w).Tidy P M err code
  | .mark m k => M m ∧ k.Tidy P M err code
  | .cmd c k => P c ∧ ∀ n, (k n).Tidy P M err code

variable {P P' : Cmd ι → Prop} {M M' : ι → Prop} {err : List (Event ι) → ι} {code : Nat} {p : Prog ι α}

theorem Tidy.bind {f : α → Prog ι β} (h : p.Tidy P M err code) (hf : ∀ a, (f a).Tidy P M err code) :
    (p >>= f).Tidy P M err code := by
  rw [bind_eq]
  induction p with
  | pure a => exact hf a
  | exit n => exact h.elim
  | look k ih =>
    rcases h with h | h
    · exact .inl fun w => congrArg (Prog.bind f) (h w)
    · exact .inr fun w => ih w (h w)
  | mark m k ih => exact ⟨h.1, ih h.2⟩
  | cmd c k ih => exact ⟨h.1, fun n => ih n (h.2 n)⟩

theorem Tidy.mono (h : p.Tidy P M err code) (hP : ∀ c, P c → P' c) (hM : ∀ m, M m → M' m) :
    p.Tidy P' M' err code := by
  induction p with
  | pure a => trivial
  | exit n => exact h.elim
  | look k ih => exact h.imp (fun h => h) fun h w => ih w (h w)
  | mark m k ih => exact ⟨hM m h.1, ih h.2⟩
  | cmd c k ih => exact ⟨hP c h.1, fun n => ih n (h.2 n)⟩

@[simp] theorem tidy_pure {a : α} : (Pure.pure a : Prog ι α).Tidy P M err code ↔ True := Iff.rfl

@[simp] theorem tidy_world : (world : Prog ι (World ι)).Tidy P M err code ↔ True :=
  ⟨fun _ => trivial, fun _ => .inr fun _ => trivial⟩

@[simp] theorem tidy_note {m : ι} : (note m).Tidy P M err code ↔ M m := ⟨fun h => h.1, fun h => ⟨h, trivial⟩⟩

@[simp] theorem tidy_run {c : Cmd ι} : (run c).Tidy P M err code ↔ P c :=
  ⟨fun h => h.1, fun h => ⟨h, fun _ => trivial⟩⟩

@[simp] theorem tidy_run_ {c : Cmd ι} : (run_ c).Tidy P M err code ↔ P c :=
  ⟨fun h => h.1, fun h => ⟨h, fun _ => trivial⟩⟩

theorem tidy_ite {c : Prop} [Decidable c] {p q : Prog ι α} (hp : c → p.Tidy P M err code)
    (hq : ¬ c → q.Tidy P M err code) : (if c then p else q).Tidy P M err code := by
  split
  · exact hp ‹_›
  · exact hq ‹_›

theorem tidy_ifThen {c : Bool} {p : Prog ι Unit} (hp : c = true → p.Tidy P M err code) :
    (ifThen c p).Tidy P M err code := tidy_ite hp fun _ => trivial

theorem tidy_forEach {f : β → Prog ι Unit} {xs : List β} (h : ∀ x ∈ xs, (f x).Tidy P M err code) :
    (forEach f xs).Tidy P M err code := by
  induction xs with
  | nil => trivial
  | cons x xs ih => exact (h x (by simp)).bind fun _ => ih fun y hy => h y (by simp [hy])

/-! ### Programs with procedures -/

/-- `p` is put together from tidy parts and procedures of `D`. -/
inductive Composed (P : Cmd ι → Prop) (M : ι → Prop) (err : List (Event ι) → ι) (code : Nat)
    (D : Prog ι γ → Prop) : {α : Type} → Prog ι α → Prop
  | tidy {α : Type} {p : Prog ι α} (h : p.Tidy P M err code) : Composed P M err code D p
  | call {p : Prog ι γ} (h : D p) : Composed P M err code D p
  | bind {α β : Type} {p : Prog ι α} {f : α → Prog ι β} (h : Composed P M err code D p)
      (hf : ∀ a, Composed P M err code D (f a)) : Composed P M err code D (p >>= f)

variable {D : Prog ι γ → Prop}

theorem composed_ite {c : Prop} [Decidable c] {p q : Prog ι α} (hp : c → p.Composed P M err code D)
    (hq : ¬ c → q.Composed P M err code D) : (if c then p else q).Composed P M err code D := by
  split
  · exact hp ‹_›
  · exact hq ‹_›

theorem composed_forEach {f : β → Prog ι Unit} {xs : List β} (h : ∀ x ∈ xs, (f x).Composed P M err code D) :
    (forEach f xs).Composed P M err code D := by
  induction xs with
  | nil => exact .tidy trivial
  | cons x xs ih => exact (h x (by simp)).bind fun _ => ih fun y hy => h y (by simp [hy])

/-- A program whose procedures are tidy is tidy. -/
theorem Composed.to_tidy (h : p.Composed P M err code D) (hP : ∀ c, P c → P' c) (hM : ∀ m, M m → M' m)
    (hD : ∀ q, D q → q.Tidy P' M' err code) : p.Tidy P' M' err code := by
  induction h with
  | tidy h => exact h.mono hP hM
  | call h => exact hD _ h
  | bind _ _ ih ihf => exact ih.bind ihf

end Prog

/-! ### What a run keeps -/

/-- The newest line of the log is the report of a failure. -/
def Reported (err : List (Event ι) → ι) (w : World ι) : Prop := ∃ l, w.log = .mark (err l) :: l

section safe
variable {T : Tools} {P : Cmd ι → Prop} {M : ι → Prop} {err : List (Event ι) → ι} {code : Nat}
  {I : World ι → Prop} {p : Prog ι α} {w : World ι} (hP : ∀ c, P c → c.Preserves T I)
  (hM : ∀ m w, M m → I w → I ⟨w.fs, .mark m :: w.log⟩) (herr : ∀ w, I w → I ⟨w.fs, .mark (err w.log) :: w.log⟩)
include hP hM herr

theorem Safe.of_tidy (hp : p.Tidy P M err code) (hw : I w) :
    Safe T Alone I (fun _ => I) (fun n v => n = code ∧ Reported err v ∧ I v) p w := by
  induction p generalizing w with
  | pure a => exact safe_pure.2 ⟨hw, hw⟩
  | exit n => exact hp.elim
  | look k ih =>
    refine safe_look.2 ⟨hw, ?_⟩
    rcases hp with hp | hp
    · rw [hp w]
      exact safe_mark.2 ⟨hw, safe_exit.2 ⟨herr w hw, rfl, ⟨w.log, rfl⟩, herr w hw⟩⟩
    · exact ih w (hp w) hw
  | mark m k ih => exact safe_mark.2 ⟨hw, ih hp.2 (hM m w hp.1 hw)⟩
  | cmd c k ih =>
    exact safe_busy I hw (fun _ h => h) (fun v v' hv hm => (hP c hp.1).1 v v' hv hm)
      fun v n v' hv hf => ih n (hp.2 n) ((hP c hp.1).2 v n v' hv hf)

theorem Prog.Composed.safe {D : Prog ι γ → Prop} (hp : p.Composed P M err code D)
    (hD : ∀ q, D q → ∀ w, I w → Safe T Alone I (fun _ => I) (fun n v => n = code ∧ Reported err v ∧ I v) q w)
    (hw : I w) : Safe T Alone I (fun _ => I) (fun n v => n = code ∧ Reported err v ∧ I v) p w := by
  induction hp generalizing w with
  | tidy h => exact Safe.of_tidy hP hM herr h hw
  | call h => exact hD _ h w hw
  | bind _ _ ih ihf => exact safe_bind ((ih hw).mono (fun _ h => h) (fun a v hv => ihf a hv) fun _ _ h => h)

end safe

end Shell
