import BuildQt5.Shell.Tidy

/-!
# What holds at a command

`Guarded T G Q p w`: along every run of `p` from `w`, `G c` holds wherever the run is at the command `c`, before
its work and in the middle of it, and `Q` when `p` ends. It goes through `bind` (`guarded_bind`), takes what a
pre- and postcondition proves beside it (`Guarded.and`), and is kept by every step, so it says what it should
about every command a run is at (`Guarded.at_cmd`). Of a program put together from procedures only the
procedures are to be looked at (`guarded_of_composed`).
-/

namespace Shell
open Relation

variable {ι α β γ : Type} {T : Tools} {G : Cmd ι → World ι → Prop}

def Guarded (T : Tools) (G : Cmd ι → World ι → Prop) (Q : α → World ι → Prop) : Prog ι α → World ι → Prop
  | .pure a, w => Q a w
  | .exit _, _ => True
  | .look k, w => Guarded T G Q (k w) w
  | .mark m k, w => Guarded T G Q k ⟨w.fs, .mark m :: w.log⟩
  | .cmd c k, w => ∀ w', Busy T Alone c w w' → G c w' ∧ ∀ n w'', c.FinW T w' n w'' → Guarded T G Q (k n) w''

namespace Guarded
variable {Q Q' : α → World ι → Prop} {p : Prog ι α} {w : World ι}

theorem step {c c' : Prog ι α × World ι} (h : Guarded T G Q c.1 c.2) (hs : Step T Alone c c') :
    Guarded T G Q c'.1 c'.2 := by
  cases hs with
  | look => exact h
  | mark => exact h
  | mid hm => exact fun v hv => h v (.head (.inr hm) hv)
  | fin hf => exact (h _ .refl).2 _ _ hf
  | other hR => exact hR.elim

theorem reach {c c' : Prog ι α × World ι} (h : Guarded T G Q c.1 c.2) (hr : Reach T Alone c c') :
    Guarded T G Q c'.1 c'.2 := by
  induction hr with
  | refl => exact h
  | tail _ hs ih => exact ih.step hs

/-- Wherever a run is at a command, its guard holds. -/
theorem at_cmd {c : Cmd ι} {k : Nat → Prog ι α} {w' : World ι} (h : Guarded T G Q p w)
    (hr : Reach T Alone (p, w) (.cmd c k, w')) : G c w' := (h.reach hr w' .refl).1

theorem mono (h : Guarded T G Q p w) (hQ : ∀ a w, Q a w → Q' a w) : Guarded T G Q' p w := by
  induction p generalizing w with
  | pure a => exact hQ a w h
  | exit n => trivial
  | look k ih => exact ih w h
  | mark m k ih => exact ih h
  | cmd c k ih => exact fun v hv => ⟨(h v hv).1, fun n v' hf => ih n ((h v hv).2 n v' hf)⟩

/-- What a postcondition says beside it. -/
theorem and {I : World ι → Prop} {X : Nat → World ι → Prop} (h : Guarded T G Q p w) (hs : Safe T Alone I Q' X p w) :
    Guarded T G (fun a v => Q a v ∧ Q' a v) p w := by
  induction p generalizing w with
  | pure a => exact ⟨h, hs.of_pure⟩
  | exit n => trivial
  | look k ih => exact ih w h (safe_look.1 hs).2
  | mark m k ih => exact ih h (safe_mark.1 hs).2
  | cmd c k ih => exact fun v hv => ⟨(h v hv).1, fun n v' hf => ih n ((h v hv).2 n v' hf) ((hs v hv).2 n v' hf)⟩

end Guarded

/-- A crash condition that implies the guards. -/
theorem Safe.guarded {I : World ι → Prop} {Q : α → World ι → Prop} {X : Nat → World ι → Prop} {p : Prog ι α}
    {w : World ι} (h : Safe T Alone I Q X p w) (hI : ∀ c w, I w → G c w) : Guarded T G Q p w := by
  induction p generalizing w with
  | pure a => exact h.of_pure
  | exit n => trivial
  | look k ih => exact ih w (safe_look.1 h).2
  | mark m k ih => exact ih (safe_mark.1 h).2
  | cmd c k ih => exact fun v hv => ⟨hI c v (h v hv).1, fun n v' hf => ih n ((h v hv).2 n v' hf)⟩

section rules
variable {Q : β → World ι → Prop} {w : World ι}

theorem guarded_bind {p : Prog ι α} {f : α → Prog ι β} (h : Guarded T G (fun a v => Guarded T G Q (f a) v) p w) :
    Guarded T G Q (p >>= f) w := by
  rw [Prog.bind_eq]
  induction p generalizing w with
  | pure a => exact h
  | exit n => trivial
  | look k ih => exact ih w h
  | mark m k ih => exact ih h
  | cmd c k ih => exact fun v hv => ⟨(h v hv).1, fun n v' hf => ih n ((h v hv).2 n v' hf)⟩

theorem guarded_world {Q : World ι → World ι → Prop} : Guarded T G Q Prog.world w ↔ Q w w := Iff.rfl

theorem guarded_note {m : ι} {Q : Unit → World ι → Prop} :
    Guarded T G Q (Prog.note m) w ↔ Q () ⟨w.fs, .mark m :: w.log⟩ := Iff.rfl

theorem guarded_ite {c : Prop} [Decidable c] {p q : Prog ι β} (hp : c → Guarded T G Q p w)
    (hq : ¬ c → Guarded T G Q q w) : Guarded T G Q (if c then p else q) w := by
  split
  · exact hp ‹_›
  · exact hq ‹_›

/-- A command, by an assertion that its work keeps. -/
theorem guarded_run {c : Cmd ι} (J : World ι → Prop) (hJ : J w) (hmid : ∀ v v', J v → c.MidW T v v' → J v')
    (hG : ∀ v, J v → G c v) : Guarded T G (fun n v' => ∃ v, J v ∧ c.FinW T v n v') (Prog.run c) w := by
  intro v hv
  have hJv : J v := by
    induction hv with
    | refl => exact hJ
    | tail _ h ih =>
      rcases h with h | h
      · exact h.elim
      · exact hmid _ _ ih h
  exact ⟨hG v hJv, fun n v' hf => ⟨v, hJv, hf⟩⟩

end rules

/-! ### Programs without guarded commands -/

section parts
variable {P : Cmd ι → Prop} {M : ι → Prop} {err : List (Event ι) → ι} {code : Nat} {p : Prog ι α} {w : World ι}
  (hP : ∀ c w, P c → G c w)
include hP

theorem guarded_of_all (h : p.All P M) : Guarded T G (fun _ _ => True) p w := by
  induction p generalizing w with
  | pure a => trivial
  | exit n => trivial
  | look k ih => exact ih w (h w)
  | mark m k ih => exact ih h.2
  | cmd c k ih => exact fun v _ => ⟨hP c v h.1, fun n v' _ => ih n (h.2 n)⟩

theorem guarded_of_tidy (h : p.Tidy P M err code) : Guarded T G (fun _ _ => True) p w := by
  induction p generalizing w with
  | pure a => trivial
  | exit n => trivial
  | look k ih =>
    rcases h with h | h
    · rw [Guarded, h w]; trivial
    · exact ih w (h w)
  | mark m k ih => exact ih h.2
  | cmd c k ih => exact fun v _ => ⟨hP c v h.1, fun n v' _ => ih n (h.2 n)⟩

/-- The guards hold in a program when they hold in its procedures. -/
theorem guarded_of_composed {D : Prog ι γ → Prop} (h : p.Composed P M err code D)
    (hD : ∀ q, D q → ∀ w, Guarded T G (fun _ _ => True) q w) : Guarded T G (fun _ _ => True) p w := by
  induction h generalizing w with
  | tidy h => exact guarded_of_tidy hP h
  | call h => exact hD _ h w
  | bind _ _ ih ihf => exact guarded_bind (ih.mono fun a v _ => ihf a)

end parts

end Shell
