import BuildQt5.Shell.Frame

/-!
# Among other processes

`Safe` for a program that is not alone. An assertion that the others cannot spoil is `Stable`; with
stable assertions between the commands, the rules are those of a program alone (`Triple`). Two programs
on one file system are a `Pair`, whose runs interleave theirs step by step; what is proved of one of them
among processes that do no more than the other one does holds in every run of the pair (`Pair.reach_left`).
-/

namespace Shell
open Relation

variable {ι α β : Type} {T : Tools} {R : World ι → World ι → Prop}

def Stable (R : World ι → World ι → Prop) (A : World ι → Prop) : Prop := ∀ v v', A v → R v v' → A v'

theorem Stable.star {A : World ι → Prop} (h : Stable R A) {v v' : World ι} (hv : A v)
    (hr : ReflTransGen R v v') : A v' := by
  induction hr with
  | refl => exact hv
  | tail _ hs ih => exact h _ _ ih hs

/-- `A` is an assertion to stop at: the others keep it, and the crash condition holds there. -/
structure Firm (R : World ι → World ι → Prop) (I A : World ι → Prop) : Prop where
  stable : Stable R A
  crash : ∀ v, A v → I v

theorem Firm.or {I A B : World ι → Prop} (hA : Firm R I A) (hB : Firm R I B) : Firm R I fun v => A v ∨ B v :=
  ⟨fun v v' h hr => h.imp (fun h => hA.stable v v' h hr) fun h => hB.stable v v' h hr,
    fun v h => h.elim (hA.crash v) (hB.crash v)⟩

theorem Firm.of_imp {I A : World ι → Prop} {P : Prop} (hA : P → Firm R I A) : Firm R I fun v => P ∧ A v :=
  ⟨fun v v' h hr => ⟨h.1, (hA h.1).stable v v' h.2 hr⟩, fun v h => (hA h.1).crash v h.2⟩

theorem Firm.exists {I : World ι → Prop} {A : β → World ι → Prop} (hA : ∀ b, Firm R I (A b)) :
    Firm R I fun v => ∃ b, A b v :=
  ⟨fun v v' ⟨b, h⟩ hr => ⟨b, (hA b).stable v v' h hr⟩, fun v ⟨b, h⟩ => (hA b).crash v h⟩

/-- From `A`, along every run of `p` among processes that do `R`, the crash condition `I` holds and `Q` at
the end; nothing is asked of a run that gives up. -/
def Triple (T : Tools) (R : World ι → World ι → Prop) (I A : World ι → Prop) (p : Prog ι α)
    (Q : α → World ι → Prop) : Prop :=
  ∀ w, A w → Safe T R I Q (fun _ _ => True) p w

section rules
variable {I A : World ι → Prop} {Q : α → World ι → Prop}

theorem Triple.bind {p : Prog ι β} {f : β → Prog ι α} {B : β → World ι → Prop} (hp : Triple T R I A p B)
    (hf : ∀ b, Triple T R I (B b) (f b) Q) : Triple T R I A (p >>= f) Q := fun w hw =>
  safe_bind ((hp w hw).mono (fun _ h => h) (fun b v h => hf b v h) fun _ _ h => h)

theorem Triple.mono {p : Prog ι α} {A' : World ι → Prop} {Q' : α → World ι → Prop} (h : Triple T R I A p Q)
    (hA : ∀ v, A' v → A v) (hQ : ∀ a v, Q a v → Q' a v) : Triple T R I A' p Q' := fun w hw =>
  (h w (hA w hw)).mono (fun _ h => h) hQ fun _ _ h => h

theorem triple_pure {a : α} (hA : Firm R I A) (h : ∀ v, A v → Q a v) : Triple T R I A (pure a) Q :=
  fun _ hw v hv => ⟨hA.crash v (hA.stable.star hw hv), h v (hA.stable.star hw hv)⟩

theorem triple_exit {n : Nat} (hA : Firm R I A) : Triple T R I A (.exit n) Q :=
  fun _ hw v hv => ⟨hA.crash v (hA.stable.star hw hv), trivial⟩

/-- A test sees a state of its own time, not of the time its answer is used. -/
theorem triple_world {B : World ι → World ι → Prop} (hA : Firm R I A) (hB : ∀ x, A x → Firm R I (B x))
    (h : ∀ x, A x → B x x) : Triple T R I A Prog.world B := by
  intro w hw x hx
  have hAx := hA.stable.star hw hx
  exact ⟨hA.crash x hAx, fun v hv => ⟨(hB x hAx).crash v ((hB x hAx).stable.star (h x hAx) hv),
    (hB x hAx).stable.star (h x hAx) hv⟩⟩

theorem triple_note {m : ι} {B : World ι → Prop} (hA : Firm R I A) (hB : Firm R I B)
    (h : ∀ v, A v → B ⟨v.fs, .mark m :: v.log⟩) : Triple T R I A (Prog.note m) fun _ => B := by
  intro w hw v hv
  have hAv := hA.stable.star hw hv
  exact ⟨hA.crash v hAv, fun v' hv' => ⟨hB.crash v' (hB.stable.star (h v hAv) hv'), hB.stable.star (h v hAv) hv'⟩⟩

theorem triple_cmd {c : Cmd ι} {k : Nat → Prog ι α} {B : Nat → World ι → Prop} (hA : Firm R I A)
    (hmid : ∀ v v', A v → c.MidW T v v' → A v') (hfin : ∀ v n v', A v → c.FinW T v n v' → B n v')
    (hk : ∀ n, Triple T R I (B n) (k n) Q) : Triple T R I A (.cmd c k) Q := by
  intro w hw v hv
  have hAv : A v := by
    induction hv with
    | refl => exact hw
    | tail _ h ih => exact h.elim (hA.stable _ _ ih) (hmid _ _ ih)
  exact ⟨hA.crash v hAv, fun n v' hf => hk n v' (hfin v n v' hAv hf)⟩

theorem triple_run {c : Cmd ι} {B : Nat → World ι → Prop} (hA : Firm R I A) (hB : ∀ n, Firm R I (B n))
    (hmid : ∀ v v', A v → c.MidW T v v' → A v') (hfin : ∀ v n v', A v → c.FinW T v n v' → B n v') :
    Triple T R I A (Prog.run c) B :=
  triple_cmd hA hmid hfin fun n => triple_pure (hB n) fun _ h => h

theorem triple_run_ {c : Cmd ι} {B : World ι → Prop} (hA : Firm R I A) (hB : Firm R I B)
    (hmid : ∀ v v', A v → c.MidW T v v' → A v') (hfin : ∀ v n v', A v → c.FinW T v n v' → B v') :
    Triple T R I A (Prog.run_ c) fun _ => B :=
  triple_cmd hA hmid hfin fun _ => triple_pure hB fun _ h => h

/-- A command that is never in the middle of its work. -/
theorem triple_atomic {c : Cmd ι} {B : World ι → Prop} (hc : c.Atomic) (hA : Firm R I A) (hB : Firm R I B)
    (hfin : ∀ v n v', A v → c.FinW T v n v' → B v') : Triple T R I A (Prog.run_ c) fun _ => B :=
  triple_run_ hA hB (fun _ _ _ ⟨_, hm, _⟩ => (hc.not_mid hm).elim) hfin

theorem triple_ite {c : Prop} [Decidable c] {p q : Prog ι α} (hp : c → Triple T R I A p Q)
    (hq : ¬ c → Triple T R I A q Q) : Triple T R I A (if c then p else q) Q := by
  split
  · exact hp ‹_›
  · exact hq ‹_›

theorem triple_forEach {f : β → Prog ι Unit} {xs : List β} (hA : Firm R I A)
    (hf : ∀ x ∈ xs, Triple T R I A (f x) fun _ => A) : Triple T R I A (Prog.forEach f xs) fun _ => A := by
  induction xs with
  | nil => exact triple_pure hA fun _ h => h
  | cons x xs ih => exact (hf x (by simp)).bind fun _ => ih fun y hy => hf y (by simp [hy])

/-- A program whose commands and labels all keep an assertion keeps it. -/
theorem triple_of_all {P : Cmd ι → Prop} {M : ι → Prop} {p : Prog ι α} (hA : Firm R I A)
    (hP : ∀ c, P c → c.Preserves T A) (hM : ∀ m w, M m → A w → A ⟨w.fs, .mark m :: w.log⟩)
    (hp : p.All P M) : Triple T R I A p fun _ => A := by
  induction p with
  | pure a => exact triple_pure hA fun _ h => h
  | exit n => exact triple_exit hA
  | look k ih =>
    intro w hw v hv
    have hAv := hA.stable.star hw hv
    exact ⟨hA.crash v hAv, ih v (hp v) v hAv⟩
  | mark m k ih =>
    intro w hw v hv
    have hAv := hA.stable.star hw hv
    exact ⟨hA.crash v hAv, ih hp.2 _ (hM m v hp.1 hAv)⟩
  | cmd c k ih =>
    exact triple_cmd hA (hP c hp.1).1 (fun v n v' h hf => (hP c hp.1).2 v n v' h hf) fun n => ih n (hp.2 n)

end rules

/-! ### Two programs on one file system -/

theorem Step.among {c c' : Prog ι α × World ι} (h : Step T Alone c c') : Step T R c c' := by
  cases h with
  | look => exact .look
  | mark => exact .mark
  | mid h => exact .mid h
  | fin h => exact .fin h
  | other h => exact h.elim

theorem Prog.All.step {P : Cmd ι → Prop} {M : ι → Prop} {c c' : Prog ι α × World ι} (h : c.1.All P M)
    (hs : Step T R c c') : c'.1.All P M := by
  cases hs with
  | look => exact h _
  | mark => exact h.2
  | mid => exact h
  | fin => exact h.2 _
  | other => exact h

structure Pair (ι α β : Type) where
  left : Prog ι α
  leftLog : List (Event ι)
  right : Prog ι β
  rightLog : List (Event ι)
  fs : Fs

namespace Pair

/-- One of the two takes a step; the right one only where `G` lets it. -/
inductive Step (T : Tools) (G : Pair ι α β → Prop) : Pair ι α β → Pair ι α β → Prop
  | left {s : Pair ι α β} {p : Prog ι α} {w : World ι}
      (h : Shell.Step T Alone (s.left, ⟨s.fs, s.leftLog⟩) (p, w)) :
      Step T G s ⟨p, w.log, s.right, s.rightLog, w.fs⟩
  | right {s : Pair ι α β} {q : Prog ι β} {w : World ι} (hG : G s)
      (h : Shell.Step T Alone (s.right, ⟨s.fs, s.rightLog⟩) (q, w)) :
      Step T G s ⟨s.left, s.leftLog, q, w.log, w.fs⟩

def Reach (T : Tools) (G : Pair ι α β → Prop) : Pair ι α β → Pair ι α β → Prop := ReflTransGen (Step T G)

variable {G : Pair ι α β → Prop} {s s' : Pair ι α β}

theorem reach_of_left {p : Prog ι α} {w : World ι} (h : Shell.Reach T Alone (s.left, ⟨s.fs, s.leftLog⟩) (p, w)) :
    Reach T G s ⟨p, w.log, s.right, s.rightLog, w.fs⟩ := by
  generalize hc : (p, w) = c at h
  induction h generalizing p w with
  | refl => cases hc; exact .refl
  | @tail c' _ _ hs ih =>
    subst hc
    obtain ⟨p', w'⟩ := c'
    exact (ih rfl).tail (.left hs)

theorem reach_of_right {q : Prog ι β} {w : World ι} (hG : ∀ s, G s)
    (h : Shell.Reach T Alone (s.right, ⟨s.fs, s.rightLog⟩) (q, w)) :
    Reach T G s ⟨s.left, s.leftLog, q, w.log, w.fs⟩ := by
  generalize hc : (q, w) = c at h
  induction h generalizing q w with
  | refl => cases hc; exact .refl
  | @tail c' _ _ hs ih =>
    subst hc
    obtain ⟨p', w'⟩ := c'
    exact (ih rfl).tail (.right (hG _) hs)

/-- What a run of the pair is to the left program: a run of its own among processes that do `R`, if a step
of the right program does `R`. `K` is what holds of the right program all along. -/
theorem reach_left {K : Prog ι β → Prop} (hK : ∀ c c', K c.1 → Shell.Step T Alone c c' → K c'.1)
    (hR : ∀ s : Pair ι α β, G s → ∀ q w, K s.right → Shell.Step T Alone (s.right, ⟨s.fs, s.rightLog⟩) (q, w) →
      R ⟨s.fs, s.leftLog⟩ ⟨w.fs, s.leftLog⟩)
    (h0 : K s.right) (h : Reach T G s s') :
    Shell.Reach T R (s.left, ⟨s.fs, s.leftLog⟩) (s'.left, ⟨s'.fs, s'.leftLog⟩) ∧ K s'.right := by
  induction h with
  | refl => exact ⟨.refl, h0⟩
  | tail _ hs ih =>
    cases hs with
    | left h => exact ⟨ih.1.tail h.among, ih.2⟩
    | right hG h => exact ⟨ih.1.tail (.other (hR _ hG _ _ ih.2 h)), hK _ _ ih.2 h⟩

end Pair

end Shell
