import BuildQt5.Shell.Exec
import BuildQt5.Shell.Trace

/-!
# Runs of whole commands

A run that stops at command boundaries only, with exit codes that `C` allows: `Whole` is `Step` without the middles
of commands. `Sure T C I Q X p w` is for such runs what `Safe` is for all: `I` holds at every boundary (and knows the
command that is next), `Q` when `p` ends and `X` when it exits. What is `Safe` is `Sure`, but what a command has done
when it ends is known only of a run that does not stop inside it.
-/

namespace Shell
open Relation

variable {ι α β : Type} {T : Tools} {C : Cmd ι → Nat → Prop}

inductive Whole (T : Tools) (C : Cmd ι → Nat → Prop) : Prog ι α × World ι → Prog ι α × World ι → Prop
  | look {k : World ι → Prog ι α} {w : World ι} : Whole T C (.look k, w) (k w, w)
  | mark {m : ι} {k : Prog ι α} {w : World ι} : Whole T C (.mark m k, w) (k, ⟨w.fs, .mark m :: w.log⟩)
  | fin {c : Cmd ι} {k : Nat → Prog ι α} {w w' : World ι} {n : Nat} (h : c.FinW T w n w') (hC : C c n) :
      Whole T C (.cmd c k, w) (k n, w')

/-- A run of whole commands of any length. -/
def Runs (T : Tools) (C : Cmd ι → Nat → Prop) : Prog ι α × World ι → Prog ι α × World ι → Prop :=
  ReflTransGen (Whole T C)

/-- Every command succeeds. -/
def succeeds (_ : Cmd ι) (n : Nat) : Prop := n = 0

theorem Runs.reach {c c' : Prog ι α × World ι} (h : Runs T C c c') : Reach T Alone c c' := by
  induction h with
  | refl => exact .refl
  | tail _ hs ih =>
    refine ih.tail ?_
    cases hs with
    | look => exact .look
    | mark => exact .mark
    | fin hf _ => exact .fin hf

theorem Runs.bind {p p' : Prog ι α} {w w' : World ι} (f : α → Prog ι β) (h : Runs T C (p, w) (p', w')) :
    Runs T C (p >>= f, w) (p' >>= f, w') := by
  refine h.lift (fun c : Prog ι α × World ι => (c.1 >>= f, c.2)) fun c c' hs => ?_
  cases hs with
  | look => exact .look
  | mark => exact .mark
  | fin hf hC => exact .fin hf hC

def Sure (T : Tools) (C : Cmd ι → Nat → Prop) (I : Option (Cmd ι) → World ι → Prop) (Q : α → World ι → Prop)
    (X : Nat → World ι → Prop) : Prog ι α → World ι → Prop
  | .pure a, w => I none w ∧ Q a w
  | .exit n, w => I none w ∧ X n w
  | .look k, w => I none w ∧ Sure T C I Q X (k w) w
  | .mark m k, w => I none w ∧ Sure T C I Q X k ⟨w.fs, .mark m :: w.log⟩
  | .cmd c k, w => I (some c) w ∧ ∀ n w', c.FinW T w n w' → C c n → Sure T C I Q X (k n) w'

/-- `Q` holds when `p` ends, no command having failed. -/
abbrev Ends (T : Tools) (Q : α → World ι → Prop) : Prog ι α → World ι → Prop :=
  Sure T succeeds (fun _ _ => True) Q fun _ _ => True

namespace Sure
variable {I I' : Option (Cmd ι) → World ι → Prop} {Q Q' : α → World ι → Prop} {X X' : Nat → World ι → Prop}
  {p : Prog ι α} {w w' : World ι}

theorem step {c c' : Prog ι α × World ι} (h : Sure T C I Q X c.1 c.2) (hs : Whole T C c c') :
    Sure T C I Q X c'.1 c'.2 := by
  cases hs with
  | look => exact h.2
  | mark => exact h.2
  | fin hf hC => exact h.2 _ _ hf hC

theorem runs {c c' : Prog ι α × World ι} (h : Sure T C I Q X c.1 c.2) (hr : Runs T C c c') :
    Sure T C I Q X c'.1 c'.2 := by
  induction hr with
  | refl => exact h
  | tail _ hs ih => exact ih.step hs

theorem of_pure {a : α} (h : Sure T C I Q X (.pure a) w) : Q a w := h.2

theorem of_exit {n : Nat} (h : Sure T C I Q X (.exit n : Prog ι α) w) : X n w := h.2

theorem of_cmd {c : Cmd ι} {k : Nat → Prog ι α} (h : Sure T C I Q X (.cmd c k) w) : I (some c) w := h.1

/-- The boundary a run stands at. -/
theorem inv (h : Sure T C I Q X p w) : ∃ c, I c w := by
  cases p with
  | cmd c k => exact ⟨some c, h.1⟩
  | _ => exact ⟨none, h.1⟩

theorem mono (h : Sure T C I Q X p w) (hI : ∀ c w, I c w → I' c w) (hQ : ∀ a w, Q a w → Q' a w)
    (hX : ∀ n w, X n w → X' n w) : Sure T C I' Q' X' p w := by
  induction p generalizing w with
  | pure a => exact ⟨hI _ _ h.1, hQ _ _ h.2⟩
  | exit n => exact ⟨hI _ _ h.1, hX _ _ h.2⟩
  | look k ih => exact ⟨hI _ _ h.1, ih w h.2⟩
  | mark m k ih => exact ⟨hI _ _ h.1, ih h.2⟩
  | cmd c k ih => exact ⟨hI _ _ h.1, fun n v hf hC => ih n (h.2 n v hf hC)⟩

end Sure

theorem Safe.sure {I : World ι → Prop} {Q : α → World ι → Prop} {X : Nat → World ι → Prop} {p : Prog ι α}
    {w : World ι} (h : Safe T Alone I Q X p w) : Sure T C (fun _ => I) Q X p w := by
  induction p generalizing w with
  | pure a => exact safe_pure.1 h
  | exit n => exact safe_exit.1 h
  | look k ih => exact ⟨(safe_look.1 h).1, ih w (safe_look.1 h).2⟩
  | mark m k ih => exact ⟨(safe_mark.1 h).1, ih (safe_mark.1 h).2⟩
  | cmd c k ih => exact ⟨(h w .refl).1, fun n v hf _ => ih n ((h w .refl).2 n v hf)⟩

/-! ### Rules -/

section rules
variable {I : Option (Cmd ι) → World ι → Prop} {Q : β → World ι → Prop} {X : Nat → World ι → Prop} {w : World ι}

theorem sure_bind {p : Prog ι α} {f : α → Prog ι β}
    (h : Sure T C I (fun a w => Sure T C I Q X (f a) w) X p w) : Sure T C I Q X (p >>= f) w := by
  rw [Prog.bind_eq]
  induction p generalizing w with
  | pure a => exact h.2
  | exit n => exact h
  | look k ih => exact ⟨h.1, ih w h.2⟩
  | mark m k ih => exact ⟨h.1, ih h.2⟩
  | cmd c k ih => exact ⟨h.1, fun n v hf hC => ih n (h.2 n v hf hC)⟩

theorem sure_world {f : World ι → Prog ι β} :
    Sure T C I Q X (Prog.world >>= f) w ↔ I none w ∧ Sure T C I Q X (f w) w := Iff.rfl

theorem sure_note {m : ι} {f : Unit → Prog ι β} : Sure T C I Q X (Prog.note m >>= f) w ↔
    I none w ∧ Sure T C I Q X (f ()) ⟨w.fs, .mark m :: w.log⟩ := Iff.rfl

theorem sure_run {c : Cmd ι} {f : Nat → Prog ι β} : Sure T C I Q X (Prog.run c >>= f) w ↔
    I (some c) w ∧ ∀ n w', c.FinW T w n w' → C c n → Sure T C I Q X (f n) w' := Iff.rfl

theorem sure_run_ {c : Cmd ι} {f : Unit → Prog ι β} : Sure T C I Q X (Prog.run_ c >>= f) w ↔
    I (some c) w ∧ ∀ n w', c.FinW T w n w' → C c n → Sure T C I Q X (f ()) w' := Iff.rfl

theorem sure_ite {c : Prop} [Decidable c] {p q : Prog ι β} (hp : c → Sure T C I Q X p w)
    (hq : ¬ c → Sure T C I Q X q w) : Sure T C I Q X (if c then p else q) w := by
  split
  · exact hp ‹_›
  · exact hq ‹_›

/-- A loop, by an invariant indexed by what is done and what is still to do. -/
theorem sure_forEach {f : β → Prog ι Unit} (J : List β → List β → World ι → Prop)
    (hJ : ∀ done w, J done [] w → I none w)
    (hf : ∀ done x rest w, J done (x :: rest) w →
      Sure T C I (fun _ => J (done ++ [x]) rest) X (f x) w) (done xs : List β) (h : J done xs w) :
    Sure T C I (fun _ => J (done ++ xs) []) X (Prog.forEach f xs) w := by
  induction xs generalizing done w with
  | nil => exact ⟨hJ done w h, by rwa [List.append_nil]⟩
  | cons x xs ih =>
    refine sure_bind ((hf done x xs w h).mono (fun _ _ h => h) (fun _ v hv => ?_) fun _ _ h => h)
    have := ih (done ++ [x]) hv
    rwa [List.append_assoc] at this

end rules

/-! ### Runs that end -/

section ends
variable {p₀ p : Prog ι α} {w₀ w w' : World ι}

theorem sure_self (h : Runs T C (p₀, w₀) (p, w)) :
    Sure T C (fun _ _ => True) (fun a v => Runs T C (p₀, w₀) (.pure a, v)) (fun _ _ => True) p w := by
  induction p generalizing w with
  | pure a => exact ⟨trivial, h⟩
  | exit n => exact ⟨trivial, trivial⟩
  | look k ih => exact ⟨trivial, ih w (h.tail .look)⟩
  | mark m k ih => exact ⟨trivial, ih (h.tail .mark)⟩
  | cmd c k ih => exact ⟨trivial, fun n v hf hC => ih n (h.tail (.fin hf hC))⟩

/-- A run of `p >>= f` that ends is one of `p` that ends and one of the rest. -/
theorem runs_bind_iff {f : α → Prog ι β} {b : β} : Runs T C (p >>= f, w) (.pure b, w') ↔
    ∃ a v, Runs T C (p, w) (.pure a, v) ∧ Runs T C (f a, v) (.pure b, w') := by
  refine ⟨fun h => ?_, fun ⟨a, v, hp, hf⟩ => (hp.bind f).trans hf⟩
  have hsure : Sure T C (fun _ _ => True)
      (fun b w' => ∃ a v, Runs T C (p, w) (.pure a, v) ∧ Runs T C (f a, v) (.pure b, w')) (fun _ _ => True)
      (p >>= f) w :=
    sure_bind ((sure_self .refl).mono (fun _ _ h => h)
      (fun a v hv => (sure_self .refl).mono (fun _ _ h => h) (fun b w' hb => ⟨a, v, hv, hb⟩) fun _ _ h => h)
      fun _ _ h => h)
  exact (hsure.runs h).of_pure

theorem runs_pure_iff {a b : α} : Runs T C ((.pure a : Prog ι α), w) (.pure b, w') ↔ b = a ∧ w' = w := by
  refine ⟨fun h => ?_, fun ⟨ha, hw⟩ => by rw [ha, hw]; exact .refl⟩
  rcases ReflTransGen.cases_head h with h | ⟨c, hs, -⟩
  · cases h
    exact ⟨rfl, rfl⟩
  · cases hs

theorem runs_cmd_iff {c : Cmd ι} {k : Nat → Prog ι α} {b : α} : Runs T C (.cmd c k, w) (.pure b, w') ↔
    ∃ n v, c.FinW T w n v ∧ C c n ∧ Runs T C (k n, v) (.pure b, w') := by
  refine ⟨fun h => ?_, fun ⟨n, v, hf, hC, h⟩ => .head (.fin hf hC) h⟩
  rcases ReflTransGen.cases_head h with h | ⟨⟨p, v⟩, hs, h⟩
  · cases h
  · cases hs with
    | fin hf hC => exact ⟨_, _, hf, hC, h⟩

theorem runs_look_iff {k : World ι → Prog ι α} {b : α} :
    Runs T C (.look k, w) (.pure b, w') ↔ Runs T C (k w, w) (.pure b, w') := by
  refine ⟨fun h => ?_, fun h => .head .look h⟩
  rcases ReflTransGen.cases_head h with h | ⟨c, hs, h⟩
  · cases h
  · cases hs
    exact h

theorem runs_mark_iff {m : ι} {k : Prog ι α} {b : α} :
    Runs T C (.mark m k, w) (.pure b, w') ↔ Runs T C (k, ⟨w.fs, .mark m :: w.log⟩) (.pure b, w') := by
  refine ⟨fun h => ?_, fun h => .head .mark h⟩
  rcases ReflTransGen.cases_head h with h | ⟨c, hs, h⟩
  · cases h
  · cases hs
    exact h

theorem runs_exit {n : Nat} {b : α} : ¬ Runs T C ((.exit n : Prog ι α), w) (.pure b, w') := by
  intro h
  rcases ReflTransGen.cases_head h with h | ⟨c, hs, -⟩
  · cases h
  · cases hs

end ends

/-! ### The programs of a run -/

/-- Every program that ran since `w₀` is one of `P`. -/
def RanSince (P : ι → Prop) (w₀ w : World ι) : Prop := ∃ l, ran w.log = l ++ ran w₀.log ∧ ∀ x ∈ l, P x.1

namespace RanSince
variable {P : ι → Prop} {w₀ w w' : World ι}

theorem refl (w : World ι) : RanSince P w w := ⟨[], rfl, by simp⟩

theorem fin {c : Cmd ι} {n : Nat} (h : RanSince P w₀ w) (hf : c.FinW T w n w') (hc : ∀ j, c.job = some j → P j) :
    RanSince P w₀ w' := by
  obtain ⟨l, hl, hP⟩ := h
  refine ⟨(c.job.map fun j => (j, n)).toList ++ l, by rw [Cmd.ran_fin hf, hl, List.append_assoc], fun x hx => ?_⟩
  rcases List.mem_append.1 hx with hx | hx
  · obtain ⟨j, hj, rfl⟩ := Option.map_eq_some_iff.1 (Option.mem_toList.1 hx)
    exact hc j hj
  · exact hP x hx

end RanSince

/-! ### What a run records -/

/-- The command leaves nothing in the log that is not `ok`. -/
def Recorded (ok : Event ι → Bool) (c : Cmd ι) (n : Nat) : Prop := ∃ fs, ∀ e ∈ c.events fs n, ok e = true

theorem Runs.recorded {ok : Event ι → Bool} {c c' : Prog ι α × World ι} (h : Runs T C c c')
    (hok : ∀ e ∈ c'.2.log, ok e = true) : Runs T (Recorded ok) c c' := by
  induction h with
  | refl => exact .refl
  | tail _ hs ih =>
    cases hs with
    | look => exact (ih hok).tail .look
    | mark => exact (ih fun e he => hok e (List.mem_cons_of_mem _ he)).tail .mark
    | @fin d k v v' n hf hC =>
      have hlog : ∀ e ∈ d.events v.fs n ++ v.log, ok e = true := hf.2 ▸ hok
      refine (ih fun e he => hlog e (List.mem_append_right _ he)).tail (.fin hf ⟨v.fs, fun e he => ?_⟩)
      exact hlog e (List.mem_append_left _ he)

/-! ### Runs by script -/

/-- A choice that ends a command with success. -/
def Choice.success : Choice → Bool
  | .done n | .did n _ => n = 0
  | _ => false

theorem settle_runs (p : Prog ι α) (w : World ι) : Runs T C (p, w) (p.settle w) := by
  induction p generalizing w with
  | pure a => exact .refl
  | exit n => exact .refl
  | look k ih => exact .head .look (ih w w)
  | mark m k ih => exact .head .mark (ih _)
  | cmd c k => exact .refl

theorem choose_success {c : Cmd ι} {w w' : World ι} {x : Choice} {o : Option Nat} (hx : x.success = true)
    (h : c.choose T w x = some (o, w')) : o = some 0 ∧ c.FinW T w 0 w' := by
  cases x with
  | unlink r => cases hx
  | busy fs' => cases hx
  | done n =>
    obtain rfl : n = 0 := of_decide_eq_true hx
    simp only [Cmd.choose] at h
    split at h
    · rename_i hf
      cases h
      exact ⟨rfl, hf, rfl⟩
    · cases h
  | did n fs' =>
    obtain rfl : n = 0 := of_decide_eq_true hx
    simp only [Cmd.choose] at h
    split at h
    · rename_i hf
      cases h
      exact ⟨rfl, hf, rfl⟩
    · cases h

/-- What `exec` computes with successes only is a run in which every command succeeds. -/
theorem exec_runs {xs : List Choice} {p p' : Prog ι α} {w w' : World ι} (hxs : xs.all Choice.success = true)
    (h : exec T xs p w = some (p', w')) : Runs T succeeds (p, w) (p', w') := by
  induction xs generalizing p w with
  | nil => rw [← Option.some.inj h]; exact settle_runs p w
  | cons x xs ih =>
    obtain ⟨hx, hxs⟩ := Bool.and_eq_true_iff.1 hxs
    have hs : Runs T succeeds (p, w) (p.settle w) := settle_runs p w
    simp only [exec] at h
    split at h
    · rename_i c k v hv
      rw [hv] at hs
      split at h
      · rename_i v' hc
        cases (choose_success hx hc).1
      · rename_i n v' hc
        obtain ⟨hn, hf⟩ := choose_success hx hc
        obtain rfl : n = 0 := Option.some.inj hn
        exact (hs.tail (.fin hf rfl)).trans (ih hxs h)
      · cases h
    · cases h

theorem runs_of_execAny {xs : List Choice} {p : Prog ι α} {w : World ι} {f : Prog ι α → World ι → Bool}
    (hxs : xs.all Choice.success = true) (h : execAny T xs p w f = true) :
    ∃ p' w', Runs T succeeds (p, w) (p', w') ∧ f p' w' = true := by
  obtain ⟨⟨p', w'⟩, hx, hf⟩ := (Option.any_eq_true _ _).1 h
  exact ⟨p', w', exec_runs hxs hx, hf⟩

end Shell
