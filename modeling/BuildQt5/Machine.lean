import Mathlib.Data.List.Induction
import Mathlib.Logic.Basic

/-!
# Machines with outputs

A library with global state, seen from its callers: each call returns something and leaves the state
another. `run` and `outs` are the state and the returned values after a list of calls. Two machines that
answer alike from related states cannot be told apart by any list of calls (`Simulates.run`).
-/

namespace Machine

variable {ι σ ο : Type}

def run (m : ι → σ → ο × σ) : List ι → σ → σ
  | [], s => s
  | x :: xs, s => run m xs (m x s).2

def outs (m : ι → σ → ο × σ) : List ι → σ → List ο
  | [], _ => []
  | x :: xs, s => (m x s).1 :: outs m xs (m x s).2

variable {m : ι → σ → ο × σ} {s : σ}

theorem run_append (xs ys : List ι) : run m (xs ++ ys) s = run m ys (run m xs s) := by
  induction xs generalizing s with
  | nil => rfl
  | cons x xs ih => exact ih

theorem run_concat (xs : List ι) (x : ι) : run m (xs ++ [x]) s = (m x (run m xs s)).2 := run_append xs [x]

theorem outs_append (xs ys : List ι) : outs m (xs ++ ys) s = outs m xs s ++ outs m ys (run m xs s) := by
  induction xs generalizing s with
  | nil => rfl
  | cons x xs ih => exact congrArg _ ih

/-- A property of the calls so far and the state they leave, by what one more call does to it. -/
theorem run_inv {I : List ι → σ → Prop} (h0 : I [] s)
    (hstep : ∀ xs x, I xs (run m xs s) → I (xs ++ [x]) (m x (run m xs s)).2) (xs : List ι) :
    I xs (run m xs s) := by
  induction xs using List.reverseRecOn with
  | nil => exact h0
  | append_singleton xs x ih => rw [run_concat]; exact hstep xs x ih

/-! ### Simulation -/

/-- From related states the two machines answer alike, and stay related. -/
def Simulates {τ : Type} (m : ι → σ → ο × σ) (m' : ι → τ → ο × τ) (R : σ → τ → Prop) : Prop :=
  ∀ x s t, R s t → (m x s).1 = (m' x t).1 ∧ R (m x s).2 (m' x t).2

theorem Simulates.run {τ : Type} {m' : ι → τ → ο × τ} {R : σ → τ → Prop} (h : Simulates m m' R) {t : τ} (hR : R s t)
    (xs : List ι) : outs m xs s = outs m' xs t ∧ R (run m xs s) (run m' xs t) := by
  induction xs generalizing s t with
  | nil => exact ⟨rfl, hR⟩
  | cons x xs ih =>
    obtain ⟨hout, hnext⟩ := h x s t hR
    obtain ⟨houts, hrun⟩ := ih hnext
    exact ⟨congrArg₂ List.cons hout houts, hrun⟩

end Machine
