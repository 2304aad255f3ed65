import BuildQt5.Shell.Logic

/-!
# Runs by script

`exec` runs a program along a list of choices, one for every command it comes to: how the command
goes on or ends where `Cmd.Mid` and `Cmd.Fin` leave that open. A choice the semantics does not allow
stops the evaluation with `none`, so what `exec` computes is a run (`exec_reach`).
-/

namespace Shell
open Relation

variable {ι α : Type} {T : Tools}

inductive Choice where
  /-- `rm -rf` unlinks one entry and goes on. -/
  | unlink (r : Path)
  /-- The command has made this of the file system and goes on. -/
  | busy (fs : Fs)
  /-- The command ends with this exit code and its usual effect. -/
  | done (code : Nat)
  /-- The command ends with this exit code and leaves this file system. -/
  | did (code : Nat) (fs : Fs)

/-- The effect of a command that leaves nothing to chance; an external program changes nothing. -/
def Cmd.outcome (T : Tools) : Cmd ι → Fs → Nat → Fs
  | .mkdirP p, fs, _ => fs.mkdirP p
  | .write p s, fs, _ => fs.write p s
  | .rmF p, fs, _ => if fs.isFile p then fs.erase p else fs
  | .rmRf ps, fs, n => if n = 0 then fs.rmTrees ps else fs
  | .mv a b, fs, n =>
    match n, fs.content a with
    | 0, some s => (fs.write b s).erase a
    | _, _ => fs
  | .tar as dest, fs, n =>
    match n, archive fs as with
    | 0, some (a, s) => fs.graft (topDir T dest a s) (T.unpack (a.getLastD "") s).tree
    | _, _ => fs
  | .patch dirs text, fs, n =>
    match n, dirs with
    | 0, [d] => ((T.patch text (fs.sub d)).map (fs.graft d)).getD fs
    | _, _ => fs
  | .cp _ src dst, fs, n =>
    match n, fs.get src with
    | 0, some (.file s) => fs.write dst s
    | 0, some .dir => fs.graft dst (fs.sub src)
    | _, _ => fs
  | .ext _ _ _, fs, _ => fs

/-- What `c` is busy with and changes no further than it may. -/
def Cmd.busyFoot (T : Tools) (fs : Fs) : Cmd ι → Option (List Path)
  | .tar as dest => (archive fs as).map fun x => [topDir T dest x.1 x.2]
  | .patch dirs _ => some (patchFoot fs dirs)
  | .cp _ _ dst => some [dst]
  | .ext _ foot _ => some foot
  | _ => none

theorem Cmd.mid_of_busyFoot {c : Cmd ι} {fs fs' : Fs} {foot : List Path} (h : c.busyFoot T fs = some foot)
    (ha : Fs.Agree foot fs fs') : c.Mid T fs fs' [] := by
  cases c with
  | tar as dest =>
    obtain ⟨⟨a, s⟩, hx, rfl⟩ := Option.map_eq_some_iff.1 h
    exact .tar hx ha
  | patch dirs text =>
    obtain rfl := Option.some.inj h
    exact .patch ha
  | cp job src dst =>
    obtain rfl := Option.some.inj h
    exact .cp ha
  | ext job foot' makes =>
    obtain rfl := Option.some.inj h
    exact .ext ha
  | _ => cases h

/-- `p` up to the next command. -/
def Prog.settle : Prog ι α → World ι → Prog ι α × World ι
  | .look k, w => (k w).settle w
  | .mark m k, w => k.settle ⟨w.fs, .mark m :: w.log⟩
  | p, w => (p, w)

/-- One choice at the command `c`: the world after it, and the exit code if `c` has ended. -/
def Cmd.choose (T : Tools) (c : Cmd ι) (w : World ι) : Choice → Option (Option Nat × World ι)
  | .unlink r =>
    match c with
    | .rmRf ps =>
      if Fs.covers ps r = true ∧ r ≠ [] ∧ w.fs.get r ≠ none ∧ w.fs.leaf r = true then
        some (none, ⟨w.fs.erase r, .removed r :: w.log⟩)
      else none
    | _ => none
  | .busy fs' =>
    match c.busyFoot T w.fs with
    | some foot => if Fs.Agree foot w.fs fs' then some (none, ⟨fs', w.log⟩) else none
    | none => none
  | .done n =>
    if c.Fin T w.fs n (c.outcome T w.fs n) then
      some (some n, ⟨c.outcome T w.fs n, c.events w.fs n ++ w.log⟩)
    else none
  | .did n fs' => if c.Fin T w.fs n fs' then some (some n, ⟨fs', c.events w.fs n ++ w.log⟩) else none

def exec (T : Tools) : List Choice → Prog ι α → World ι → Option (Prog ι α × World ι)
  | [], p, w => some (p.settle w)
  | x :: xs, p, w =>
    match p.settle w with
    | (.cmd c k, w') =>
      match c.choose T w' x with
      | some (none, w'') => exec T xs (.cmd c k) w''
      | some (some n, w'') => exec T xs (k n) w''
      | none => none
    | _ => none

theorem settle_reach (p : Prog ι α) (w : World ι) : Reach T Alone (p, w) (p.settle w) := by
  induction p generalizing w with
  | pure a => exact .refl
  | exit n => exact .refl
  | look k ih => exact .head .look (ih w w)
  | mark m k ih => exact .head .mark (ih _)
  | cmd c k => exact .refl

theorem choose_step {c : Cmd ι} {k : Nat → Prog ι α} {w w' : World ι} {x : Choice} {o : Option Nat}
    (h : c.choose T w x = some (o, w')) :
    Step T Alone (.cmd c k, w) (o.elim (.cmd c k) k, w') := by
  cases x with
  | unlink r =>
    cases c with
    | rmRf ps =>
      simp only [Cmd.choose] at h
      split at h
      · rename_i hr
        cases h
        exact .mid ⟨[.removed r], .rmRf hr.1 hr.2.1 hr.2.2.1 hr.2.2.2, rfl⟩
      · cases h
    | _ => cases h
  | busy fs' =>
    simp only [Cmd.choose] at h
    split at h
    · rename_i foot hf
      split at h
      · rename_i ha
        cases h
        exact .mid ⟨[], Cmd.mid_of_busyFoot hf ha, rfl⟩
      · cases h
    · cases h
  | done n =>
    simp only [Cmd.choose] at h
    split at h
    · rename_i hf
      cases h
      exact .fin ⟨hf, rfl⟩
    · cases h
  | did n fs' =>
    simp only [Cmd.choose] at h
    split at h
    · rename_i hf
      cases h
      exact .fin ⟨hf, rfl⟩
    · cases h

/-- What `exec` computes is a run. -/
theorem exec_reach {xs : List Choice} {p p' : Prog ι α} {w w' : World ι}
    (h : exec T xs p w = some (p', w')) : Reach T Alone (p, w) (p', w') := by
  induction xs generalizing p w with
  | nil => rw [← Option.some.inj h]; exact settle_reach p w
  | cons x xs ih =>
    have hs : Reach T Alone (p, w) (p.settle w) := settle_reach p w
    simp only [exec] at h
    split at h
    · rename_i c k v hv
      rw [hv] at hs
      split at h
      · rename_i v' hc
        exact (hs.tail (choose_step hc)).trans (ih (p := .cmd c k) h)
      · rename_i n v' hc
        exact (hs.tail (choose_step hc)).trans (ih (p := k n) h)
      · cases h
    · cases h

/-- `f` holds of what a run by script arrives at. -/
def execAny (T : Tools) (xs : List Choice) (p : Prog ι α) (w : World ι) (f : Prog ι α → World ι → Bool) : Bool :=
  (exec T xs p w).any fun x => f x.1 x.2

theorem reach_of_execAny {xs : List Choice} {p : Prog ι α} {w : World ι} {f : Prog ι α → World ι → Bool}
    (h : execAny T xs p w f = true) : ∃ p' w', Reach T Alone (p, w) (p', w') ∧ f p' w' = true := by
  obtain ⟨⟨p', w'⟩, hx, hf⟩ := (Option.any_eq_true _ _).1 h
  exact ⟨p', w', exec_reach hx, hf⟩

/-- Whether a run is over, with this exit code. -/
def Prog.exited (n : Nat) : Prog ι α → Bool
  | .exit m => m = n
  | _ => false

/-- Whether a run is at a command that satisfies `f`. -/
def Prog.isAt (f : Cmd ι → Bool) : Prog ι α → Bool
  | .cmd c _ => f c
  | _ => false

theorem eq_cmd_of_isAt {f : Cmd ι → Bool} {p : Prog ι α} (h : p.isAt f = true) : ∃ c k, p = .cmd c k ∧ f c = true := by
  cases p with
  | cmd c k => exact ⟨c, k, rfl, h⟩
  | _ => cases h

theorem eq_exit_of_exited {p : Prog ι α} {n : Nat} (h : p.exited n = true) : p = .exit n := by
  cases p with
  | exit m => rw [of_decide_eq_true h]
  | _ => cases h

/-- Whether a run has come to its end without giving up. -/
def Prog.returned : Prog ι α → Bool
  | .pure _ => true
  | _ => false

theorem eq_pure_of_returned {p : Prog ι Unit} (h : p.returned = true) : p = .pure () := by
  cases p with
  | pure a => rfl
  | _ => cases h

/-- Tools to evaluate with: a content is its own digest and the name of the one, empty directory an
archive unpacks to; a patch applies without effect; everything is to be stripped. -/
def Tools.sample : Tools where
  md5 := id
  sha1 := id
  sha256 := id
  unpack _ c := ⟨c, Fs.empty, true⟩
  patch _ t := some t
  file _ := "ELF, not stripped"

end Shell
