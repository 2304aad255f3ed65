import BuildQt5.Shell.Prog

/-!
# Pre-, post- and crash conditions

`Safe T R I Q X p w`: along every run of `p` from `w`, the crash condition `I` holds at every command
boundary and inside every command, `Q` when `p` ends and `X` when it exits. `Safe` is computed from
`p` command by command, goes through `bind` (`safe_bind`) and is kept by every step (`Safe.step`),
so it says what it should about every state a run reaches (`Safe.reach`).

`All P M p` is the syntactic side: every command of `p` satisfies `P` and every label `M`, and `p` gives
up with a failure only. An assertion that such commands keep is kept by the whole of `p`
(`Safe.of_all`).
-/

namespace Shell
open Relation

variable {ι α β : Type} {T : Tools} {R : World ι → World ι → Prop}

/-- What can happen to the world while the command `c` runs. -/
def Busy (T : Tools) (R : World ι → World ι → Prop) (c : Cmd ι) : World ι → World ι → Prop :=
  ReflTransGen fun w w' => R w w' ∨ c.MidW T w w'

def Safe (T : Tools) (R : World ι → World ι → Prop) (I : World ι → Prop) (Q : α → World ι → Prop)
    (X : Nat → World ι → Prop) : Prog ι α → World ι → Prop
  | .pure a, w => ∀ w', ReflTransGen R w w' → I w' ∧ Q a w'
  | .exit n, w => ∀ w', ReflTransGen R w w' → I w' ∧ X n w'
  | .look k, w => ∀ w', ReflTransGen R w w' → I w' ∧ Safe T R I Q X (k w') w'
  | .mark m k, w => ∀ w', ReflTransGen R w w' → I w' ∧ Safe T R I Q X k ⟨w'.fs, .mark m :: w'.log⟩
  | .cmd c k, w => ∀ w', Busy T R c w w' → I w' ∧ ∀ n w'', c.FinW T w' n w'' → Safe T R I Q X (k n) w''

namespace Safe
variable {I I' : World ι → Prop} {Q Q' : α → World ι → Prop} {X X' : Nat → World ι → Prop}
  {p : Prog ι α} {w w' : World ι}

theorem inv (h : Safe T R I Q X p w) : I w := by
  cases p with
  | pure a => exact (h w .refl).1
  | exit n => exact (h w .refl).1
  | look k => exact (h w .refl).1
  | mark m k => exact (h w .refl).1
  | cmd c k => exact (h w .refl).1

theorem other (h : Safe T R I Q X p w) (hR : R w w') : Safe T R I Q X p w' := by
  cases p with
  | pure a => exact fun v hv => h v (.head hR hv)
  | exit n => exact fun v hv => h v (.head hR hv)
  | look k => exact fun v hv => h v (.head hR hv)
  | mark m k => exact fun v hv => h v (.head hR hv)
  | cmd c k => exact fun v hv => h v (.head (.inl hR) hv)

theorem step {c c' : Prog ι α × World ι} (h : Safe T R I Q X c.1 c.2) (hs : Step T R c c') :
    Safe T R I Q X c'.1 c'.2 := by
  cases hs with
  | look => exact (h _ .refl).2
  | mark => exact (h _ .refl).2
  | mid hm => exact fun v hv => h v (.head (.inr hm) hv)
  | fin hf => exact (h _ .refl).2 _ _ hf
  | other hR => exact h.other hR

/-- `Safe` is an invariant of the run, so the crash condition holds wherever it stops. -/
theorem reach {c c' : Prog ι α × World ι} (h : Safe T R I Q X c.1 c.2) (hr : Reach T R c c') :
    Safe T R I Q X c'.1 c'.2 := by
  induction hr with
  | refl => exact h
  | tail _ hs ih => exact ih.step hs

theorem of_pure {a : α} (h : Safe T R I Q X (.pure a) w) : Q a w := (h w .refl).2

theorem of_exit {n : Nat} (h : Safe T R I Q X (.exit n : Prog ι α) w) : X n w := (h w .refl).2

theorem mono (h : Safe T R I Q X p w) (hI : ∀ w, I w → I' w) (hQ : ∀ a w, Q a w → Q' a w)
    (hX : ∀ n w, X n w → X' n w) : Safe T R I' Q' X' p w := by
  induction p generalizing w with
  | pure a => exact fun v hv => ⟨hI _ (h v hv).1, hQ _ _ (h v hv).2⟩
  | exit n => exact fun v hv => ⟨hI _ (h v hv).1, hX _ _ (h v hv).2⟩
  | look k ih => exact fun v hv => ⟨hI _ (h v hv).1, ih v (h v hv).2⟩
  | mark m k ih => exact fun v hv => ⟨hI _ (h v hv).1, ih (h v hv).2⟩
  | cmd c k ih => exact fun v hv => ⟨hI _ (h v hv).1, fun n v' hf => ih n ((h v hv).2 n v' hf)⟩

theorem and (h : Safe T R I Q X p w) (h' : Safe T R I' Q' X' p w) :
    Safe T R (fun w => I w ∧ I' w) (fun a w => Q a w ∧ Q' a w) (fun n w => X n w ∧ X' n w) p w := by
  induction p generalizing w with
  | pure a => exact fun v hv => ⟨⟨(h v hv).1, (h' v hv).1⟩, (h v hv).2, (h' v hv).2⟩
  | exit n => exact fun v hv => ⟨⟨(h v hv).1, (h' v hv).1⟩, (h v hv).2, (h' v hv).2⟩
  | look k ih => exact fun v hv => ⟨⟨(h v hv).1, (h' v hv).1⟩, ih v (h v hv).2 (h' v hv).2⟩
  | mark m k ih => exact fun v hv => ⟨⟨(h v hv).1, (h' v hv).1⟩, ih (h v hv).2 (h' v hv).2⟩
  | cmd c k ih =>
    exact fun v hv => ⟨⟨(h v hv).1, (h' v hv).1⟩,
      fun n v' hf => ih n ((h v hv).2 n v' hf) ((h' v hv).2 n v' hf)⟩

end Safe

section bind
variable {I : World ι → Prop} {Q : β → World ι → Prop} {X : Nat → World ι → Prop} {w : World ι}

theorem safe_bind {p : Prog ι α} {f : α → Prog ι β}
    (h : Safe T R I (fun a w => Safe T R I Q X (f a) w) X p w) : Safe T R I Q X (p >>= f) w := by
  rw [Prog.bind_eq]
  induction p generalizing w with
  | pure a => exact (h w .refl).2
  | exit n => exact h
  | look k ih => exact fun v hv => ⟨(h v hv).1, ih v (h v hv).2⟩
  | mark m k ih => exact fun v hv => ⟨(h v hv).1, ih (h v hv).2⟩
  | cmd c k ih => exact fun v hv => ⟨(h v hv).1, fun n v' hf => ih n ((h v hv).2 n v' hf)⟩

theorem safe_ite {c : Prop} [Decidable c] {p q : Prog ι β} (hp : c → Safe T R I Q X p w)
    (hq : ¬ c → Safe T R I Q X q w) : Safe T R I Q X (if c then p else q) w := by
  split
  · exact hp ‹_›
  · exact hq ‹_›

/-- A loop, by an invariant indexed by what is still to do. -/
theorem safe_forEach {f : β → Prog ι Unit} {X : Nat → World ι → Prop} (J : List β → World ι → Prop)
    (hJ : ∀ xs w, J xs w → ∀ w', ReflTransGen R w w' → I w' ∧ J xs w')
    (hf : ∀ x xs w, J (x :: xs) w → Safe T R I (fun _ => J xs) X (f x) w) (xs : List β) (h : J xs w) :
    Safe T R I (fun _ => J []) X (Prog.forEach f xs) w := by
  induction xs generalizing w with
  | nil => exact hJ [] w h
  | cons x xs ih => exact safe_bind ((hf x xs w h).mono (fun _ h => h) (fun _ _ h => ih h) (fun _ _ h => h))

end bind

/-! ### The rules of the commands, with no other process -/

section alone
variable {I : World ι → Prop} {Q : α → World ι → Prop} {X : Nat → World ι → Prop} {w : World ι}

theorem alone_iff {w w' : World ι} : ReflTransGen Alone w w' ↔ w' = w := by
  constructor
  · intro h
    induction h with
    | refl => rfl
    | tail _ h _ => exact h.elim
  · rintro rfl; exact .refl

theorem safe_pure {a : α} : Safe T Alone I Q X (.pure a) w ↔ I w ∧ Q a w := by
  simp only [Safe, alone_iff, forall_eq]

theorem safe_exit {n : Nat} : Safe T Alone I Q X (.exit n) w ↔ I w ∧ X n w := by
  simp only [Safe, alone_iff, forall_eq]

theorem safe_look {k : World ι → Prog ι α} :
    Safe T Alone I Q X (.look k) w ↔ I w ∧ Safe T Alone I Q X (k w) w := by
  simp only [Safe, alone_iff, forall_eq]

theorem safe_mark {m : ι} {k : Prog ι α} :
    Safe T Alone I Q X (.mark m k) w ↔ I w ∧ Safe T Alone I Q X k ⟨w.fs, .mark m :: w.log⟩ := by
  simp only [Safe, alone_iff, forall_eq]

theorem safe_world {Q : World ι → World ι → Prop} : Safe T Alone I Q X Prog.world w ↔ I w ∧ Q w w := by
  rw [Prog.world, safe_look, safe_pure]; tauto

theorem safe_note {m : ι} {Q : Unit → World ι → Prop} : Safe T Alone I Q X (Prog.note m) w ↔
    I w ∧ I ⟨w.fs, .mark m :: w.log⟩ ∧ Q () ⟨w.fs, .mark m :: w.log⟩ := by
  rw [Prog.note, safe_mark, safe_pure]

/-- A command that is never in the middle of its work. -/
def Cmd.Atomic : Cmd ι → Prop
  | .mkdirP _ | .write _ _ | .rmF _ | .mv _ _ => True
  | _ => False

theorem Cmd.Atomic.not_mid {c : Cmd ι} {fs fs' : Fs} {evs : List (Event ι)} (hc : c.Atomic) :
    ¬ c.Mid T fs fs' evs := by
  intro h
  cases h <;> exact hc

theorem busy_atomic {c : Cmd ι} (hc : c.Atomic) {w w' : World ι} (h : Busy T Alone c w w') : w' = w := by
  induction h with
  | refl => rfl
  | tail _ h _ =>
    rcases h with h | ⟨evs, h, -⟩
    · exact h.elim
    · exact (hc.not_mid h).elim

theorem safe_atomic {c : Cmd ι} (hc : c.Atomic) {k : Nat → Prog ι α} :
    Safe T Alone I Q X (.cmd c k) w ↔
      I w ∧ ∀ n w', c.FinW T w n w' → Safe T Alone I Q X (k n) w' := by
  constructor
  · intro h; exact h w .refl
  · intro h v hv
    rw [busy_atomic hc hv]; exact h

theorem safe_mkdirP {p : Path} {Q : Unit → World ι → Prop} :
    Safe T Alone I Q X (Prog.run_ (.mkdirP p)) w ↔ I w ∧
      I ⟨w.fs.mkdirP p, (Cmd.mkdirP p).events w.fs 0 ++ w.log⟩ ∧
      Q () ⟨w.fs.mkdirP p, (Cmd.mkdirP p).events w.fs 0 ++ w.log⟩ := by
  rw [Prog.run_, safe_atomic (c := .mkdirP p) trivial]
  refine and_congr_right fun _ => ⟨fun h => safe_pure.1 (h 0 _ ⟨⟨rfl, rfl⟩, rfl⟩), ?_⟩
  rintro h n ⟨fs', log'⟩ ⟨⟨rfl, hfs⟩, hlog⟩
  obtain rfl : fs' = _ := hfs
  obtain rfl : log' = _ := hlog
  exact safe_pure.2 h

theorem safe_rmF {p : Path} {Q : Unit → World ι → Prop} :
    Safe T Alone I Q X (Prog.run_ (.rmF p)) w ↔ I w ∧
      I ⟨if w.fs.isFile p then w.fs.erase p else w.fs, (Cmd.rmF p).events w.fs 0 ++ w.log⟩ ∧
      Q () ⟨if w.fs.isFile p then w.fs.erase p else w.fs, (Cmd.rmF p).events w.fs 0 ++ w.log⟩ := by
  rw [Prog.run_, safe_atomic (c := .rmF p) trivial]
  refine and_congr_right fun _ => ⟨fun h => safe_pure.1 (h 0 _ ⟨⟨rfl, rfl⟩, rfl⟩), ?_⟩
  rintro h n ⟨fs', log'⟩ ⟨⟨rfl, hfs⟩, hlog⟩
  obtain rfl : fs' = _ := hfs
  obtain rfl : log' = _ := hlog
  exact safe_pure.2 h

theorem safe_write {p : Path} {c : String} {Q : Unit → World ι → Prop} (hI : I w)
    (h : ∀ n, (n = 0 ↔ (w.fs.write p c).get p = some (.file c)) →
      I ⟨w.fs.write p c, (Cmd.write p c).events w.fs n ++ w.log⟩ ∧
        Q () ⟨w.fs.write p c, (Cmd.write p c).events w.fs n ++ w.log⟩) :
    Safe T Alone I Q X (Prog.run_ (.write p c)) w := by
  rw [Prog.run_, safe_atomic (c := .write p c) trivial]
  refine ⟨hI, ?_⟩
  rintro n ⟨fs', log'⟩ ⟨⟨hfs, hn⟩, hlog⟩
  obtain rfl : fs' = _ := hfs
  obtain rfl : log' = _ := hlog
  exact safe_pure.2 (h n hn)

theorem Cmd.fin_mv {a b : Path} {fs fs' : Fs} (ha : a ≠ []) (h : (Cmd.mv a b : Cmd ι).Fin T fs 0 fs') :
    ∃ c, fs.content a = some c ∧ fs' = (fs.write b c).erase a ∧ fs'.content b = some c := by
  change Moved fs fs' a b (fs.content a) at h
  cases hc : fs.content a with
  | none => rw [hc] at h; exact h.elim
  | some c =>
    rw [hc] at h
    obtain ⟨hne, hw, rfl⟩ := h
    refine ⟨c, rfl, rfl, Fs.content_eq_some.2 ?_⟩
    rw [Fs.get_erase ha, if_neg fun h => hne h.1.symm, hw]

section cp
variable {job : ι} {src dst : Path} {fs fs' : Fs}

theorem mem_source {r : Path} (h : fs.get (src ++ r) ≠ none) : ∃ n, (src ++ r, n) ∈ (src, Node.dir) :: fs.entries := by
  by_cases hnil : src ++ r = []
  · obtain ⟨rfl, rfl⟩ := List.append_eq_nil_iff.1 hnil
    exact ⟨.dir, List.mem_cons_self⟩
  · obtain ⟨n, hn⟩ := Fs.mem_of_get hnil h
    exact ⟨n, List.mem_cons_of_mem _ hn⟩

theorem Cmd.replaces_of_fin_cp (hs : fs.get src = some .dir) (h : (Cmd.cp job src dst).Fin T fs 0 fs') (r : Path) :
    Cmd.replaces (fs.get (src ++ r)) (fs.get (dst ++ r)) = true := by
  change Copied fs fs' src dst (fs.get src) at h
  rw [hs] at h
  obtain ⟨-, -, hover, -⟩ := h
  by_cases hr : fs.get (src ++ r) = none
  · rw [hr]; rfl
  · obtain ⟨n, hn⟩ := mem_source hr
    simpa using hover _ hn (List.prefix_append _ _)

/-- What stands at `dst` after `cp -r` of the directory `src`. -/
theorem Cmd.get_of_fin_cp (hs : fs.get src = some .dir) (h : (Cmd.cp job src dst).Fin T fs 0 fs') (r : Path) :
    fs'.get (dst ++ r) = (fs.get (src ++ r)).or (fs.get (dst ++ r)) := by
  change Copied fs fs' src dst (fs.get src) at h
  rw [hs] at h
  obtain ⟨-, -, -, hnew, hsrc, hold⟩ := h
  by_cases hnil : dst ++ r = []
  · obtain ⟨rfl, rfl⟩ := List.append_eq_nil_iff.1 hnil
    simp [hs]
  by_cases hg : fs'.get (dst ++ r) = none
  · -- neither a copied nor an old entry is missing
    have h1 : fs.get (src ++ r) = none := by
      by_contra h1
      obtain ⟨n, hn⟩ := mem_source h1
      have := hsrc _ hn (List.prefix_append _ _)
      rw [List.drop_left, hg] at this
      exact h1 this.symm
    have h2 : fs.get (dst ++ r) = none := by
      by_contra h2
      obtain ⟨n, hn⟩ := Fs.mem_of_get hnil h2
      exact hold _ hn (List.prefix_append _ _) hg
    rw [hg, h1, h2]
    rfl
  · obtain ⟨n, hn⟩ := Fs.mem_of_get hnil hg
    simpa using hnew _ hn (List.prefix_append _ _)

theorem Cmd.content_of_fin_cp (hs : fs.get src = some .dir) (h : (Cmd.cp job src dst).Fin T fs 0 fs') (r : Path) :
    fs'.content (dst ++ r) = (fs.content (src ++ r)).or (fs.content (dst ++ r)) := by
  have hover := Cmd.replaces_of_fin_cp hs h r
  unfold Fs.content
  rw [Cmd.get_of_fin_cp hs h r]
  revert hover
  rcases fs.get (src ++ r) with _ | _ | c <;> rcases fs.get (dst ++ r) with _ | _ | c' <;> simp [Cmd.replaces]

end cp

/-- An interruptible command, by what its work keeps (`J`) and what its end makes of that. -/
theorem safe_busy {c : Cmd ι} {k : Nat → Prog ι α} (J : World ι → Prop) (hJ : J w)
    (hI : ∀ v, J v → I v) (hmid : ∀ v v', J v → c.MidW T v v' → J v')
    (hfin : ∀ v n v', J v → c.FinW T v n v' → Safe T Alone I Q X (k n) v') :
    Safe T Alone I Q X (.cmd c k) w := by
  intro v hv
  have hJv : J v := by
    induction hv with
    | refl => exact hJ
    | tail _ h ih =>
      rcases h with h | h
      · exact h.elim
      · exact hmid _ _ ih h
  exact ⟨hI v hJv, fun n v' hf => hfin v n v' hJv hf⟩

end alone

/-! ### What every command of a program satisfies -/

namespace Prog

def All (P : Cmd ι → Prop) (M : ι → Prop) : Prog ι α → Prop
  | .pure _ => True
  | .exit n => n ≠ 0
  | .look k => ∀ w, (k w).All P M
  | .mark m k => M m ∧ k.All P M
  | .cmd c k => P c ∧ ∀ n, (k n).All P M

variable {P P' : Cmd ι → Prop} {M M' : ι → Prop} {p : Prog ι α}

theorem All.bind {f : α → Prog ι β} (h : p.All P M) (hf : ∀ a, (f a).All P M) : (p >>= f).All P M := by
  rw [bind_eq]
  induction p with
  | pure a => exact hf a
  | exit n => exact h
  | look k ih => exact fun w => ih w (h w)
  | mark m k ih => exact ⟨h.1, ih h.2⟩
  | cmd c k ih => exact ⟨h.1, fun n => ih n (h.2 n)⟩

theorem All.mono (h : p.All P M) (hP : ∀ c, P c → P' c) (hM : ∀ m, M m → M' m) : p.All P' M' := by
  induction p with
  | pure a => trivial
  | exit n => exact h
  | look k ih => exact fun w => ih w (h w)
  | mark m k ih => exact ⟨hM m h.1, ih h.2⟩
  | cmd c k ih => exact ⟨hP c h.1, fun n => ih n (h.2 n)⟩

theorem All.and (h : p.All P M) (h' : p.All P' M') : p.All (fun c => P c ∧ P' c) fun m => M m ∧ M' m := by
  induction p with
  | pure a => trivial
  | exit n => exact h
  | look k ih => exact fun w => ih w (h w) (h' w)
  | mark m k ih => exact ⟨⟨h.1, h'.1⟩, ih h.2 h'.2⟩
  | cmd c k ih => exact ⟨⟨h.1, h'.1⟩, fun n => ih n (h.2 n) (h'.2 n)⟩

@[simp] theorem all_pure {a : α} : (Pure.pure a : Prog ι α).All P M ↔ True := Iff.rfl
@[simp] theorem all_exit {n : Nat} : (exit n : Prog ι α).All P M ↔ n ≠ 0 := Iff.rfl
@[simp] theorem all_world : (world : Prog ι (World ι)).All P M ↔ True := ⟨fun _ => trivial, fun _ _ => trivial⟩
@[simp] theorem all_note {m : ι} : (note m).All P M ↔ M m := ⟨fun h => h.1, fun h => ⟨h, trivial⟩⟩
@[simp] theorem all_run {c : Cmd ι} : (run c).All P M ↔ P c := ⟨fun h => h.1, fun h => ⟨h, fun _ => trivial⟩⟩
@[simp] theorem all_run_ {c : Cmd ι} : (run_ c).All P M ↔ P c := ⟨fun h => h.1, fun h => ⟨h, fun _ => trivial⟩⟩

theorem all_ite {c : Prop} [Decidable c] {p q : Prog ι α} (hp : c → p.All P M) (hq : ¬ c → q.All P M) :
    (if c then p else q).All P M := by
  split
  · exact hp ‹_›
  · exact hq ‹_›

theorem all_ifThen {c : Bool} {p : Prog ι Unit} (hp : c = true → p.All P M) : (ifThen c p).All P M :=
  all_ite hp fun _ => trivial

theorem all_forEach {f : β → Prog ι Unit} {xs : List β} (h : ∀ x ∈ xs, (f x).All P M) :
    (forEach f xs).All P M := by
  induction xs with
  | nil => trivial
  | cons x xs ih => exact (h x (by simp)).bind fun _ => ih fun y hy => h y (by simp [hy])

end Prog

/-- `c` keeps the assertion `I`, whether it is stopped in the middle or ends. -/
def Cmd.Preserves (T : Tools) (I : World ι → Prop) (c : Cmd ι) : Prop :=
  (∀ w w', I w → c.MidW T w w' → I w') ∧ ∀ w n w', I w → c.FinW T w n w' → I w'

theorem Safe.of_all {I : World ι → Prop} {P : Cmd ι → Prop} {M : ι → Prop} {p : Prog ι α} {w : World ι}
    (hP : ∀ c, P c → c.Preserves T I) (hM : ∀ m w, M m → I w → I ⟨w.fs, .mark m :: w.log⟩)
    (hp : p.All P M) (hw : I w) : Safe T Alone I (fun _ => I) (fun n v => n ≠ 0 ∧ I v) p w := by
  induction p generalizing w with
  | pure a => exact safe_pure.2 ⟨hw, hw⟩
  | exit n => exact safe_exit.2 ⟨hw, hp, hw⟩
  | look k ih => exact safe_look.2 ⟨hw, ih w (hp w) hw⟩
  | mark m k ih => exact safe_mark.2 ⟨hw, ih hp.2 (hM m w hp.1 hw)⟩
  | cmd c k ih =>
    exact safe_busy I hw (fun _ h => h) (fun v v' hv hm => (hP c hp.1).1 v v' hv hm)
      fun v n v' hv hf => ih n (hp.2 n) ((hP c hp.1).2 v n v' hv hf)

end Shell
