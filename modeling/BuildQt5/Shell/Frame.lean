import BuildQt5.Shell.Logic

/-!
# Frames

What a program leaves alone. `Cmd.roots` are the paths a command works on; a program whose commands
all stay within an area (`Cmd.Within`) changes nothing at or below a path `q` off that area, makes at
most directories above it, and records nothing about it (`Framed`, `safe_frame`). A program that also
runs `rm -rf` anywhere takes things away from `q` at most, and records all it takes (`Thinned`,
`safe_thin`).
-/

namespace Shell

variable {ι α : Type} {T : Tools}

def Apart (p q : Path) : Prop := ¬ p <+: q ∧ ¬ q <+: p

instance (p q : Path) : Decidable (Apart p q) := inferInstanceAs (Decidable (_ ∧ _))

theorem Apart.symm {p q : Path} (h : Apart p q) : Apart q p := ⟨h.2, h.1⟩

theorem Apart.below {p q r : Path} (h : Apart p q) (hr : p <+: r) : Apart r q :=
  ⟨fun hq => h.1 (hr.trans hq), fun hq => (List.prefix_or_prefix_of_prefix hr hq).elim h.1 h.2⟩

theorem Apart.child {d : Path} {x y : String} (h : x ≠ y) : Apart (d ++ [x]) (d ++ [y]) := by
  constructor
  · intro hp
    have := (List.prefix_append_right_inj d).1 hp
    simp [h] at this
  · intro hp
    have := (List.prefix_append_right_inj d).1 hp
    simp [Ne.symm h] at this

/-- Where a program works: the paths it may change, and directories it makes if they are missing. -/
structure Area where
  mem : Path → Prop
  dir : Path → Prop

/-- Work in `A` leaves `q` alone. -/
def Area.Off (A : Area) (q : Path) : Prop := (∀ p, A.mem p → Apart p q) ∧ ∀ p, A.dir p → ¬ q <+: p

namespace Cmd

/-- The paths a command works on, `mkdir -p` apart. -/
def roots : Cmd ι → List Path
  | .mkdirP _ => []
  | .write p _ => [p]
  | .rmF p => [p]
  | .rmRf ps => ps
  | .mv a b => [a, b]
  | .tar _ dest => [dest]
  | .patch dirs _ => dirs ++ dirs.map rejectPath
  | .cp _ _ dst => [dst]
  | .ext _ foot _ => foot

/-- `c` works in the area `A` only, and makes no directory but there. -/
def Within (A : Area) : Cmd ι → Prop
  | .mkdirP p => A.mem p ∨ A.dir p
  | c => ∀ r ∈ c.roots, A.mem r

/-- `c` does not work at, below or above `q`, except to make directories above. -/
def Off (q : Path) : Cmd ι → Prop
  | .mkdirP p => ¬ q <+: p
  | c => ∀ r ∈ c.roots, Apart r q

theorem Within.off {A : Area} {q : Path} {c : Cmd ι} (h : c.Within A) (hq : A.Off q) : c.Off q := by
  cases c with
  | mkdirP p => exact h.elim (fun h => (hq.1 p h).2) (hq.2 p)
  | _ => exact fun r hr => hq.1 r (h r hr)

theorem Within.mono {A B : Area} {c : Cmd ι} (h : c.Within A) (hm : ∀ p, A.mem p → B.mem p)
    (hd : ∀ p, A.dir p → B.mem p ∨ B.dir p) : c.Within B := by
  cases c with
  | mkdirP p => exact h.elim (fun h => .inl (hm p h)) (hd p)
  | _ => exact fun r hr => hm r (h r hr)

/-! ### What one command can do -/

section spec
variable {c : Cmd ι} {fs fs' : Fs} {n : Nat} {q : Path} {evs : List (Event ι)}

theorem covers_patchFoot {dirs : List Path} (h : Fs.covers (patchFoot fs dirs) q = true) :
    Fs.covers (dirs ++ dirs.map rejectPath) q = true := by
  obtain ⟨r, hr, hrq⟩ := Fs.covers_iff.1 h
  refine Fs.covers_iff.2 ⟨r, ?_, hrq⟩
  match dirs with
  | [] => simp [patchFoot] at hr
  | [d] =>
    simp only [patchFoot] at hr
    split at hr <;> simp_all
  | _ :: e :: _ =>
    simp only [patchFoot, List.mem_singleton] at hr
    subst hr; simp

theorem covers_topDir {dest a : Path} {s : String} (h : Fs.covers [topDir T dest a s] q = true) :
    Fs.covers [dest] q = true := by
  obtain ⟨r, hr, hrq⟩ := Fs.covers_iff.1 h
  rw [List.mem_singleton.1 hr] at hrq
  exact Fs.covers_iff.2 ⟨dest, by simp, (List.prefix_append dest _).trans hrq⟩

theorem Mid.get (h : c.Mid T fs fs' evs) : fs'.get q = fs.get q ∨ Fs.covers c.roots q = true := by
  by_cases hq : Fs.covers c.roots q = true
  · exact .inr hq
  · left
    rw [Bool.not_eq_true] at hq
    cases h with
    | rmRf hr hr0 hg hl =>
      rw [Fs.get_erase hr0, if_neg]
      rintro ⟨rfl, -⟩
      exact absurd hr (by simpa [roots] using hq)
    | tar ha h => exact h q (by by_contra hc; simp [roots, covers_topDir (by simpa using hc)] at hq)
    | patch h => exact h q (by by_contra hc; simp [roots, covers_patchFoot (by simpa using hc)] at hq)
    | cp h => exact h q hq
    | ext h => exact h q hq

theorem Mid.events (h : c.Mid T fs fs' evs) {e : Event ι} (he : e ∈ evs) :
    ∃ r, e = .removed r ∧ r ≠ [] ∧ fs' = fs.erase r ∧ Fs.covers c.roots r = true ∧ fs.leaf r = true ∧
      fs.get r ≠ none := by
  cases h with
  | rmRf hr hr0 hg hl =>
    simp only [List.mem_singleton] at he
    exact ⟨_, he, hr0, rfl, hr, hl, hg⟩
  | tar => simp at he
  | patch => simp at he
  | cp => simp at he
  | ext => simp at he

theorem archive_eq_some {as : List Path} {a : Path} {s : String} :
    archive fs as = some (a, s) ↔ as = [a] ∧ fs.content a = some s := by
  unfold archive
  split
  · rename_i b
    constructor
    · intro h
      obtain ⟨c, hc, heq⟩ := Option.map_eq_some_iff.1 h
      obtain ⟨rfl, rfl⟩ := Prod.mk.inj heq
      exact ⟨rfl, hc⟩
    · rintro ⟨hb, hc⟩
      rw [List.singleton_inj.1 hb, hc]
      rfl
  · rename_i hne
    exact iff_of_false (by simp) fun h => hne a h.1

/-- `tar` changes the top directory of the archive it was given, if anything. -/
theorem Fin.get_tar {as : List Path} {dest : Path} (h : (tar as dest : Cmd ι).Fin T fs n fs')
    (hq : ∀ a s, archive fs as = some (a, s) → ¬ topDir T dest a s <+: q) : fs'.get q = fs.get q := by
  simp only [Fin] at h
  rcases hx : archive fs as with _ | ⟨a, s⟩
  · rw [hx] at h
    split at h
    · exact h.elim
    · rw [show fs' = fs from h]
  · rw [hx] at h
    have hcov : Fs.covers [topDir T dest a s] q = false := by simpa [Fs.covers] using hq a s hx
    split at h
    · obtain ⟨-, -, h⟩ := h
      split at h
      · rw [h, Fs.get_graft_of_not (hq a s hx)]
      · exact h.1 q hcov
    · exact h q hcov

/-- `patch` succeeded on one directory. -/
theorem Fin.patch_one {d : Path} {text : String} (h : (patch [d] text : Cmd ι).Fin T fs 0 fs') :
    fs.get d = some .dir ∧ d ≠ [] ∧ T.patch text (fs.sub d) = some (fs'.sub d) ∧ fs' = fs.graft d (fs'.sub d) := by
  have hreplaced : Replaced fs fs' d (T.patch text (fs.sub d)) := h
  rcases hp : T.patch text (fs.sub d) with _ | t
  · rw [hp] at hreplaced
    exact hreplaced.elim
  rw [hp] at hreplaced
  obtain ⟨hdir, hne, rfl⟩ := hreplaced
  rw [Fs.isDir_iff] at hdir
  rw [Fs.sub_graft hne (Fs.get_dropLast (by simp [hdir]))]
  exact ⟨hdir, hne, rfl, rfl⟩

theorem Fin.get (h : c.Fin T fs n fs') : fs'.get q = fs.get q ∨ Fs.covers c.roots q = true ∨
    ∃ p, c = .mkdirP p ∧ q <+: p ∧ fs.get q = none ∧ fs'.get q = some .dir := by
  by_cases hq : Fs.covers c.roots q = true
  · exact .inr (.inl hq)
  · rw [Bool.not_eq_true] at hq
    have hne : ∀ p, c.roots = [p] → q ≠ p := by
      rintro p hp rfl
      simp [hp, Fs.covers] at hq
    cases c with
    | mkdirP p =>
      obtain ⟨-, rfl⟩ := h
      rcases @Fs.get_mkdirP fs p q with h | ⟨h0, h1, h2⟩
      · exact .inl h
      · exact .inr (.inr ⟨p, rfl, h2, h0, h1⟩)
    | write p s =>
      obtain ⟨rfl, -⟩ := h
      exact .inl (Fs.get_write_of_ne (hne p rfl))
    | rmF p =>
      obtain ⟨-, rfl⟩ := h
      left
      split
      · by_cases hp : p = []
        · subst hp; simp [roots, Fs.covers] at hq
        · rw [Fs.get_erase hp, if_neg fun h => hne p rfl h.1]
      · rfl
    | rmRf ps =>
      obtain rfl : fs' = _ := h
      left
      split
      · by_cases hq0 : q = []
        · simp [hq0]
        · rw [Fs.get_rmTrees hq0, if_neg (by simpa [roots] using hq)]
      · rfl
    | mv a b =>
      left
      have ha : ¬ a <+: q := by rintro h; simp [roots, Fs.covers, h] at hq
      have hb : q ≠ b := by rintro rfl; simp [roots, Fs.covers] at hq
      have ha0 : a ≠ [] := by rintro rfl; simp at ha
      simp only [Fin] at h
      split at h
      · rcases hc : fs.content a with _ | s
        · rw [hc] at h
          exact h.elim
        · rw [hc] at h
          obtain ⟨-, -, rfl⟩ := h
          have hqa : q ≠ a := by rintro rfl; exact ha (List.prefix_refl _)
          rw [Fs.get_erase ha0, if_neg (by simp [hqa]), Fs.get_write_of_ne hb]
      · rw [h]
    | tar as dest =>
      refine .inl (h.get_tar fun a s _ ht => ?_)
      have hc : Fs.covers [topDir T dest a s] q = true := by simpa [Fs.covers] using ht
      simp [roots, covers_topDir hc] at hq
    | patch dirs text =>
      left
      simp only [Fin] at h
      split at h
      · rcases dirs with _ | ⟨d, _ | ⟨e, rest⟩⟩
        · exact h.elim
        · have hd : ¬ d <+: q := by rintro hd; simp [roots, Fs.covers, hd] at hq
          have hfin : (patch [d] text : Cmd ι).Fin T fs 0 fs' := h
          rw [hfin.patch_one.2.2.2, Fs.get_graft_of_not hd]
        · exact h.elim
      · exact h q (by by_contra hc; simp [roots, covers_patchFoot (by simpa using hc)] at hq)
    | cp job src dst =>
      left
      simp only [Fin] at h
      split at h
      · rcases hn : fs.get src with _ | _ | s
        · rw [hn] at h
          exact h.elim
        · rw [hn] at h
          exact h.2.1 q hq
        · rw [hn] at h
          rw [h.2]
          exact Fs.get_write_of_ne (hne dst rfl)
      · exact h q hq
    | ext job foot makes => exact .inl (h.1 q hq)

/-- What is recorded of a removal is what is removed. -/
theorem mem_removed {r : Path} (h : c.Fin T fs n fs') (he : .removed r ∈ c.events fs n) :
    Fs.covers c.roots r = true := by
  cases c with
  | rmF p =>
    simp only [events] at he
    split at he <;> simp_all [roots, Fs.covers]
  | rmRf ps =>
    simp only [events, List.mem_cons, reduceCtorEq, false_or] at he
    split at he
    · simp only [List.mem_map, Event.removed.injEq, exists_eq_right] at he
      exact (Fs.mem_below.1 he).2.2
    · simp at he
  | mkdirP p => simp only [events] at he; split at he <;> simp at he
  | write p s => simp only [events] at he; split at he <;> simp at he
  | mv a b => simp only [events] at he; split at he <;> simp at he
  | tar as dest => simp only [events] at he; split at he <;> simp at he
  | patch dirs text => simp [events] at he
  | cp job src dst => simp [events] at he
  | ext job foot makes => simp [events] at he

end spec

end Cmd

/-- `e` is not about `q`, and a label of it is in `M`. -/
def Event.Off (q : Path) (M : ι → Prop) : Event ι → Prop
  | .made p | .wrote p | .removed p => ¬ q <+: p
  | .moved a b => ¬ q <+: a ∧ ¬ q <+: b
  | .mark m => M m
  | _ => True

theorem Cmd.Off.events {c : Cmd ι} {q : Path} {M : ι → Prop} {fs fs' : Fs} {n : Nat} (hc : c.Off q)
    (h : c.Fin T fs n fs') {e : Event ι} (he : e ∈ c.events fs n) : e.Off q M := by
  cases c with
  | mkdirP p =>
    simp only [Cmd.events] at he
    split at he
    · rw [List.mem_singleton.1 he]; exact hc
    · simp at he
  | write p s =>
    simp only [Cmd.events] at he
    split at he
    · rw [List.mem_singleton.1 he]; exact (hc p (by simp [roots])).2
    · simp at he
  | rmF p =>
    simp only [Cmd.events] at he
    split at he
    · rw [List.mem_singleton.1 he]; exact (hc p (by simp [roots])).2
    · simp at he
  | rmRf ps =>
    cases e with
    | removed r =>
      obtain ⟨p, hp, hpr⟩ := Fs.covers_iff.1 (mem_removed h he)
      exact ((hc p hp).below hpr).2
    | rmExit ps n => trivial
    | _ => simp only [Cmd.events] at he; split at he <;> simp at he
  | mv a b =>
    simp only [Cmd.events] at he
    split at he
    · rw [List.mem_singleton.1 he]
      exact ⟨(hc a (by simp [roots])).2, (hc b (by simp [roots])).2⟩
    · simp at he
  | tar as dest =>
    simp only [Cmd.events] at he
    split at he
    · simp only [Option.mem_toList, Option.map_eq_some_iff] at he
      obtain ⟨x, -, rfl⟩ := he; trivial
    · simp at he
  | patch dirs text => rw [List.mem_singleton.1 he]; trivial
  | cp job src dst => rw [List.mem_singleton.1 he]; trivial
  | ext job foot makes => rw [List.mem_singleton.1 he]; trivial

/-- From `w` to `w'`, nothing happened at or below `q`. -/
structure Framed (q : Path) (M : ι → Prop) (w w' : World ι) : Prop where
  same : ∀ r, q <+: r → w'.fs.get r = w.fs.get r
  above : ∀ r, r <+: q → w'.fs.get r = w.fs.get r ∨ w.fs.get r = none ∧ w'.fs.get r = some .dir
  log : ∃ evs, w'.log = evs ++ w.log ∧ ∀ e ∈ evs, e.Off q M

/-- From `w` to `w'`, nothing happened at or below `q` but removals, which are all recorded. -/
structure Thinned (q : Path) (M : ι → Prop) (w w' : World ι) : Prop where
  above : ∀ r, r <+: q → w'.fs.get r = w.fs.get r ∨ w'.fs.get r = none ∨ w'.fs.get r = some .dir
  log : ∃ evs, w'.log = evs ++ w.log ∧
    (∀ r, q <+: r → w'.fs.get r = w.fs.get r ∨ w'.fs.get r = none ∧ .removed r ∈ evs) ∧
    ∀ e ∈ evs, e.Off q M ∨ ∃ r, e = .removed r

section frame
variable {q : Path} {M : ι → Prop} {w w' w'' : World ι} {A : Area}

theorem Framed.refl : Framed q M w w := ⟨fun _ _ => rfl, fun _ _ => .inl rfl, [], rfl, by simp⟩

theorem Framed.trans (h : Framed q M w w') (h' : Framed q M w' w'') : Framed q M w w'' := by
  obtain ⟨evs, hl, he⟩ := h.log
  obtain ⟨evs', hl', he'⟩ := h'.log
  refine ⟨fun r hr => (h'.same r hr).trans (h.same r hr), fun r hr => ?_, evs' ++ evs, by simp [hl, hl'], ?_⟩
  · rcases h.above r hr with h0 | h0
    · rw [← h0]; exact h'.above r hr
    · rcases h'.above r hr with h1 | h1
      · exact .inr ⟨h0.1, h1.trans h0.2⟩
      · rw [h0.2] at h1; exact absurd h1.1 (by simp)
  · intro e hm
    rcases List.mem_append.1 hm with hm | hm
    · exact he' e hm
    · exact he e hm

theorem Framed.mono {M' : ι → Prop} (h : Framed q M w w') (hM : ∀ m, M m → M' m) : Framed q M' w w' := by
  obtain ⟨evs, hl, he⟩ := h.log
  refine ⟨h.same, h.above, evs, hl, fun e hm => ?_⟩
  have := he e hm
  cases e with
  | mark m => exact hM m this
  | _ => exact this

/-- What is framed at `q` is framed below it. -/
theorem Framed.below {r : Path} (h : Framed q M w w') (hr : q <+: r) : Framed r M w w' := by
  obtain ⟨evs, hl, he⟩ := h.log
  refine ⟨fun p hp => h.same p (hr.trans hp), fun p hp => ?_, evs, hl, fun e hm => ?_⟩
  · rcases List.prefix_or_prefix_of_prefix hp hr with hpq | hpq
    · exact h.above p hpq
    · exact .inl (h.same p hpq)
  · have := he e hm
    cases e with
    | made p => exact fun hp => this (hr.trans hp)
    | wrote p => exact fun hp => this (hr.trans hp)
    | removed p => exact fun hp => this (hr.trans hp)
    | moved a b => exact ⟨fun hp => this.1 (hr.trans hp), fun hp => this.2 (hr.trans hp)⟩
    | _ => exact this

theorem Framed.content (h : Framed q M w w') : w'.fs.content q = w.fs.content q := by
  rw [Fs.content, h.same q (List.prefix_refl q), Fs.content]

theorem Framed.mid {c : Cmd ι} (hc : c.Off q) (h : c.MidW T w w') : Framed q M w w' := by
  obtain ⟨evs, h, hl⟩ := h
  have hroots : ∀ r ∈ c.roots, Apart r q := by
    cases c with
    | mkdirP p => simp [Cmd.roots]
    | _ => exact hc
  have hsame : ∀ r, q <+: r ∨ r <+: q → w'.fs.get r = w.fs.get r := by
    intro r hr
    rcases h.get (q := r) with h | h
    · exact h
    · obtain ⟨p, hp, hpr⟩ := Fs.covers_iff.1 h
      have := (hroots p hp).below hpr
      exact (hr.elim this.2 this.1).elim
  refine ⟨fun r hr => hsame r (.inl hr), fun r hr => .inl (hsame r (.inr hr)), evs, hl, fun e he => ?_⟩
  obtain ⟨r, rfl, -, -, hr, -⟩ := h.events he
  obtain ⟨p, hp, hpr⟩ := Fs.covers_iff.1 hr
  exact ((hroots p hp).below hpr).2

theorem Framed.fin {c : Cmd ι} {n : Nat} (hc : c.Off q) (h : c.FinW T w n w') : Framed q M w w' := by
  obtain ⟨h, hl⟩ := h
  have hcase : ∀ r, q <+: r ∨ r <+: q → w'.fs.get r = w.fs.get r ∨
      ¬ q <+: r ∧ w.fs.get r = none ∧ w'.fs.get r = some .dir := by
    intro r hr
    rcases h.get (q := r) with h | h | ⟨p, rfl, hrp, h⟩
    · exact .inl h
    · obtain ⟨p, hp, hpr⟩ := Fs.covers_iff.1 h
      have hap : Apart p q := by
        cases c with
        | mkdirP p => simp [Cmd.roots] at hp
        | _ => exact hc p hp
      exact (hr.elim (hap.below hpr).2 (hap.below hpr).1).elim
    · exact .inr ⟨fun hq => hc (hq.trans hrp), h⟩
  refine ⟨fun r hr => ?_, fun r hr => ?_, _, hl, fun e he => hc.events h he⟩
  · rcases hcase r (.inl hr) with h | h
    · exact h
    · exact absurd hr h.1
  · rcases hcase r (.inr hr) with h | h
    · exact .inl h
    · exact .inr h.2

theorem Framed.mark {m : ι} (hm : M m) : Framed q M w ⟨w.fs, .mark m :: w.log⟩ :=
  ⟨fun _ _ => rfl, fun _ _ => .inl rfl, [.mark m], rfl, by simpa [Event.Off] using hm⟩

theorem safe_off {p : Prog ι α} (hp : p.All (fun c => c.Off q) M) :
    Safe T Alone (Framed q M w) (fun _ => Framed q M w) (fun n v => n ≠ 0 ∧ Framed q M w v) p w := by
  refine Safe.of_all ?_ (fun m v hm h => h.trans (.mark hm)) hp .refl
  intro c hc
  exact ⟨fun v v' h hm => h.trans (.mid hc hm), fun v n v' h hf => h.trans (.fin hc hf)⟩

/-- The frame rule. -/
theorem safe_frame {p : Prog ι α} (hp : p.All (Cmd.Within A) M) (hA : A.Off q) :
    Safe T Alone (Framed q M w) (fun _ => Framed q M w) (fun n v => n ≠ 0 ∧ Framed q M w v) p w :=
  safe_off (hp.mono (fun _ h => h.off hA) fun _ h => h)

theorem Framed.thinned (h : Framed q M w w') : Thinned q M w w' := by
  obtain ⟨evs, hl, he⟩ := h.log
  refine ⟨fun r hr => ?_, evs, hl, fun r hr => .inl (h.same r hr), fun e hm => .inl (he e hm)⟩
  rcases h.above r hr with h | h
  · exact .inl h
  · exact .inr (.inr h.2)

theorem Thinned.trans (h : Thinned q M w w') (h' : Thinned q M w' w'') : Thinned q M w w'' := by
  obtain ⟨evs, hl, hg, he⟩ := h.log
  obtain ⟨evs', hl', hg', he'⟩ := h'.log
  refine ⟨fun r hr => ?_, evs' ++ evs, by simp [hl, hl'], fun r hr => ?_, fun e hm => ?_⟩
  · rcases h'.above r hr with h1 | h1
    · rw [h1]; exact h.above r hr
    · exact .inr h1
  · rcases hg' r hr with h1 | ⟨h1, h2⟩
    · rcases hg r hr with h0 | ⟨h0, h2⟩
      · exact .inl (h1.trans h0)
      · exact .inr ⟨h1.trans h0, List.mem_append_right _ h2⟩
    · exact .inr ⟨h1, List.mem_append_left _ h2⟩
  · rcases List.mem_append.1 hm with hm | hm
    · exact he' e hm
    · exact he e hm

theorem Thinned.mid {ps : List Path} (h : (Cmd.rmRf ps).MidW T w w') : Thinned q M w w' := by
  obtain ⟨evs, h, hl⟩ := h
  obtain ⟨fs', log'⟩ := w'
  cases h with
  | @rmRf _ _ r hr hr0 hg hle =>
    have hget : ∀ p, (w.fs.erase r).get p = w.fs.get p ∨ (w.fs.erase r).get p = none ∧ p = r := by
      intro p
      rw [Fs.get_erase hr0]
      split
      · exact .inr ⟨rfl, (‹p = r ∧ _›).1⟩
      · exact .inl rfl
    refine ⟨fun p _ => ?_, [.removed r], hl, fun p _ => ?_, fun e he => .inr ⟨r, List.mem_singleton.1 he⟩⟩
    · rcases hget p with h | h
      · exact .inl h
      · exact .inr (.inl h.1)
    · rcases hget p with h | ⟨h, rfl⟩
      · exact .inl h
      · exact .inr ⟨h, by simp⟩

theorem Thinned.fin {ps : List Path} {n : Nat} (h : (Cmd.rmRf ps).FinW T w n w') : Thinned q M w w' := by
  obtain ⟨h, hl⟩ := h
  obtain ⟨fs', log'⟩ := w'
  obtain rfl : fs' = _ := h
  have hget : ∀ p, (if n = 0 then w.fs.rmTrees ps else w.fs).get p = w.fs.get p ∨
      (if n = 0 then w.fs.rmTrees ps else w.fs).get p = none ∧
        Event.removed p ∈ (Cmd.rmRf ps : Cmd ι).events w.fs n := by
    intro p
    by_cases hn : n = 0
    · by_cases hp : p = []
      · left; simp [hp]
      · by_cases hc : Fs.covers ps p = true
        · by_cases hg : w.fs.get p = none
          · left; simp [hn, Fs.get_rmTrees hp, hc, hg]
          · right
            simp [hn, Fs.get_rmTrees hp, hc, Cmd.events, Fs.mem_below, hp, hg]
        · left; simp [hn, Fs.get_rmTrees hp, hc]
    · left; simp [hn]
  refine ⟨fun p _ => ?_, _, hl, fun p _ => hget p, fun e he => ?_⟩
  · rcases hget p with h | h
    · exact .inl h
    · exact .inr (.inl h.1)
  · simp only [Cmd.events, List.mem_cons] at he
    rcases he with rfl | he
    · exact .inl trivial
    · split at he
      · obtain ⟨r, -, rfl⟩ := List.mem_map.1 he
        exact .inr ⟨r, rfl⟩
      · simp at he

/-- The frame rule of the programs that run `rm -rf` anywhere. -/
theorem safe_thin {p : Prog ι α} (hp : p.All (fun c => c.Off q ∨ ∃ ps, c = .rmRf ps) M) :
    Safe T Alone (Thinned q M w) (fun _ => Thinned q M w) (fun n v => n ≠ 0 ∧ Thinned q M w v) p w := by
  refine Safe.of_all ?_ (fun m v hm h => h.trans (Framed.mark hm).thinned) hp Framed.refl.thinned
  rintro c (hc | ⟨ps, rfl⟩)
  · exact ⟨fun v v' h hm => h.trans (Framed.mid hc hm).thinned,
      fun v n v' h hf => h.trans (Framed.fin hc hf).thinned⟩
  · exact ⟨fun v v' h hm => h.trans (.mid hm), fun v n v' h hf => h.trans (.fin hf)⟩

end frame

/-! ### The labels of a run -/

/-- The log grew from `w` to `w'`, and the new labels are in `M`. -/
def Grown (M : ι → Prop) (w w' : World ι) : Prop :=
  ∃ evs, w'.log = evs ++ w.log ∧ ∀ m, .mark m ∈ evs → M m

section grown
variable {M : ι → Prop} {w w' w'' : World ι}

theorem Grown.refl : Grown M w w := ⟨[], rfl, by simp⟩

theorem Grown.trans (h : Grown M w w') (h' : Grown M w' w'') : Grown M w w'' := by
  obtain ⟨evs, hl, he⟩ := h
  obtain ⟨evs', hl', he'⟩ := h'
  refine ⟨evs' ++ evs, by simp [hl, hl'], fun m hm => ?_⟩
  rcases List.mem_append.1 hm with hm | hm
  · exact he' m hm
  · exact he m hm

theorem Grown.mono {M' : ι → Prop} (h : Grown M w w') (hM : ∀ m, M m → M' m) : Grown M' w w' := by
  obtain ⟨evs, hl, he⟩ := h
  exact ⟨evs, hl, fun m hm => hM m (he m hm)⟩

theorem Grown.mark {m : ι} (hm : M m) : Grown M w ⟨w.fs, .mark m :: w.log⟩ :=
  ⟨[.mark m], rfl, by simpa using hm⟩

theorem Cmd.mark_notMem_events {c : Cmd ι} {fs : Fs} {n : Nat} {m : ι} : .mark m ∉ c.events fs n := by
  intro h
  cases c <;> simp only [Cmd.events] at h
  case mkdirP => split at h <;> simp at h
  case write => split at h <;> simp at h
  case rmF => split at h <;> simp at h
  case rmRf => split at h <;> simp at h
  case mv => split at h <;> simp at h
  case tar => split at h <;> simp at h
  case cp => simp at h
  case patch => simp at h
  case ext => simp at h

theorem Grown.mid {c : Cmd ι} (h : c.MidW T w w') : Grown M w w' := by
  obtain ⟨evs, h, hl⟩ := h
  refine ⟨evs, hl, fun m hm => ?_⟩
  obtain ⟨r, hr, -⟩ := h.events hm
  cases hr

theorem Grown.fin {c : Cmd ι} {n : Nat} (h : c.FinW T w n w') : Grown M w w' :=
  ⟨_, h.2, fun _ hm => absurd hm Cmd.mark_notMem_events⟩

theorem safe_grown {P : Cmd ι → Prop} {p : Prog ι α} (hp : p.All P M) :
    Safe T Alone (Grown M w) (fun _ => Grown M w) (fun n v => n ≠ 0 ∧ Grown M w v) p w := by
  refine Safe.of_all ?_ (fun m v hm h => h.trans (.mark hm)) hp .refl
  exact fun c _ => ⟨fun v v' h hm => h.trans (.mid hm), fun v n v' h hf => h.trans (.fin hf)⟩

theorem Framed.grown {q : Path} (h : Framed q M w w') : Grown M w w' := by
  obtain ⟨evs, hl, he⟩ := h.log
  exact ⟨evs, hl, fun m hm => he _ hm⟩

end grown

end Shell
