import BuildQt5.Shell.Frame

/-!
# What a program changes

`Only P p`: every command of `p` satisfies `P`, whatever `p` reports and however it ends. A program whose commands
all work in the directories `ds` changes nothing but what is at or below these, and makes directories on the way
there (`Changes`, `safe_changes`).
-/

namespace Shell

variable {ι α β : Type} {T : Tools}

/-- Work that leaves `q` alone leaves alone what is below it. -/
theorem Area.Off.below {A : Area} {q r : Path} (h : A.Off q) (hq : q <+: r) : A.Off r :=
  ⟨fun p hp => ((h.1 p hp).symm.below hq).symm, fun p hp hr => h.2 p hp (hq.trans hr)⟩

namespace Prog

def Only (P : Cmd ι → Prop) : Prog ι α → Prop
  | .pure _ | .exit _ => True
  | .look k => ∀ w, (k w).Only P
  | .mark _ k => k.Only P
  | .cmd c k => P c ∧ ∀ n, (k n).Only P

variable {P P' : Cmd ι → Prop} {p : Prog ι α}

theorem Only.bind {f : α → Prog ι β} (h : p.Only P) (hf : ∀ a, (f a).Only P) : (p >>= f).Only P := by
  rw [bind_eq]
  induction p with
  | pure a => exact hf a
  | exit n => trivial
  | look k ih => exact fun w => ih w (h w)
  | mark m k ih => exact ih h
  | cmd c k ih => exact ⟨h.1, fun n => ih n (h.2 n)⟩

theorem All.only {M : ι → Prop} (h : p.All P M) : p.Only P := by
  induction p with
  | pure a => trivial
  | exit n => trivial
  | look k ih => exact fun w => ih w (h w)
  | mark m k ih => exact ih h.2
  | cmd c k ih => exact ⟨h.1, fun n => ih n (h.2 n)⟩

theorem Only.mono (h : p.Only P) (hP : ∀ c, P c → P' c) : p.Only P' := by
  induction p with
  | pure a => trivial
  | exit n => trivial
  | look k ih => exact fun w => ih w (h w)
  | mark m k ih => exact ih h
  | cmd c k ih => exact ⟨hP c h.1, fun n => ih n (h.2 n)⟩

theorem Only.step {R : World ι → World ι → Prop} {c c' : Prog ι α × World ι} (h : c.1.Only P) (hs : Step T R c c') :
    c'.1.Only P := by
  cases hs with
  | look => exact h _
  | mark => exact h
  | mid => exact h
  | fin => exact h.2 _
  | other => exact h

end Prog


theorem Safe.of_only {I : World ι → Prop} {P : Cmd ι → Prop} {p : Prog ι α} {w : World ι}
    (hP : ∀ c, P c → c.Preserves T I) (hM : ∀ m w, I w → I ⟨w.fs, .mark m :: w.log⟩) (hp : p.Only P) (hw : I w) :
    Safe T Alone I (fun _ => I) (fun _ => I) p w := by
  induction p generalizing w with
  | pure a => exact safe_pure.2 ⟨hw, hw⟩
  | exit n => exact safe_exit.2 ⟨hw, hw⟩
  | look k ih => exact safe_look.2 ⟨hw, ih w (hp w) hw⟩
  | mark m k ih => exact safe_mark.2 ⟨hw, ih hp (hM m w hw)⟩
  | cmd c k ih =>
    exact safe_busy I hw (fun _ h => h) (fun v v' hv hm => (hP c hp.1).1 v v' hv hm)
      fun v n v' hv hf => ih n (hp.2 n) ((hP c hp.1).2 v n v' hv hf)

/-- From `fs` to `fs'` nothing changed but what is at or below one of `ds`, and directories were made on the way to
these and to `mk`. -/
def Changes (ds mk : List Path) (fs fs' : Fs) : Prop :=
  ∀ r, Fs.covers ds r = false →
    fs'.get r = fs.get r ∨ fs.get r = none ∧ fs'.get r = some .dir ∧ ∃ d ∈ ds ++ mk, r <+: d

/-- The directories `ds`, and `mk` to be made. -/
def dirsArea (ds mk : List Path) : Area := ⟨fun p => Fs.covers ds p = true, fun p => p ∈ mk⟩

section changes
variable {ds ds' mk mk' : List Path} {fs fs' fs'' : Fs} {c : Cmd ι}

theorem Changes.refl : Changes ds mk fs fs := fun _ _ => .inl rfl

theorem Changes.trans (h : Changes ds mk fs fs') (h' : Changes ds mk fs' fs'') : Changes ds mk fs fs'' := by
  intro r hr
  rcases h r hr with h0 | h0
  · rcases h' r hr with h1 | h1
    · exact .inl (h1.trans h0)
    · exact .inr ⟨h0 ▸ h1.1, h1.2⟩
  · rcases h' r hr with h1 | h1
    · exact .inr ⟨h0.1, h1.trans h0.2.1, h0.2.2⟩
    · rw [h0.2.1] at h1
      cases h1.1

/-- A path that leads to something below `d` leads to `d`, or is below it. -/
theorem prefix_of_not_covers {d p r : Path} (hd : d ∈ ds) (hdp : d <+: p) (hr : Fs.covers ds r = false) (hrp : r <+: p) :
    r <+: d := by
  rcases List.prefix_or_prefix_of_prefix hrp hdp with h | h
  · exact h
  · rw [Fs.covers_iff.2 ⟨d, hd, h⟩] at hr
    cases hr

/-- The same of larger directories. -/
theorem Changes.mono (h : Changes ds mk fs fs') (hds : ∀ d ∈ ds ++ mk, Fs.covers ds' d = true) :
    Changes ds' mk' fs fs' := by
  intro r hr
  have hr' : Fs.covers ds r = false := by
    by_contra hc
    obtain ⟨d, hd, hdr⟩ := Fs.covers_iff.1 (eq_true_of_ne_false hc)
    obtain ⟨e, he, hed⟩ := Fs.covers_iff.1 (hds d (List.mem_append_left _ hd))
    rw [Fs.covers_iff.2 ⟨e, he, hed.trans hdr⟩] at hr
    cases hr
  rcases h r hr' with h0 | ⟨h0, h1, d, hd, hrd⟩
  · exact .inl h0
  · obtain ⟨e, he, hed⟩ := Fs.covers_iff.1 (hds d hd)
    exact .inr ⟨h0, h1, e, List.mem_append_left _ he, prefix_of_not_covers he hed hr hrd⟩

theorem Cmd.Within.covers_roots (hc : c.Within (dirsArea ds mk)) {q : Path} (hq : Fs.covers c.roots q = true) :
    Fs.covers ds q = true := by
  obtain ⟨r, hr, hrq⟩ := Fs.covers_iff.1 hq
  have hmem : Fs.covers ds r = true := by
    cases c with
    | mkdirP p => cases hr
    | _ => exact hc r hr
  obtain ⟨d, hd, hdr⟩ := Fs.covers_iff.1 hmem
  exact Fs.covers_iff.2 ⟨d, hd, hdr.trans hrq⟩

theorem Changes.mid {evs : List (Event ι)} (hc : c.Within (dirsArea ds mk)) (h : c.Mid T fs fs' evs) :
    Changes ds mk fs fs' := by
  intro r hr
  rcases h.get (q := r) with h0 | h0
  · exact .inl h0
  · rw [hc.covers_roots h0] at hr
    cases hr

theorem Changes.fin {n : Nat} (hc : c.Within (dirsArea ds mk)) (h : c.Fin T fs n fs') : Changes ds mk fs fs' := by
  intro r hr
  rcases h.get (q := r) with h0 | h0 | ⟨p, rfl, hrp, h0, h1⟩
  · exact .inl h0
  · rw [hc.covers_roots h0] at hr
    cases hr
  · refine .inr ⟨h0, h1, ?_⟩
    rcases hc with hp | hp
    · obtain ⟨d, hd, hdp⟩ := Fs.covers_iff.1 hp
      exact ⟨d, List.mem_append_left _ hd, prefix_of_not_covers hd hdp hr hrp⟩
    · exact ⟨p, List.mem_append_right _ hp, hrp⟩

theorem safe_changes {p : Prog ι α} {w : World ι} (hp : p.Only (Cmd.Within (dirsArea ds mk))) :
    Safe T Alone (fun v => Changes ds mk w.fs v.fs) (fun _ v => Changes ds mk w.fs v.fs)
      (fun _ v => Changes ds mk w.fs v.fs) p w :=
  Safe.of_only (fun _ hc => ⟨fun _ _ h ⟨_, hm, _⟩ => h.trans (.mid hc hm), fun _ _ _ h hf => h.trans (.fin hc hf.1)⟩)
    (fun _ _ h => h) hp .refl

end changes

end Shell
