import BuildQt5.Shell.Whole

/-!
# Two runs side by side

`Coupled T Q X p w v`: whatever `p` does from `w`, command by command, it can do from `v` as well, with the same tests
and the same exit codes; `Q` and `X` relate the two worlds where it ends. Where two file systems agree on a set `V` of
paths, a command that reads and changes nothing outside `V` can be followed, and they agree on `V` afterwards
(`Cmd.Couples`).
-/

namespace Shell
open Relation

variable {ι α β : Type} {T : Tools} {C : Cmd ι → Nat → Prop}

def Coupled (T : Tools) (Q : α → World ι → World ι → Prop) (X : Nat → World ι → World ι → Prop) :
    Prog ι α → World ι → World ι → Prop
  | .pure a, w, v => Q a w v
  | .exit n, w, v => X n w v
  | .look k, w, v => k v = k w ∧ Coupled T Q X (k w) w v
  | .mark m k, w, v => Coupled T Q X k ⟨w.fs, .mark m :: w.log⟩ ⟨v.fs, .mark m :: v.log⟩
  | .cmd c k, w, v => ∀ n w', c.FinW T w n w' → ∃ v', c.FinW T v n v' ∧ Coupled T Q X (k n) w' v'

section coupled
variable {Q Q' : α → World ι → World ι → Prop} {X : Nat → World ι → World ι → Prop} {w v : World ι}

theorem Coupled.runs {c c' : Prog ι α × World ι} (h : Coupled T Q X c.1 c.2 v) (hr : Runs T C c c') :
    ∃ v', Runs T C (c.1, v) (c'.1, v') ∧ Coupled T Q X c'.1 c'.2 v' := by
  induction hr with
  | refl => exact ⟨v, .refl, h⟩
  | tail _ hs ih =>
    obtain ⟨v₁, hr₁, h₁⟩ := ih
    cases hs with
    | look =>
      refine ⟨v₁, hr₁.tail ?_, h₁.2⟩
      rw [← h₁.1]
      exact .look
    | mark => exact ⟨_, hr₁.tail .mark, h₁⟩
    | fin hf hC =>
      obtain ⟨v₂, hf₂, h₂⟩ := h₁ _ _ hf
      exact ⟨v₂, hr₁.tail (.fin hf₂ hC), h₂⟩

theorem Coupled.mono {p : Prog ι α} (h : Coupled T Q X p w v) (hQ : ∀ a w v, Q a w v → Q' a w v) :
    Coupled T Q' X p w v := by
  induction p generalizing w v with
  | pure a => exact hQ a w v h
  | exit n => exact h
  | look k ih => exact ⟨h.1, ih w h.2⟩
  | mark m k ih => exact ih h
  | cmd c k ih =>
    intro n w' hf
    obtain ⟨v', hf', h'⟩ := h n w' hf
    exact ⟨v', hf', ih n h'⟩

theorem coupled_bind {P : β → World ι → World ι → Prop} {p : Prog ι α} {f : α → Prog ι β}
    (h : Coupled T (fun a w v => Coupled T P X (f a) w v) X p w v) : Coupled T P X (p >>= f) w v := by
  rw [Prog.bind_eq]
  induction p generalizing w v with
  | pure a => exact h
  | exit n => exact h
  | look k ih => exact ⟨congrArg (Prog.bind f) h.1, ih w h.2⟩
  | mark m k ih => exact ih h
  | cmd c k ih =>
    intro n w' hf
    obtain ⟨v', hf', h'⟩ := h n w' hf
    exact ⟨v', hf', ih n h'⟩

theorem coupled_world {f : World ι → Prog ι α} (hf : f v = f w) (h : Coupled T Q X (f w) w v) :
    Coupled T Q X (Prog.world >>= f) w v := ⟨hf, h⟩

theorem coupled_note {m : ι} {f : Unit → Prog ι α}
    (h : Coupled T Q X (f ()) ⟨w.fs, .mark m :: w.log⟩ ⟨v.fs, .mark m :: v.log⟩) :
    Coupled T Q X (Prog.note m >>= f) w v := h

end coupled

/-! ### Commands that see the same -/

/-- What a log says, but for the directories that were made. -/
def trace (log : List (Event ι)) : List (Event ι) :=
  log.filter fun e => match e with
    | .made _ => false
    | _ => true

theorem trace_append (l l' : List (Event ι)) : trace (l ++ l') = trace l ++ trace l' := List.filter_append ..

structure Alike (V : Path → Prop) (w v : World ι) : Prop where
  get : ∀ p, V p → v.fs.get p = w.fs.get p
  trace_eq : trace v.log = trace w.log

/-- `c` can be followed from `v`, within `V`. -/
def Cmd.Couples (T : Tools) (V : Path → Prop) (c : Cmd ι) (w v : World ι) : Prop :=
  ∀ n w', c.FinW T w n w' → (∀ p, ¬ V p → w'.fs.get p = w.fs.get p) ∧
    ∃ v', c.FinW T v n v' ∧ Alike V w' v' ∧ ∀ p, ¬ V p → v'.fs.get p = v.fs.get p

section couples
variable {V : Path → Prop} {w v : World ι} (h : Alike V w v)
include h

theorem Alike.content {p : Path} (hp : V p) : v.fs.content p = w.fs.content p := by
  rw [Fs.content, h.get p hp, Fs.content]

theorem Alike.isFile {p : Path} (hp : V p) : v.fs.isFile p = w.fs.isFile p := by
  rw [Fs.isFile, h.get p hp, Fs.isFile]

/-- The world after the command, with its log. -/
theorem Alike.step {c : Cmd ι} {n : Nat} {w' : World ι} {fs : Fs} (hf : c.FinW T w n w')
    (hfin : c.Fin T v.fs n fs) (hev : trace (c.events v.fs n) = trace (c.events w.fs n))
    (hget : ∀ p, V p → fs.get p = w'.fs.get p) (hout : ∀ p, ¬ V p → fs.get p = v.fs.get p) :
    ∃ v', c.FinW T v n v' ∧ Alike V w' v' ∧ ∀ p, ¬ V p → v'.fs.get p = v.fs.get p := by
  refine ⟨⟨fs, c.events v.fs n ++ v.log⟩, ⟨hfin, rfl⟩, ⟨hget, ?_⟩, hout⟩
  rw [hf.2, trace_append, trace_append, hev, h.trace_eq]

/-- A directory that is there already. -/
theorem couples_mkdirP {p : Path} (hp : V p) (hdir : w.fs.get p = some .dir) : (Cmd.mkdirP p).Couples T V w v := by
  have hid : ∀ fs : Fs, fs.get p = some .dir → ∀ q, (fs.mkdirP p).get q = fs.get q := by
    intro fs hd q
    rcases @Fs.get_mkdirP fs p q with h' | ⟨h0, -, hpre⟩
    · exact h'
    · by_cases hq : q = p
      · rw [hq, hd] at h0; cases h0
      · rw [Fs.get_above (by simp [hd]) hpre hq] at h0; cases h0
  rintro n w' hf
  obtain ⟨hn, hfs⟩ := hf.1
  have hv : v.fs.get p = some .dir := (h.get p hp).trans hdir
  refine ⟨fun q _ => by rw [hfs, hid w.fs hdir], h.step hf ⟨hn, rfl⟩ ?_ (fun q hq => ?_) fun q _ => hid v.fs hv q⟩
  · simp [Cmd.events, hdir, hv]
  · rw [hfs, hid v.fs hv, hid w.fs hdir, h.get q hq]

theorem couples_rmF {p : Path} (hp : V p) : (Cmd.rmF p).Couples T V w v := by
  have hget : ∀ fs : Fs, ∀ q, (if fs.isFile p then fs.erase p else fs).get q =
      if fs.isFile p = true ∧ q = p then none else fs.get q := by
    intro fs q
    by_cases hfile : fs.isFile p = true
    · obtain ⟨c, hc⟩ := Fs.isFile_iff.1 hfile
      rw [if_pos hfile, Fs.get_erase_file hc]
      simp [hfile]
    · rw [if_neg hfile, if_neg fun h' => hfile h'.1]
  have hne : ∀ q, ¬ V q → q ≠ p := by rintro q hq rfl; exact hq hp
  rintro n w' hf
  obtain ⟨hn, hfs⟩ := hf.1
  refine ⟨fun q hq => ?_, h.step hf ⟨hn, rfl⟩ ?_ (fun q hq => ?_) fun q hq => ?_⟩
  · simp [hfs, hget, hne q hq]
  · simp only [Cmd.events, h.isFile hp]
  · rw [hfs, hget, hget, h.isFile hp, h.get q hq]
  · simp [hget, hne q hq]

theorem couples_mv {a b : Path} (ha : V a) (hb : V b) (hup : V b.dropLast) : (Cmd.mv a b).Couples T V w v := by
  rintro n w' hf
  by_cases hn : n = 0
  · obtain rfl := hn
    have hmoved : Cmd.Moved w.fs w'.fs a b (w.fs.content a) := hf.1
    rcases hc : w.fs.content a with _ | c
    · rw [hc] at hmoved
      exact hmoved.elim
    rw [hc] at hmoved
    obtain ⟨hab, hput, hfs⟩ := hmoved
    have hcv : v.fs.content a = some c := (h.content ha).trans hc
    have hget : ∀ fs : Fs, fs.content a = some c → ∀ q, ((fs.write b c).erase a).get q =
        if q = a then none else (fs.write b c).get q := fun fs hfa q =>
      Fs.get_erase_file (by rw [Fs.get_write_of_ne hab]; exact Fs.content_eq_some.1 hfa)
    have hwrite : ∀ q, V q → (v.fs.write b c).get q = (w.fs.write b c).get q := fun q hq => by
      rw [Fs.get_write, Fs.get_write, h.get b hb, h.get _ hup, h.get q hq]
    have hout : ∀ fs : Fs, fs.content a = some c → ∀ q, ¬ V q → ((fs.write b c).erase a).get q = fs.get q := by
      intro fs hfa q hq
      have hqa : q ≠ a := by rintro rfl; exact hq ha
      have hqb : q ≠ b := by rintro rfl; exact hq hb
      rw [hget fs hfa, if_neg hqa, Fs.get_write_of_ne hqb]
    have hfin : (Cmd.mv a b : Cmd ι).Fin T v.fs 0 ((v.fs.write b c).erase a) := by
      show Cmd.Moved _ _ _ _ _
      rw [hcv]
      exact ⟨hab, by rw [hwrite b hb, hput], rfl⟩
    refine ⟨fun q hq => by rw [hfs, hout _ hc q hq], h.step hf hfin rfl (fun q hq => ?_) (hout _ hcv)⟩
    rw [hfs, hget _ hcv, hget _ hc, hwrite q hq]
  · have hfs : w'.fs = w.fs := by simpa only [Cmd.Fin, if_neg hn] using hf.1
    have hfin : (Cmd.mv a b : Cmd ι).Fin T v.fs n v.fs := by simp only [Cmd.Fin, if_neg hn]
    exact ⟨fun q _ => by rw [hfs], h.step hf hfin rfl (fun q hq => by rw [hfs, h.get q hq]) fun _ _ => rfl⟩

omit h in
theorem not_covers_of_not {d : Path} (hbelow : ∀ r, V (d ++ r)) {q : Path} (hq : ¬ V q) : Fs.covers [d] q = false := by
  refine Bool.eq_false_iff.2 fun hc => hq ?_
  obtain ⟨r, rfl⟩ : d <+: q := by simpa [Fs.covers] using hc
  exact hbelow r

/-- A change at and below `d` can be made in the other file system. -/
theorem Alike.transplant {d : Path} {fs' : Fs} (hd : d ≠ []) (hup : V d.dropLast) (hag : Fs.Agree [d] w.fs fs') :
    ∃ fs'' : Fs, Fs.Agree [d] v.fs fs'' ∧ fs''.get d = fs'.get d ∧ ∀ q, V q → fs''.get q = fs'.get q := by
  have hdrop : Fs.covers [d] d.dropLast = false := by
    refine Bool.eq_false_iff.2 fun hc => ?_
    have hpre : d <+: d.dropLast := by simpa [Fs.covers] using hc
    exact Fs.dropLast_ne_self hd ((List.dropLast_prefix d).eq_of_length_le hpre.length_le)
  have hplace : fs'.get d ≠ none → v.fs.get d.dropLast = some .dir := fun hne => by
    rw [h.get _ hup, ← hag _ hdrop, Fs.get_dropLast hne]
  obtain ⟨fs, hfs, hsame⟩ := Fs.exists_transplant hd hplace
  refine ⟨fs, hfs, by simpa using hsame [], fun q hq => ?_⟩
  by_cases hpre : d <+: q
  · obtain ⟨r, rfl⟩ := hpre
    exact hsame r
  · have hc : Fs.covers [d] q = false := by simpa [Fs.covers] using hpre
    rw [hfs q hc, h.get q hq, hag q hc]

theorem couples_ext {job : ι} {d : Path} (hd : d ≠ []) (hbelow : ∀ r, V (d ++ r)) (hup : V d.dropLast) :
    (Cmd.ext job [d] []).Couples T V w v := by
  rintro n w' hf
  obtain ⟨hag, -⟩ := hf.1
  obtain ⟨fs, hfs, -, hsame⟩ := h.transplant hd hup hag
  exact ⟨fun q hq => hag q (not_covers_of_not hbelow hq), h.step hf ⟨hfs, by simp⟩ rfl hsame fun q hq =>
    hfs q (not_covers_of_not hbelow hq)⟩

/-- `tar` where both find the same archive, or none. -/
theorem couples_tar {as : List Path} {dest : Path} (hsame : Cmd.archive v.fs as = Cmd.archive w.fs as)
    (hdest : V dest) (hbelow : ∀ x r, V (dest ++ x :: r)) : (Cmd.tar as dest).Couples T V w v := by
  rintro n w' hf
  have hev : trace ((Cmd.tar as dest : Cmd ι).events v.fs n) = trace ((Cmd.tar as dest : Cmd ι).events w.fs n) := by
    simp only [Cmd.events, hsame]
  have hfin := hf.1
  simp only [Cmd.Fin] at hfin
  rcases harc : Cmd.archive w.fs as with _ | ⟨a, c⟩
  · rw [harc] at hfin
    split at hfin
    · exact hfin.elim
    · rename_i hn
      have hfs : w'.fs = w.fs := hfin
      refine ⟨fun q _ => by rw [hfs], h.step hf ?_ hev (fun q hq => by rw [hfs, h.get q hq]) fun _ _ => rfl⟩
      simp only [Cmd.Fin, hsame, harc, if_neg hn, Cmd.PartUnpacked]
  rw [harc] at hfin
  rw [harc] at hsame
  have htop : ∀ r, V (Cmd.topDir T dest a c ++ r) := fun r => by
    rw [Cmd.topDir, List.append_assoc]; exact hbelow _ r
  have hne : Cmd.topDir T dest a c ≠ [] := by simp [Cmd.topDir]
  have hup : (Cmd.topDir T dest a c).dropLast = dest := by simp [Cmd.topDir]
  have hself : V (Cmd.topDir T dest a c) := by simpa using htop []
  -- an old top directory is changed in some way, which is copied; a new one is the archive's tree in both
  have hcopy : Fs.Agree [Cmd.topDir T dest a c] w.fs w'.fs → ∃ fs : Fs, Fs.Agree [Cmd.topDir T dest a c] v.fs fs ∧
      fs.get (Cmd.topDir T dest a c) = w'.fs.get (Cmd.topDir T dest a c) ∧ ∀ q, V q → fs.get q = w'.fs.get q :=
    h.transplant hne (hup.symm ▸ hdest)
  split at hfin
  · obtain ⟨hwhole, hdir, hplace⟩ := hfin
    have hdirv := (h.get _ hdest).trans hdir
    rename_i hn
    by_cases hnone : w.fs.get (Cmd.topDir T dest a c) = none
    · rw [if_pos hnone] at hplace
      have hnot : ∀ {q}, ¬ V q → ¬ Cmd.topDir T dest a c <+: q := by
        rintro q hq ⟨r, rfl⟩
        exact hq (htop r)
      refine ⟨fun q hq => by rw [hplace, Fs.get_graft_of_not (hnot hq)],
        @Alike.step _ T V w v h _ _ _ (v.fs.graft (Cmd.topDir T dest a c) (T.unpack (a.getLastD "") c).tree) hf ?_ hev
          (fun q hq => ?_) fun q hq => Fs.get_graft_of_not (hnot hq)⟩
      · simp only [Cmd.Fin, hsame, if_pos hn]
        exact ⟨hwhole, hdirv, by rw [if_pos ((h.get _ hself).trans hnone)]⟩
      · rw [hplace]
        by_cases hpre : Cmd.topDir T dest a c <+: q
        · obtain ⟨r, rfl⟩ := hpre
          rw [Fs.get_graft_append hne (hup.symm ▸ hdirv), Fs.get_graft_append hne (hup.symm ▸ hdir)]
        · rw [Fs.get_graft_of_not hpre, Fs.get_graft_of_not hpre, h.get q hq]
    · rw [if_neg hnone] at hplace
      obtain ⟨fs, hfs, htopfs, hget⟩ := hcopy hplace.1
      refine ⟨fun q hq => hplace.1 q (not_covers_of_not htop hq), h.step hf ?_ hev hget fun q hq =>
        hfs q (not_covers_of_not htop hq)⟩
      simp only [Cmd.Fin, hsame, if_pos hn]
      exact ⟨hwhole, hdirv, by rw [if_neg (by rw [h.get _ hself]; exact hnone)]; exact ⟨hfs, htopfs.trans hplace.2⟩⟩
  · rename_i hn
    obtain ⟨fs, hfs, -, hget⟩ := hcopy hfin
    refine ⟨fun q hq => hfin q (not_covers_of_not htop hq), h.step hf ?_ hev hget fun q hq =>
      hfs q (not_covers_of_not htop hq)⟩
    simp only [Cmd.Fin, hsame, if_neg hn]
    exact hfs

end couples

end Shell
