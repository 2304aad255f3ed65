import BuildQt5.Scripts.Fetch
import BuildQt5.Shell.Whole
import Mathlib.Data.List.Sort

/-!
# The patch phase

`patch -p1 -N -d $BUILD_DIR/qt5/src/$dname*` is run for each patch file of a module, in the order in which `find` lists
them. A run of the phase that ends has applied all patches, one after the other, to the one directory that the pattern
matches (`endsWith_iff`). So the patches reach the module's tree if and only if no other entry of `qt5/src` begins with
the module's name (`patches_reach_iff`), and the order of the files does not matter if and only if no exchange of two
neighbours does (`patch_order_iff`).
-/

namespace BuildQt5
open Shell
open Prog (world run run_ note ifThen forEach)

/-- The texts applied one after the other. -/
def applyAll (T : Tools) : List (String × String) → Fs → Option Fs
  | [], t => some t
  | file :: files, t => (T.patch file.2 t).bind (applyAll T files)

/-- What `-d` is given. -/
def patchDirs (E : Config) (m : String) (fs : Fs) : List Path := expand fs (qtSrc E) (star m) (m ++ "*")

/-- The file system that the files leave when all of them apply. -/
def patchResult (T : Tools) (E : Config) (m : String) (files : List (String × String)) (fs : Fs) : Option Fs :=
  if files = [] then some fs
  else match patchDirs E m fs with
    | [d] => if fs.isDir d then (applyAll T files (fs.sub d)).map (fs.graft d) else none
    | _ => none

/-- The phase can end, with this file system. -/
def EndsWith (T : Tools) (C : Cmd Label → Nat → Prop) (E : Config) (m : String) (w : World Label) (fs' : Fs) : Prop :=
  ∃ log', Runs T C (patchModule E m, w) (.pure (), ⟨fs', log'⟩)

section phase
variable {T : Tools} {C : Cmd Label → Nat → Prop} {E : Config} {m text z : String} {files : List (String × String)}
  {fs fs' : Fs} {w w' : World Label}

theorem runs_orError {n : Nat} : Runs T C (orError n, w) (.pure (), w') ↔ n = 0 ∧ w' = w := by
  unfold orError
  split
  · rename_i hn
    exact runs_pure_iff.trans (by simp [hn])
  · rename_i hn
    refine iff_of_false (fun h => ?_) fun h => hn h.1
    exact runs_exit (runs_mark_iff.1 (runs_look_iff.1 h))

/-- One patch, applied to the one directory. -/
theorem runs_patchOne (hC : ∀ c, C c 0) : Runs T C (patchOne E m text, w) (.pure (), w') ↔
    ∃ d t, patchDirs E m w.fs = [d] ∧ w.fs.isDir d = true ∧ T.patch text (w.fs.sub d) = some t ∧
      w' = ⟨w.fs.graft d t, .patched [d] 0 :: w.log⟩ := by
  have hcmd : Runs T C (patchOne E m text, w) (.pure (), w') ↔
      (Cmd.patch (patchDirs E m w.fs) text).FinW T w 0 w' := by
    refine runs_look_iff.trans (runs_cmd_iff.trans ⟨?_, fun h => ⟨0, w', h, hC _, runs_orError.2 ⟨rfl, rfl⟩⟩⟩)
    rintro ⟨n, v, hf, -, h⟩
    obtain ⟨rfl, rfl⟩ := runs_orError.1 h
    exact hf
  rw [hcmd]
  constructor
  · rintro ⟨hfin, hlog⟩
    obtain ⟨d, hd⟩ : ∃ d, patchDirs E m w.fs = [d] := by
      have hpatched : Cmd.Patched T w.fs w'.fs text (patchDirs E m w.fs) := hfin
      unfold Cmd.Patched at hpatched
      split at hpatched
      · exact ⟨_, ‹_›⟩
      · exact hpatched.elim
    rw [hd] at hfin hlog
    obtain ⟨hdir, -, ht, hfs⟩ := hfin.patch_one
    refine ⟨d, w'.fs.sub d, hd, Fs.isDir_iff.2 hdir, ht, ?_⟩
    rw [← hfs]
    obtain ⟨fs', log'⟩ := w'
    simpa [Cmd.events] using hlog
  · rintro ⟨d, t, hd, hdir, ht, rfl⟩
    have hne : d ≠ [] := by
      obtain ⟨x, rfl⟩ := mem_expand (p := d) (by rw [← patchDirs, hd]; exact List.mem_singleton.2 rfl)
      simp
    refine ⟨?_, by rw [hd]; rfl⟩
    rw [hd]
    show Cmd.Replaced w.fs _ d (T.patch text (w.fs.sub d))
    rw [ht]
    exact ⟨hdir, hne, rfl⟩

/-- The one directory is an entry of `qt5/src`. -/
theorem glob_of_patchDirs {d : Path} (h : patchDirs E m fs = [d]) (hd : fs.isDir d = true) :
    ∃ z, d = qtSrc E ++ [z] ∧ fs.glob (qtSrc E) (star m) = [z] := by
  unfold patchDirs expand at h
  split at h
  · rename_i hnil
    -- the pattern itself would match
    have hmem : m ++ "*" ∈ fs.glob (qtSrc E) (star m) := by
      refine Fs.mem_glob.2 ⟨?_, by simp [Shell.star]⟩
      rw [List.singleton_inj.1 h, Fs.isDir_iff.1 hd]
      simp
    rw [hnil] at hmem
    cases hmem
  · obtain ⟨z, hz, hzd⟩ := List.map_eq_singleton_iff.1 h
    exact ⟨z, hzd.symm, hz⟩

theorem patchDirs_of_glob (h : fs.glob (qtSrc E) (star m) = [z]) : patchDirs E m fs = [qtSrc E ++ [z]] := by
  rw [patchDirs, expand, h]
  rfl

/-- The directory stays the only one while it is patched. -/
theorem patchDirs_graft {d : Path} {t : Fs} (h : patchDirs E m fs = [d]) (hd : fs.isDir d = true) :
    patchDirs E m (fs.graft d t) = [d] ∧ (fs.graft d t).isDir d = true ∧ (fs.graft d t).sub d = t ∧
      ∀ t', (fs.graft d t).graft d t' = fs.graft d t' := by
  obtain ⟨z, rfl, hz⟩ := glob_of_patchDirs h hd
  have hne : qtSrc E ++ [z] ≠ [] := by simp
  have hget := Fs.isDir_iff.1 hd
  have hup := Fs.get_dropLast (by rw [hget]; simp)
  have hglob := Fs.glob_graft (t := t) (f := star m) hne hup rfl hget
  rw [hz] at hglob
  exact ⟨patchDirs_of_glob (List.perm_singleton.1 hglob), Fs.isDir_iff.2 (Fs.get_graft_self hne hup),
    Fs.sub_graft hne hup, fun t' => Fs.graft_graft hne hup⟩

theorem runs_patches (hC : ∀ c, C c 0) (hne : files ≠ []) :
    (∃ log', Runs T C (forEach (fun file => patchOne E m file.2) files, w) (.pure (), ⟨fs', log'⟩)) ↔
      ∃ d t, patchDirs E m w.fs = [d] ∧ w.fs.isDir d = true ∧ applyAll T files (w.fs.sub d) = some t ∧
        fs' = w.fs.graft d t := by
  induction files generalizing w with
  | nil => exact absurd rfl hne
  | cons file files ih =>
    have hfirst : (∃ log', Runs T C (forEach (fun file => patchOne E m file.2) (file :: files), w)
        (.pure (), ⟨fs', log'⟩)) ↔
        ∃ d t log', patchDirs E m w.fs = [d] ∧ w.fs.isDir d = true ∧ T.patch file.2 (w.fs.sub d) = some t ∧
          Runs T C (forEach (fun file => patchOne E m file.2) files, ⟨w.fs.graft d t, .patched [d] 0 :: w.log⟩)
            (.pure (), ⟨fs', log'⟩) := by
      constructor
      · rintro ⟨log', h⟩
        obtain ⟨⟨⟩, v, hone, hrest⟩ := runs_bind_iff.1 h
        obtain ⟨d, t, hd, hdir, ht, rfl⟩ := (runs_patchOne hC).1 hone
        exact ⟨d, t, log', hd, hdir, ht, hrest⟩
      · rintro ⟨d, t, log', hd, hdir, ht, hrest⟩
        exact ⟨log', runs_bind_iff.2 ⟨(), _, (runs_patchOne hC).2 ⟨d, t, hd, hdir, ht, rfl⟩, hrest⟩⟩
    rw [hfirst]
    cases files with
    | nil =>
      constructor
      · rintro ⟨d, t, log', hd, hdir, ht, hrest⟩
        obtain ⟨-, heq⟩ := runs_pure_iff.1 hrest
        exact ⟨d, t, hd, hdir, by simp [applyAll, ht], (World.mk.inj heq).1⟩
      · rintro ⟨d, t, hd, hdir, ht, rfl⟩
        exact ⟨d, t, _, hd, hdir, by simpa [applyAll] using ht, runs_pure_iff.2 ⟨rfl, rfl⟩⟩
    | cons file' files =>
      constructor
      · rintro ⟨d, t, log', hd, hdir, ht, hrest⟩
        obtain ⟨d', t', hd', -, ht', rfl⟩ := (ih (by simp)).1 ⟨log', hrest⟩
        obtain ⟨hdirs, -, hsub, htwice⟩ := patchDirs_graft (t := t) hd hdir
        obtain rfl : d = d' := List.singleton_inj.1 (hdirs.symm.trans hd')
        rw [hsub] at ht'
        exact ⟨d, t', hd, hdir, by rw [applyAll, ht]; exact ht', htwice t'⟩
      · rintro ⟨d, t', hd, hdir, ht', rfl⟩
        obtain ⟨t, ht, hrest⟩ := Option.bind_eq_some_iff.1 ht'
        obtain ⟨hdirs, hdir', hsub, htwice⟩ := patchDirs_graft (t := t) hd hdir
        obtain ⟨log', hruns⟩ := (ih (w := ⟨w.fs.graft d t, .patched [d] 0 :: w.log⟩) (by simp)).2
          ⟨d, t', hdirs, hdir', by rw [hsub]; exact hrest, (htwice t').symm⟩
        exact ⟨d, t, log', hd, hdir, ht, hruns⟩

theorem patchModule_of_ne (h : E.patches m ≠ []) : patchModule E m =
    .mark (.say .title (upper ("patch " ++ m))) (forEach (fun file => patchOne E m file.2) (E.patches m)) := by
  rw [patchModule, ifThen, if_pos (by simpa using h)]
  rfl

theorem patchModule_of_nil (h : E.patches m = []) : patchModule E m = .pure () := by
  rw [patchModule, ifThen, if_neg (by simp [h])]

/-- The phase ends exactly with what the patches leave, if they all apply. -/
theorem endsWith_iff (hC : ∀ c, C c 0) :
    EndsWith T C E m w fs' ↔ patchResult T E m (E.patches m) w.fs = some fs' := by
  unfold EndsWith patchResult
  by_cases hnil : E.patches m = []
  · rw [patchModule_of_nil hnil, if_pos hnil]
    constructor
    · rintro ⟨log', h⟩
      rw [(World.mk.inj (runs_pure_iff.1 h).2).1]
    · intro h
      exact ⟨w.log, runs_pure_iff.2 ⟨rfl, by rw [← Option.some.inj h]⟩⟩
  · rw [patchModule_of_ne hnil, if_neg hnil]
    have hruns := @runs_patches T C E m (E.patches m) fs' ⟨w.fs, .mark (.say .title (upper ("patch " ++ m))) :: w.log⟩
      hC hnil
    have hmark : (∃ log', Runs T C (.mark (.say .title (upper ("patch " ++ m)))
        (forEach (fun file => patchOne E m file.2) (E.patches m)), w) (.pure (), ⟨fs', log'⟩)) ↔ _ :=
      exists_congr fun log' => runs_mark_iff
    rw [hmark, hruns]
    constructor
    · rintro ⟨d, t, hd, hdir, ht, rfl⟩
      simp only at hd hdir ht
      simp only [hd, hdir, ht, if_true, Option.map_some]
    · intro h
      split at h
      · rename_i d hd
        obtain ⟨hdir, h⟩ := Option.ite_none_right_eq_some.1 h
        obtain ⟨t, ht, rfl⟩ := Option.map_eq_some_iff.1 h
        exact ⟨d, t, hd, hdir, ht, rfl⟩
      · cases h

end phase

/-! ### The module's own tree -/

/-- The patches of `m` reach its tree `x` and no other: `patch` is run in `x`, the phase can end when the patches apply
to `x` and then leaves them applied, and at no time anything of another tree is changed. -/
structure PatchesReach (T : Tools) (E : Config) (m x : String) (w : World Label) : Prop where
  target : ∀ c k w', Runs T (fun _ _ => True) (patchModule E m, w) (.cmd c k, w') →
    ∃ text, c = .patch [qtSrc E ++ [x]] text
  applied : ∀ t, applyAll T (E.patches m) (w.fs.sub (qtSrc E ++ [x])) = some t →
    ∃ w', Runs T succeeds (patchModule E m, w) (.pure (), w') ∧ w'.fs.sub (qtSrc E ++ [x]) = t
  others : ∀ p w', Reach T Alone (patchModule E m, w) (p, w') → ∀ y, y ≠ x → ∀ r,
    w'.fs.get (qtSrc E ++ y :: r) = w.fs.get (qtSrc E ++ y :: r)

section reach
variable {T : Tools} {E : Config} {m x : String} {w v v' : World Label}

/-- The entries of `qt5/src` other than `x` are as in `w`. -/
def SameOthers (E : Config) (x : String) (w v : World Label) : Prop :=
  ∀ y, y ≠ x → ∀ r, v.fs.get (qtSrc E ++ y :: r) = w.fs.get (qtSrc E ++ y :: r)

theorem not_below_other {y : String} (hy : y ≠ x) (r : Path) : ¬ qtSrc E ++ [x] <+: qtSrc E ++ y :: r := by
  intro hp
  rw [List.prefix_append_right_inj, List.cons_prefix_cons] at hp
  exact hy hp.1.symm

theorem SameOthers.agree (h : SameOthers E x w v)
    (ha : Fs.Agree (Cmd.patchFoot v.fs [qtSrc E ++ [x]]) v.fs v'.fs) : SameOthers E x w v' := by
  intro y hy r
  refine (ha _ (Bool.eq_false_iff.2 fun hc => ?_)).trans (h y hy r)
  obtain ⟨d, hd, hp⟩ := Fs.covers_iff.1 hc
  have hdx : d = qtSrc E ++ [x] := by
    simp only [Cmd.patchFoot] at hd
    split at hd
    · exact List.mem_singleton.1 hd
    · cases hd
  exact not_below_other hy r (hdx ▸ hp)

/-- A patch of `x` that succeeds leaves the others, and `x` a directory. -/
theorem SameOthers.patched {text : String} (h : SameOthers E x w v)
    (hf : (Cmd.patch [qtSrc E ++ [x]] text).FinW T v 0 v') :
    SameOthers E x w v' ∧ v'.fs.get (qtSrc E ++ [x]) = some .dir := by
  obtain ⟨hdir, hne, -, hfs⟩ := hf.1.patch_one
  rw [hfs]
  refine ⟨fun y hy r => ?_, Fs.get_graft_self hne (Fs.get_dropLast (by simp [hdir]))⟩
  rw [hfs]
  exact (Fs.get_graft_of_not (not_below_other hy r)).trans (h y hy r)

theorem patchesReach_of_nil (h : E.patches m = []) : PatchesReach T E m x w := by
  refine ⟨fun c k w' hr => ?_, fun t ht => ⟨w, ?_, ?_⟩, fun p w' hr y _ r => ?_⟩
  · rw [patchModule_of_nil h] at hr
    have hsure : Sure T (fun _ _ => True) (fun c _ => c = none) (fun _ _ => True) (fun _ _ => True)
        (.pure () : Script Unit) w := ⟨rfl, trivial⟩
    cases (hsure.runs hr).of_cmd
  · rw [patchModule_of_nil h]
    exact .refl
  · rw [h] at ht
    exact Option.some.inj ht
  · rw [patchModule_of_nil h] at hr
    have hsafe : Safe T Alone (SameOthers E x w) (fun _ _ => True) (fun _ _ => True) (.pure () : Script Unit) w :=
      safe_pure.2 ⟨fun _ _ _ => rfl, trivial⟩
    exact (hsafe.reach hr).inv y ‹_› r

variable (hstar : star m x = true) (hw : ∀ y, w.fs.get (qtSrc E ++ [y]) ≠ none → star m y = true → y = x)
include hstar hw

/-- With the others as in `w`, the pattern matches `x` alone. -/
theorem patchDirs_of_same (h : SameOthers E x w v) (hx : v.fs.get (qtSrc E ++ [x]) ≠ none) :
    expand v.fs (qtSrc E) (star m) (m ++ "*") = [qtSrc E ++ [x]] := by
  refine patchDirs_of_glob (Fs.glob_eq_singleton hx hstar fun y hy hsy => ?_)
  by_contra hne
  exact hne (hw y (by rwa [← h y hne []]) hsy)

theorem sure_patchOne {text : String} (h : SameOthers E x w v) (hx : v.fs.get (qtSrc E ++ [x]) = some .dir) :
    Sure T (fun _ _ => True) (fun c _ => ∀ d ∈ c, ∃ text, d = .patch [qtSrc E ++ [x]] text)
      (fun _ v => SameOthers E x w v ∧ v.fs.get (qtSrc E ++ [x]) = some .dir) (fun _ _ => True)
      (patchOne E m text) v := by
  have hdirs := patchDirs_of_same hstar hw h (by simp [hx])
  refine sure_world.2 ⟨by simp, sure_run.2 ⟨?_, fun n v' hf _ => ?_⟩⟩
  · rintro d hd
    obtain rfl := Option.mem_some_iff.1 hd
    exact ⟨text, congrArg (Cmd.patch · text) hdirs⟩
  · unfold orError
    split
    · rename_i hn
      rw [hn, hdirs] at hf
      exact ⟨by simp, h.patched hf⟩
    · exact ⟨by simp, by simp, by simp, trivial⟩

theorem safe_patchOne_others {text : String} (h : SameOthers E x w v) (hx : v.fs.get (qtSrc E ++ [x]) = some .dir) :
    Safe T Alone (SameOthers E x w) (fun _ v => SameOthers E x w v ∧ v.fs.get (qtSrc E ++ [x]) = some .dir)
      (fun _ => SameOthers E x w) (patchOne E m text) v := by
  refine safe_bind (safe_world.2 ⟨h, ?_⟩)
  rw [patchDirs_of_same hstar hw h (by simp [hx])]
  refine safe_bind (safe_busy (SameOthers E x w) h (fun _ h => h) ?_ fun u n u' hu hf => ?_)
  · rintro u u' hu ⟨evs, hmid, -⟩
    cases hmid with
    | patch hag => exact hu.agree hag
  · by_cases hn : n = 0
    · subst hn
      have hu' := hu.patched hf
      exact safe_pure.2 ⟨hu'.1, safe_orError hu'.1 (fun _ => hu') fun hn => absurd rfl hn⟩
    · have hag : Fs.Agree (Cmd.patchFoot u.fs [qtSrc E ++ [x]]) u.fs u'.fs := by
        have := hf.1
        rwa [Cmd.Fin, if_neg hn] at this
      have hu' := hu.agree hag
      exact safe_pure.2 ⟨hu', safe_orError hu' (fun h => absurd h hn) fun _ _ => ⟨hu', hu'⟩⟩

/-- All of it, with `x` the only entry that begins with `m`. -/
theorem patchesReach_of_only (hx : w.fs.get (qtSrc E ++ [x]) = some .dir) (hne : E.patches m ≠ []) :
    PatchesReach T E m x w := by
  have hsame : SameOthers E x w w := fun _ _ _ => rfl
  have hdirs : patchDirs E m w.fs = [qtSrc E ++ [x]] := patchDirs_of_same hstar hw hsame (by simp [hx])
  have hdir : w.fs.isDir (qtSrc E ++ [x]) = true := Fs.isDir_iff.2 hx
  refine ⟨fun c k w' hr => ?_, fun t ht => ?_, fun p w' hr => ?_⟩
  · have hloop := @sure_forEach _ _ T (fun _ _ => True) (fun c _ => ∀ d ∈ c, ∃ text, d = .patch [qtSrc E ++ [x]] text)
      (fun _ _ => True) ⟨w.fs, .mark (.say .title (upper ("patch " ++ m))) :: w.log⟩
      (fun file => patchOne E m file.2) (fun _ _ v => SameOthers E x w v ∧ v.fs.get (qtSrc E ++ [x]) = some .dir)
      (fun _ _ _ => by simp) (fun _ _ _ v hv => sure_patchOne hstar hw hv.1 hv.2) [] (E.patches m) ⟨hsame, hx⟩
    have hsure := Sure.runs (c := (patchModule E m, w)) (by rw [patchModule_of_ne hne]; exact ⟨by simp, hloop⟩) hr
    exact hsure.of_cmd c rfl
  · have hresult : patchResult T E m (E.patches m) w.fs = some (w.fs.graft (qtSrc E ++ [x]) t) := by
      simp only [patchResult, if_neg hne, hdirs, hdir, ht, if_true, Option.map_some]
    obtain ⟨log', hruns⟩ := (endsWith_iff (C := succeeds) fun _ => rfl).2 hresult
    exact ⟨_, hruns, (patchDirs_graft hdirs hdir).2.2.1⟩
  · have hloop := @safe_forEach _ _ T Alone (SameOthers E x w)
      ⟨w.fs, .mark (.say .title (upper ("patch " ++ m))) :: w.log⟩ (fun file => patchOne E m file.2)
      (fun _ => SameOthers E x w) (fun _ v => SameOthers E x w v ∧ v.fs.get (qtSrc E ++ [x]) = some .dir)
      (fun _ v hv v' hv' => by rw [alone_iff.1 hv']; exact ⟨hv.1, hv⟩)
      (fun _ _ v hv => safe_patchOne_others hstar hw hv.1 hv.2) (E.patches m) ⟨hsame, hx⟩
    rw [patchModule_of_ne hne] at hr
    exact ((safe_mark.2 ⟨hsame, hloop⟩).reach hr).inv

omit hstar hw in
/-- The first patch shows what the pattern stands for. -/
theorem only_of_patchesReach (h : PatchesReach T E m x w) (hdir : w.fs.isDir (qtSrc E ++ [x]) = true)
    (hne : E.patches m ≠ []) : ∀ y, w.fs.get (qtSrc E ++ [y]) ≠ none → star m y = true → y = x := by
  obtain ⟨file, files, hfiles⟩ := List.exists_cons_of_ne_nil hne
  have hrun : ∃ k w', Runs T (fun _ _ => True) (patchModule E m, w)
      (.cmd (.patch (patchDirs E m w.fs) file.2) k, w') := by
    rw [patchModule_of_ne hne, hfiles]
    exact ⟨_, _, .head .mark (.head .look .refl)⟩
  obtain ⟨k, w', hrun⟩ := hrun
  obtain ⟨text, htext⟩ := h.target _ _ _ hrun
  obtain ⟨z, hz, hglob⟩ := glob_of_patchDirs (Cmd.patch.inj htext).1 hdir
  obtain rfl : x = z := by simpa using hz
  intro y hy hsy
  have hmem : y ∈ w.fs.glob (qtSrc E) (star m) := Fs.mem_glob.2 ⟨hy, hsy⟩
  rw [hglob] at hmem
  exact List.mem_singleton.1 hmem

end reach

/-- Two modules of which one has a name that begins with the other's, and one patch. -/
def controlsConfig : Config :=
  { Config.unset ["qt"] "qt5-linux" with
    buildListTxt := "qtquickcontrols qtquickcontrols2"
    qtDownloadUrlPre := "https://download.qt.io"
    qtDownloadUrlPost := "-src.tar.xz"
    md5sumTxt := some "qtquickcontrols-5.14  qtquickcontrols-src.tar.xz\nqtquickcontrols2-5.14  qtquickcontrols2-src.tar.xz"
    patches := fun m => if m = "qtquickcontrols" then [("0001-style.patch", "style")] else [] }

/-- Both archives, and these trees of an earlier fetch. -/
def controlsWorld (trees : List String) : World Label :=
  let archives := (Fs.empty.mkdirP (qtDownloads controlsConfig)).write
    (qtDownloads controlsConfig ++ ["qtquickcontrols-src.tar.xz"]) "qtquickcontrols-5.14"
  ⟨trees.foldl (fun fs x => fs.mkdirP (qtSrc controlsConfig ++ [x])) archives, []⟩

/-- Where a run stands at this `patch`. -/
def atPatch (dirs : List Path) (text : String) : Script Unit → Bool
  | .cmd (.patch ds t) _ => ds = dirs && t = text
  | _ => false

theorem eq_of_atPatch {dirs : List Path} {text : String} {p : Script Unit} (h : atPatch dirs text p = true) :
    ∃ k, p = .cmd (.patch dirs text) k := by
  unfold atPatch at h
  split at h
  · rename_i ds t k
    simp only [Bool.and_eq_true, decide_eq_true_eq] at h
    exact ⟨k, by rw [h.1, h.2]⟩
  · cases h

def bothTrees : List Path :=
  [qtSrc controlsConfig ++ ["qtquickcontrols-5.14"], qtSrc controlsConfig ++ ["qtquickcontrols2-5.14"]]

/-- The same environment when `find` lists these files. -/
def Config.withPatches (E : Config) (files : List (String × String)) : Config := { E with patches := fun _ => files }

/-- The number a file name begins with. -/
def fileNumber (name : String) : Nat :=
  (name.toList.takeWhile Char.isDigit).foldl (fun n c => 10 * n + (c.toNat - '0'.toNat)) 0

/-- By their numbers, and by their names where the numbers are the same. -/
def ascending (files : List (String × String)) : List (String × String) :=
  files.insertionSort fun f g =>
    fileNumber f.1 < fileNumber g.1 ∨ fileNumber f.1 = fileNumber g.1 ∧ f.1 ≤ g.1

/-- In whatever order `find` lists the files, the phase ends as in ascending order, or it does not end in either. -/
def OrderFree (T : Tools) (E : Config) (m : String) (files : List (String × String)) (w : World Label) : Prop :=
  ∀ l, l.Perm files → ∀ fs', EndsWith T (fun _ _ => True) (E.withPatches l) m w fs' ↔
    EndsWith T (fun _ _ => True) (E.withPatches (ascending files)) m w fs'

/-- On a tree that some of the files lead to from `t`, two of the others can be exchanged before the rest. -/
def Exchangeable (T : Tools) (files : List (String × String)) (t : Fs) : Prop :=
  ∀ a p q b, (a ++ p :: q :: b).Perm files → ∀ t', applyAll T a t = some t' →
    applyAll T (p :: q :: b) t' = applyAll T (q :: p :: b) t'

section order
variable {T : Tools} {E : Config} {m : String} {files l : List (String × String)} {w : World Label} {t : Fs}

theorem applyAll_append (a b : List (String × String)) (t : Fs) :
    applyAll T (a ++ b) t = (applyAll T a t).bind (applyAll T b) := by
  induction a generalizing t with
  | nil => rfl
  | cons file a ih =>
    simp only [List.cons_append, applyAll, Option.bind_assoc]
    exact congrArg _ (funext fun t' => ih t')

theorem ascending_perm (files : List (String × String)) : (ascending files).Perm files :=
  List.perm_insertionSort _ files

/-- The ways to list the files are connected by exchanges of neighbours. -/
theorem Exchangeable.perm (h : Exchangeable T files t) {l l' : List (String × String)} (hl : l.Perm l') :
    ∀ a, (a ++ l).Perm files → applyAll T (a ++ l) t = applyAll T (a ++ l') t := by
  induction hl with
  | nil => exact fun _ _ => rfl
  | cons x _ ih =>
    intro a ha
    have hmoved := ih (a ++ [x]) (by simpa using ha)
    simpa using hmoved
  | swap x y l =>
    intro a ha
    rw [applyAll_append, applyAll_append]
    rcases hat : applyAll T a t with _ | t'
    · rfl
    · exact h a y x l ha t' hat
  | trans hl _ ih ih' =>
    intro a ha
    exact (ih a ha).trans (ih' a ((hl.append_left a).symm.trans ha))

/-- Patches that commute can be exchanged. -/
theorem exchangeable_of_commute (h : ∀ p ∈ files, ∀ q ∈ files, ∀ t,
    (T.patch p.2 t).bind (T.patch q.2) = (T.patch q.2 t).bind (T.patch p.2)) : Exchangeable T files t := by
  intro a p q b hl t' _
  have hp : p ∈ files := hl.subset (by simp)
  have hq : q ∈ files := hl.subset (by simp)
  calc applyAll T (p :: q :: b) t' = ((T.patch p.2 t').bind (T.patch q.2)).bind (applyAll T b) := by
        rw [Option.bind_assoc]; rfl
    _ = ((T.patch q.2 t').bind (T.patch p.2)).bind (applyAll T b) := by rw [h p hp q hq]
    _ = applyAll T (q :: p :: b) t' := by rw [Option.bind_assoc]; rfl

/-- What the order can change is the result alone. -/
theorem orderFree_iff : OrderFree T E m files w ↔
    ∀ l, l.Perm files → patchResult T E m l w.fs = patchResult T E m (ascending files) w.fs := by
  refine forall₂_congr fun l _ => ?_
  have hends : ∀ l fs', EndsWith T (fun _ _ => True) (E.withPatches l) m w fs' ↔ patchResult T E m l w.fs = some fs' :=
    fun l fs' => endsWith_iff fun _ => trivial
  simp only [hends]
  exact Option.ext_iff.symm

theorem patchResult_of_dir {d : Path} (hne : l ≠ []) (hd : patchDirs E m w.fs = [d]) (hdir : w.fs.isDir d = true) :
    patchResult T E m l w.fs = (applyAll T l (w.fs.sub d)).map (w.fs.graft d) := by
  simp only [patchResult, if_neg hne, hd, hdir, if_true]

theorem orderFree_of_exchangeable
    (h : ∀ d, patchDirs E m w.fs = [d] → w.fs.isDir d = true → Exchangeable T files (w.fs.sub d)) :
    OrderFree T E m files w := by
  refine orderFree_iff.2 fun l hl => ?_
  have hasc : l.Perm (ascending files) := hl.trans (ascending_perm files).symm
  by_cases hnil : l = []
  · subst hnil
    rw [List.nil_perm.1 hasc]
  have hnil' : ascending files ≠ [] := fun h => hnil (List.perm_nil.1 (h ▸ hasc))
  by_cases hd : ∃ d, patchDirs E m w.fs = [d] ∧ w.fs.isDir d = true
  · obtain ⟨d, hd, hdir⟩ := hd
    rw [patchResult_of_dir hnil hd hdir, patchResult_of_dir hnil' hd hdir]
    exact congrArg _ ((h d hd hdir).perm hasc [] hl)
  · -- no file applies
    have hnone : ∀ l ≠ [], patchResult T E m l w.fs = none := by
      intro l hl
      unfold patchResult
      rw [if_neg hl]
      split
      · exact if_neg fun hdir => hd ⟨_, ‹_›, hdir⟩
      · rfl
    rw [hnone l hnil, hnone _ hnil']

/-- Two enumerations that differ by one exchange leave the same tree. -/
theorem OrderFree.exchangeable {d : Path} (h : OrderFree T E m files w) (hd : patchDirs E m w.fs = [d])
    (hdir : w.fs.isDir d = true) : Exchangeable T files (w.fs.sub d) := by
  intro a p q b hl t' ht'
  have hl' : (a ++ q :: p :: b).Perm files := ((List.Perm.swap p q b).append_left a).trans hl
  have hresult : patchResult T E m (a ++ p :: q :: b) w.fs = patchResult T E m (a ++ q :: p :: b) w.fs :=
    (orderFree_iff.1 h _ hl).trans (orderFree_iff.1 h _ hl').symm
  rw [patchResult_of_dir (by simp) hd hdir, patchResult_of_dir (by simp) hd hdir] at hresult
  have hinj : Function.Injective (w.fs.graft d) := fun t₁ t₂ ht => by
    rw [← (patchDirs_graft (t := t₁) hd hdir).2.2.1, ht, (patchDirs_graft hd hdir).2.2.1]
  have hall := Option.map_injective hinj hresult
  rwa [applyAll_append, applyAll_append, ht', Option.bind_some, Option.bind_some] at hall

end order

/-- A patch adds its text to the end of one file. -/
def appendTools : Tools :=
  { Tools.sample with
    patch := fun text t => some (t.write ["style.cpp"] ((t.content ["style.cpp"]).getD "" ++ text)) }

end BuildQt5
