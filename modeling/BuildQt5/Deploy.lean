import BuildQt5.Shell.Paths
import BuildQt5.Shell.Whole
import BuildQt5.Scripts.Steps

/-!
# The loop of do_deploy.sh

Where the loop of `do_deploy.sh` copies the files of the SDK to. It renames the first `lib` of the path, wherever that
is, and takes the directory of the result, so a file keeps its own name; the directory is tested and made without
quotes. On a tree with plain directories and no two paths in each other's way (`Tame`, `NoTwin`) every file goes to
`destOf` (`loop_copies`), no two files to one place, and the directory is the one it should be if and only if `KeepsDir`.
-/

namespace BuildQt5
open Shell
open Prog (world run run_ note ifThen forEach)

/-! ### Destinations -/

/-- The first `lib` of a path renamed. -/
def renamed (lib : String) (p : Path) : Path := replaceIn "lib".toList lib.toList p

/-- Where the loop copies a file to, below `BUILD_RUNTIME_DIR`. -/
def destOf (lib : String) (rel : Path) : Path := renamed lib rel.dropLast ++ [rel.getLastD ""]

/-- Where it should: only a leading `usr/lib/` or `lib/` renamed. -/
def sdkDest (lib : String) : Path → Path
  | "usr" :: "lib" :: x :: r => "usr" :: lib :: x :: r
  | "lib" :: x :: r => lib :: x :: r
  | p => p

/-- The path begins with `usr/lib/` or `lib/`. -/
def Leading (rel : Path) : Prop := ∃ x r, rel = "usr" :: "lib" :: x :: r ∨ rel = "lib" :: x :: r

/-- The library directory is not renamed at all, or is the one that is renamed, or no directory has a `lib` in its
name. -/
def KeepsDir (lib : String) (rel : Path) : Prop :=
  lib = "lib" ∨ Leading rel ∨ ∀ x ∈ rel.dropLast, ¬ "lib".toList <:+: x.toList

def LibName (lib : String) : Prop := lib = "lib" ∨ lib = "lib64"

section dest
variable {lib : String} {rel rel' p : Path}

theorem LibName.pre (h : LibName lib) : "lib".toList <+: lib.toList := by
  rcases h with rfl | rfl <;> decide

theorem LibName.isName (h : LibName lib) : IsName lib := by
  rcases h with rfl | rfl <;> exact ⟨by decide, by decide⟩

theorem LibName.plain (h : LibName lib) : isPattern lib = false := by
  rcases h with rfl | rfl <;> decide

theorem LibName.toList_ne (h : LibName lib) : lib.toList ≠ [] := by
  rcases h with rfl | rfl <;> decide

theorem renamed_injective (h : LibName lib) : Function.Injective (renamed lib) :=
  replaceIn_injective (by decide) h.pre

theorem dropLast_getLastD (hp : p ≠ []) : p.dropLast ++ [p.getLastD ""] = p := by
  conv_rhs => rw [← List.dropLast_append_getLast hp]
  rw [List.getLastD_eq_getLast?, List.getLast?_eq_some_getLast hp, Option.getD_some]

theorem destOf_injective (h : LibName lib) (hp : rel ≠ []) (hq : rel' ≠ []) (heq : destOf lib rel = destOf lib rel') :
    rel = rel' := by
  obtain ⟨hdir, hlast⟩ := List.append_inj' heq rfl
  rw [← dropLast_getLastD hp, ← dropLast_getLastD hq, renamed_injective h hdir, hlast]

theorem getLastD_append_of_ne {d : Path} (hp : p ≠ []) : (d ++ p).getLastD "" = p.getLastD "" := by
  rw [← dropLast_getLastD hp]
  simp

theorem destOf_last (d : Path) : (d ++ destOf lib rel).getLastD "" = rel.getLastD "" := by simp [destOf]

theorem realPath_eq : realPath lib rel = joinPath (renamed lib rel) := by
  rw [realPath, replaceFirst_joinPath (by decide) (by decide), String.ofList_toList]
  rfl

theorem isName_renamed (h : LibName lib) (hrel : ∀ x ∈ rel, IsName x) : ∀ x ∈ renamed lib rel, IsName x :=
  isName_replaceIn (by decide) h.toList_ne h.isName.2 hrel

theorem realDir_eq (h : LibName lib) (hrel : ∀ x ∈ rel, IsName x) : realDir lib rel = renamed lib rel.dropLast := by
  rw [realDir, realPath_eq, splitPath_joinPath (isName_renamed h hrel)]
  exact replaceIn_dropLast

theorem renamed_lib : renamed "lib" p = p := by
  induction p with
  | nil => rfl
  | cons x r ih =>
    by_cases hx : "lib".toList <:+: x.toList
    · rw [renamed, replaceIn_cons_first hx]
      obtain ⟨a, b, hab, hr⟩ := exists_first (by decide) hx
      rw [hr, ← hab, String.ofList_toList]
    · rw [renamed, replaceIn_cons hx]
      exact congrArg _ ih

theorem renamed_of_not (h : ∀ x ∈ p, ¬ "lib".toList <:+: x.toList) : renamed lib p = p := replaceIn_of_not h

theorem isPattern_renamed (h : LibName lib) (hp : ∀ x ∈ p, isPattern x = false) :
    ∀ x ∈ renamed lib p, isPattern x = false := by
  intro x hx
  rw [isPattern, List.any_eq_false]
  intro c hc
  rcases char_replaceIn (by decide) hx hc with hc | ⟨y, hy, hc⟩
  · exact List.any_eq_false.1 h.plain c hc
  · exact List.any_eq_false.1 (hp y hy) c hc

theorem renamed_ne (hlib : lib ≠ "lib") {x : String} (hx : x ∈ p) (hi : "lib".toList <:+: x.toList) :
    renamed lib p ≠ p := by
  induction p with
  | nil => simp at hx
  | cons y r ih =>
    intro heq
    by_cases hy : "lib".toList <:+: y.toList
    · rw [renamed, replaceIn_cons_first hy] at heq
      obtain ⟨a, b, hab, hr⟩ := exists_first (by decide) hy
      have hchars : a ++ lib.toList ++ b = a ++ "lib".toList ++ b := by
        rw [← hr, ← hab]
        simpa using congrArg String.toList (List.cons.inj heq).1
      refine hlib (String.toList_injective ?_)
      exact List.append_cancel_left (List.append_cancel_right hchars)
    · rw [renamed, replaceIn_cons hy] at heq
      rcases List.mem_cons.1 hx with rfl | hx
      · exact hy hi
      · exact ih hx (List.cons.inj heq).2

theorem destOf_of_renamed_eq (hp : rel ≠ []) (h : renamed lib rel.dropLast = rel.dropLast) : destOf lib rel = rel := by
  rw [destOf, h, dropLast_getLastD hp]

theorem sdkDest_of_not (h : ¬ Leading rel) : sdkDest lib rel = rel := by
  unfold sdkDest
  split
  · exact absurd ⟨_, _, .inl rfl⟩ h
  · exact absurd ⟨_, _, .inr rfl⟩ h
  · rfl

theorem destOf_leading (h : Leading rel) : destOf lib rel = sdkDest lib rel := by
  have hlib : ∀ r, renamed lib ("lib" :: r) = lib :: r := fun r => by
    rw [renamed, replaceIn_cons_first (List.infix_refl _), replaceFirst_self (by decide), String.ofList_toList]
  obtain ⟨x, r, rfl | rfl⟩ := h
  · have husr : renamed lib ("usr" :: "lib" :: (x :: r).dropLast) = "usr" :: lib :: (x :: r).dropLast := by
      rw [renamed, replaceIn_cons (by decide)]
      exact congrArg _ (hlib _)
    rw [destOf, List.dropLast_cons_cons, List.dropLast_cons_cons, husr]
    exact congrArg (fun r => "usr" :: lib :: r) (dropLast_getLastD (List.cons_ne_nil x r))
  · rw [destOf, List.dropLast_cons_cons, hlib]
    exact congrArg (lib :: ·) (dropLast_getLastD (List.cons_ne_nil x r))

/-- The destination is the one it should be if and only if the file is `KeepsDir`. -/
theorem destOf_eq_iff (hp : rel ≠ []) : destOf lib rel = sdkDest lib rel ↔ KeepsDir lib rel := by
  by_cases hl : Leading rel
  · exact iff_of_true (destOf_leading hl) (.inr (.inl hl))
  · rw [sdkDest_of_not hl]
    constructor
    · intro h
      by_contra hk
      simp only [KeepsDir, not_or, not_forall, not_not] at hk
      obtain ⟨hlib, -, x, hx, hi⟩ := hk
      refine renamed_ne hlib hx hi ?_
      have := congrArg List.dropLast h
      rwa [destOf, List.dropLast_concat] at this
    · rintro (rfl | h | h)
      · exact destOf_of_renamed_eq hp renamed_lib
      · exact absurd h hl
      · exact destOf_of_renamed_eq hp (renamed_of_not h)

end dest

/-! ### The loop -/

/-- The paths of the SDK have names for components, and the runtime is made elsewhere. -/
structure Layout (E : Config) (fs : Fs) : Prop where
  libName : LibName E.targetLibName
  apart : Apart E.runtimeDir (sdkTarget E)
  isName : ∀ rel ∈ filesBelow fs (sdkTarget E), ∀ x ∈ rel, IsName x

/-- No pattern character where the loop leaves out the quotes, and no file whose destination is a directory of another
one's. -/
structure Tame (E : Config) (fs : Fs) : Prop where
  alone : ∀ rel ∈ filesBelow fs (sdkTarget E), pathExpand fs (sdkTarget E) rel = [rel]
  plain : ∀ rel ∈ filesBelow fs (sdkTarget E), ∀ x ∈ rel.dropLast, isPattern x = false
  noTwin : ∀ rel ∈ filesBelow fs (sdkTarget E), ∀ rel' ∈ filesBelow fs (sdkTarget E),
    ¬ destOf E.targetLibName rel' <+: renamed E.targetLibName rel.dropLast

/-- `BUILD_RUNTIME_DIR` as the loop finds it. -/
def Cleared (E : Config) (fs : Fs) : Prop :=
  fs.get E.runtimeDir = some .dir ∧ ∀ q c, fs.get (E.runtimeDir ++ q) ≠ some (.file c)

/-- The loop copies this file. -/
def Copies (lib : String) (rel : Path) : Prop := passedOver lib (realPath lib rel) = false

instance (lib : String) (rel : Path) : Decidable (Copies lib rel) := inferInstanceAs (Decidable (_ = _))

/-- The files of `done` have been copied, in this state of a loop that began with `fs₀`. -/
structure Deployed (E : Config) (fs₀ : Fs) (done : List Path) (fs : Fs) : Prop where
  same : Fs.Agree [E.runtimeDir] fs₀ fs
  root : fs.get E.runtimeDir = some .dir
  from_sdk : ∀ q c, fs.get (E.runtimeDir ++ q) = some (.file c) →
    ∃ rel ∈ done, Copies E.targetLibName rel ∧ q = destOf E.targetLibName rel
  arrived : ∀ rel ∈ done, Copies E.targetLibName rel → ∃ c, fs₀.get (sdkTarget E ++ rel) = some (.file c) ∧
    fs.get (E.runtimeDir ++ destOf E.targetLibName rel) = some (.file c)

section loop
variable {T : Tools} {E : Config} {fs₀ fs : Fs} {done : List Path} {rel : Path} {c : String}

theorem mem_filesBelow {d : Path} : rel ∈ filesBelow fs d ↔ ∃ c, d ++ rel ≠ [] ∧ fs.get (d ++ rel) = some (.file c) := by
  simp only [filesBelow, List.mem_map, List.mem_filter, Fs.mem_below, Fs.isFile_iff]
  constructor
  · rintro ⟨p, ⟨⟨hp, -, hc⟩, c, hg⟩, rfl⟩
    obtain ⟨r, hr, hpre⟩ := Fs.covers_iff.1 hc
    obtain ⟨s, rfl⟩ := List.mem_singleton.1 hr ▸ hpre
    rw [List.drop_left]
    exact ⟨c, hp, hg⟩
  · rintro ⟨c, hp, hg⟩
    refine ⟨d ++ rel, ⟨⟨hp, by simp [hg], ?_⟩, c, hg⟩, List.drop_left⟩
    exact Fs.covers_iff.2 ⟨d, by simp, List.prefix_append _ _⟩

section congr
variable {fs' : Fs} (h : ∀ p, fs'.get (sdkTarget E ++ p) = fs.get (sdkTarget E ++ p))
include h

theorem mem_filesBelow_congr : rel ∈ filesBelow fs' (sdkTarget E) ↔ rel ∈ filesBelow fs (sdkTarget E) := by
  rw [mem_filesBelow, mem_filesBelow, h]

theorem Layout.congr (hl : Layout E fs) : Layout E fs' :=
  ⟨hl.libName, hl.apart, fun rel hr => hl.isName rel ((mem_filesBelow_congr h).1 hr)⟩

theorem Tame.congr (ht : Tame E fs) : Tame E fs' := by
  refine ⟨fun rel hr => ?_, fun rel hr => ht.plain rel ((mem_filesBelow_congr h).1 hr), fun rel hr rel' hr' =>
    ht.noTwin rel ((mem_filesBelow_congr h).1 hr) rel' ((mem_filesBelow_congr h).1 hr')⟩
  rw [← List.perm_singleton, ← ht.alone rel ((mem_filesBelow_congr h).1 hr)]
  exact pathExpand_perm h

end congr

theorem Copies.ne_nil {lib : String} (h : Copies lib rel) : rel ≠ [] := by
  rintro rfl
  simp [Copies, passedOver, realPath_eq, renamed, replaceIn, joinPath] at h

theorem Cleared.deployed (h : Cleared E fs) : Deployed E fs [] fs :=
  ⟨.refl _ _, h.1, fun q c hq => absurd hq (h.2 q c), by simp⟩

theorem deployNames_eq (h : Tame E fs) : deployNames E fs = filesBelow fs (sdkTarget E) := by
  rw [deployNames, List.flatMap_congr h.alone, List.flatMap_singleton']

/-- What lies below the SDK is what it was. -/
theorem Deployed.get_sdk (h : Deployed E fs₀ done fs) (hl : Layout E fs₀) (p : Path) :
    fs.get (sdkTarget E ++ p) = fs₀.get (sdkTarget E ++ p) := by
  refine h.same _ (Bool.eq_false_iff.2 fun hc => ?_)
  obtain ⟨r, hr, hpre⟩ := Fs.covers_iff.1 hc
  rw [List.mem_singleton.1 hr] at hpre
  exact ((hl.apart.symm.below (List.prefix_append _ p)).symm).1 hpre

theorem Deployed.mkdirP (h : Deployed E fs₀ done fs) (d : Path) :
    Deployed E fs₀ done (fs.mkdirP (E.runtimeDir ++ d)) := by
  have hfile : ∀ q c, (fs.mkdirP (E.runtimeDir ++ d)).get q = some (.file c) → fs.get q = some (.file c) := by
    intro q c hq
    rcases @Fs.get_mkdirP fs (E.runtimeDir ++ d) q with h' | ⟨-, h', -⟩
    · rwa [← h']
    · rw [h'] at hq; cases hq
  refine ⟨fun p hp => ?_, Fs.get_mkdirP_of_some h.root, fun q c hq => h.from_sdk q c (hfile _ c hq), fun rel hr hc => ?_⟩
  · rcases @Fs.get_mkdirP fs (E.runtimeDir ++ d) p with h' | ⟨h0, -, hpre⟩
    · rw [h', h.same p hp]
    · -- above `BUILD_RUNTIME_DIR` everything is there
      have hne : ¬ E.runtimeDir <+: p := fun h0 => by simp [Fs.covers, h0] at hp
      have habove : p <+: E.runtimeDir :=
        (List.prefix_or_prefix_of_prefix hpre (List.prefix_append _ _)).resolve_right hne
      have hdir : fs.get p = some .dir :=
        Fs.get_above (by simp [h.root]) habove fun heq => hne (heq ▸ List.prefix_refl _)
      rw [h0] at hdir
      cases hdir
  · obtain ⟨c, hsdk, hR⟩ := h.arrived rel hr hc
    exact ⟨c, hsdk, Fs.get_mkdirP_of_some hR⟩

theorem Deployed.write (h : Deployed E fs₀ done fs) (hl : Layout E fs₀) (hc : Copies E.targetLibName rel)
    (hsdk : fs₀.get (sdkTarget E ++ rel) = some (.file c))
    (hw : (fs.write (E.runtimeDir ++ destOf E.targetLibName rel) c).get
      (E.runtimeDir ++ destOf E.targetLibName rel) = some (.file c)) :
    Deployed E fs₀ (done ++ [rel]) (fs.write (E.runtimeDir ++ destOf E.targetLibName rel) c) := by
  refine ⟨fun p hp => ?_, ?_, fun q c' hq => ?_, fun rel' hr' hc' => ?_⟩
  · rw [Fs.get_write_of_ne, h.same p hp]
    rintro rfl
    simp [Fs.covers] at hp
  · rw [Fs.get_write_of_ne, h.root]
    simp [destOf]
  · by_cases hqd : q = destOf E.targetLibName rel
    · exact ⟨rel, by simp, hc, hqd⟩
    · rw [Fs.get_write_of_ne fun heq => hqd (List.append_cancel_left heq)] at hq
      obtain ⟨rel', hr', hrest⟩ := h.from_sdk q c' hq
      exact ⟨rel', by simp [hr'], hrest⟩
  · by_cases heq : rel' = rel
    · subst heq; exact ⟨c, hsdk, hw⟩
    · have hold : rel' ∈ done := by simpa [heq] using hr'
      obtain ⟨c', hs, hR⟩ := h.arrived rel' hold hc'
      refine ⟨c', hs, ?_⟩
      rw [Fs.get_write_of_ne, hR]
      exact fun hd => heq (destOf_injective hl.libName hc'.ne_nil hc.ne_nil (List.append_cancel_left hd))

/-- Nothing stands in the way of the directory of a file that is still to be copied. -/
theorem Deployed.way (h : Deployed E fs₀ done fs) (ht : Tame E fs₀)
    (hdone : ∀ x ∈ done, x ∈ filesBelow fs₀ (sdkTarget E)) (hrel : rel ∈ filesBelow fs₀ (sdkTarget E)) {q : Path}
    (hq : q <+: E.runtimeDir ++ renamed E.targetLibName rel.dropLast) : fs.get q = none ∨ fs.get q = some .dir := by
  rcases List.prefix_or_prefix_of_prefix hq (List.prefix_append _ _) with hup | ⟨r, rfl⟩
  · by_cases heq : q = E.runtimeDir
    · exact .inr (heq ▸ h.root)
    · exact .inr (Fs.get_above (by simp [h.root]) hup heq)
  · -- a file there is the destination of another one
    rcases hg : fs.get (E.runtimeDir ++ r) with _ | _ | c
    · exact .inl rfl
    · exact .inr rfl
    · obtain ⟨rel', hr', -, rfl⟩ := h.from_sdk r c hg
      exact absurd ((List.prefix_append_right_inj _).1 hq) (ht.noTwin rel hrel rel' (hdone rel' hr'))

theorem Deployed.pass (h : Deployed E fs₀ done fs) (hc : ¬ Copies E.targetLibName rel) :
    Deployed E fs₀ (done ++ [rel]) fs := by
  refine ⟨h.same, h.root, fun q c hq => ?_, fun rel' hr' hc' => h.arrived rel' ?_ hc'⟩
  · obtain ⟨rel', hr', hrest⟩ := h.from_sdk q c hq
    exact ⟨rel', by simp [hr'], hrest⟩
  · rcases List.mem_append.1 hr' with hr' | hr'
    · exact hr'
    · exact absurd (List.mem_singleton.1 hr' ▸ hc') hc

section turn
variable {C : Cmd Label → Nat → Prop} {w₀ w : World Label} {P : Label → Prop} {X : Nat → World Label → Prop}
  (hl : Layout E w₀.fs) (ht : Tame E w₀.fs) (hX : ∀ n w, X n w)
include hl ht

theorem sure_ensureDir (hdone : ∀ x ∈ done, x ∈ filesBelow w₀.fs (sdkTarget E))
    (hrel : rel ∈ filesBelow w₀.fs (sdkTarget E)) (hd : Deployed E w₀.fs done w.fs) (hlog : RanSince P w₀ w) :
    Sure T C (fun _ => RanSince P w₀) (fun _ w' => Deployed E w₀.fs done w'.fs ∧ RanSince P w₀ w' ∧
      w'.fs.get (E.runtimeDir ++ renamed E.targetLibName rel.dropLast) = some .dir) X
      (ensureDir E w.fs (renamed E.targetLibName rel.dropLast)) w := by
  simp only [ensureDir, pathExpand_plain (isPattern_renamed hl.libName (ht.plain rel hrel))]
  refine sure_ite (fun _ => ⟨hlog, fun n w' hf _ => ?_⟩) fun hdir => ?_
  · have hlog' : RanSince P w₀ w' := hlog.fin hf (by simp [Cmd.job])
    obtain ⟨⟨-, hfs⟩, -⟩ := hf
    refine ⟨hlog', ?_, hlog', ?_⟩
    · rw [hfs]; exact hd.mkdirP _
    · rw [hfs]; exact Fs.isDir_mkdirP fun q hq => hd.way ht hdone hrel hq
  · exact ⟨hlog, hd, hlog, Fs.isDir_iff.1 (by simpa using hdir)⟩

include hX

/-- One turn of the loop. -/
theorem sure_deployFile (hP : ∀ r ∈ filesBelow w₀.fs (sdkTarget E), Copies E.targetLibName r →
      P (.job (.cp (sdkTarget E ++ r) (E.runtimeDir ++ destOf E.targetLibName r))))
    (hdone : ∀ x ∈ done, x ∈ filesBelow w₀.fs (sdkTarget E)) (hrel : rel ∈ filesBelow w₀.fs (sdkTarget E))
    (hd : Deployed E w₀.fs done w.fs) (hlog : RanSince P w₀ w) :
    Sure T C (fun _ => RanSince P w₀) (fun _ w' => Deployed E w₀.fs (done ++ [rel]) w'.fs ∧ RanSince P w₀ w') X
      (deployFile E rel) w := by
  refine sure_ite (fun hpass => ⟨hlog, hd.pass (by simp [Copies, hpass]), hlog⟩) fun hpass => ?_
  have hc : Copies E.targetLibName rel := Bool.eq_false_iff.2 hpass
  obtain ⟨c, -, hfile⟩ := mem_filesBelow.1 hrel
  rw [realDir_eq hl.libName (hl.isName rel hrel)]
  refine sure_world.2 ⟨hlog, sure_bind ((sure_ensureDir hl ht hdone hrel hd hlog).mono (fun _ _ h => h)
    (fun _ w' h => ?_) fun _ _ h => h)⟩
  obtain ⟨hd, hlog, hdir⟩ := h
  have hsrc : w'.fs.get (sdkTarget E ++ rel) = some (.file c) := (hd.get_sdk hl rel).trans hfile
  refine sure_world.2 ⟨hlog, ?_⟩
  rw [if_pos (Fs.isDir_iff.2 hdir), List.append_assoc]
  refine sure_bind (sure_world.2 ⟨hlog, ?_⟩)
  rw [if_neg (by simp [Fs.isDir, hsrc])]
  refine ⟨hlog, fun n v hf _ => ?_⟩
  have hlog' : RanSince P w₀ v := hlog.fin hf fun j hj => by cases hj; exact hP rel hrel hc
  refine ⟨hlog', sure_ite (fun hn => ⟨hlog', ?_, hlog'⟩) fun _ => ⟨hlog', hlog', hlog', hX _ _⟩⟩
  obtain ⟨hfin, -⟩ := hf
  rw [hn] at hfin
  simp only [Cmd.Fin, if_true, hsrc, Cmd.Copied] at hfin
  rw [hfin.2]
  exact hd.write hl hc hfile hfin.1

/-- The loop: the programs it runs, and what it leaves when it comes to its end. -/
theorem sure_deployLoop (hP : ∀ r ∈ filesBelow w₀.fs (sdkTarget E), Copies E.targetLibName r →
      P (.job (.cp (sdkTarget E ++ r) (E.runtimeDir ++ destOf E.targetLibName r)))) (hf : Cleared E w₀.fs) :
    Sure T C (fun _ => RanSince P w₀)
      (fun _ w' => Deployed E w₀.fs (filesBelow w₀.fs (sdkTarget E)) w'.fs ∧ RanSince P w₀ w') X
      (forEach (deployFile E) (deployNames E w₀.fs)) w₀ := by
  rw [deployNames_eq ht]
  -- the files done and the files to do are the files of the SDK
  refine (sure_forEach (fun done rest w => done ++ rest = filesBelow w₀.fs (sdkTarget E) ∧
    Deployed E w₀.fs done w.fs ∧ RanSince P w₀ w) (fun done w h => h.2.2) (fun done x rest w h => ?_) [] _
    ⟨rfl, hf.deployed, .refl _⟩).mono (fun _ _ h => h) (fun _ w' h => ?_) fun _ _ h => h
  · obtain ⟨hall, hd, hlog⟩ := h
    have hmem : ∀ y ∈ done ++ x :: rest, y ∈ filesBelow w₀.fs (sdkTarget E) := fun y hy => hall ▸ hy
    refine (sure_deployFile hl ht hX hP (fun y hy => hmem y (by simp [hy])) (hmem x (by simp)) hd hlog).mono
      (fun _ _ h => h) (fun _ w' h => ⟨?_, h⟩) fun _ _ h => h
    rw [List.append_assoc, List.singleton_append, hall]
  · exact h.2

end turn

/-- A copy of the loop, and where it goes. -/
def LoopCopy (E : Config) (fs : Fs) (x : Label) : Prop := ∃ rel ∈ filesBelow fs (sdkTarget E),
  Copies E.targetLibName rel ∧ x = .job (.cp (sdkTarget E ++ rel) (E.runtimeDir ++ destOf E.targetLibName rel))

/-- The programs every run of the loop executes, whatever their exit codes. -/
theorem loop_copies {C : Cmd Label → Nat → Prop} {w w' : World Label} {p : Script Unit} (hl : Layout E w.fs)
    (ht : Tame E w.fs) (hf : Cleared E w.fs) (h : Runs T C (forEach (deployFile E) (deployNames E w.fs), w) (p, w')) :
    RanSince (LoopCopy E w.fs) w w' := by
  obtain ⟨-, hlog⟩ := ((sure_deployLoop (P := LoopCopy E w.fs) (X := fun _ _ => True) hl ht (fun _ _ => trivial)
    (fun r hr hc => ⟨r, hr, hc, rfl⟩) hf).runs h).inv
  exact hlog

/-- What is in the runtime when the loop has come to its end. -/
theorem loop_deployed {C : Cmd Label → Nat → Prop} {w w' : World Label} (hl : Layout E w.fs) (ht : Tame E w.fs)
    (hf : Cleared E w.fs) (h : Runs T C (forEach (deployFile E) (deployNames E w.fs), w) (.pure (), w')) :
    Deployed E w.fs (filesBelow w.fs (sdkTarget E)) w'.fs :=
  (((sure_deployLoop (P := fun _ => True) (X := fun _ _ => True) hl ht (fun _ _ => trivial)
    (fun _ _ _ => trivial) hf).runs h).of_pure).1

/-! ### What the loop does right -/

/-- A 64 bit platform. -/
def lib64Config : Config := { Config.unset [] "p" with targetLibName := "lib64" }

/-- An SDK with these files, and an empty runtime. -/
def sdkWith (files : List (Path × String)) : World Label :=
  ⟨files.foldl (fun fs f => (fs.mkdirP (sdkTarget lib64Config ++ f.1.dropLast)).write (sdkTarget lib64Config ++ f.1) f.2)
    (Fs.empty.mkdirP lib64Config.runtimeDir), []⟩

/-- The loop on this SDK. -/
def lib64Loop (w : World Label) : Script Unit := forEach (deployFile lib64Config) (deployNames lib64Config w.fs)

/-- A library and a program with a pattern character for a name. -/
def fooSdk : World Label := sdkWith [(["usr", "lib", "libfoo.so"], "foo"), (["usr", "bin", "["], "test")]

theorem fooSdk_cleared : Cleared lib64Config fooSdk.fs := by
  refine ⟨by decide, fun q c hq => ?_⟩
  have hmem : q ∈ filesBelow fooSdk.fs lib64Config.runtimeDir := mem_filesBelow.2 ⟨c, List.cons_ne_nil _ _, hq⟩
  have hno : filesBelow fooSdk.fs lib64Config.runtimeDir = [] := by decide
  simp [hno] at hmem

theorem fooSdk_layout : Layout lib64Config fooSdk.fs := ⟨.inr rfl, ⟨by decide, by decide⟩, by decide⟩

theorem fooSdk_tame : Tame lib64Config fooSdk.fs := ⟨by decide, by decide, by decide⟩

/-- A file beside a directory that is renamed to its name. -/
def twinSdk : World Label := sdkWith [(["share", "glib", "x"], "x"), (["share", "glib64"], "y")]

end loop

end BuildQt5
