import BuildQt5.Download
import BuildQt5.Integrity
import BuildQt5.Stamps

/-!
# The sources behind the stamp of qt5

`do_fetch` has the stamp of `$BUILD_DIR/qt5`, but `do_configure` makes directories below it too. A `configure` before
the first `fetch` leaves a directory without lock, and `all` passes the fetch over. In a history without that, and
without a `clean` that stops halfway, the stamp of qt5 means what the stamps of the other stages mean, and every module
of the list has its tree (`sources_when_skipped`).
-/

namespace BuildQt5
open Shell Relation
open Prog (world run run_ note ifThen forEach)

/-- A directory `m-*` in `qt5/src`. -/
def HasTree (E : Config) (fs : Fs) (m : String) : Prop :=
  ∃ x, dash m x = true ∧ fs.get (qtSrc E ++ [x]) = some .dir

def Stocked (E : Config) (fs : Fs) : Prop := ∀ m ∈ E.modules, HasTree E fs m

/-- `rsync` was given three or more source trees: `basename` prints nothing, and they all go to `qt5/src` itself. -/
def Crowded (log : Log) : Prop :=
  ∃ srcs dest n, .ran (.job (.rsync srcs dest)) n ∈ log ∧ 3 ≤ srcs.length

/-- No name of the list begins with another one and a `-`, and the archives of a module unpack to a tree of it. -/
structure Orderly (T : Tools) (E : Config) : Prop where
  names : ∀ m ∈ E.modules, ∀ m' ∈ E.modules, dash m m' = false
  tops : ∀ m ∈ E.modules, ∀ a c, between (m ++ "-") ".tar.xz" a = true → dash m (T.unpack a c).top = true

/-- The archives of `m` unpack to trees of `m`. -/
abbrev OwnTops (T : Tools) (m : String) : Prop :=
  ∀ a c, between (m ++ "-") ".tar.xz" a = true → dash m (T.unpack a c).top = true

theorem Crowded.append {evs log : Log} (h : Crowded log) : Crowded (evs ++ log) := by
  obtain ⟨srcs, dest, n, hm, hn⟩ := h
  exact ⟨srcs, dest, n, List.mem_append_right _ hm, hn⟩

/-! ### The trees of the other modules -/

section others
variable {T : Tools} {E : Config} {m : String} {done : List String} {fs fs' : Fs}

/-- The modules of `done` but `m` have their trees. -/
def Others (E : Config) (m : String) (done : List String) (fs : Fs) : Prop :=
  ∀ m' ∈ done, m' ≠ m → HasTree E fs m'

/-- The entries of `qt5/src` that are not `m-*` are as they were. -/
def SameBut (E : Config) (m : String) (fs fs' : Fs) : Prop :=
  ∀ x, dash m x = false → fs'.get (qtSrc E ++ [x]) = fs.get (qtSrc E ++ [x])

theorem Others.same (h : Others E m done fs) (hO : Orderly T E) (hm : m ∈ E.modules) (hdone : ∀ x ∈ done, x ∈ E.modules)
    (hsame : SameBut E m fs fs') : Others E m done fs' := by
  intro m' hm' hne
  obtain ⟨x, hx, hget⟩ := h m' hm' hne
  refine ⟨x, hx, (hsame x ?_).trans hget⟩
  refine Bool.eq_false_iff.2 fun hmx => hne ?_
  exact eq_of_dash hx hmx (hO.names m' (hdone m' hm') m hm) (hO.names m hm m' (hdone m' hm'))

/-- A command whose paths are `m-*` leaves the rest. -/
theorem preserves_sameBut {c : Cmd Label} (hmk : ∀ p, c ≠ .mkdirP p)
    (hroots : ∀ r ∈ c.roots, ∃ x, dash m x = true ∧ r = qtSrc E ++ [x]) :
    c.Preserves T fun v => SameBut E m fs v.fs := by
  have hcov : ∀ x, dash m x = false → Fs.covers c.roots (qtSrc E ++ [x]) = false := by
    intro x hx
    refine Bool.eq_false_iff.2 fun hc => ?_
    obtain ⟨r, hr, hrx⟩ := Fs.covers_iff.1 hc
    obtain ⟨y, hy, rfl⟩ := hroots r hr
    have hxy : y = x := by simpa using hrx.eq_of_length (by simp)
    rw [← hxy, hy] at hx
    cases hx
  refine ⟨fun v v' hv hm x hx => ?_, fun v n v' hv hf x hx => ?_⟩
  · exact (preserves_get (hcov x hx) hmk).1 v v' (hv x hx) hm
  · exact (preserves_get (hcov x hx) hmk).2 v n v' (hv x hx) hf

/-- What `tar` is given for `m` is named like an archive of `m`. -/
theorem archives_named (fs : Fs) (d : Path) : ∀ a ∈ expand fs d (between (m ++ "-") ".tar.xz") (m ++ "-*.tar.xz"),
    ∃ d x, a = d ++ [x] ∧ between (m ++ "-") ".tar.xz" x = true := by
  intro a ha
  obtain ⟨x, hx⟩ := between_of_expand ha
  exact ⟨d, x, hx⟩

theorem topDir_of_archive {as : List Path} {a : Path} {c : String} (htops : OwnTops T m)
    (has : ∀ a ∈ as, ∃ d x, a = d ++ [x] ∧ between (m ++ "-") ".tar.xz" x = true)
    (harc : Cmd.archive fs as = some (a, c)) : ∃ x, dash m x = true ∧ Cmd.topDir T (qtSrc E) a c = qtSrc E ++ [x] := by
  obtain ⟨rfl, -⟩ := Cmd.archive_eq_some.1 harc
  obtain ⟨d, y, rfl, hb⟩ := has a (List.mem_singleton.2 rfl)
  exact ⟨_, by rw [getLastD_append]; exact htops y c hb, rfl⟩

/-- `tar` changes the top directory of what it was given. -/
theorem preserves_tar {as : List Path} (htops : OwnTops T m)
    (has : ∀ a ∈ as, ∃ d x, a = d ++ [x] ∧ between (m ++ "-") ".tar.xz" x = true) :
    (Cmd.tar as (qtSrc E) : Cmd Label).Preserves T fun v => SameBut E m fs v.fs := by
  have htop : ∀ (fs : Fs) (a : Path) (c : String), Cmd.archive fs as = some (a, c) → ∀ x, dash m x = false →
      ¬ Cmd.topDir T (qtSrc E) a c <+: qtSrc E ++ [x] := by
    intro fs a c harc x hx hpre
    obtain ⟨y, hy, hd⟩ := topDir_of_archive (E := E) htops has harc
    have hxy : y = x := by simpa [hd] using hpre.eq_of_length (by simp [hd])
    rw [← hxy, hy] at hx
    cases hx
  refine ⟨fun v v' hv hmid x hx => ?_, fun v n v' hv hf x hx => ?_⟩
  · obtain ⟨evs, hmid, -⟩ := hmid
    cases hmid with
    | tar ha h => exact (h _ (by simpa [Fs.covers] using htop _ _ _ ha x hx)).trans (hv x hx)
  · exact (hf.1.get_tar fun a c ha => htop v.fs a c ha x hx).trans (hv x hx)

end others

/-! ### One turn of the loop -/

/-- The modules of `xs` have their trees. -/
def Supplied (E : Config) (xs : List String) (v : World Label) : Prop :=
  Crowded v.log ∨ ∀ m ∈ xs, HasTree E v.fs m

/-- The modules of `done` but `m` have their trees. -/
def Mostly (E : Config) (m : String) (done : List String) (v : World Label) : Prop :=
  Crowded v.log ∨ Others E m done v.fs

section turn
variable {T : Tools} {E : Env} {net : Net} {list m : String} {done xs : List String} {w : World Label}

theorem crowded_fin {c : Cmd Label} {v v' : World Label} {n : Nat} (h : Crowded v.log) (hf : c.FinW T v n v') :
    Crowded v'.log := by
  rw [hf.2]; exact h.append

theorem crowded_mid {c : Cmd Label} {v v' : World Label} (h : Crowded v.log) (hm : c.MidW T v v') :
    Crowded v'.log := by
  obtain ⟨evs, -, hl⟩ := hm
  rw [hl]; exact h.append

theorem Supplied.mostly (h : Supplied E.toConfig done w) : Mostly E.toConfig m done w :=
  h.imp_right fun h m' hm' _ => h m' hm'

theorem Mostly.supplied (h : Mostly E.toConfig m done w) (hm : HasTree E.toConfig w.fs m) :
    Supplied E.toConfig (done ++ [m]) w := by
  refine h.imp_right fun h m' hm' => ?_
  by_cases hne : m' = m
  · rw [hne]; exact hm
  · rcases List.mem_append.1 hm' with hm' | hm'
    · exact h m' hm' hne
    · exact absurd (List.mem_singleton.1 hm') hne

theorem mostly_mark {k : Label} (h : Mostly E.toConfig m done w) :
    Mostly E.toConfig m done ⟨w.fs, .mark k :: w.log⟩ :=
  h.imp_left fun ⟨srcs, dest, n, hm, hn⟩ => ⟨srcs, dest, n, List.mem_cons_of_mem _ hm, hn⟩

theorem preserves_mostly_off {c : Cmd Label} (hc : c.Off (qtSrc E.toConfig)) :
    c.Preserves T (Mostly E.toConfig m done) := by
  have hframed : ∀ v v' : World Label, Framed (qtSrc E.toConfig) (fun _ => True) v v' → Others E.toConfig m done v.fs →
      Others E.toConfig m done v'.fs := fun v v' hf h m' hm' hne => by
    obtain ⟨x, hx, hget⟩ := h m' hm' hne
    exact ⟨x, hx, (hf.same _ (List.prefix_append _ _)).trans hget⟩
  refine ⟨fun v v' h hm => ?_, fun v n v' h hf => ?_⟩
  · exact h.imp (fun h => crowded_mid h hm) (hframed v v' (.mid hc hm))
  · exact h.imp (fun h => crowded_fin h hf) (hframed v v' (.fin hc hf))

section orderly
variable (hO : Orderly T E.toConfig) (hm : m ∈ E.modules) (hdone : ∀ x ∈ done, x ∈ E.modules)
include hO hm hdone

theorem preserves_mostly {c : Cmd Label} (hc : ∀ fs, c.Preserves T fun v => SameBut E.toConfig m fs v.fs) :
    c.Preserves T (Mostly E.toConfig m done) := by
  refine ⟨fun v v' h hmid => ?_, fun v n v' h hf => ?_⟩
  · exact h.imp (fun h => crowded_mid h hmid) fun h =>
      h.same hO hm hdone ((hc v.fs).1 v v' (fun _ _ => rfl) hmid)
  · exact h.imp (fun h => crowded_fin h hf) fun h =>
      h.same hO hm hdone ((hc v.fs).2 v n v' (fun _ _ => rfl) hf)

omit hO hm hdone in
theorem safe_mostly {α : Type} {p : Script α} (h : Mostly E.toConfig m done w)
    (hp : p.All (fun c => c.Preserves T (Mostly E.toConfig m done)) fun _ => True) :
    Safe T Alone (fun _ => True) (fun _ => Mostly E.toConfig m done) (fun _ _ => True) p w :=
  (Safe.of_all (fun _ hc => hc) (fun _ _ _ => mostly_mark) hp h).mono (fun _ _ => trivial) (fun _ _ h => h)
    fun _ _ _ => trivial

theorem safe_removeOld (h : Mostly E.toConfig m done w) :
    Safe T Alone (fun _ => True) (fun _ => Mostly E.toConfig m done) (fun _ _ => True) (removeOld E.toConfig m) w := by
  refine safe_mostly h (Prog.All.bind (Prog.all_world.2 trivial) fun v => ?_)
  split
  · rename_i x hx
    have hmem : x ∈ v.fs.glob (qtSrc E.toConfig) (dash m) := by simp [hx]
    refine Prog.all_ifThen fun _ => Prog.all_run_.2 (preserves_mostly hO hm hdone fun fs => ?_)
    exact preserves_sameBut (by simp) fun r hr =>
      ⟨x, (Fs.mem_glob.1 hmem).2, List.mem_singleton.1 hr⟩
  · trivial

omit hO hm hdone in
theorem hasTree_of_tar {as : List Path} {fs fs' : Fs} (htops : OwnTops T m)
    (has : ∀ a ∈ as, ∃ d x, a = d ++ [x] ∧ between (m ++ "-") ".tar.xz" x = true)
    (hf : (Cmd.tar as (qtSrc E.toConfig) : Cmd Label).Fin T fs 0 fs') : HasTree E.toConfig fs' m := by
  have hun : Cmd.Unpacked T fs fs' (qtSrc E.toConfig) (Cmd.archive fs as) := hf
  rcases harc : Cmd.archive fs as with _ | ⟨a, c⟩
  · rw [harc] at hun
    exact hun.elim
  rw [harc] at hun
  obtain ⟨-, hdir, hplace⟩ := hun
  obtain ⟨x, hx, htop⟩ := topDir_of_archive (E := E.toConfig) htops has harc
  refine ⟨x, hx, ?_⟩
  rw [htop] at hplace
  split at hplace
  · rw [hplace]
    exact Fs.get_graft_self (by simp) (by simpa using hdir)
  · exact hplace.2

theorem safe_extract (h : Mostly E.toConfig m done w) :
    Safe T Alone (fun _ => True) (fun _ => Supplied E.toConfig (done ++ [m])) (fun _ _ => True)
      (extractModule E.toConfig m) w := by
  refine safe_bind (safe_note.2 ⟨trivial, trivial, safe_bind (safe_note.2 ⟨trivial, trivial, ?_⟩)⟩)
  refine safe_bind (safe_world.2 ⟨trivial, ?_⟩)
  have hpres : (Cmd.tar _ (qtSrc E.toConfig) : Cmd Label).Preserves T (Mostly E.toConfig m done) :=
    preserves_mostly hO hm hdone fun _ => preserves_tar (hO.tops m hm) (archives_named w.fs (qtDownloads E.toConfig))
  refine safe_bind (safe_busy (Mostly E.toConfig m done) (mostly_mark (mostly_mark h)) (fun _ _ => trivial) hpres.1
    fun v n v' hv hf => safe_pure.2 ⟨trivial, safe_orError trivial ?_ fun _ _ => ⟨trivial, trivial⟩⟩)
  rintro rfl
  exact (hpres.2 v 0 v' hv hf).supplied (hasTree_of_tar (hO.tops m hm) (archives_named _ _) hf.1)

omit hO hm hdone in
/-- Downloads are not made in `qt5/src`. -/
theorem downloads_off : Area.Off ⟨fun r => qtDownloads E.toConfig <+: r, fun _ => False⟩ (qtSrc E.toConfig) := by
  refine ⟨fun r hr => ?_, fun _ h => h.elim⟩
  have hout : Apart E.downloadDir (E.stageDir .qt5) := E.outside_apart .qt5 _ (by simp [Config.outside])
  exact (hout.symm.below (List.prefix_append _ _)).symm.below ((List.prefix_append _ _).trans hr)

theorem safe_downloadModule (h : Mostly E.toConfig m done w) :
    Safe T Alone (fun _ => True) (fun _ => Supplied E.toConfig (done ++ [m])) (fun _ _ => True)
      (downloadModule T E.toConfig net list m) w := by
  let A : Area := ⟨fun r => qtDownloads E.toConfig <+: r, fun _ => False⟩
  have hwithin : ∀ c : Cmd Label, c.Within A → c.Preserves T (Mostly E.toConfig m done) := fun c hc =>
    preserves_mostly_off (hc.off downloads_off)
  refine safe_bind ((safe_mostly h (Prog.all_note.2 trivial)).mono (fun _ h => h) (fun _ v h => ?_)
    fun _ _ h => h)
  have hmkdir : (Cmd.mkdirP (qtDownloads E.toConfig) : Cmd Label).Within A := .inl (List.prefix_refl _)
  refine safe_bind ((safe_mostly h (Prog.all_run_.2 (hwithin _ hmkdir))).mono (fun _ h => h) (fun _ v h => ?_)
    fun _ _ h => h)
  have hfetch : (fetchDownload T E.toConfig net (E.qtDownloadUrlPre ++ "/" ++ (m ++ E.qtDownloadUrlPost))
      (qtDownloads E.toConfig) "" (digestOf list m) .md5).All (Cmd.Within A) fun _ => True :=
    all_fetchDownload (fun _ _ => trivial) fun _ h => h
  refine safe_bind ((safe_mostly h (hfetch.mono hwithin fun _ h => h)).mono (fun _ h => h)
    (fun code v h => ?_) fun _ _ h => h)
  have herr : (orError code).All (fun c => c.Preserves T (Mostly E.toConfig m done)) fun _ => True :=
    all_orError fun _ _ => trivial
  exact safe_bind ((safe_mostly h herr).mono (fun _ h => h) (fun _ v h => safe_extract hO hm hdone h)
    fun _ _ h => h)

omit hO hm hdone in
theorem sourceTrees_ne_nil {fs : Fs} (h : hasLocalSource E.toConfig fs m = true) : sourceTrees E.toConfig fs m ≠ [] := by
  unfold hasLocalSource at h
  split at h
  · rename_i x hx
    have hmem : x ∈ (fs.glob E.sourceDir (dash m)).filter fun x => fs.get (E.sourceDir ++ [x, m ++ ".pro"]) ≠ none := by
      rw [hx]; exact List.mem_singleton.2 rfl
    obtain ⟨c, hc⟩ := Fs.isFile_iff.1 h
    have hdir : fs.get (E.sourceDir ++ [x]) = some .dir :=
      Fs.get_append [m ++ ".pro"] (by simp [hc]) (by simp)
    refine List.ne_nil_of_mem (List.mem_filter.2 ⟨(List.mem_filter.1 hmem).1, Fs.isDir_iff.2 hdir⟩)
  · cases h

/-- The copy goes to directories `m-*`, or to `qt5/src` itself. -/
theorem safe_copyModule (h : Mostly E.toConfig m done w) (hne : sourceTrees E.toConfig w.fs m ≠ []) :
    Safe T Alone (fun _ => True) (fun _ => Supplied E.toConfig (done ++ [m])) (fun _ _ => True)
      (copyModule E.toConfig net m) w := by
  refine safe_bind (safe_note.2 ⟨trivial, trivial, safe_bind (safe_world.2 ⟨trivial, ?_⟩)⟩)
  have hdash : ∀ x ∈ sourceTrees E.toConfig w.fs m, dash m x = true := fun x hx =>
    (Fs.mem_glob.1 (List.mem_filter.1 hx).1).2
  -- a copy to the directories `dirs`
  have hcopy : ∀ (job : Label) (dirs : List String), (∀ x ∈ dirs, dash m x = true) → dirs ≠ [] →
      Safe T Alone (fun _ => True) (fun _ => Supplied E.toConfig (done ++ [m])) (fun _ _ => True)
        (run (.ext job (dirs.map fun x => qtSrc E.toConfig ++ [x]) (dirs.map fun x => qtSrc E.toConfig ++ [x])) >>=
          orError) ⟨w.fs, .mark (.say .title (upper ("copy " ++ m))) :: w.log⟩ := by
    intro job dirs hd hdne
    have hpres : (Cmd.ext job (dirs.map fun x => qtSrc E.toConfig ++ [x])
        (dirs.map fun x => qtSrc E.toConfig ++ [x])).Preserves T (Mostly E.toConfig m done) := by
      refine preserves_mostly hO hm hdone fun fs => preserves_sameBut (by simp) fun r hr => ?_
      obtain ⟨x, hx, rfl⟩ := List.mem_map.1 hr
      exact ⟨x, hd x hx, rfl⟩
    refine safe_bind (safe_busy (Mostly E.toConfig m done) (mostly_mark h) (fun _ _ => trivial) hpres.1
      fun v n v' hv hf => safe_pure.2 ⟨trivial, safe_orError trivial (fun hn => ?_) fun _ _ => ⟨trivial, trivial⟩⟩)
    obtain ⟨x, hx⟩ := List.exists_mem_of_ne_nil dirs hdne
    have hmade := hf.1.2 hn _ (List.mem_map.2 ⟨x, hx, rfl⟩)
    exact (hpres.2 v n v' hv hf).supplied ⟨x, hd x hx, hmade⟩
  unfold copyCmd
  split
  · rcases hs : sourceTrees E.toConfig w.fs m with _ | ⟨x, _ | ⟨y, _ | ⟨z, rest⟩⟩⟩
    · exact absurd hs hne
    · exact hcopy _ [x] (fun a ha => hdash a (by simp_all)) (by simp)
    · exact hcopy _ [x] (fun a ha => hdash a (by simp_all)) (by simp)
    · refine safe_bind (safe_busy (fun _ => True) trivial (fun _ _ => trivial) (fun _ _ _ _ => trivial)
        fun v n v' _ hf => safe_pure.2 ⟨trivial, safe_orError trivial (fun _ => .inl ?_)
          fun _ _ => ⟨trivial, trivial⟩⟩)
      refine ⟨(x :: y :: z :: rest).map fun x => E.sourceDir ++ [x], qtSrc E.toConfig, n, ?_, by simp⟩
      rw [hf.2]
      exact List.mem_append_left _ (List.mem_singleton.2 rfl)
  · exact hcopy _ _ hdash hne

end orderly

/-! ### Patches -/

theorem Supplied.mark {k : Label} (h : Supplied E.toConfig xs w) : Supplied E.toConfig xs ⟨w.fs, .mark k :: w.log⟩ :=
  h.imp_left fun ⟨srcs, dest, n, hm, hn⟩ => ⟨srcs, dest, n, List.mem_cons_of_mem _ hm, hn⟩

/-- All modules of `xs` have their trees, but the tree `z` may be in the making. -/
def SuppliedBut (E : Config) (xs : List String) (z : String) (v : World Label) : Prop :=
  Crowded v.log ∨ ∀ m ∈ xs, ∃ x, dash m x = true ∧ (x = z ∨ v.fs.get (qtSrc E ++ [x]) = some .dir)

theorem not_covers_other {x z : String} (h : x ≠ z) {foot : List Path}
    (hfoot : ∀ r ∈ foot, r = qtSrc E.toConfig ++ [z]) : Fs.covers foot (qtSrc E.toConfig ++ [x]) = false := by
  refine Bool.eq_false_iff.2 fun hc => ?_
  obtain ⟨r, hr, hrx⟩ := Fs.covers_iff.1 hc
  rw [hfoot r hr] at hrx
  exact h (by simpa using (hrx.eq_of_length (by simp)).symm)

theorem SuppliedBut.agree {z : String} {v v' : World Label} {foot : List Path} (h : SuppliedBut E.toConfig xs z v)
    (hlog : Crowded v.log → Crowded v'.log) (hfoot : ∀ r ∈ foot, r = qtSrc E.toConfig ++ [z])
    (hag : Fs.Agree foot v.fs v'.fs) : SuppliedBut E.toConfig xs z v' := by
  refine h.imp hlog fun h m hm => ?_
  obtain ⟨x, hx, hget⟩ := h m hm
  by_cases hxz : x = z
  · exact ⟨x, hx, .inl hxz⟩
  · refine ⟨x, hx, .inr ?_⟩
    rw [hag _ (not_covers_other hxz hfoot)]
    exact hget.resolve_left hxz

/-- A patched tree is a directory, and the others are as they were. -/
theorem get_of_patched {text z : String} {fs fs' : Fs}
    (h : (Cmd.patch [qtSrc E.toConfig ++ [z]] text : Cmd Label).Fin T fs 0 fs') (x : String) :
    fs'.get (qtSrc E.toConfig ++ [x]) = if x = z then some .dir else fs.get (qtSrc E.toConfig ++ [x]) := by
  obtain ⟨hdir, hne, -, hfs⟩ := h.patch_one
  rw [hfs]
  split
  · rename_i hxz
    rw [hxz]
    exact Fs.get_graft_self hne (Fs.get_dropLast (by simp [hdir]))
  · rename_i hxz
    exact Fs.get_graft_of_not fun hpre => hxz (by simpa using (hpre.eq_of_length (by simp)).symm)

theorem safe_patchOne {text : String} (h : Supplied E.toConfig xs w) :
    Safe T Alone (fun _ => True) (fun _ => Supplied E.toConfig xs) (fun _ _ => True) (patchOne E.toConfig m text) w := by
  refine safe_bind (safe_world.2 ⟨trivial, ?_⟩)
  -- not given one directory, `patch` fails
  have hfail : ∀ dirs : List Path, (∀ d, dirs ≠ [d]) → Safe T Alone (fun _ => True) (fun _ => Supplied E.toConfig xs)
      (fun _ _ => True) (run (.patch dirs text) >>= orError) w := by
    intro dirs hdirs
    refine safe_bind (safe_busy (fun _ => True) trivial (fun _ _ => trivial) (fun _ _ _ _ => trivial)
      fun v n v' _ hf => safe_pure.2 ⟨trivial, safe_orError trivial ?_ fun _ _ => ⟨trivial, trivial⟩⟩)
    rintro rfl
    have hpatched : Cmd.Patched T v.fs v'.fs text dirs := hf.1
    unfold Cmd.Patched at hpatched
    split at hpatched
    · exact absurd rfl (hdirs _)
    · exact hpatched.elim
  rcases hdirs : expand w.fs (qtSrc E.toConfig) (star m) (m ++ "*") with _ | ⟨d, _ | ⟨e, rest⟩⟩
  · exact hfail _ (by simp)
  · obtain ⟨z, rfl⟩ : ∃ z, d = qtSrc E.toConfig ++ [z] := mem_expand (by rw [hdirs]; exact List.mem_singleton.2 rfl)
    have hfoot : ∀ fs : Fs, ∀ r ∈ Cmd.patchFoot fs [qtSrc E.toConfig ++ [z]], r = qtSrc E.toConfig ++ [z] := by
      intro fs r hr
      simp only [Cmd.patchFoot] at hr
      split at hr
      · exact List.mem_singleton.1 hr
      · cases hr
    have hstart : SuppliedBut E.toConfig xs z w := h.imp_right fun h m hm => by
      obtain ⟨x, hx, hget⟩ := h m hm
      exact ⟨x, hx, .inr hget⟩
    refine safe_bind (safe_busy (SuppliedBut E.toConfig xs z) hstart (fun _ _ => trivial) ?_
      fun v n v' hv hf => safe_pure.2 ⟨trivial, safe_orError trivial ?_ fun _ _ => ⟨trivial, trivial⟩⟩)
    · rintro v v' hv hmid
      have hmid' := hmid
      obtain ⟨evs, hmid', -⟩ := hmid'
      cases hmid' with
      | patch hag => exact hv.agree (fun h => crowded_mid h hmid) (hfoot v.fs) hag
    · rintro rfl
      refine hv.imp (fun h => crowded_fin h hf) fun hv m hm => ?_
      obtain ⟨x, hx, hget⟩ := hv m hm
      refine ⟨x, hx, ?_⟩
      rw [get_of_patched hf.1]
      split
      · rfl
      · exact hget.resolve_left ‹_›
  · exact hfail _ (by simp)

theorem safe_patchModule (h : Supplied E.toConfig xs w) : Safe T Alone (fun _ => True)
    (fun _ => Supplied E.toConfig xs) (fun _ _ => True) (patchModule E.toConfig m) w := by
  unfold patchModule ifThen
  split
  · refine safe_bind (safe_note.2 ⟨trivial, trivial, ?_⟩)
    refine safe_forEach (fun _ => Supplied E.toConfig xs) (fun _ v hv v' hv' => ?_) (fun _ _ _ hv => safe_patchOne hv) _
      h.mark
    rw [alone_iff.1 hv']
    exact ⟨trivial, hv⟩
  · exact safe_pure.2 ⟨trivial, h⟩

theorem safe_fetchModule (hO : Orderly T E.toConfig) (hm : m ∈ E.modules) (hdone : ∀ x ∈ done, x ∈ E.modules)
    (h : Supplied E.toConfig done w) : Safe T Alone (fun _ => True) (fun _ => Supplied E.toConfig (done ++ [m]))
      (fun _ _ => True) (fetchModule T E.toConfig net list m) w := by
  refine safe_bind ((safe_removeOld hO hm hdone h.mostly).mono (fun _ h => h) (fun _ v h => ?_) fun _ _ h => h)
  refine safe_bind (Safe.mono (Q := fun _ => Supplied E.toConfig (done ++ [m])) ?_ (fun _ h => h)
    (fun _ v h => safe_patchModule h) fun _ _ h => h)
  refine safe_bind (safe_world.2 ⟨trivial, safe_ite (fun hlocal => ?_) fun _ => ?_⟩)
  · exact safe_copyModule hO hm hdone h (sourceTrees_ne_nil hlocal)
  · exact safe_downloadModule hO hm hdone h

/-- The loop gives every module its tree. -/
theorem safe_fetchBody (hO : Orderly T E.toConfig) : Safe T Alone (fun _ => True)
    (fun _ => Supplied E.toConfig E.modules) (fun _ _ => True) (fetchBody T E.toConfig net) w := by
  have hlist : Safe T Alone (fun _ => True) (fun _ _ => True) (fun _ _ => True) (md5List E.toConfig net) w :=
    (Safe.of_all (P := fun _ => False) (M := fun _ => True) (fun _ h => h.elim) (fun _ _ _ h => h)
      (all_md5List fun _ _ => trivial) trivial).mono (fun _ h => h) (fun _ _ h => h) fun _ _ _ => trivial
  refine safe_bind (hlist.mono (fun _ h => h) (fun list v _ => ?_) fun _ _ h => h)
  let J : List String → World Label → Prop := fun rest v =>
    ∃ done, E.modules = done ++ rest ∧ Supplied E.toConfig done v
  have hloop : Safe T Alone (fun _ => True) (fun _ => J []) (fun _ _ => True)
      (forEach (fetchModule T E.toConfig net list) E.modules) v := by
    refine safe_forEach J (fun rest v hv v' hv' => ?_) (fun m rest v hv => ?_) _ ⟨[], rfl, .inr (by simp)⟩
    · rw [alone_iff.1 hv']
      exact ⟨trivial, hv⟩
    · obtain ⟨done, heq, hs⟩ := hv
      have hall : ∀ x ∈ done ++ m :: rest, x ∈ E.modules := fun x hx => heq ▸ hx
      refine (safe_fetchModule hO (hall m (by simp)) (fun x hx => hall x (List.mem_append_left _ hx)) hs).mono
        (fun _ h => h) (fun _ v hv => ⟨done ++ [m], by simp [heq], hv⟩) fun _ _ h => h
  refine hloop.mono (fun _ h => h) (fun _ v hv => ?_) fun _ _ h => h
  obtain ⟨done, heq, hs⟩ := hv
  rw [heq, List.append_nil]
  exact hs

end turn

/-! ### The stamp of qt5 -/

section stamp
variable {T : Tools} {E : Env} {net : Net} {reset : Bool} {w w' : World Label}

/-- When qt5 was passed over, every module had its tree. -/
def SkipsStocked (T : Tools) (E : Env) (log : Log) : Prop :=
  Orderly T E.toConfig → Crowded log ∨
    ∀ fs l, .mark (.skipped .qt5 fs) :: l <:+ log → Stocked E.toConfig fs

theorem SkipsStocked.append {evs log : Log} (h : SkipsStocked T E log)
    (he : ∀ e ∈ evs, ∀ fs, e ≠ .mark (.skipped .qt5 fs)) : SkipsStocked T E (evs ++ log) := fun hO =>
  (h hO).imp (fun h => h.append) fun h fs l hl => h fs l (suffix_of_append he hl)

/-- The stamp of qt5 is sound, and what is stamped has its trees. -/
structure Sourced (T : Tools) (E : Env) (w : World Label) : Prop extends Sound E .qt5 w where
  stock : Orderly T E.toConfig → Crowded w.log ∨ (stamped E.toConfig w.fs .qt5 = true → Stocked E.toConfig w.fs)
  stocked : SkipsStocked T E w.log

theorem noSkip_of_framed {q : Path} (h : Framed q (NotOf .qt5) w w') :
    ∃ evs, w'.log = evs ++ w.log ∧ ∀ e ∈ evs, ∀ fs, e ≠ .mark (.skipped .qt5 fs) := by
  obtain ⟨evs, hl, he⟩ := h.log
  exact ⟨evs, hl, fun e hm => ne_skipped_of_off (he e hm)⟩

theorem stocked_of_same {fs fs' : Fs} (h : Stocked E.toConfig fs)
    (hsame : ∀ r, E.stageDir .qt5 <+: r → fs'.get r = fs.get r) : Stocked E.toConfig fs' := by
  intro m hm
  obtain ⟨x, hx, hget⟩ := h m hm
  refine ⟨x, hx, (hsame _ ?_).trans hget⟩
  rw [qtSrc, List.append_assoc]
  exact List.prefix_append _ _

theorem stamped_of_same {fs fs' : Fs} (hsame : ∀ r, E.stageDir .qt5 <+: r → fs'.get r = fs.get r) :
    stamped E.toConfig fs' .qt5 = stamped E.toConfig fs .qt5 := by
  simp only [stamped, Fs.isDir, Fs.isFile, hsame _ (List.prefix_refl _), hsame _ Env.stageDir_lock]

theorem Sourced.framed (h : Sourced T E w) (hf : Framed (E.stageDir .qt5) (NotOf .qt5) w w') : Sourced T E w' := by
  obtain ⟨evs, hl, he⟩ := noSkip_of_framed hf
  refine ⟨h.toSound.framed hf, fun hO => (h.stock hO).imp (fun h => ?_) fun h hst => ?_, ?_⟩
  · rw [hl]; exact h.append
  · rw [stamped_of_same hf.same] at hst
    exact stocked_of_same (h hst) hf.same
  · rw [hl]; exact h.stocked.append he

/-- `p` keeps the stamp of qt5 when it ends. -/
def Upholds (T : Tools) (E : Env) (p : Script Unit) : Prop :=
  ∀ w, Sourced T E w → Safe T Alone (fun _ => True) (fun _ => Sourced T E) (fun _ => Sourced T E) p w

theorem Upholds.bind {p : Script Unit} {f : Unit → Script Unit} (hp : Upholds T E p) (hf : Upholds T E (f ())) :
    Upholds T E (p >>= f) :=
  fun w hw => safe_bind ((hp w hw).mono (fun _ h => h) (fun _ v h => hf v h) fun _ _ h => h)

theorem Upholds.of_all {A : Area} {p : Script Unit} (hp : p.All (Cmd.Within A) (NotOf .qt5))
    (hA : A.Off (E.stageDir .qt5)) : Upholds T E p := fun _ hw =>
  (safe_frame hp hA).mono (fun _ _ => trivial) (fun _ _ h => hw.framed h) fun _ _ h => hw.framed h.2

theorem upholds_of_stage {s : Stage} {p : Script Unit} (hs : s ≠ .qt5)
    (hp : p.All (Cmd.Within (E.stepArea s)) (NotOf .qt5)) : Upholds T E p := .of_all hp (Env.stepArea_off hs)

theorem upholds_printLog {kind : LogKind} {text : String} : Upholds T E (printLog kind text) :=
  .of_all (A := ⟨fun _ => False, fun _ => False⟩) (all_printLog fun _ => notOf_of_none)
    ⟨fun _ h => h.elim, fun _ h => h.elim⟩

/-! ### do_fetch -/

/-- The directory is there, the lock can be written. -/
structure Opened (T : Tools) (E : Env) (w : World Label) : Prop where
  clear : ∀ q, q <+: E.stageDir .qt5 → w.fs.get q = none ∨ w.fs.get q = some .dir
  lockFree : w.fs.get (E.lock .qt5) ≠ some .dir
  skips : Skips E .qt5 w.log
  stocked : SkipsStocked T E w.log

theorem Sourced.opened (h : Sourced T E w) : Opened T E w := ⟨h.clear, h.lockFree, h.skips, h.stocked⟩

theorem Opened.mkdirP {x : String} (h : Opened T E w) (hx : x ≠ "lock") :
    (w.fs.mkdirP (E.stageDir .qt5 ++ [x])).get (E.stageDir .qt5) = some .dir ∧
      Opened T E ⟨w.fs.mkdirP (E.stageDir .qt5 ++ [x]),
        (Cmd.mkdirP (E.stageDir .qt5 ++ [x])).events w.fs 0 ++ w.log⟩ := by
  have hlock : (w.fs.mkdirP (E.stageDir .qt5 ++ [x])).get (E.lock .qt5) = w.fs.get (E.lock .qt5) :=
    Fs.get_mkdirP_of_not (Apart.child hx).2
  have hno : ∀ e ∈ (Cmd.mkdirP (E.stageDir .qt5 ++ [x]) : Cmd Label).events w.fs 0, ∀ fs, e ≠ .mark (.skipped .qt5 fs) := by
    intro e he fs
    simp only [Cmd.events] at he
    split at he
    · rw [List.mem_singleton.1 he]; simp
    · cases he
  refine ⟨?_, fun q hq => ?_, by rw [hlock]; exact h.lockFree, h.skips.append hno, h.stocked.append hno⟩
  · rcases h.clear _ (List.prefix_refl _) with h0 | h0
    · -- nothing is in the way of a directory that is not there
      have hdir : (w.fs.mkdirP (E.stageDir .qt5 ++ [x])).get (E.stageDir .qt5 ++ [x]) = some .dir := by
        refine Fs.isDir_mkdirP fun q hq => ?_
        rcases List.prefix_concat_iff.1 hq with rfl | hq
        · exact .inl (Fs.get_eq_none_below h0 (List.prefix_append _ _))
        · exact h.clear q hq
      exact Fs.get_append [x] (by simp [hdir]) (by simp)
    · exact Fs.get_mkdirP_of_some h0
  · show (w.fs.mkdirP (E.stageDir .qt5 ++ [x])).get q = none ∨ _
    rcases @Fs.get_mkdirP w.fs (E.stageDir .qt5 ++ [x]) q with h0 | h0
    · rw [h0]; exact h.clear q hq
    · exact .inr h0.2.1

/-- The lock is there, and every skip so far was one of stocked sources. -/
structure LockedSource (T : Tools) (E : Env) (w : World Label) : Prop extends Locked E .qt5 w where
  stocked : SkipsStocked T E w.log

theorem LockedSource.sourced (h : LockedSource T E w) : Sourced T E w := by
  refine ⟨h.toLocked.sound, fun _ => .inr fun hst => ?_, h.stocked⟩
  rw [stamped_iff, h.lock] at hst
  exact absurd hst.2 (by simp)

theorem LockedSource.framed {M : Label → Prop} (h : LockedSource T E w) (hM : ∀ fs, ¬ M (.skipped .qt5 fs))
    (hf : Framed (E.lock .qt5) M w w') : LockedSource T E w' := by
  obtain ⟨evs, hl, he⟩ := hf.log
  refine ⟨h.toLocked.framed hM hf, ?_⟩
  rw [hl]
  refine h.stocked.append fun e hm fs hfs => ?_
  have := he e hm
  rw [hfs] at this
  exact hM fs this

theorem safe_unlock_same : Safe T Alone (fun _ => True)
    (fun _ v => (∀ r, r ≠ E.lock .qt5 → v.fs.get r = w.fs.get r) ∧
      ∃ evs, v.log = evs ++ w.log ∧ ∀ e ∈ evs, ∀ fs, e ≠ .mark (.skipped .qt5 fs)) (fun _ _ => False)
    (unlock E.toConfig .qt5) w := by
  refine safe_bind (safe_world.2 ⟨trivial, ?_⟩)
  unfold ifThen
  split
  · rename_i hlock
    rw [safe_rmF, if_pos hlock, Cmd.events, if_pos hlock]
    refine ⟨trivial, trivial, fun r hr => ?_, [.removed (E.lock .qt5)], rfl, by simp⟩
    show (w.fs.erase (E.lock .qt5)).get r = _
    rw [Fs.get_erase lock_ne_nil, if_neg fun h => hr h.1]
  · exact safe_pure.2 ⟨trivial, fun _ _ => rfl, [], rfl, by simp⟩

theorem safe_unlock_sourced (h : LockedSource T E w) (hi : Intact E .qt5 w.log)
    (hs : Orderly T E.toConfig → Supplied E.toConfig E.modules w) : Safe T Alone (fun _ => True)
      (fun _ v => Sourced T E v ∧ v.fs.get (E.stageDir .qt5) = some .dir) (fun _ => Sourced T E)
      (unlock E.toConfig .qt5) w := by
  obtain ⟨c, hc⟩ := Fs.isFile_iff.1 h.lock
  have hdir : w.fs.get (E.stageDir .qt5) = some .dir := Fs.get_append ["lock"] (by
    show w.fs.get (E.lock .qt5) ≠ none
    simp [hc]) (by simp)
  refine ((safe_unlock h.toLocked hi).and safe_unlock_same).mono (fun _ _ => trivial) ?_ fun _ _ h => h.2.elim
  rintro _ v ⟨hsound, hsame, evs, hl, he⟩
  have hne : E.stageDir .qt5 ≠ E.lock .qt5 := lock_ne_of_above (List.prefix_refl _)
  refine ⟨⟨hsound, fun hO => (hs hO).imp (fun h => ?_) fun h _ m hm => ?_, ?_⟩, (hsame _ hne).trans hdir⟩
  · rw [hl]; exact h.append
  · obtain ⟨x, hx, hget⟩ := h m hm
    refine ⟨x, hx, (hsame _ fun heq => ?_).trans hget⟩
    have := congrArg List.length heq
    simp [qtSrc, Config.lock] at this
  · rw [hl]; exact h.stocked.append he

/-- The body of `do_fetch`, the lock being there. -/
theorem safe_lockedFetch (h : LockedSource T E w) : Safe T Alone (fun _ => True)
    (fun _ v => Sourced T E v ∧ v.fs.get (E.stageDir .qt5) = some .dir) (fun _ => Sourced T E)
    (lockedBody E.toConfig .qt5 (fetchBody T E.toConfig net)) w := by
  have hM : ∀ fs, ¬ BodyLabel .qt5 (.skipped .qt5 fs) := by
    rintro fs (h | h) <;> cases h
  have hmark : ∀ v k, LockedSource T E v → (∀ fs, k ≠ .skipped .qt5 fs) →
      LockedSource T E ⟨v.fs, .mark k :: v.log⟩ := fun v k hv hk =>
    hv.framed (M := fun m => m = k) (fun fs h => hk fs h.symm) (.mark rfl)
  have hbody : ∀ v, LockedSource T E v → Safe T Alone (fun _ => True)
      (fun _ v => LockedSource T E v ∧ (Orderly T E.toConfig → Supplied E.toConfig E.modules v))
      (fun _ => LockedSource T E) (fetchBody T E.toConfig net) v := by
    intro v hv
    have hframe := @safe_frame _ _ T (E.lock .qt5) (BodyLabel .qt5) v (E.bodyArea .qt5) (fetchBody T E.toConfig net)
      (all_fetchBody fun _ => .inl) Env.bodyArea_off
    by_cases hO : Orderly T E.toConfig
    · exact (hframe.and (safe_fetchBody hO)).mono (fun _ _ => trivial) (fun _ _ h => ⟨hv.framed hM h.1, fun _ => h.2⟩)
        fun _ _ h => hv.framed hM h.1.2
    · exact hframe.mono (fun _ _ => trivial) (fun _ _ h => ⟨hv.framed hM h, fun h => absurd h hO⟩)
        fun _ _ h => hv.framed hM h.2
  refine safe_bind (safe_note.2 ⟨trivial, trivial, ?_⟩)
  refine safe_bind ((hbody _ (hmark w _ h (by simp))).mono (fun _ h => h) ?_ fun _ _ h => h.sourced)
  rintro _ v ⟨hv, hs⟩
  refine safe_bind (safe_note.2 ⟨trivial, trivial, safe_unlock_sourced (hmark v _ hv (by simp)) ?_ fun hO => (hs hO).mark⟩)
  exact ⟨[], v.log, rfl, by simp, by simp⟩

theorem safe_fetchEnter (h : Sourced T E w) : Safe T Alone (fun _ => True)
    (fun _ v => Sourced T E v ∧ v.fs.get (E.stageDir .qt5) = some .dir) (fun _ => Sourced T E)
    (fetchEnter T E.toConfig net) w := by
  obtain ⟨-, h1⟩ := h.opened.mkdirP (x := "src") (by decide)
  obtain ⟨hdir, h2⟩ := h1.mkdirP (x := "work") (by decide)
  refine safe_bind (safe_mkdirP.2 ⟨trivial, trivial, safe_bind (safe_mkdirP.2 ⟨trivial, trivial, ?_⟩)⟩)
  refine safe_bind (safe_write trivial fun n _ => ⟨trivial, safe_lockedFetch ⟨?_, ?_⟩⟩)
  · exact locked_of_dir h2.clear hdir h2.lockFree h2.skips
  · refine h2.stocked.append fun e he fs => ?_
    simp only [Cmd.events] at he
    split at he
    · rw [List.mem_singleton.1 he]; simp
    · cases he

theorem safe_skip_sourced (h : Sourced T E w) (hst : stamped E.toConfig w.fs .qt5 = true) :
    Safe T Alone (fun _ => True) (fun _ v => Sourced T E v ∧ v.fs.get (E.stageDir .qt5) = some .dir)
      (fun _ => Sourced T E) (skip .qt5 w.fs) w := by
  have hmarks : Safe T Alone (fun _ => True) (fun _ v => v.fs = w.fs ∧
      v.log = .mark (.say .normal "(ignore)") :: .mark (.skipped .qt5 w.fs) :: w.log) (fun _ _ => False)
      (skip .qt5 w.fs) w :=
    safe_bind (safe_note.2 ⟨trivial, trivial, safe_note.2 ⟨trivial, trivial, rfl, rfl⟩⟩)
  refine ((safe_skip h.toSound hst).and hmarks).mono (fun _ _ => trivial) ?_ fun _ _ h => h.2.elim
  rintro _ ⟨fs, log⟩ ⟨hsound, rfl, hl⟩
  obtain rfl : log = _ := hl
  have hcrowd : Crowded w.log → Crowded (.mark (.say .normal "(ignore)") :: .mark (.skipped .qt5 w.fs) :: w.log) :=
    fun ⟨srcs, dest, n, hm, hn⟩ => ⟨srcs, dest, n, by simp [hm], hn⟩
  refine ⟨⟨hsound, fun hO => (h.stock hO).imp_left hcrowd, fun hO => ?_⟩, (stamped_iff.1 hst).1⟩
  rcases h.stock hO with hc | hs
  · exact .inl (hcrowd hc)
  refine (h.stocked hO).imp hcrowd fun hsk fs l hl => ?_
  rcases List.suffix_cons_iff.1 (suffix_of_cons (by simp) hl) with hl | hl
  · cases hl
    exact hs hst
  · exact hsk fs l hl

/-- `do_fetch` keeps the stamp, and leaves the directory of qt5. -/
theorem safe_invokeFetch (h : Sourced T E w) : Safe T Alone (fun _ => True)
    (fun _ v => Sourced T E v ∧ v.fs.get (E.stageDir .qt5) = some .dir) (fun _ => Sourced T E)
    (invokeFetch T E.toConfig net reset) w := by
  have hbuild : Upholds T E (run_ (.mkdirP E.buildDir)) :=
    .of_all (A := ⟨fun _ => False, fun p => p = E.buildDir⟩) (Prog.all_run_.2 (.inr rfl))
      ⟨fun _ h => h.elim, fun p hp => hp ▸ Env.not_stageDir_buildDir⟩
  refine safe_bind ((upholds_printLog w h).mono (fun _ h => h) (fun _ v h => ?_) fun _ _ h => h)
  refine safe_bind ((hbuild v h).mono (fun _ h => h) (fun _ v h => ?_) fun _ _ h => h)
  refine safe_bind (safe_world.2 ⟨trivial, safe_ite (fun hst => ?_) fun _ => safe_fetchEnter h⟩)
  rw [Bool.and_eq_true] at hst
  exact safe_skip_sourced h hst.2

/-! ### do_configure and do_compile -/

/-- The command removes nothing and works neither on the lock nor on an entry of `qt5/src` itself. -/
def Builds (E : Env) (c : Cmd Label) : Prop :=
  c.Within (E.bodyArea .qt5) ∧ (∀ x, Fs.covers c.roots (qtSrc E.toConfig ++ [x]) = false) ∧
    match c with
    | .rmF _ | .rmRf _ => False
    | _ => True

/-- From `w` to `v` no tree of `qt5/src` has gone and nothing was removed. -/
structure TreesKept (E : Env) (w v : World Label) : Prop where
  trees : ∀ x, w.fs.get (qtSrc E.toConfig ++ [x]) = some .dir → v.fs.get (qtSrc E.toConfig ++ [x]) = some .dir
  log : ∃ evs, v.log = evs ++ w.log ∧ ∀ r, .removed r ∉ evs

theorem Builds.preserves {c : Cmd Label} (hc : Builds E c) : c.Preserves T (TreesKept E w) := by
  obtain ⟨-, hcov, hkind⟩ := hc
  refine ⟨fun v v' h hm => ?_, fun v n v' h hf => ?_⟩
  · obtain ⟨fs', log'⟩ := v'
    obtain ⟨evs', hm, hl'⟩ := hm
    obtain ⟨evs, hl, he⟩ := h.log
    refine ⟨fun x hx => ?_, evs' ++ evs, hl'.trans (by rw [hl, List.append_assoc]), fun r hr => ?_⟩
    · rcases hm.get (q := qtSrc E.toConfig ++ [x]) with hsame | hc
      · exact hsame.trans (h.trees x hx)
      · rw [hcov] at hc; cases hc
    · rcases List.mem_append.1 hr with hr | hr
      · cases hm with
        | rmRf => exact hkind
        | _ => cases hr
      · exact he r hr
  · obtain ⟨hf, hl'⟩ := hf
    obtain ⟨evs, hl, he⟩ := h.log
    refine ⟨fun x hx => ?_, c.events v.fs n ++ evs, by simp [hl, hl'], fun r hr => ?_⟩
    · rcases hf.get (q := qtSrc E.toConfig ++ [x]) with hsame | hc | ⟨-, -, -, -, hdir⟩
      · rw [hsame]; exact h.trees x hx
      · rw [hcov] at hc; cases hc
      · exact hdir
    · rcases List.mem_append.1 hr with hr | hr
      · have hroot := Cmd.mem_removed hf hr
        cases c with
        | rmF p => exact hkind
        | rmRf ps => exact hkind
        | mkdirP p => cases hroot
        | write p s => simp only [Cmd.events] at hr; split at hr <;> simp at hr
        | mv a b => simp only [Cmd.events] at hr; split at hr <;> simp at hr
        | tar as dest => simp only [Cmd.events] at hr; split at hr <;> simp at hr
        | patch dirs text => simp [Cmd.events] at hr
        | cp job src dst => simp [Cmd.events] at hr
        | ext job foot makes => simp [Cmd.events] at hr
      · exact he r hr

theorem Sourced.built {v : World Label} (h : Sourced T E w) (hdir : w.fs.get (E.stageDir .qt5) = some .dir)
    (hf : Framed (E.lock .qt5) (fun m => m.stage = none) w v) (hb : TreesKept E w v) :
    Sourced T E v ∧ v.fs.get (E.stageDir .qt5) = some .dir := by
  obtain ⟨evs, hl, he⟩ := hf.log
  obtain ⟨evs', hl', hno⟩ := hb.log
  obtain rfl : evs' = evs := List.append_cancel_right (hl'.symm.trans hl)
  have hmark : ∀ e ∈ evs', ∀ k, e = .mark k → k.stage = none := by
    rintro e hm k rfl
    exact he _ hm
  have hskip : ∀ e ∈ evs', ∀ fs, e ≠ .mark (.skipped .qt5 fs) := fun e hm fs heq => by
    cases hmark e hm _ heq
  have hdir' : v.fs.get (E.stageDir .qt5) = some .dir := by
    rcases hf.above _ Env.stageDir_lock with h0 | h0
    · rw [h0, hdir]
    · exact h0.2
  have hlock := hf.same _ (List.prefix_refl _)
  have hst : stamped E.toConfig v.fs .qt5 = true → stamped E.toConfig w.fs .qt5 = true := fun hst => by
    rw [stamped_iff, Fs.isFile, hlock] at hst
    exact stamped_iff.2 ⟨hdir, hst.2⟩
  refine ⟨⟨⟨⟨fun q hq => ?_, by rw [hlock]; exact h.lockFree, fun hst' => ?_⟩, ?_⟩, fun hO => ?_, ?_⟩, hdir'⟩
  · rcases hf.above q (hq.trans Env.stageDir_lock) with h0 | h0
    · rw [h0]; exact h.clear q hq
    · exact .inr h0.2
  · rw [hl]
    exact (h.stamp (hst hst')).append (fun hm => by cases hmark _ hm _ rfl) fun r hr => absurd hr (hno r)
  · rw [hl]; exact h.skips.append hskip
  · refine (h.stock hO).imp (fun h => by rw [hl]; exact h.append) fun hs hst' m hm => ?_
    obtain ⟨x, hx, hget⟩ := hs (hst hst') m hm
    exact ⟨x, hx, hb.trees x hget⟩
  · rw [hl]; exact h.stocked.append hskip

theorem safe_builds {p : Script Unit} (hp : p.All (Builds E) fun m => m.stage = none) (h : Sourced T E w)
    (hdir : w.fs.get (E.stageDir .qt5) = some .dir) : Safe T Alone (fun _ => True)
      (fun _ v => Sourced T E v ∧ v.fs.get (E.stageDir .qt5) = some .dir) (fun _ => Sourced T E) p w := by
  have hframe := @safe_frame _ _ T (E.lock .qt5) (fun m => m.stage = none) w (E.bodyArea .qt5) p
    (hp.mono (fun _ h => h.1) fun _ h => h) Env.bodyArea_off
  have hbuilt : Safe T Alone (TreesKept E w) (fun _ => TreesKept E w) (fun n v => n ≠ 0 ∧ TreesKept E w v) p w := by
    refine Safe.of_all (fun _ hc => hc.preserves) (fun m v _ hv => ⟨hv.trees, ?_⟩) hp ⟨fun _ h => h, [], rfl, by simp⟩
    obtain ⟨evs, hl, he⟩ := hv.log
    exact ⟨.mark m :: evs, by simp [hl], fun r hr => by simp [he r] at hr⟩
  exact (hframe.and hbuilt).mono (fun _ _ => trivial) (fun _ _ hv => h.built hdir hv.1 hv.2)
    fun _ _ hv => (h.built hdir hv.1.2 hv.2.2).1

/-- A command that is not above the entries of `qt5/src` and removes nothing. -/
def KeepsTrees (E : Env) (c : Cmd Label) : Prop :=
  (∀ r ∈ c.roots, ∀ x, ¬ r <+: qtSrc E.toConfig ++ [x]) ∧
    match c with
    | .rmF _ | .rmRf _ => False
    | _ => True

theorem builds_of_all {p : Script Unit} (hw : p.All (Cmd.Within (E.bodyArea .qt5)) fun m => m.stage = none)
    (hc : p.All (KeepsTrees E) fun _ => True) : p.All (Builds E) fun m => m.stage = none := by
  refine (hw.and hc).mono (fun c h => ⟨h.1, fun x => Bool.eq_false_iff.2 fun hcov => ?_, h.2.2⟩) fun _ h => h.1
  obtain ⟨r, hr, hrx⟩ := Fs.covers_iff.1 hcov
  exact h.2.1 r hr x hrx

theorem not_sdk_above {r : Path} (hr : E.sdkDir <+: r) (x : String) : ¬ r <+: qtSrc E.toConfig ++ [x] := fun h => by
  have hout : Apart E.sdkDir (E.stageDir .qt5) := E.outside_apart .qt5 _ (by simp [Config.outside])
  refine (hout.symm.below ?_).2 (hr.trans h)
  rw [qtSrc, List.append_assoc]
  exact List.prefix_append _ _

theorem not_work_above {m x : String} : ¬ qtWork E.toConfig m <+: qtSrc E.toConfig ++ [x] := fun h => by
  have heq := h.eq_of_length (by simp [qtWork, qtSrc])
  simp [qtWork, qtSrc] at heq

section all
open Prog

theorem keepsTrees_mkdirP {p : Path} : KeepsTrees E (.mkdirP p) := ⟨by simp [Cmd.roots], trivial⟩

theorem keepsTrees_ext {job : Label} {foot makes : List Path} (h : ∀ r ∈ foot, ∀ x, ¬ r <+: qtSrc E.toConfig ++ [x]) :
    KeepsTrees E (.ext job foot makes) := ⟨h, trivial⟩

theorem builds_doConfigure : (doConfigure E.toConfig).All (Builds E) fun m => m.stage = none := by
  refine builds_of_all (all_doConfigure fun _ h => h) ?_
  refine All.bind (all_run_.2 keepsTrees_mkdirP) fun _ => All.bind (all_run_.2 keepsTrees_mkdirP) fun _ => ?_
  refine All.bind (all_run_.2 keepsTrees_mkdirP) fun _ => All.bind (all_world.2 trivial) fun w => ?_
  refine All.bind (all_ifThen fun _ => all_run_.2 (keepsTrees_ext fun r hr x h => ?_)) fun _ => ?_
  · obtain ⟨y, -, rfl⟩ := List.mem_map.1 hr
    have := h.length_le
    simp at this
  · refine All.bind (all_run_.2 keepsTrees_mkdirP) fun _ => All.bind (all_run.2 (keepsTrees_ext ?_)) fun _ =>
      all_orError fun _ _ => trivial
    intro r hr x
    rw [List.mem_singleton.1 hr]
    exact not_work_above

theorem keepsTrees_makeCmd {m : String} {job : Job} : KeepsTrees E (makeCmd E.toConfig (qtWork E.toConfig m) job) := by
  refine keepsTrees_ext fun r hr x => ?_
  simp only [List.mem_cons, List.not_mem_nil, or_false] at hr
  rcases hr with rfl | rfl
  · exact not_work_above
  · exact not_sdk_above (List.prefix_refl _) x

theorem keepsTrees_makeChecked {title m : String} {job : Job} :
    (makeChecked E.toConfig title (qtWork E.toConfig m) job).All (KeepsTrees E) fun _ => True :=
  All.bind (all_note.2 trivial) fun _ => All.bind (all_run.2 keepsTrees_makeCmd) fun _ => all_orError fun _ _ => trivial

theorem builds_doCompile : (doCompile E.toConfig reset).All (Builds E) fun m => m.stage = none := by
  refine builds_of_all (all_doCompile fun _ h => h) ?_
  refine All.bind (all_run_.2 keepsTrees_mkdirP) fun _ => All.bind (all_ifThen fun _ => keepsTrees_makeChecked) fun _ => ?_
  refine All.bind keepsTrees_makeChecked fun _ => All.bind keepsTrees_makeChecked fun _ => ?_
  refine All.bind (all_run_.2 keepsTrees_mkdirP) fun _ => All.bind (all_run_.2 ⟨fun r hr x => ?_, trivial⟩) fun _ => ?_
  · rw [List.mem_singleton.1 hr]
    refine not_sdk_above ?_ x
    simp [Config.hostPrefix]
  refine All.bind (all_forEach fun m _ => ?_) fun _ => ?_
  · refine All.bind (all_note.2 trivial) fun _ => All.bind (all_run_.2 keepsTrees_mkdirP) fun _ => ?_
    refine All.bind (all_run.2 (keepsTrees_ext fun r hr x => ?_)) fun _ => All.bind (all_orError fun _ _ => trivial) fun _ => ?_
    · rw [List.mem_singleton.1 hr]
      exact not_work_above
    · refine All.bind (all_ifThen fun _ => keepsTrees_makeChecked) fun _ => ?_
      exact All.bind keepsTrees_makeChecked fun _ => keepsTrees_makeChecked
  · refine All.bind (all_note.2 trivial) fun _ => all_ite (fun _ => ?_) fun _ => all_note.2 trivial
    refine all_forEach fun m _ => all_forEach fun kind _ => All.bind (all_note.2 trivial) fun _ => ?_
    refine All.bind (all_run_.2 keepsTrees_makeCmd) fun _ => All.bind (all_run.2 keepsTrees_makeCmd) fun _ => ?_
    exact all_ifThen fun _ => all_note.2 trivial

end all

theorem safe_invokeConfigure (h : Sourced T E w) (hdir : w.fs.get (E.stageDir .qt5) = some .dir) :
    Safe T Alone (fun _ => True) (fun _ v => Sourced T E v ∧ v.fs.get (E.stageDir .qt5) = some .dir)
      (fun _ => Sourced T E) (invokeConfigure E.toConfig) w :=
  safe_builds (Prog.All.bind (Prog.all_note.2 rfl) fun _ => builds_doConfigure) h hdir

theorem safe_invokeCompile (h : Sourced T E w) (hdir : w.fs.get (E.stageDir .qt5) = some .dir) :
    Safe T Alone (fun _ => True) (fun _ v => Sourced T E v ∧ v.fs.get (E.stageDir .qt5) = some .dir)
      (fun _ => Sourced T E) (invokeCompile E.toConfig reset) w :=
  safe_builds (Prog.All.bind (Prog.all_note.2 rfl) fun _ => builds_doCompile) h hdir

/-! ### do_compile without a qt5 directory -/

/-- From `w` to `v` the directory of qt5 has not come into being. -/
structure StillAbsent (E : Env) (w v : World Label) : Prop where
  absent : v.fs.get (E.stageDir .qt5) = none
  clear : ∀ q, q <+: E.stageDir .qt5 → v.fs.get q = none ∨ v.fs.get q = some .dir
  log : ∃ evs, v.log = evs ++ w.log ∧ ∀ e ∈ evs, ∀ fs, e ≠ .mark (.skipped .qt5 fs)

theorem Sourced.stillAbsent {v : World Label} (h : Sourced T E w) (ha : StillAbsent E w v) : Sourced T E v := by
  obtain ⟨evs, hl, he⟩ := ha.log
  have hst : stamped E.toConfig v.fs .qt5 ≠ true := fun hst => by
    rw [stamped_iff, ha.absent] at hst
    cases hst.1
  refine ⟨⟨⟨ha.clear, ?_, fun h => absurd h hst⟩, ?_⟩, fun _ => .inr fun h => absurd h hst, ?_⟩
  · rw [Fs.get_eq_none_below ha.absent Env.stageDir_lock]; simp
  · rw [hl]; exact h.skips.append he
  · rw [hl]; exact h.stocked.append he

/-- `make` and the first `mkdir -p` of `do_compile` do not make it. -/
theorem StillAbsent.preserves {c : Cmd Label} (hmk : ∀ p, c = .mkdirP p → ¬ E.stageDir .qt5 <+: p)
    (hroots : ∀ r ∈ c.roots, ¬ r <+: E.stageDir .qt5) : c.Preserves T (StillAbsent E w) := by
  have hcov : ∀ q, q <+: E.stageDir .qt5 → Fs.covers c.roots q = false := fun q hq =>
    Bool.eq_false_iff.2 fun hc => by
      obtain ⟨r, hr, hrq⟩ := Fs.covers_iff.1 hc
      exact hroots r hr (hrq.trans hq)
  refine ⟨fun v v' h hm => ?_, fun v n v' h hf => ?_⟩
  · obtain ⟨evs', hm, hl'⟩ := hm
    obtain ⟨evs, hl, he⟩ := h.log
    have hsame : ∀ q, q <+: E.stageDir .qt5 → v'.fs.get q = v.fs.get q := fun q hq => by
      rcases hm.get (q := q) with hs | hs
      · exact hs
      · rw [hcov q hq] at hs; cases hs
    refine ⟨(hsame _ (List.prefix_refl _)).trans h.absent, fun q hq => by rw [hsame q hq]; exact h.clear q hq,
      evs' ++ evs, by simp [hl, hl'], fun e hmem fs => ?_⟩
    rcases List.mem_append.1 hmem with hmem | hmem
    · obtain ⟨r, rfl, -⟩ := hm.events hmem
      simp
    · exact he e hmem fs
  · obtain ⟨hf, hl'⟩ := hf
    obtain ⟨evs, hl, he⟩ := h.log
    have hsame : ∀ q, q <+: E.stageDir .qt5 → v'.fs.get q = v.fs.get q ∨
        q ≠ E.stageDir .qt5 ∧ v'.fs.get q = some .dir := fun q hq => by
      rcases hf.get (q := q) with hs | hs | ⟨p, rfl, hqp, -, hdir⟩
      · exact .inl hs
      · rw [hcov q hq] at hs; cases hs
      · refine .inr ⟨?_, hdir⟩
        rintro rfl
        exact hmk p rfl hqp
    refine ⟨?_, fun q hq => ?_, c.events v.fs n ++ evs, by simp [hl, hl'], fun e hmem fs => ?_⟩
    · rcases hsame _ (List.prefix_refl _) with hs | hs
      · rw [hs]; exact h.absent
      · exact absurd rfl hs.1
    · rcases hsame q hq with hs | hs
      · rw [hs]; exact h.clear q hq
      · exact .inr hs.2
    · rcases List.mem_append.1 hmem with hmem | hmem
      · exact fun heq => Cmd.mark_notMem_events (heq ▸ hmem)
      · exact he e hmem fs

theorem StillAbsent.mark {k : Label} {v : World Label} (h : StillAbsent E w v) (hk : ∀ fs, k ≠ .skipped .qt5 fs) :
    StillAbsent E w ⟨v.fs, .mark k :: v.log⟩ := by
  obtain ⟨evs, hl, he⟩ := h.log
  refine ⟨h.absent, h.clear, .mark k :: evs, by simp [hl], fun e hm fs => ?_⟩
  rcases List.mem_cons.1 hm with rfl | hm
  · simpa using hk fs
  · exact he e hm fs

/-- `make -C` fails in a directory that is not there. -/
theorem safe_makeChecked_absent {title m : String} {job : Job} {v : World Label} (h : StillAbsent E w v) :
    Safe T Alone (fun _ => True) (fun _ _ => False) (fun _ => StillAbsent E w)
      (makeChecked E.toConfig title (qtWork E.toConfig m) job) v := by
  have hpres : (makeCmd E.toConfig (qtWork E.toConfig m) job).Preserves T (StillAbsent E w) := by
    refine StillAbsent.preserves (by simp [makeCmd]) fun r hr hpre => ?_
    simp only [makeCmd, Cmd.roots, List.mem_cons, List.not_mem_nil, or_false] at hr
    rcases hr with rfl | rfl
    · have := hpre.length_le
      simp [qtWork] at this
    · exact (E.outside_apart .qt5 E.sdkDir (by simp [Config.outside])).1 hpre
  refine safe_bind (safe_note.2 ⟨trivial, trivial, ?_⟩)
  refine safe_bind (safe_busy (StillAbsent E w) (h.mark (by simp)) (fun _ _ => trivial) hpres.1
    fun x n x' hx hf => safe_pure.2 ⟨trivial, ?_⟩)
  have hx' := hpres.2 x n x' hx hf
  refine safe_orError trivial (fun hn => ?_) fun _ _ => ⟨trivial, hx'.mark (by simp)⟩
  have hmade := hf.1.2 hn (qtWork E.toConfig m) (by simp)
  have hdir : x'.fs.get (E.stageDir .qt5) = some .dir := Fs.get_append ["work", m] (by
    show x'.fs.get (qtWork E.toConfig m) ≠ none
    simp [hmade]) (by simp)
  rw [hx'.absent] at hdir
  cases hdir

theorem safe_compile_absent (h : Sourced T E w) (hnone : w.fs.get (E.stageDir .qt5) = none) :
    Safe T Alone (fun _ => True) (fun _ _ => False) (fun _ => StillAbsent E w) (invokeCompile E.toConfig reset) w := by
  have h0 : StillAbsent E w w := ⟨hnone, h.clear, [], rfl, by simp⟩
  have hpres : (Cmd.mkdirP E.buildDir).Preserves T (StillAbsent E w) :=
    StillAbsent.preserves (fun p hp => by cases hp; exact Env.not_stageDir_buildDir) (by simp [Cmd.roots])
  refine safe_bind (safe_note.2 ⟨trivial, trivial, ?_⟩)
  refine safe_bind (safe_mkdirP.2 ⟨trivial, trivial, ?_⟩)
  have h1 : StillAbsent E w ⟨w.fs.mkdirP E.buildDir, (Cmd.mkdirP E.buildDir).events w.fs 0 ++
      .mark (.say .function (upper "compile")) :: w.log⟩ :=
    hpres.2 _ 0 _ (h0.mark (by simp)) ⟨⟨rfl, rfl⟩, rfl⟩
  unfold ifThen
  split
  · exact safe_bind ((safe_makeChecked_absent h1).mono (fun _ h => h) (fun _ _ h => h.elim) fun _ _ h => h)
  · refine safe_bind (safe_pure.2 ⟨trivial, ?_⟩)
    exact safe_bind ((safe_makeChecked_absent h1).mono (fun _ h => h) (fun _ _ h => h.elim) fun _ _ h => h)

theorem upholds_invokeCompile : Upholds T E (invokeCompile E.toConfig reset) := by
  intro w hw
  rcases hw.clear _ (List.prefix_refl _) with h0 | h0
  · exact (safe_compile_absent hw h0).mono (fun _ h => h) (fun _ _ h => h.elim) fun _ _ h => hw.stillAbsent h
  · exact (safe_invokeCompile hw h0).mono (fun _ h => h) (fun _ _ h => h.1) fun _ _ h => h

/-! ### Histories -/

variable {P : Platform E}

theorem Sourced.thinned (h : Sourced T E w) (ht : Thinned (E.stageDir .qt5) (NotOf .qt5) w w')
    (hn : ¬ Torn E .qt5 w w') : Sourced T E w' := by
  obtain ⟨evs, hl, hg, he⟩ := ht.log
  refine ⟨h.toSound.thinned ht hn, fun hO => (h.stock hO).imp (fun h => by rw [hl]; exact h.append) fun hs hst => ?_, ?_⟩
  · have hsame : ∀ r, E.stageDir .qt5 <+: r → w'.fs.get r = w.fs.get r := by
      intro r hr
      rcases hg r hr with h0 | h0
      · exact h0
      · exact absurd ⟨hst, evs, hl, r, h0.2, hr⟩ hn
    rw [stamped_of_same hsame] at hst
    exact stocked_of_same (hs hst) hsame
  · rw [hl]
    refine h.stocked.append fun e hm fs => ?_
    rcases he e hm with h0 | ⟨r, rfl⟩
    · exact ne_skipped_of_off h0 fs
    · simp

theorem upholds_doThirdparty : Upholds T E (doThirdparty T E.toConfig net reset (P.scripts net)) := by
  have hcmake : Stage.cmake ≠ .qt5 := by decide
  have hpkg : (installPkgconfig E.toConfig net).All (Cmd.Within (E.stepArea .cmake)) (NotOf .qt5) :=
    all_installPkgconfig (fun _ => notOf_of_none) fun _ => .inl
  refine upholds_printLog.bind ((upholds_of_stage hcmake hpkg).bind (Upholds.bind ?_ ?_))
  · exact upholds_of_stage hcmake (all_installCmake fun _ => notOf_of_or hcmake)
  · exact upholds_of_stage (s := .thirdparty) (by decide) (all_shellBuild (fun _ => notOf_of_or (by decide)) (P.proper net _))

theorem upholds_shellBuild {s : Stage} {normal : Bool} (hs : s ≠ .qt5) :
    Upholds T E (shellBuild E.toConfig reset s normal (P.scripts net s)) :=
  upholds_of_stage hs (all_shellBuild (fun _ => notOf_of_or hs) (P.proper net _))

theorem upholds_invokeDeploy : Upholds T E (invokeDeploy T E.toConfig) :=
  upholds_printLog.bind (upholds_of_stage (s := .vendor) (by decide)
    (stepArea_of_body (all_doDeploy fun _ => notOf_of_none)))

/-- An invocation other than a `clean`, and other than a `configure` without a qt5 directory. -/
theorem upholds_dispatch {t : BuildType} (ht : t ≠ .clean ∧ t ≠ .cleanall) (h : Sourced T E w)
    (hconf : t = .configure → w.fs.get (E.stageDir .qt5) ≠ none) : Safe T Alone (fun _ => True)
      (fun _ => Sourced T E) (fun _ => Sourced T E) (dispatch T E.toConfig net (P.scripts net) t) w := by
  have htool : ∀ reset, Upholds T E (doToolchain E.toConfig reset (P.scripts net)) := fun reset =>
    upholds_printLog.bind (upholds_shellBuild (by decide))
  have hvendor : ∀ reset, Upholds T E (doVendor E.toConfig reset (P.scripts net)) := fun reset =>
    upholds_printLog.bind (upholds_shellBuild (by decide))
  cases t with
  | all =>
    refine safe_bind ((htool false w h).mono (fun _ h => h) (fun _ v h => ?_) fun _ _ h => h)
    refine safe_bind ((upholds_doThirdparty v h).mono (fun _ h => h) (fun _ v h => ?_) fun _ _ h => h)
    refine safe_bind ((safe_invokeFetch h).mono (fun _ h => h) (fun _ v h => ?_) fun _ _ h => h)
    refine safe_bind ((safe_invokeConfigure h.1 h.2).mono (fun _ h => h) (fun _ v h => ?_) fun _ _ h => h)
    exact upholds_invokeCompile.bind ((hvendor false).bind upholds_invokeDeploy) v h.1
  | toolchain => exact htool true w h
  | thirdparty => exact upholds_doThirdparty w h
  | fetch => exact (safe_invokeFetch h).mono (fun _ h => h) (fun _ _ h => h.1) fun _ _ h => h
  | configure =>
    have hdir := (h.clear _ (List.prefix_refl _)).resolve_left (hconf rfl)
    exact (safe_invokeConfigure h hdir).mono (fun _ h => h) (fun _ _ h => h.1) fun _ _ h => h
  | compile => exact upholds_invokeCompile w h
  | vendor => exact hvendor true w h
  | deploy => exact upholds_invokeDeploy w h
  | clean => exact absurd rfl ht.1
  | cleanall => exact absurd rfl ht.2

/-- One invocation of a history, which completes or aborts: no `configure` without a qt5 directory, and no `clean` that
leaves one torn. -/
def SourcedRun (T : Tools) (P : Platform E) (w w' : World Label) : Prop :=
  ∃ t n, Invoked T P t w (.exit n) w' ∧ (t = .configure → w.fs.get (E.stageDir .qt5) ≠ none) ∧
    (t = .clean ∨ t = .cleanall → ¬ Torn E .qt5 w w')

theorem SourcedRun.sourced (h : Sourced T E w) (hr : SourcedRun T P w w') : Sourced T E w' := by
  obtain ⟨t, n, ⟨net, hr⟩, hconf, htorn⟩ := hr
  by_cases ht : t = .clean ∨ t = .cleanall
  · exact h.thinned ((safe_clean ht).reach hr).of_exit (htorn ht)
  rw [not_or] at ht
  have hmark : Sourced T E ⟨w.fs, .mark (.invoked t) :: w.log⟩ := h.framed (.mark (notOf_of_none rfl))
  have hmain : Safe T Alone (fun _ => True) (fun _ => Sourced T E) (fun _ => Sourced T E)
      (main T E.toConfig net (P.scripts net) t) w := by
    refine safe_bind (safe_note.2 ⟨trivial, trivial, ?_⟩)
    refine safe_bind ((upholds_dispatch ht hmark hconf).mono (fun _ h => h) (fun _ v h => ?_) fun _ _ h => h)
    exact safe_bind ((upholds_printLog v h).mono (fun _ h => h) (fun _ v h => safe_exit.2 ⟨trivial, h⟩) fun _ _ h => h)
  exact (hmain.reach hr).of_exit

theorem Fresh.sourced (h : Fresh E w) : Sourced T E w := by
  refine ⟨h.sound, fun _ => .inr fun hst => ?_, fun _ => .inr fun fs l hl => ?_⟩
  · rw [stamped_iff, h.absent] at hst
    cases hst.1
  · rw [h.log] at hl
    cases List.suffix_nil.1 hl

theorem Sourced.history (h : Sourced T E w) (hist : ReflTransGen (SourcedRun T P) w w') : Sourced T E w' := by
  induction hist with
  | refl => exact h
  | tail _ hr ih => exact hr.sourced ih

end stamp

/-- An archive unpacks to a directory of its own name. -/
def ownTop : Tools := { Tools.sample with unpack := fun a _ => ⟨a, Fs.empty, true⟩ }

def qtbaseMain (t : BuildType) : Script Unit :=
  main ownTop qtbaseEnv.toConfig (qtNet "good  qtbase-src.tar.xz") (fun _ => none) t

def qtbaseStart : World Label := qtStart "qtbase-src.tar.xz" "good"

theorem qtbaseStart_fresh : Fresh qtbaseEnv qtbaseStart := fresh_of_check (by decide +kernel)

theorem orderly_qtbase : Orderly ownTop qtbaseEnv.toConfig := by
  have hmod : qtbaseEnv.modules = ["qtbase"] := by decide +kernel
  refine ⟨by rw [hmod]; decide +kernel, fun m _ a c hb => dash_iff.2 ?_⟩
  simp only [between, Bool.and_eq_true, decide_eq_true_eq] at hb
  exact hb.1

/-- No `rsync` was run. -/
def noRsync (log : Log) : Bool :=
  log.all fun e => match e with
    | .ran (.job (.rsync _ _)) _ => false
    | _ => true

theorem not_crowded_of_noRsync {log : Log} (h : noRsync log = true) : ¬ Crowded log := by
  rintro ⟨srcs, dest, n, hm, -⟩
  cases List.all_eq_true.1 h _ hm

end BuildQt5
