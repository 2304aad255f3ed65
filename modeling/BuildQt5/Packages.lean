import BuildQt5.Download
import BuildQt5.Invocation
import BuildQt5.Shell.Guard
import BuildQt5.Stamps

/-!
# What is downloaded, moved and unpacked

The life of a package, seen from the commands that touch it. `wget` writes beside the file, and for a package
with an MD5 in the scripts, or without a network, it is run only when the file is not there. `mv` gives a
download its name directly after the `wget` that succeeded. What is unpacked is an archive of a Qt module, a
generator that comes with the sources, or a package whose MD5 is the one in the scripts. All this holds at
every such command of every invocation (`packages_verified`), wherever the run was stopped before.
-/

namespace BuildQt5
open Shell
open Prog (world run run_ note ifThen forEach Tidy tidy_world tidy_note tidy_run tidy_run_ tidy_ite tidy_ifThen)

/-- The archives a command unpacks. -/
def unpacks : Cmd Label → List Path
  | .tar archives _ => archives
  | .ext (.job (.unzip file _)) _ _ => [file]
  | _ => []

/-- The packages with an MD5 in the scripts of the platforms. -/
def archives (E : Config) (ndk : Ndk) : List (Path × String) :=
  (E.downloadDir ++ ["toolchain", ndk.ndkName ++ "-linux-x86_64.zip"], "b99a69907ca29e8181852645328b6004") ::
    packages.map fun x => (thirdpartyDownloads E ++ [x.2.2], x.2.1)

/-- What is at `path` has this MD5. -/
def Genuine (T : Tools) (path : Path) (num : String) (fs : Fs) : Prop := ∀ c, fs.content path = some c → T.md5 c = num

/-- There is no file to be replaced at `path`, when there is no network or the file is one with an MD5. -/
def Vacant (E : Config) (ndk : Ndk) (path : Path) (fs : Fs) : Prop :=
  E.noNetwork = true ∨ (∃ num, (path, num) ∈ archives E ndk) → fs.content path = none

/-- What holds at the command `c`. -/
structure Careful (T : Tools) (E : Config) (ndk : Ndk) (c : Cmd Label) (w : World Label) : Prop where
  wget : ∀ url out foot makes, c = .ext (.job (.wget url out)) foot makes →
    ∃ dir name, out = cachePath dir name ∧ Vacant E ndk (dir ++ [name]) w.fs
  mv : ∀ src dst, c = .mv src dst → ∃ dir name url log, src = cachePath dir name ∧ dst = dir ++ [name] ∧
    Vacant E ndk dst w.fs ∧ w.log = .ran (.job (.wget url src)) 0 :: log
  unpack : ∀ f ∈ unpacks c, (∃ x, f = qtDownloads E ++ [x]) ∨ (∃ g, f = E.sourceDir ++ [g, g ++ "*.zip"]) ∨
    ∃ num, (f, num) ∈ archives E ndk ∧ Genuine T f num w.fs

section careful
variable {α : Type} {T : Tools} {E : Config} {net : Net} {ndk : Ndk} {w : World Label} {url name num : String}
  {dir path : Path}

theorem careful_of_routine (c : Cmd Label) (w : World Label) (h : Routine c) : Careful T E ndk c w := by
  refine ⟨?_, ?_, ?_⟩
  · rintro url out foot makes rfl
    exact h.elim
  · rintro src dst rfl
    exact h.elim
  · intro f hf
    unfold unpacks at hf
    split at hf
    · exact h.elim
    · exact h.elim
    · cases hf

theorem guarded_of_plain {p : Script α} (h : Plain p) : Guarded T (Careful T E ndk) (fun _ _ => True) p w :=
  guarded_of_tidy careful_of_routine h

/-! ### fetch_download -/

theorem vacant_of_content (h : w.fs.content path = none) : Vacant E ndk path w.fs := fun _ => h

theorem content_of_isFile {fs : Fs} (h : ¬ fs.isFile path = true) : fs.content path = none := by
  by_contra hne
  obtain ⟨c, hc⟩ := Option.ne_none_iff_exists'.1 hne
  exact h (isFile_of_content hc)

theorem covers_cache : Fs.covers [cachePath dir name] (dir ++ [name]) = false := by
  by_contra h
  obtain ⟨r, hr, hp⟩ := Fs.covers_iff.1 (by simpa using h)
  obtain rfl := List.mem_singleton.1 hr
  exact path_ne_cache (hp.eq_of_length (by simp)).symm

/-- `wget` writes beside the file. -/
theorem preserves_vacant {u : String} :
    (Cmd.ext (.job (.wget u (cachePath dir name))) [cachePath dir name] [] : Cmd Label).Preserves T fun v =>
      Vacant E ndk (dir ++ [name]) v.fs := by
  have hout : Fs.covers (Cmd.ext (.job (.wget u (cachePath dir name))) [cachePath dir name] [] : Cmd Label).roots
      (dir ++ [name]) = false := covers_cache
  have hkeep : ∀ v v' : World Label, v'.fs.get (dir ++ [name]) = v.fs.get (dir ++ [name]) →
      Vacant E ndk (dir ++ [name]) v.fs → Vacant E ndk (dir ++ [name]) v'.fs := by
    intro v v' he hv h
    rw [Fs.content, he]
    exact hv h
  exact ⟨fun v v' hv hm => hkeep v v' ((preserves_get hout (by simp)).1 v v' rfl hm) hv,
    fun v n v' hv hf => hkeep v v' ((preserves_get hout (by simp)).2 v n v' rfl hf) hv⟩

theorem guarded_wgetRetry {u : String} (hw : Vacant E ndk (dir ++ [name]) w.fs) (n : Nat) :
    Guarded T (Careful T E ndk) (fun ok v => Vacant E ndk (dir ++ [name]) v.fs ∧
      (ok = true → ∃ log, v.log = .ran (.job (.wget u (cachePath dir name))) 0 :: log))
      (wgetRetry u (cachePath dir name) n) w := by
  induction n generalizing w with
  | zero => exact ⟨hw, fun h => by cases h⟩
  | succ n ih =>
    refine guarded_bind ((guarded_run (fun v => Vacant E ndk (dir ++ [name]) v.fs) hw preserves_vacant.1 ?_).mono ?_)
    · refine fun v hv => ⟨?_, by simp, by simp [unpacks]⟩
      rintro url out foot makes he
      cases he
      exact ⟨dir, name, rfl, hv⟩
    · rintro code v' ⟨v, hv, hf⟩
      have hv' := preserves_vacant.2 v code v' hv hf
      have hlog : v'.log = .ran (.job (.wget u (cachePath dir name))) code :: v.log := hf.2
      split
      · rename_i h0
        exact ⟨hv', fun _ => ⟨v.log, by rw [hlog, h0]⟩⟩
      · exact ih hv'

theorem guarded_download {type : Digest} (hw : Vacant E ndk (dir ++ [name]) w.fs) :
    Guarded T (Careful T E ndk) (fun _ _ => True) (download T E net url dir name num type) w := by
  have hnote : Safe T Alone (fun v => v.fs = w.fs) (fun _ v => v.fs = w.fs) (fun n v => n ≠ 0 ∧ v.fs = w.fs)
      (ifThen (fetchUrl E net url dir).2 (printLog .normal "(internal url not exist, ignore)")) w :=
    Safe.of_all (P := fun _ => False) (M := fun _ => True) (fun _ h => h.elim) (fun _ _ _ h => h)
      (Prog.all_ifThen fun _ => all_printLog_of fun _ _ => trivial) rfl
  refine guarded_bind (((guarded_of_plain (tidy_ifThen fun _ => plain_normal)).and hnote).mono ?_)
  rintro _ v ⟨-, hv⟩
  -- the three lines that follow change no file but to make the directory
  have hmk : Vacant E ndk (dir ++ [name]) (v.fs.mkdirP dir) := by
    intro h
    rw [Fs.content_mkdirP, hv]
    exact hw h
  have hdir : Safe T Alone (fun _ => True) (fun _ u => Vacant E ndk (dir ++ [name]) u.fs) (fun _ _ => True)
      (run_ (.mkdirP dir)) ⟨v.fs, .mark (.say .normal (fetchUrl E net url dir).1) ::
        .mark (.say .normal "Downloading...") :: v.log⟩ := safe_mkdirP.2 ⟨trivial, trivial, hmk⟩
  have hplain : Plain (run_ (.mkdirP dir)) := tidy_run_.2 trivial
  refine guarded_bind (guarded_note.2 (guarded_bind (guarded_note.2 ?_)))
  refine guarded_bind (((guarded_of_plain hplain).and hdir).mono ?_)
  rintro _ u ⟨-, hu⟩
  refine guarded_bind ((guarded_wgetRetry hu 10).mono ?_)
  rintro ok u' ⟨hu', hok⟩
  refine guarded_ite (fun h => ?_) fun _ => trivial
  refine guarded_bind (guarded_world.2 (guarded_ite (fun _ => ?_) fun _ => trivial))
  obtain ⟨log, hlog⟩ := hok h
  have hatomic : (Cmd.mv (cachePath dir name) (dir ++ [name]) : Cmd Label).Atomic := trivial
  refine guarded_bind ((guarded_run (· = u') rfl (fun _ _ _ hm => ?_) ?_).mono fun code v' _ => ?_)
  · obtain ⟨evs, hm, -⟩ := hm
    exact (hatomic.not_mid hm).elim
  · rintro _ rfl
    refine ⟨by simp, ?_, by simp [unpacks]⟩
    rintro src dst he
    cases he
    exact ⟨dir, name, _, log, rfl, rfl, hu', hlog⟩
  · refine guarded_of_plain (tidy_ite (fun _ => tidy_ite (fun _ => trivial) fun _ => ?_) fun _ => trivial)
    exact tidy_fetchVerify

theorem guarded_fetchDownload (hA : num = "" → ∀ x, (dir ++ [basename url], x) ∉ archives E ndk) :
    Guarded T (Careful T E ndk) (fun _ _ => True) (fetchDownload T E net url dir "" num .md5) w := by
  rw [fetchDownload_eq]
  refine guarded_bind (guarded_world.2 (guarded_ite (fun _ => ?_) fun h => ?_))
  · unfold refetch verifyOrRemove
    by_cases hnum : num = ""
    · rw [if_pos hnum]
      refine guarded_ite (fun _ => trivial) fun hno => guarded_download ?_
      rintro (h | ⟨x, hx⟩)
      · exact absurd h hno
      · exact absurd hx (hA hnum x)
    · rw [if_neg hnum]
      refine guarded_bind (guarded_bind ((guarded_of_plain tidy_fetchVerify).mono fun code v _ => ?_))
      refine guarded_ite (fun _ => trivial) fun _ => ?_
      have hplain : Plain (run_ (.rmF (dir ++ [basename url]))) := tidy_run_.2 trivial
      have hrm : Safe T Alone (fun _ => True) (fun _ u => u.fs.content (dir ++ [basename url]) = none) (fun _ _ => True)
          (run_ (.rmF (dir ++ [basename url]))) v := safe_rmF.2 ⟨trivial, trivial, Fs.content_rmF⟩
      refine guarded_bind (((guarded_of_plain hplain).and hrm).mono ?_)
      rintro _ u ⟨-, hu⟩
      exact guarded_ite (fun _ => trivial) fun _ => guarded_ite (fun _ => trivial) fun _ =>
        guarded_download (vacant_of_content hu)
  · exact guarded_download (vacant_of_content (content_of_isFile h))

/-- When `fetch_download` returns 0 nothing with another MD5 is at the place of the file. -/
theorem safe_fetch_genuine (hnum : num ≠ "") : Safe T Alone (fun _ => True)
    (fun n v => n = 0 → Genuine T (dir ++ [basename url]) num v.fs) (fun _ _ => True)
    (fetchDownload T E net url dir "" num .md5) w := by
  have hdownload : ∀ v : World Label, Safe T Alone (fun _ => True)
      (fun n v => n = 0 → Genuine T (dir ++ [basename url]) num v.fs) (fun _ _ => True)
      (download T E net url dir (basename url) num .md5) v := by
    intro v
    refine safe_download.mono (fun _ h => h) (fun n u hu hn c hc => ?_) fun _ _ h => h
    obtain ⟨-, c', hc', hreal⟩ := hu hn
    obtain rfl := Option.some.inj (hc'.symm.trans hc)
    exact (hreal hnum).symm
  rw [fetchDownload_eq]
  refine safe_bind (safe_world.2 ⟨trivial, safe_ite (fun hf => ?_) fun _ => hdownload w⟩)
  unfold refetch verifyOrRemove
  rw [if_neg hnum]
  refine safe_bind (safe_bind (safe_fetchVerify.mono (fun _ _ => trivial) ?_ fun _ _ _ => trivial))
  rintro n v ⟨⟨hfs, -⟩, rfl⟩
  by_cases hreal : num = realNum T (dir ++ [fetchName url ""]) .md5 (w.fs.content (dir ++ [fetchName url ""]))
  · rw [if_pos hreal, if_pos rfl]
    refine safe_pure.2 ⟨trivial, safe_pure.2 ⟨trivial, fun _ c hc => ?_⟩⟩
    rw [hfs] at hc
    rw [hreal]
    exact (congrArg (realNum T _ .md5) hc).symm
  · rw [if_neg hreal, if_neg Nat.one_ne_zero]
    refine safe_bind (safe_rmF.2 ⟨trivial, trivial, safe_pure.2 ⟨trivial, safe_ite (fun _ => ?_) fun _ => ?_⟩⟩)
    · cases ‹false = true›
    · refine safe_ite (fun _ => ?_) fun _ => hdownload _
      -- without a network the bad file is gone, and that is what counts
      refine safe_bind (safe_note.2 ⟨trivial, trivial, safe_pure.2 ⟨trivial, fun _ c hc => ?_⟩⟩)
      have hgone := @Fs.content_rmF v.fs (dir ++ [basename url])
      exact absurd (hgone.symm.trans hc) (by simp)

/-! ### From the download to the unpacking -/

theorem guarded_orError {code : Nat} :
    Guarded T (Careful T E ndk) (fun _ v => code = 0 ∧ v = w) (orError code) w :=
  guarded_ite (fun h => ⟨h, rfl⟩) fun _ => trivial

theorem Genuine.framed {M : Label → Prop} {v : World Label} (h : Genuine T path num w.fs) (hf : Framed path M w v) :
    Genuine T path num v.fs := fun c hc => h c (hf.content ▸ hc)

/-- A package that is fetched and unpacked, with nothing at its place in between. -/
theorem guarded_unpack {mid : Script Unit} {c : Cmd Label} (hnum : num ≠ "")
    (hA : (dir ++ [basename url], num) ∈ archives E ndk) (hmid : Plain mid)
    (hoff : mid.All (Cmd.Off (dir ++ [basename url])) fun _ => True) (hc : c.Off (dir ++ [basename url]))
    (hu : unpacks c = [dir ++ [basename url]]) : Guarded T (Careful T E ndk) (fun _ _ => True) (do
      let code ← fetchDownload T E net url dir "" num .md5
      orError code
      mid
      run c) w := by
  refine guarded_bind (((guarded_fetchDownload fun h => absurd h hnum).and (safe_fetch_genuine hnum)).mono ?_)
  rintro code v ⟨-, hv⟩
  refine guarded_bind (guarded_orError.mono ?_)
  rintro _ _ ⟨h0, rfl⟩
  refine guarded_bind (((guarded_of_plain hmid).and (safe_off hoff)).mono ?_)
  rintro _ u ⟨-, hframe⟩
  refine (guarded_run (fun v => Genuine T (dir ++ [basename url]) num v.fs) ((hv h0).framed hframe) ?_ ?_).mono
    fun _ _ _ => trivial
  · exact fun v v' hv hm => hv.framed (M := fun _ => True) (.mid hc hm)
  · refine fun v hv => ⟨?_, ?_, ?_⟩
    · rintro _ _ _ _ rfl
      cases hu
    · rintro _ _ rfl
      cases hu
    · intro f hf
      rw [hu, List.mem_singleton] at hf
      subst hf
      exact .inr (.inr ⟨num, hA, hv⟩)

theorem mem_archives {num : String} (h : (path, num) ∈ archives E ndk) :
    ∃ d x, (d = "toolchain" ∨ d = "3rdparty") ∧ path = E.downloadDir ++ [d, x] := by
  rcases List.mem_cons.1 h with h | h
  · cases h
    exact ⟨_, _, .inl rfl, rfl⟩
  · obtain ⟨y, -, hy⟩ := List.mem_map.1 h
    cases hy
    exact ⟨"3rdparty", y.2.2, .inr rfl, by simp [thirdpartyDownloads]⟩

/-- The other downloads are in directories of their own. -/
theorem notMem_archives {top : Path} {x : String} (d : String) (hd : d ≠ "toolchain" ∧ d ≠ "3rdparty") (num : String) :
    (top ++ [d, x], num) ∉ archives E ndk := by
  intro h
  obtain ⟨d', x', hd', he⟩ := mem_archives h
  obtain ⟨-, he⟩ := List.append_inj' he rfl
  obtain rfl : d = d' := (List.cons.inj he).1
  exact hd'.elim hd.1 hd.2

theorem guarded_extract {c : Cmd Label} (hw : ∀ url out foot makes, c ≠ .ext (.job (.wget url out)) foot makes)
    (hm : ∀ src dst, c ≠ .mv src dst)
    (hu : ∀ f ∈ unpacks c, (∃ x, f = qtDownloads E ++ [x]) ∨ ∃ g, f = E.sourceDir ++ [g, g ++ "*.zip"]) :
    Guarded T (Careful T E ndk) (fun _ _ => True) (run c) w := by
  have hcareful : ∀ v, Careful T E ndk c v := by
    refine fun v => ⟨?_, ?_, ?_⟩
    · exact fun _ _ _ _ h => absurd h (hw _ _ _ _)
    · exact fun _ _ h => absurd h (hm _ _)
    · exact fun f hf => (hu f hf).imp_right .inl
  refine (guarded_run (fun _ => True) trivial (fun _ _ _ _ => trivial) fun v _ => hcareful v).mono ?_
  exact fun _ _ _ => trivial

end careful

section procedures
variable {T : Tools} {E : Env} {net : Net} {ndk : Ndk}

theorem apart_download {s : Stage} {r r' : Path} : Apart (E.stageDir s ++ r) (E.downloadDir ++ r') := by
  have h : Apart E.downloadDir (E.stageDir s) := E.outside_apart s _ (by simp [Config.outside])
  exact (h.below (List.prefix_append _ _)).symm.below (List.prefix_append _ _)

theorem basename_packages : ∀ x ∈ packages, basename x.1 = x.2.2 := by decide +kernel

theorem basename_ndk (hslash : '/' ∉ ndk.ndkName.toList) :
    basename ("https://mirrors.cloud.tencent.com/AndroidSDK/" ++ (ndk.ndkName ++ "-linux-x86_64.zip")) =
      ndk.ndkName ++ "-linux-x86_64.zip" := by
  have hsplit : "https://mirrors.cloud.tencent.com/AndroidSDK/" =
      "https://mirrors.cloud.tencent.com/AndroidSDK" ++ "/" := rfl
  rw [hsplit]
  refine basename_slash (fun h => ?_) ?_
  · have := congrArg String.length h
    rw [String.length_append] at this
    exact absurd this (by simp)
  · rw [String.toList_append, List.mem_append]
    rintro (h | h)
    · exact hslash h
    · exact absurd h (by decide)

theorem guarded_package {title : String} {x : String × String × String} (hx : x ∈ packages) {mid : Script Unit}
    {c : Cmd Label} {w : World Label} (hmid : Plain mid)
    (hoff : mid.All (Cmd.Off (thirdpartyDownloads E.toConfig ++ [x.2.2])) fun _ => True)
    (hc : c.Off (thirdpartyDownloads E.toConfig ++ [x.2.2]))
    (hu : unpacks c = [thirdpartyDownloads E.toConfig ++ [x.2.2]]) :
    Guarded T (Careful T E.toConfig ndk) (fun _ _ => True) (do
      fetchChecked T E.toConfig net title x.1 x.2.1
      mid
      run c) w := by
  have hnum : ∀ x ∈ packages, x.2.1 ≠ "" := by decide
  have hA : (thirdpartyDownloads E.toConfig ++ [x.2.2], x.2.1) ∈ archives E.toConfig ndk :=
    List.mem_cons_of_mem _ (List.mem_map_of_mem hx)
  rw [← basename_packages x hx] at hoff hc hu hA
  simp only [fetchChecked, Prog.bind_assoc]
  exact guarded_bind (guarded_note.2 (guarded_unpack (hnum x hx) hA hmid hoff hc hu))

theorem procedures_guarded (hslash : '/' ∉ ndk.ndkName.toList) : Procedures T E.toConfig net ndk fun q => ∀ w,
    Guarded T (Careful T E.toConfig ndk) (fun _ _ => True) q w where
  cmake w := by
    refine guarded_fetchDownload fun _ num => ?_
    rw [Config.cmakeDownloads, List.append_assoc]
    show (E.currentDir ++ (["downloads"] ++ ["cmake", _]), num) ∉ _
    rw [← List.append_assoc]
    exact notMem_archives "cmake" (by decide) num
  ndk w := by
    have hsplit : unpackNdk T E.toConfig net ndk = (do
        let code ← fetchDownload T E.toConfig net
          ("https://mirrors.cloud.tencent.com/AndroidSDK/" ++ (ndk.ndkName ++ "-linux-x86_64.zip"))
          (E.downloadDir ++ ["toolchain"]) "" "b99a69907ca29e8181852645328b6004" .md5
        orError code
        (do
          printLog .title "decompress ndk"
          run_ (.mkdirP (E.stageDir .toolchain))
          removeOldNdk E.toConfig)
        run (.ext (.job (.unzip (E.downloadDir ++ ["toolchain"] ++ [ndk.ndkName ++ "-linux-x86_64.zip"])
          (E.stageDir .toolchain))) [E.stageDir .toolchain ++ [ndk.ndkName]] [])) := by
      simp only [unpackNdk, Prog.bind_assoc]
    rw [hsplit]
    have hpath : E.downloadDir ++ ["toolchain"] ++ [basename ("https://mirrors.cloud.tencent.com/AndroidSDK/" ++
        (ndk.ndkName ++ "-linux-x86_64.zip"))] =
          E.downloadDir ++ ["toolchain", ndk.ndkName ++ "-linux-x86_64.zip"] := by
      rw [basename_ndk hslash, List.append_assoc]
      rfl
    refine guarded_unpack (by decide) ?_ ?_ ?_ ?_ ?_
    · rw [hpath]
      exact List.mem_cons_self
    · exact plain_title.bind fun _ => Tidy.bind (tidy_run_.2 trivial) fun _ => plain_removeOldNdk
    · rw [hpath]
      refine Prog.All.bind (all_printLog_of fun _ _ => trivial) fun _ => Prog.All.bind (Prog.all_run_.2 ?_) fun _ => ?_
      · simpa [Cmd.Off] using (apart_download (E := E) (s := .toolchain) (r := [])).2
      · refine Prog.All.bind (Prog.all_world.2 trivial) fun v => ?_
        split
        · exact Prog.all_ifThen fun _ => Prog.all_run_.2 fun r hr => List.mem_singleton.1 hr ▸ apart_download
        · trivial
    · rw [hpath]
      exact fun r hr => List.mem_singleton.1 hr ▸ apart_download
    · rw [hpath]
      simp [unpacks]
  package x hx w := by
    have hnum : ∀ x ∈ packages, x.2.1 ≠ "" := by decide
    exact guarded_fetchDownload fun h => absurd h (hnum x hx)
  tarball title x hx w := by
    have hmid : Plain (pure () : Script Unit) := trivial
    refine guarded_package hx hmid trivial (fun r hr => ?_) rfl
    rw [List.mem_singleton.1 hr, thirdpartySrc, thirdpartyDownloads, List.append_assoc]
    exact apart_download
  protoc w := by
    have hapart : ∀ p, Apart (thirdpartySrc E.toConfig ++ ["protoc-host"])
        (thirdpartyDownloads E.toConfig ++ [p]) := fun p => by
      rw [thirdpartySrc, thirdpartyDownloads, List.append_assoc, List.append_assoc]
      exact apart_download
    have hsplit : unzipProtoc T E.toConfig net = (do
        fetchChecked T E.toConfig net "download protoc-host" packages[2].1 packages[2].2.1
        (do
          run_ (.mkdirP (thirdpartySrc E.toConfig ++ ["protoc-host"]))
          printLog .title "install protoc-host")
        run (.ext (.job (.unzip (thirdpartyDownloads E.toConfig ++ ["protoc-3.20.0-linux-x86_64.zip"])
          (thirdpartySrc E.toConfig ++ ["protoc-host"]))) [thirdpartySrc E.toConfig ++ ["protoc-host"]] [])) := by
      simp only [unzipProtoc, Prog.bind_assoc]
      rfl
    rw [hsplit]
    refine guarded_package (by decide) (Tidy.bind (tidy_run_.2 trivial) fun _ => plain_title) ?_ ?_ rfl
    · exact Prog.All.bind (Prog.all_run_.2 (hapart _).2) fun _ => all_printLog_of fun _ _ => trivial
    · exact fun r hr => List.mem_singleton.1 hr ▸ hapart _
  generator name work w := by
    refine guarded_extract (by simp) (by simp) fun f hf => .inr ⟨name, List.mem_singleton.1 hf⟩
  source list m w := by
    refine guarded_fetchDownload fun _ num => ?_
    rw [qtDownloads, List.append_assoc]
    exact notMem_archives "qt5" (by decide) num
  module fs m w := by
    refine guarded_extract (by simp) (by simp) fun f hf => .inl ?_
    exact mem_expand hf

end procedures

/-! ### The steps -/

section steps
variable {T : Tools} {E : Config} {net : Net} {ndk : Ndk} {reset : Bool}

/-- `p` runs no guarded command, whatever it prints. -/
abbrev Loud {α : Type} (p : Script α) : Prop := p.Tidy Routine (fun _ => True) failureLine 10

theorem loud_of_plain {α : Type} {p : Script α} (h : Plain p) : Loud p := h.mono (fun _ h => h) fun _ _ => trivial

theorem loud_headline {text : String} : Loud (printLog .function text) := tidy_note.2 trivial

theorem loud_doCompile : Loud (doCompile E reset) := by
  have hmake : ∀ title dir target, Loud (makeChecked E title dir (.makeTarget dir target)) := fun _ _ _ =>
    loud_of_plain (plain_makeChecked trivial)
  refine Tidy.bind (tidy_run_.2 trivial) fun _ => Tidy.bind (tidy_ifThen fun _ => hmake _ _ _) fun _ => ?_
  refine Tidy.bind (loud_of_plain (plain_makeChecked (by trivial))) fun _ => Tidy.bind (hmake _ _ _) fun _ => ?_
  refine Tidy.bind (tidy_run_.2 trivial) fun _ => Tidy.bind (tidy_run_.2 trivial) fun _ => ?_
  refine Tidy.bind (Prog.tidy_forEach fun m _ => loud_of_plain plain_compileModule) fun _ => ?_
  refine loud_headline.bind fun _ => ?_
  refine tidy_ite (fun _ => ?_) fun _ => loud_of_plain plain_normal
  exact Prog.tidy_forEach fun m _ => Prog.tidy_forEach fun kind _ => loud_of_plain plain_compileExtra

theorem loud_doClean : Loud (doClean E) :=
  Tidy.bind (tidy_run_.2 trivial) fun _ => loud_headline.bind fun _ => Tidy.bind (tidy_world.2 trivial) fun _ =>
    Prog.tidy_forEach fun _ _ => loud_of_plain plain_cleanOne

theorem loud_doCleanall : Loud (doCleanall E) :=
  Tidy.bind (tidy_run_.2 trivial) fun _ => loud_headline.bind fun _ => Tidy.bind (tidy_world.2 trivial) fun _ =>
    tidy_run_.2 trivial

end steps

section verified
variable {T : Tools} {E : Env} {net : Net} {ndk : Ndk} {hn : ndk.ndkName ≠ "lock"} {name : String}

theorem guarded_main (hslash : '/' ∉ ndk.ndkName.toList) (t : BuildType) (w : World Label) :
    Guarded T (Careful T E.toConfig ndk) (fun _ _ => True)
      (main T E.toConfig net ((shipped T E ndk hn name).scripts net) t) w := by
  have hD : Procedures T E.toConfig net ndk fun q => ∀ w,
      Guarded T (Careful T E.toConfig ndk) (fun _ _ => True) q w := procedures_guarded hslash
  have hcalls : ∀ {p : Script Unit} w, Calls _ p → Guarded T (Careful T E.toConfig ndk) (fun _ _ => True) p w :=
    fun w h => guarded_of_composed careful_of_routine h fun q hq => hq
  have hloud : ∀ {p : Script Unit} w, Loud p → Guarded T (Careful T E.toConfig ndk) (fun _ _ => True) p w :=
    fun w h => guarded_of_tidy careful_of_routine h
  have hpieces : Pieces T E.toConfig net ((shipped T E ndk hn name).scripts net) fun p => ∀ w,
      Guarded T (Careful T E.toConfig ndk) (fun _ _ => True) p w :=
    { bind := fun hp hq w => guarded_bind ((hp w).mono fun _ v _ => hq v)
      say := fun _ w => hloud w loud_headline
      pkgconfig := fun w => hloud w (loud_of_plain plain_installPkgconfig)
      cmake := fun _ w => hcalls w (calls_installCmake hD)
      stage := fun s _ _ _ _ w => hcalls w (calls_shellBuild fun b hb => calls_shipped hD hb)
      fetch := fun _ w => hcalls w (calls_doFetch hD)
      configure := fun w => hloud w (loud_of_plain plain_doConfigure)
      compile := fun _ w => hloud w loud_doCompile
      deploy := fun w => hloud w (loud_of_plain plain_doDeploy) }
  refine guarded_bind (guarded_note.2 (guarded_bind ?_))
  have hdispatch := hpieces.dispatch t (fun _ w => hloud w loud_doClean) fun _ w => hloud w loud_doCleanall
  exact (hdispatch _).mono fun _ v _ => guarded_bind (guarded_note.2 trivial)

/-- At every command of every invocation of a platform of the repository: a package with an MD5 is downloaded only
where it is missing, a download gets its name directly after a `wget` that succeeded, and what is unpacked is an
archive of Qt, a generator of the sources, or a package with the MD5 of the scripts. -/
theorem packages_verified (hslash : '/' ∉ ndk.ndkName.toList) {t : BuildType} {w w' : World Label} {c : Cmd Label}
    {k : Nat → Script Unit}
    (hr : Reach T Alone (main T E.toConfig net ((shipped T E ndk hn name).scripts net) t, w) (.cmd c k, w')) :
    Careful T E.toConfig ndk c w' := (guarded_main hslash t w).at_cmd hr

end verified

def ndkZip : Path := ["qt", "downloads", "toolchain", "android-ndk-r22b-linux-x86_64.zip"]

abbrev shippedNdk : Platform ndkEnv :=
  shipped Tools.sample ndkEnv ⟨"android-ndk-r22b", "", ""⟩ ndkName_ne_lock "qt5-android-ndk-ivi"

theorem ndk_unpacked : execAny Tools.sample (List.replicate 5 (.done 0))
    (main Tools.sample ndkEnv.toConfig Net.none (shippedNdk.scripts Net.none) .toolchain) ndkStart
    (fun p _ => p.isAt fun c => unpacks c = [ndkZip]) = true := by decide

/-- The package of the toolchain, about to be unpacked. -/
theorem packages_verified_ndk : ∃ (c : Cmd Label) (k : Nat → Script Unit) (w' : World Label),
    Reach Tools.sample Alone (main Tools.sample ndkEnv.toConfig Net.none (shippedNdk.scripts Net.none) .toolchain,
      ndkStart) (.cmd c k, w') ∧
    unpacks c = [ndkZip] ∧ Careful Tools.sample ndkEnv.toConfig ⟨"android-ndk-r22b", "", ""⟩ c w' := by
  obtain ⟨p, w', hr, hat⟩ := reach_of_execAny ndk_unpacked
  obtain ⟨c, k, rfl, hc⟩ := eq_cmd_of_isAt hat
  exact ⟨c, k, w', hr, of_decide_eq_true hc, packages_verified (by decide) hr⟩

end BuildQt5
