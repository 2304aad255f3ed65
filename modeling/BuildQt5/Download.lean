import BuildQt5.Scripts.Common
import BuildQt5.Shell.Eval

/-!
# fetch_verify and fetch_download

What the two functions of `common.sh` promise about a file. `fetch_verify` compares the number with what
the tools print, and for the two SHA types that is the digest and the file name; `fetch_download` returns
0 after it has removed a bad file when there is no network. Where neither happens, 0 means a good file
(`fetch_success_iff`), and a second call heals what the first one found or made (`fetch_heals`).
-/

namespace BuildQt5
open Shell
open Prog (world run run_ note ifThen forEach)

/-! ### Digests -/

section digests
variable (T : Tools)

def hexDigest : Digest → String → String
  | .md5 => T.md5
  | .sha1 => T.sha1
  | .sha256 => T.sha256

/-- What `sha1sum` and `sha256sum` print for a file of this name. -/
def sumLine (type : Digest) (name c : String) : String := hexDigest T type c ++ "  " ++ name

variable {T} {type : Digest} {name c : String} {path : Path}

theorem realNum_md5 : realNum T path .md5 (some c) = hexDigest T .md5 c := rfl

theorem realNum_of_ne (h : type ≠ .md5) : realNum T path type (some c) = sumLine T type (path.getLastD "") c := by
  cases type with
  | md5 => exact absurd rfl h
  | sha1 => rfl
  | sha256 => rfl

theorem sumLine_ne : sumLine T type name c ≠ hexDigest T type c := by
  intro h
  have hlen := congrArg String.length h
  simp only [sumLine, String.length_append] at hlen
  have : "  ".length = 2 := rfl
  omega

end digests

/-! ### fetch_verify -/

section verify
variable {T : Tools} {path : Path} {num : String} {type : Digest} {w : World Label}

theorem safe_fetchVerify : Safe T Alone (fun v => v.fs = w.fs ∧ ran v.log = ran w.log)
    (fun n v => (v.fs = w.fs ∧ ran v.log = ran w.log) ∧
      n = if num = realNum T path type (w.fs.content path) then 0 else 1) (fun _ _ => False)
    (fetchVerify T path num type) w := by
  refine safe_bind (safe_note.2 ⟨⟨rfl, rfl⟩, ⟨rfl, rfl⟩, safe_bind (safe_world.2 ⟨⟨rfl, rfl⟩, ?_⟩)⟩)
  refine safe_bind (safe_note.2 ⟨⟨rfl, rfl⟩, ⟨rfl, rfl⟩, safe_bind (safe_note.2 ⟨⟨rfl, rfl⟩, ⟨rfl, rfl⟩, ?_⟩)⟩)
  by_cases h : num = realNum T path type (w.fs.content path)
  · rw [if_neg (not_not.2 h), if_pos h]
    exact safe_bind (safe_note.2 ⟨⟨rfl, rfl⟩, ⟨rfl, rfl⟩, safe_pure.2 ⟨⟨rfl, rfl⟩, ⟨rfl, rfl⟩, rfl⟩⟩)
  · rw [if_pos h, if_neg h]
    exact safe_pure.2 ⟨⟨rfl, rfl⟩, ⟨rfl, rfl⟩, rfl⟩

theorem eval_fetchVerify (B : Behaviour Label) : ∃ log, (fetchVerify T path num type).eval B w =
    (.ok (if num = realNum T path type (w.fs.content path) then 0 else 1), ⟨w.fs, log⟩) ∧ ran log = ran w.log := by
  unfold fetchVerify echo
  rw [eval_note, eval_world, eval_note, eval_note]
  by_cases h : num = realNum T path type (w.fs.content path)
  · rw [if_neg (not_not.2 h), if_pos h]
    exact ⟨_, rfl, rfl⟩
  · rw [if_pos h, if_neg h]
    exact ⟨_, rfl, rfl⟩

theorem fetchVerify_returns : (∃ w', Reach T Alone (fetchVerify T path num type, w) (.pure 0, w')) ↔
    num = realNum T path type (w.fs.content path) := by
  constructor
  · rintro ⟨w', hr⟩
    have h0 := (safe_fetchVerify.reach hr).of_pure.2
    by_contra hne
    rw [if_neg hne] at h0
    cases h0
  · intro h
    obtain ⟨log, he, -⟩ := @eval_fetchVerify T path num type w sober
    rw [if_pos h] at he
    exact ⟨_, reach_of_eval sober_follows he⟩

theorem eval_verifyOrRemove {B : Behaviour Label} (hB : Follows T B) (hnum : num ≠ "") :
    ∃ log, (verifyOrRemove T path num type).eval B w =
      (if num = realNum T path type (w.fs.content path) then (.ok true, ⟨w.fs, log⟩)
        else (.ok false, ⟨if w.fs.isFile path then w.fs.erase path else w.fs, log⟩)) ∧ ran log = ran w.log := by
  obtain ⟨log, he, hl⟩ := @eval_fetchVerify T path num type w B
  have hrm := hB (.rmF path) w.fs
  unfold verifyOrRemove
  rw [if_neg hnum, eval_bind he]
  by_cases h : num = realNum T path type (w.fs.content path)
  · rw [if_pos h, if_pos rfl]
    exact ⟨log, (if_pos h).symm, hl⟩
  · rw [if_neg h, if_neg Nat.one_ne_zero, eval_run_, hrm.2]
    refine ⟨_, (if_neg h).symm, ?_⟩
    rw [ran_append, Cmd.ran_events]
    exact hl

end verify

/-! ### The file that is there -/

/-- The name of the target file. -/
def fetchName (url realname : String) : String := if realname = "" then basename url else realname

/-- `fetch_download` on a file that is there. -/
def refetch (T : Tools) (E : Config) (net : Net) (url : String) (dir : Path) (name num : String) (type : Digest) :
    Script Nat := do
  let good ← verifyOrRemove T (dir ++ [name]) num type
  if good then pure 0
  else if E.noNetwork then do
    printLog .normal "(no network, ignore)"
    pure 0
  else download T E net url dir name num type

theorem fetchDownload_eq (T : Tools) (E : Config) (net : Net) (url : String) (dir : Path) (realname num : String)
    (type : Digest) : fetchDownload T E net url dir realname num type = (do
      let w ← world
      if w.fs.isFile (dir ++ [fetchName url realname]) then
        refetch T E net url dir (fetchName url realname) num type
      else download T E net url dir (fetchName url realname) num type) := rfl

/-- `p` returns 0, having changed no file and started no program. -/
def Idles (T : Tools) (p : Script Nat) (w : World Label) : Prop :=
  (∃ w', Reach T Alone (p, w) (.pure 0, w')) ∧
    ∀ p' w', Reach T Alone (p, w) (p', w') → w'.fs = w.fs ∧ ran w'.log = ran w.log ∧ ∀ n, p' = .pure n → n = 0

section present
variable {T : Tools} {E : Config} {net : Net} {url realname num c : String} {dir : Path} {type : Digest}
  {w : World Label}

theorem isFile_of_content {fs : Fs} {path : Path} (h : fs.content path = some c) : fs.isFile path = true :=
  Fs.isFile_iff.2 ⟨c, Fs.content_eq_some.1 h⟩

theorem eval_fetch_good {B : Behaviour Label} (hB : Follows T B)
    (hc : w.fs.content (dir ++ [fetchName url realname]) = some c) (hnum : num ≠ "")
    (h : num = realNum T (dir ++ [fetchName url realname]) type (some c)) : ∃ log,
      (fetchDownload T E net url dir realname num type).eval B w = (.ok 0, ⟨w.fs, log⟩) ∧ ran log = ran w.log := by
  obtain ⟨log, he, hl⟩ := @eval_verifyOrRemove T (dir ++ [fetchName url realname]) num type w B hB hnum
  rw [hc, if_pos h] at he
  refine ⟨log, ?_, hl⟩
  rw [fetchDownload_eq, eval_world, if_pos (isFile_of_content hc), refetch, eval_bind he]
  rfl

theorem safe_fetch_good (hc : w.fs.content (dir ++ [fetchName url realname]) = some c) (hnum : num ≠ "")
    (h : num = realNum T (dir ++ [fetchName url realname]) type (some c)) :
    Safe T Alone (fun v => v.fs = w.fs ∧ ran v.log = ran w.log)
      (fun n v => (v.fs = w.fs ∧ ran v.log = ran w.log) ∧ n = 0) (fun _ _ => False)
      (fetchDownload T E net url dir realname num type) w := by
  rw [fetchDownload_eq]
  refine safe_bind (safe_world.2 ⟨⟨rfl, rfl⟩, ?_⟩)
  rw [if_pos (isFile_of_content hc), refetch, verifyOrRemove, if_neg hnum]
  refine safe_bind (safe_bind (safe_fetchVerify.mono (fun _ h => h) ?_ fun _ _ h => h))
  rintro n v ⟨hv, rfl⟩
  rw [hc, if_pos h, if_pos rfl]
  exact safe_pure.2 ⟨hv, safe_pure.2 ⟨hv, hv, rfl⟩⟩

/-- A file with the right number is left alone. -/
theorem idles_of_good (hc : w.fs.content (dir ++ [fetchName url realname]) = some c) (hnum : num ≠ "")
    (h : num = realNum T (dir ++ [fetchName url realname]) type (some c)) :
    Idles T (fetchDownload T E net url dir realname num type) w := by
  refine ⟨?_, fun p' w' hr => ?_⟩
  · obtain ⟨log, he, -⟩ := eval_fetch_good sober_follows hc hnum h
    exact ⟨_, reach_of_eval sober_follows he⟩
  · have hs := (safe_fetch_good hc hnum h).reach hr
    refine ⟨hs.inv.1, hs.inv.2, ?_⟩
    rintro n rfl
    exact hs.of_pure.2

/-- A file with another number is removed. -/
theorem not_idles_of_bad (hc : w.fs.content (dir ++ [fetchName url realname]) = some c) (hnum : num ≠ "")
    (h : num ≠ realNum T (dir ++ [fetchName url realname]) type (some c)) :
    ¬ Idles T (fetchDownload T E net url dir realname num type) w := by
  rintro ⟨-, hall⟩
  rw [← hc] at h
  obtain ⟨log, he, -⟩ := @eval_verifyOrRemove T (dir ++ [fetchName url realname]) num type w sober sober_follows hnum
  rw [if_neg h] at he
  have hr : Reach T Alone (refetch T E net url dir (fetchName url realname) num type, w) _ :=
    (reach_of_eval sober_follows he).bind _
  have hlook : Step T Alone (fetchDownload T E net url dir realname num type, w)
      (if w.fs.isFile (dir ++ [fetchName url realname]) then
        refetch T E net url dir (fetchName url realname) num type
      else download T E net url dir (fetchName url realname) num type, w) := .look
  rw [if_pos (isFile_of_content hc)] at hlook
  have hsame := (hall _ _ (.head hlook hr)).1
  have hgone := @Fs.content_rmF w.fs (dir ++ [fetchName url realname])
  simp only at hsame
  rw [hsame, hc] at hgone
  cases hgone

end present

/-- A downloaded file and nothing else. -/
def fetchedFs (c : String) : Fs := (Fs.empty.mkdirP ["downloads"]).write ["downloads", "a.tar"] c

/-- Where `wget` writes. -/
abbrev cachePath (dir : Path) (name : String) : Path := dir ++ [name ++ ".download_cache"]

section placed
variable {T : Tools} {E : Config} {net : Net} {url name num : String} {dir : Path} {type : Digest} {w : World Label}

theorem name_ne_cache (name : String) : name ≠ name ++ ".download_cache" := by
  intro h
  have hlen := congrArg String.length h
  rw [String.length_append] at hlen
  have : ".download_cache".length = 15 := rfl
  omega

theorem path_ne_cache : dir ++ [name] ≠ cachePath dir name := by
  simpa using name_ne_cache name

theorem not_covers_dir (xs : List String) : Fs.covers (xs.map fun x => dir ++ [x]) dir = false := by
  by_contra h
  obtain ⟨r, hr, hrd⟩ := Fs.covers_iff.1 (by simpa using h)
  obtain ⟨x, -, rfl⟩ := List.mem_map.1 hr
  have := hrd.length_le
  simp at this

/-- What a command leaves of an entry outside its paths. -/
theorem preserves_get {c : Cmd Label} {q : Path} {x : Option Node} (hc : Fs.covers c.roots q = false)
    (hmk : ∀ p, c ≠ .mkdirP p) : c.Preserves T fun v => v.fs.get q = x := by
  refine ⟨fun v v' hv hm => ?_, fun v n v' hv hf => ?_⟩
  · obtain ⟨evs, hm, -⟩ := hm
    rcases hm.get (q := q) with h | h
    · exact h.trans hv
    · rw [hc] at h; cases h
  · rcases hf.1.get (q := q) with h | h | ⟨p, rfl, -⟩
    · exact h.trans hv
    · rw [hc] at h; cases h
    · exact absurd rfl (hmk p)

theorem safe_wgetRetry {u : String} {q : Path} {x : Option Node} (hw : w.fs.get q = x)
    (hq : Fs.covers [dir ++ [name]] q = false) (n : Nat) : Safe T Alone (fun _ => True)
      (fun _ v => v.fs.get q = x) (fun _ _ => True) (wgetRetry u (dir ++ [name]) n) w := by
  refine (Safe.of_all (P := (.ext (.job (.wget u (dir ++ [name]))) [dir ++ [name]] [] = ·))
    (M := fun _ => True) ?_ (fun _ _ _ h => h) (all_wgetRetry (fun _ _ => trivial) rfl n) hw).mono
    (fun _ _ => trivial) (fun _ _ h => h) fun _ _ _ => trivial
  rintro c rfl
  exact preserves_get hq fun p => by simp

/-- When `download` returns 0 there was a place for the file, the file is in it, and it passed the test. -/
theorem safe_download : Safe T Alone (fun _ => True)
    (fun n v => n = 0 → (w.fs.mkdirP dir).get dir = some .dir ∧ ∃ c, v.fs.content (dir ++ [name]) = some c ∧
      (num ≠ "" → num = realNum T (dir ++ [name]) type (some c))) (fun _ _ => True)
    (download T E net url dir name num type) w := by
  have hnote : Safe T Alone (fun v => v.fs = w.fs) (fun _ v => v.fs = w.fs) (fun n v => n ≠ 0 ∧ v.fs = w.fs)
      (ifThen (fetchUrl E net url dir).2 (printLog .normal "(internal url not exist, ignore)")) w :=
    Safe.of_all (P := fun _ => False) (M := fun _ => True) (fun _ h => h.elim) (fun _ _ _ h => h)
      (Prog.all_ifThen fun _ => all_printLog_of fun _ _ => trivial) rfl
  refine safe_bind (hnote.mono (fun _ _ => trivial) (fun _ v hv => ?_) fun _ _ _ => trivial)
  refine safe_bind (safe_note.2 ⟨trivial, trivial, safe_bind (safe_note.2 ⟨trivial, trivial, ?_⟩)⟩)
  refine safe_bind (safe_mkdirP.2 ⟨trivial, trivial, ?_⟩)
  -- the directory stays what `mkdir -p` has left, so it is one when the file is found in it
  refine safe_bind ((safe_wgetRetry (x := (w.fs.mkdirP dir).get dir) (by rw [← hv]) (not_covers_dir [_]) 10).mono
    (fun _ h => h) (fun ok v' hdir => ?_) fun _ _ h => h)
  refine safe_ite (fun _ => ?_) fun _ => safe_pure.2 ⟨trivial, by simp⟩
  refine safe_bind (safe_world.2 ⟨trivial, safe_ite (fun hf => ?_) fun _ => safe_pure.2 ⟨trivial, by simp⟩⟩)
  have hatomic : (Cmd.mv (cachePath dir name) (dir ++ [name]) : Cmd Label).Atomic := trivial
  refine safe_bind ((safe_atomic hatomic).2 ⟨trivial, fun n v'' hmv => safe_pure.2 ⟨trivial, ?_⟩⟩)
  refine safe_ite (fun hn => ?_) fun _ => safe_pure.2 ⟨trivial, by simp⟩
  subst hn
  obtain ⟨c, -, -, hc⟩ := Cmd.fin_mv (by simp) hmv.1
  have hplace : (w.fs.mkdirP dir).get dir = some .dir := by
    have hout : Fs.covers (Cmd.mv (cachePath dir name) (dir ++ [name]) : Cmd Label).roots dir = false :=
      not_covers_dir [_, _]
    rw [← (preserves_get hout (by simp)).2 v' 0 v'' hdir hmv]
    simpa using Fs.get_dropLast (p := dir ++ [name]) (by rw [Fs.content_eq_some.1 hc]; simp)
  refine safe_ite (fun hnum => ?_) fun hnum => ?_
  · exact safe_pure.2 ⟨trivial, fun _ => ⟨hplace, c, hc, fun h => absurd hnum h⟩⟩
  · refine safe_fetchVerify.mono (fun _ _ => trivial) (fun n v h hn => ⟨hplace, c, ?_, fun _ => ?_⟩) fun _ _ _ => trivial
    · rw [h.1.1, hc]
    · by_contra hne
      rw [hc, if_neg hne] at h
      omega

end placed

/-- The target is there, and its digest is the one asked for. -/
def Fetched (T : Tools) (type : Digest) (num : String) (path : Path) (fs : Fs) : Prop :=
  ∃ c, fs.content path = some c ∧ (num ≠ "" → hexDigest T type c = num)

/-- Without a network no file is there that is to be removed, and the number of a SHA type is not the line that
the tool prints for some file of this name, if there can be such a file. -/
def Trusty (T : Tools) (E : Config) (dir : Path) (name num : String) (type : Digest) (fs : Fs) : Prop :=
  (E.noNetwork = true → ∀ c, fs.content (dir ++ [name]) = some c → num = realNum T (dir ++ [name]) type (some c)) ∧
    (type ≠ .md5 → (fs.mkdirP dir).get dir = some .dir → ∀ c, num ≠ sumLine T type name c)

section success
variable {T : Tools} {E : Config} {net : Net} {url realname name num c : String} {dir : Path} {type : Digest}
  {w : World Label} {fs : Fs}

theorem getLastD_append (dir : Path) (name : String) : (dir ++ [name]).getLastD "" = name := by simp

theorem hexDigest_of_real (h : Trusty T E dir name num type fs) (hplace : (fs.mkdirP dir).get dir = some .dir)
    (hc : num = realNum T (dir ++ [name]) type (some c)) : hexDigest T type c = num := by
  by_cases ht : type = .md5
  · subst ht
    exact hc.symm
  · rw [realNum_of_ne ht, getLastD_append] at hc
    exact absurd hc (h.2 ht hplace c)

theorem place_of_content (hc : fs.content (dir ++ [name]) = some c) : (fs.mkdirP dir).get dir = some .dir := by
  refine Fs.get_mkdirP_of_some ?_
  simpa using Fs.get_dropLast (p := dir ++ [name]) (by rw [Fs.content_eq_some.1 hc]; simp)

theorem safe_download_fetched (h : num = "" ∨ Trusty T E dir name num type w.fs) : Safe T Alone (fun _ => True)
    (fun n v => n = 0 → Fetched T type num (dir ++ [name]) v.fs) (fun _ _ => True)
    (download T E net url dir name num type) w := by
  refine safe_download.mono (fun _ h => h) (fun n v hv hn => ?_) fun _ _ h => h
  obtain ⟨hplace, c, hc, hreal⟩ := hv hn
  refine ⟨c, hc, fun hne => ?_⟩
  exact hexDigest_of_real (h.resolve_left hne) hplace (hreal hne)

theorem safe_refetch (h : num = "" ∨ Trusty T E dir name num type w.fs) (hc : w.fs.content (dir ++ [name]) = some c) :
    Safe T Alone (fun _ => True) (fun n v => n = 0 → Fetched T type num (dir ++ [name]) v.fs) (fun _ _ => True)
      (refetch T E net url dir name num type) w := by
  unfold refetch verifyOrRemove
  by_cases hnum : num = ""
  · rw [if_pos hnum]
    refine safe_ite (fun hno => ?_) fun _ => safe_download_fetched h
    exact safe_bind (safe_note.2 ⟨trivial, trivial, safe_pure.2 ⟨trivial, fun _ => ⟨c, hc, fun hne => absurd hnum hne⟩⟩⟩)
  · have htrusty := h.resolve_left hnum
    rw [if_neg hnum]
    refine safe_bind (safe_bind (safe_fetchVerify.mono (fun _ _ => trivial) ?_ fun _ _ _ => trivial))
    rintro n v ⟨⟨hfs, -⟩, rfl⟩
    by_cases hreal : num = realNum T (dir ++ [name]) type (w.fs.content (dir ++ [name]))
    · rw [if_pos hreal, if_pos rfl]
      rw [hc] at hreal
      refine safe_pure.2 ⟨trivial, safe_pure.2 ⟨trivial, fun _ => ⟨c, by rw [hfs, hc], fun _ => ?_⟩⟩⟩
      exact hexDigest_of_real htrusty (place_of_content hc) hreal
    · rw [if_neg hreal, if_neg Nat.one_ne_zero]
      rw [hc] at hreal
      refine safe_bind (safe_rmF.2 ⟨trivial, trivial, safe_pure.2 ⟨trivial, ?_⟩⟩)
      rw [if_neg Bool.false_ne_true]
      refine safe_ite (fun hno => absurd (htrusty.1 hno c hc) hreal) fun _ => ?_
      refine safe_download.mono (fun _ h => h) (fun n v hv hn => ?_) fun _ _ h => h
      obtain ⟨-, c', hc', hreal'⟩ := hv hn
      refine ⟨c', hc', fun hne => ?_⟩
      exact hexDigest_of_real htrusty (place_of_content hc) (hreal' hne)

theorem safe_fetchDownload (h : num = "" ∨ Trusty T E dir (fetchName url realname) num type w.fs) :
    Safe T Alone (fun _ => True) (fun n v => n = 0 → Fetched T type num (dir ++ [fetchName url realname]) v.fs)
      (fun _ _ => True) (fetchDownload T E net url dir realname num type) w := by
  rw [fetchDownload_eq]
  refine safe_bind (safe_world.2 ⟨trivial, safe_ite (fun hf => ?_) fun _ => safe_download_fetched h⟩)
  obtain ⟨c, hc⟩ := Fs.isFile_iff.1 hf
  exact safe_refetch h (Fs.content_eq_some.2 hc)

end success

/-! ### A wget that delivers -/

/-- Every `wget` of the file succeeds and leaves `f` of what it finds; `mv` does its work where it can. -/
structure Delivers (T : Tools) (B : Behaviour Label) (E : Config) (net : Net) (url : String) (dir : Path)
    (name : String) (f : Option String → String) : Prop where
  follows : Follows T B
  wget : ∀ fs : Fs, fs.get dir = some .dir → fs.get (cachePath dir name) ≠ some .dir →
    B (.ext (.job (.wget (fetchUrl E net url dir).1 (cachePath dir name)))
      [cachePath dir name] []) fs =
      (0, fs.write (cachePath dir name) (f (fs.content (cachePath dir name))))
  mv : ∀ (fs : Fs) (c : String), fs.content (cachePath dir name) = some c →
    (fs.write (dir ++ [name]) c).get (dir ++ [name]) = some (.file c) →
      (B (.mv (cachePath dir name) (dir ++ [name])) fs).1 = 0

/-- A place for the file `name` in `dir`, and none of a directory. -/
structure Placeable (fs : Fs) (dir : Path) (name : String) : Prop where
  place : (fs.mkdirP dir).get dir = some .dir
  path : fs.get (dir ++ [name]) ≠ some .dir
  cache : fs.get (cachePath dir name) ≠ some .dir

/-- What a download of `c` makes of the file system. -/
def delivered (fs : Fs) (dir : Path) (name c : String) : Fs :=
  (((fs.mkdirP dir).write (cachePath dir name) c).write (dir ++ [name]) c).erase
    (cachePath dir name)

section deliver
variable {T : Tools} {B : Behaviour Label} {E : Config} {net : Net} {url realname name num c : String} {dir : Path}
  {type : Digest} {w : World Label} {fs : Fs} {f : Option String → String}

theorem get_mkdirP_child (x : String) : (fs.mkdirP dir).get (dir ++ [x]) = fs.get (dir ++ [x]) := by
  refine Fs.get_mkdirP_of_not fun h => ?_
  have := h.length_le
  simp at this

theorem Placeable.get_cached (h : Placeable fs dir name) (q : Path) :
    ((fs.mkdirP dir).write (cachePath dir name) c).get q =
      if q = cachePath dir name then some (.file c) else (fs.mkdirP dir).get q := by
  have hput : (fs.mkdirP dir).get (cachePath dir name).dropLast = some .dir ∧
      (fs.mkdirP dir).get (cachePath dir name) ≠ some .dir := by
    rw [List.dropLast_concat, get_mkdirP_child]
    exact ⟨h.place, h.cache⟩
  rw [Fs.get_write]
  simp only [hput.1, hput.2, ne_eq, not_false_eq_true, and_true]

theorem Placeable.get_placed (h : Placeable fs dir name) (q : Path) :
    (((fs.mkdirP dir).write (cachePath dir name) c).write (dir ++ [name]) c).get q =
      if q = dir ++ [name] then some (.file c) else
        ((fs.mkdirP dir).write (cachePath dir name) c).get q := by
  have hput : ((fs.mkdirP dir).write (cachePath dir name) c).get (dir ++ [name]).dropLast = some .dir ∧
      ((fs.mkdirP dir).write (cachePath dir name) c).get (dir ++ [name]) ≠ some .dir := by
    rw [List.dropLast_concat, h.get_cached, h.get_cached, if_neg (by simp), if_neg path_ne_cache, get_mkdirP_child]
    exact ⟨h.place, h.path⟩
  rw [Fs.get_write]
  simp only [hput.1, hput.2, ne_eq, not_false_eq_true, and_true]

theorem Placeable.get_delivered (h : Placeable fs dir name) (q : Path) : (delivered fs dir name c).get q =
    if q = cachePath dir name then none
    else if q = dir ++ [name] then some (.file c) else (fs.mkdirP dir).get q := by
  have hcache : (((fs.mkdirP dir).write (cachePath dir name) c).write (dir ++ [name]) c).get
      (cachePath dir name) = some (.file c) := by
    rw [h.get_placed, if_neg path_ne_cache.symm, h.get_cached, if_pos rfl]
  rw [delivered, Fs.get_erase_file hcache]
  by_cases hq : q = cachePath dir name
  · rw [if_pos hq, if_pos hq]
  · rw [if_neg hq, if_neg hq, h.get_placed, h.get_cached, if_neg hq]

/-- The state after a download is fit for another one, with the file in its place and no left-over. -/
theorem Placeable.delivered (h : Placeable fs dir name) : Placeable (delivered fs dir name c) dir name ∧
    (BuildQt5.delivered fs dir name c).content (dir ++ [name]) = some c ∧
    (BuildQt5.delivered fs dir name c).get (cachePath dir name) = none := by
  have hpath : (BuildQt5.delivered fs dir name c).get (dir ++ [name]) = some (.file c) := by
    rw [h.get_delivered, if_neg path_ne_cache, if_pos rfl]
  have hcache : (BuildQt5.delivered fs dir name c).get (cachePath dir name) = none := by
    rw [h.get_delivered, if_pos rfl]
  refine ⟨⟨place_of_content (Fs.content_eq_some.2 hpath), ?_, ?_⟩, Fs.content_eq_some.2 hpath, hcache⟩
  · rw [hpath]; simp
  · rw [hcache]; simp

theorem eval_ifThen_say {b : Bool} {text : String} {k : Unit → Script Nat} : ∃ log,
    (ifThen b (printLog .normal text) >>= k).eval B w = (k ()).eval B ⟨w.fs, log⟩ ∧ ran log = ran w.log := by
  cases b with
  | false => exact ⟨w.log, rfl, rfl⟩
  | true => exact ⟨_, rfl, rfl⟩

theorem eval_wgetRetry {u : String} {cache : Path} {fs' : Fs} (n : Nat)
    (h : B (.ext (.job (.wget u cache)) [cache] []) w.fs = (0, fs')) :
    (wgetRetry u cache (n + 1)).eval B w = (.ok true, ⟨fs', .ran (.job (.wget u cache)) 0 :: w.log⟩) := by
  rw [wgetRetry, eval_run, h]
  rfl

/-- The end of `download`, the new file being in its place. -/
theorem eval_final (hc : w.fs.content (dir ++ [name]) = some c) : ∃ log,
    (if num = "" then pure 0 else fetchVerify T (dir ++ [name]) num type : Script Nat).eval B w =
      (.ok (if num = "" ∨ num = realNum T (dir ++ [name]) type (some c) then 0 else 1), ⟨w.fs, log⟩) ∧
      ran log = ran w.log := by
  by_cases hnum : num = ""
  · rw [if_pos hnum, if_pos (.inl hnum)]
    exact ⟨_, rfl, rfl⟩
  · obtain ⟨log, he, hl⟩ := @eval_fetchVerify T (dir ++ [name]) num type w B
    rw [if_neg hnum, he, hc]
    simp only [hnum, false_or]
    exact ⟨log, rfl, hl⟩

theorem eval_download (hB : Delivers T B E net url dir name f) (h : Placeable w.fs dir name)
    (hc : c = f (w.fs.content (cachePath dir name))) : ∃ log,
    (download T E net url dir name num type).eval B w =
      (.ok (if num = "" ∨ num = realNum T (dir ++ [name]) type (some c) then 0 else 1),
        ⟨delivered w.fs dir name c, log⟩) ∧
      ran log = (.job (.wget (fetchUrl E net url dir).1 (cachePath dir name)), 0) :: ran w.log := by
  have hmk := hB.follows (.mkdirP dir) w.fs
  have hcached : ((w.fs.mkdirP dir).write (cachePath dir name) c).content
      (cachePath dir name) = some c := by
    rw [Fs.content_eq_some, h.get_cached, if_pos rfl]
  have hwget := hB.wget (w.fs.mkdirP dir) h.place (by rw [get_mkdirP_child]; exact h.cache)
  rw [Fs.content, get_mkdirP_child, ← Fs.content, ← hc] at hwget
  have hmv0 := hB.mv _ c hcached (by rw [h.get_placed, if_pos rfl])
  have hmv := hB.follows (.mv (cachePath dir name) (dir ++ [name]))
    ((w.fs.mkdirP dir).write (cachePath dir name) c)
  rw [hmv0] at hmv
  obtain ⟨c', hc', hfs, hplaced⟩ := Cmd.fin_mv (by simp) hmv
  obtain rfl : c = c' := Option.some.inj (hcached.symm.trans hc')
  obtain ⟨log₀, he, hl₀⟩ := @eval_ifThen_say B w (fetchUrl E net url dir).2 "(internal url not exist, ignore)" _
  unfold download echo
  rw [he, eval_note, eval_note, eval_run_, hmk.2, eval_bind (eval_wgetRetry 9 hwget), if_pos rfl, eval_world,
    if_pos (isFile_of_content hcached), eval_run, hmv0, if_pos rfl, hfs]
  rw [hfs] at hplaced
  obtain ⟨log, he, hl⟩ := eval_final (w := ⟨_, _⟩) hplaced
  refine ⟨log, he, hl.trans ?_⟩
  rw [ran_append, Cmd.ran_events]
  show _ :: ran (_ ++ _) = _
  rw [ran_append, Cmd.ran_events]
  exact congrArg _ hl₀

/-- A bad file removed. -/
theorem Placeable.erase (h : Placeable fs dir name) (hc : fs.get (dir ++ [name]) = some (.file c)) :
    Placeable (fs.erase (dir ++ [name])) dir name ∧ (fs.erase (dir ++ [name])).content
      (cachePath dir name) = fs.content (cachePath dir name) := by
  have hcache : (fs.erase (dir ++ [name])).get (cachePath dir name) =
      fs.get (cachePath dir name) := by
    rw [Fs.get_erase_file hc, if_neg path_ne_cache.symm]
  refine ⟨⟨Fs.get_mkdirP_of_some ?_, ?_, ?_⟩, by rw [Fs.content, hcache, ← Fs.content]⟩
  · rw [Fs.get_erase_file hc, if_neg (by simp)]
    simpa using Fs.get_dropLast (p := dir ++ [name]) (by rw [hc]; simp)
  · rw [Fs.get_erase_file hc, if_pos rfl]; simp
  · rw [hcache]; exact h.cache

/-- A call that finds no good file downloads one. -/
theorem eval_fetch_bad (hB : Delivers T B E net url dir (fetchName url realname) f)
    (h : Placeable w.fs dir (fetchName url realname)) (hnum : num ≠ "")
    (hbad : ∀ c, w.fs.content (dir ++ [fetchName url realname]) = some c →
      E.noNetwork = false ∧ num ≠ realNum T (dir ++ [fetchName url realname]) type (some c))
    (hc : c = f (w.fs.content (cachePath dir (fetchName url realname)))) : ∃ fs log,
    Placeable fs dir (fetchName url realname) ∧ (fetchDownload T E net url dir realname num type).eval B w =
      (.ok (if num = realNum T (dir ++ [fetchName url realname]) type (some c) then 0 else 1),
        ⟨delivered fs dir (fetchName url realname) c, log⟩) := by
  rw [fetchDownload_eq, eval_world]
  by_cases hf : w.fs.isFile (dir ++ [fetchName url realname]) = true
  · obtain ⟨c₀, hc₀⟩ := Fs.isFile_iff.1 hf
    obtain ⟨hnet, hreal⟩ := hbad c₀ (Fs.content_eq_some.2 hc₀)
    obtain ⟨log, he, -⟩ := @eval_verifyOrRemove T (dir ++ [fetchName url realname]) num type w B hB.follows hnum
    rw [Fs.content_eq_some.2 hc₀, if_neg hreal, if_pos hf] at he
    obtain ⟨hr, hcache⟩ := h.erase hc₀
    obtain ⟨log', he', -⟩ := @eval_download T B E net url _ num c dir type
      ⟨w.fs.erase (dir ++ [fetchName url realname]), log⟩ f hB hr (hc.trans (congrArg f hcache.symm))
    refine ⟨_, log', hr, ?_⟩
    rw [if_pos hf, refetch, eval_bind he, if_neg Bool.false_ne_true, hnet, if_neg Bool.false_ne_true, he']
    simp only [hnum, false_or]
  · obtain ⟨log, he, -⟩ := @eval_download T B E net url _ num c dir type w f hB h hc
    refine ⟨w.fs, log, h, ?_⟩
    rw [if_neg hf, he]
    simp only [hnum, false_or]

end deliver

/-! ### What a success says -/

section iff
variable {T : Tools} {E : Config} {net : Net} {url realname num c : String} {dir : Path} {type : Digest}
  {w : World Label}

/-- A `wget` that always delivers `c`. -/
def delivering (E : Config) (net : Net) (url : String) (dir : Path) (name : String) (f : Option String → String) :
    Behaviour Label :=
  sober.but (.job (.wget (fetchUrl E net url dir).1 (cachePath dir name)))
    [cachePath dir name] [] fun fs =>
      (0, fs.write (cachePath dir name) (f (fs.content (cachePath dir name))))

theorem delivering_delivers {name : String} {f : Option String → String} :
    Delivers T (delivering E net url dir name f) E net url dir name f where
  follows := by
    refine but_follows sober_follows fun fs => ⟨fun p hp => Fs.get_write_of_ne ?_, by simp⟩
    rintro rfl
    rw [Fs.covers_iff.2 ⟨_, List.mem_singleton.2 rfl, List.prefix_refl _⟩] at hp
    cases hp
  wget fs _ _ := but_self
  mv fs c hc hw := by
    show (moveFile fs _ _ (fs.content _)).1 = 0
    rw [hc, moveFile, if_pos ⟨path_ne_cache.symm, hw⟩]

/-- Without a network a bad file is removed, and that is called a success. -/
theorem reach_removed (hc : w.fs.content (dir ++ [fetchName url realname]) = some c) (hnum : num ≠ "")
    (hreal : num ≠ realNum T (dir ++ [fetchName url realname]) type (some c)) (hno : E.noNetwork = true) :
    ∃ w', Reach T Alone (fetchDownload T E net url dir realname num type, w) (.pure 0, w') ∧
      w'.fs.content (dir ++ [fetchName url realname]) = none := by
  obtain ⟨log, he, -⟩ := @eval_verifyOrRemove T (dir ++ [fetchName url realname]) num type w sober sober_follows hnum
  rw [hc, if_neg hreal, if_pos (isFile_of_content hc)] at he
  refine ⟨⟨w.fs.erase (dir ++ [fetchName url realname]), .mark (.say .normal "(no network, ignore)") :: log⟩,
    reach_of_eval sober_follows (r := .ok 0) ?_, ?_⟩
  swap
  · rw [Fs.content, Fs.get_erase_file (Fs.content_eq_some.1 hc), if_pos rfl]
  rw [fetchDownload_eq, eval_world, if_pos (isFile_of_content hc), refetch, eval_bind he,
    if_neg Bool.false_ne_true, if_pos hno]
  rfl

end iff

/-- `fetch_download` returns 0 with a good file only, if and only if there is no number to compare, or the state
and the number are `Trusty`. -/
theorem fetch_success_iff (T : Tools) (E : Config) (net : Net) (url : String) (dir : Path) (realname num : String)
    (type : Digest) (w : World Label) (hpath : w.fs.get (dir ++ [fetchName url realname]) ≠ some .dir)
    (hcache : w.fs.get (cachePath dir (fetchName url realname)) ≠ some .dir) :
    (∀ w', Reach T Alone (fetchDownload T E net url dir realname num type, w) (.pure 0, w') →
      Fetched T type num (dir ++ [fetchName url realname]) w'.fs) ↔
      num = "" ∨ Trusty T E dir (fetchName url realname) num type w.fs := by
  constructor
  · intro h
    refine or_iff_not_imp_left.2 fun hnum => ?_
    have hoffline : E.noNetwork = true → ∀ c, w.fs.content (dir ++ [fetchName url realname]) = some c →
        num = realNum T (dir ++ [fetchName url realname]) type (some c) := by
      intro hno c hc
      by_contra hreal
      obtain ⟨w', hr, hgone⟩ := @reach_removed T E net url realname num c dir type w hc hnum hreal hno
      obtain ⟨c', hc', -⟩ := h w' hr
      rw [hgone] at hc'
      cases hc'
    refine ⟨hoffline, fun ht hplace c hline => ?_⟩
    -- a file whose printed line is the number passes, and its digest is another
    have hcontra : ∀ w' c', Reach T Alone (fetchDownload T E net url dir realname num type, w) (.pure 0, w') →
        w'.fs.content (dir ++ [fetchName url realname]) = some c' →
        num = sumLine T type (fetchName url realname) c' → False := by
      intro w' c' hr hc' hl
      obtain ⟨c'', hc'', hd⟩ := h w' hr
      obtain rfl : c' = c'' := Option.some.inj (hc'.symm.trans hc'')
      exact sumLine_ne (hl.symm.trans (hd hnum).symm)
    by_cases hgood : ∃ c₀, w.fs.content (dir ++ [fetchName url realname]) = some c₀ ∧
        num = realNum T (dir ++ [fetchName url realname]) type (some c₀)
    · obtain ⟨c₀, hc₀, hreal⟩ := hgood
      obtain ⟨⟨w', hr⟩, hall⟩ := @idles_of_good T E net url realname num c₀ dir type w hc₀ hnum hreal
      rw [realNum_of_ne ht, getLastD_append] at hreal
      exact hcontra w' c₀ hr (by rw [(hall _ _ hr).1, hc₀]) hreal
    · have hbad : ∀ c₀, w.fs.content (dir ++ [fetchName url realname]) = some c₀ →
          E.noNetwork = false ∧ num ≠ realNum T (dir ++ [fetchName url realname]) type (some c₀) := by
        intro c₀ hc₀
        have hreal : num ≠ realNum T (dir ++ [fetchName url realname]) type (some c₀) := fun h => hgood ⟨c₀, hc₀, h⟩
        exact ⟨by simpa using fun hno => hreal (hoffline hno c₀ hc₀), hreal⟩
      have hdel : Delivers T _ E net url dir (fetchName url realname) fun _ => c := delivering_delivers
      obtain ⟨fs, log, hready, he⟩ := eval_fetch_bad hdel ⟨hplace, hpath, hcache⟩ hnum hbad rfl
      have hreal : num = realNum T (dir ++ [fetchName url realname]) type (some c) := by
        rw [realNum_of_ne ht, getLastD_append, hline]
      rw [if_pos hreal] at he
      exact hcontra _ c (reach_of_eval hdel.follows he) hready.delivered.2.1 hline
  · intro h w' hr
    exact ((safe_fetchDownload h).reach hr).of_pure rfl

theorem fetch_success_fresh : Fs.empty.get ["downloads", "a.tar"] ≠ some .dir ∧
    ∀ w', Reach Tools.sample Alone (fetchDownload Tools.sample (.unset ["top"] "p") .none "http://h/a.tar" ["downloads"]
      "" "x" .md5, ⟨.empty, []⟩) (.pure 0, w') → Fetched Tools.sample .md5 "x" ["downloads", "a.tar"] w'.fs := by
  refine ⟨by decide, (fetch_success_iff Tools.sample (.unset ["top"] "p") .none "http://h/a.tar" ["downloads"] "" "x"
    .md5 ⟨.empty, []⟩ (by decide) (by decide)).2 (.inr ⟨?_, fun h => absurd rfl h⟩)⟩
  intro h
  cases h

/-- With `NO_NETWORK=1` a file with a wrong MD5 is removed, and `fetch_download` returns 0. -/
theorem success_without_file : ∃ w', Reach Tools.sample Alone (fetchDownload Tools.sample
    { Config.unset ["top"] "p" with noNetwork := true } .none "http://h/a.tar" ["downloads"] "" "y" .md5,
      ⟨fetchedFs "x", []⟩) (.pure 0, w') ∧ w'.fs.content ["downloads", "a.tar"] = none :=
  reach_removed (c := "x") (by decide) (by decide) (by decide) rfl

/-! ### Healing -/

/-- `wget -c -O f` on a file that is there: the rest of the server's file is appended to a shorter one. -/
def resume (server : String) : Option String → String
  | none => server
  | some old => if old.length < server.length then old ++ String.ofList (server.toList.drop old.length) else old

/-- Of two calls in a row the second one returns 0 with a good file, and what a download leaves is no left-over. -/
theorem fetch_heals {T : Tools} {B : Behaviour Label} {E : Config} {net : Net} {url realname server : String}
    {dir : Path} {w : World Label} (hB : Delivers T B E net url dir (fetchName url realname) (resume server))
    (hnet : E.noNetwork = false) (hnum : T.md5 server ≠ "") (hready : Placeable w.fs dir (fetchName url realname)) :
    ∃ n w₁ w₂ c,
      (fetchDownload T E net url dir realname (T.md5 server) .md5).eval B w = (.ok n, w₁) ∧
      (fetchDownload T E net url dir realname (T.md5 server) .md5).eval B w₁ = (.ok 0, w₂) ∧
      w₂.fs.content (dir ++ [fetchName url realname]) = some c ∧ T.md5 c = T.md5 server ∧
      (ran w₁.log ≠ ran w.log → w₁.fs.get (cachePath dir (fetchName url realname)) = none) ∧
      (ran w₂.log ≠ ran w₁.log → w₂.fs.get (cachePath dir (fetchName url realname)) = none) := by
  -- a good file passes a call unchanged
  have hgood : ∀ (v : World Label) (c : String), v.fs.content (dir ++ [fetchName url realname]) = some c →
      T.md5 server = T.md5 c → ∃ log,
        (fetchDownload T E net url dir realname (T.md5 server) .md5).eval B v = (.ok 0, ⟨v.fs, log⟩) ∧
        ran log = ran v.log :=
    fun v c hc h => eval_fetch_good hB.follows hc hnum h
  by_cases hpresent : ∃ c, w.fs.content (dir ++ [fetchName url realname]) = some c ∧ T.md5 server = T.md5 c
  · obtain ⟨c, hc, hmd5⟩ := hpresent
    obtain ⟨log, he, hl⟩ := hgood w c hc hmd5
    obtain ⟨log', he', hl'⟩ := hgood ⟨w.fs, log⟩ c hc hmd5
    exact ⟨0, _, _, c, he, he', hc, hmd5.symm, fun h => absurd hl h, fun h => absurd hl' h⟩
  · have hbad : ∀ c, w.fs.content (dir ++ [fetchName url realname]) = some c →
        E.noNetwork = false ∧ T.md5 server ≠ realNum T (dir ++ [fetchName url realname]) .md5 (some c) :=
      fun c hc => ⟨hnet, fun h => hpresent ⟨c, hc, h⟩⟩
    obtain ⟨fs, log, hr, he⟩ := eval_fetch_bad hB hready hnum hbad rfl
    generalize resume server (w.fs.content (cachePath dir (fetchName url realname))) = c at he
    obtain ⟨hr', hc, hgone⟩ := hr.delivered (c := c)
    by_cases hfirst : T.md5 server = T.md5 c
    · obtain ⟨log', he', hl'⟩ := hgood ⟨_, log⟩ c hc hfirst
      exact ⟨_, _, _, c, he, he', hc, hfirst.symm, fun _ => hgone, fun h => absurd hl' h⟩
    · -- the second call finds a bad file and no left-over, so it fetches the whole of the server's
      have hbad' : ∀ c', (delivered fs dir (fetchName url realname) c).content (dir ++ [fetchName url realname]) =
          some c' → E.noNetwork = false ∧
            T.md5 server ≠ realNum T (dir ++ [fetchName url realname]) .md5 (some c') := by
        intro c' hc'
        obtain rfl := Option.some.inj (hc.symm.trans hc')
        exact ⟨hnet, hfirst⟩
      have hwhole : server = resume server ((delivered fs dir (fetchName url realname) c).content
          (cachePath dir (fetchName url realname))) := by
        rw [Fs.content, hgone]
        rfl
      obtain ⟨fs', log', hr'', he'⟩ := @eval_fetch_bad T B E net url realname (T.md5 server) server dir .md5
        ⟨delivered fs dir (fetchName url realname) c, log⟩ (resume server) hB hr' hnum hbad' hwhole
      rw [realNum_md5, hexDigest, if_pos rfl] at he'
      obtain ⟨-, hc', hgone'⟩ := hr''.delivered (c := server)
      exact ⟨_, _, _, server, he, he', hc', rfl, fun _ => hgone, fun _ => hgone'⟩

/-- A left-over that is no part of the server's file. -/
def leftoverFs : Fs := (Fs.empty.mkdirP ["downloads"]).write ["downloads", "a.tar.download_cache"] "zzz"

theorem fetch_heals_leftover : Placeable leftoverFs ["downloads"] "a.tar" ∧ ∃ n w₁ w₂ c,
    (fetchDownload Tools.sample (.unset ["top"] "p") .none "http://h/a.tar" ["downloads"] "" "ab" .md5).eval
      (delivering (.unset ["top"] "p") .none "http://h/a.tar" ["downloads"] "a.tar" (resume "ab"))
      ⟨leftoverFs, []⟩ = (.ok n, w₁) ∧
    (fetchDownload Tools.sample (.unset ["top"] "p") .none "http://h/a.tar" ["downloads"] "" "ab" .md5).eval
      (delivering (.unset ["top"] "p") .none "http://h/a.tar" ["downloads"] "a.tar" (resume "ab")) w₁ = (.ok 0, w₂) ∧
    w₂.fs.content ["downloads", "a.tar"] = some c ∧ c = "ab" ∧
    (ran w₁.log ≠ ran [] → w₁.fs.get (cachePath ["downloads"] "a.tar") = none) ∧
    (ran w₂.log ≠ ran w₁.log → w₂.fs.get (cachePath ["downloads"] "a.tar") = none) := by
  have hready : Placeable leftoverFs ["downloads"] "a.tar" := ⟨by decide, by decide, by decide⟩
  have hheals := @fetch_heals Tools.sample _ (.unset ["top"] "p") .none "http://h/a.tar" "" "ab" ["downloads"]
    ⟨leftoverFs, []⟩ delivering_delivers rfl (by decide) hready
  exact ⟨hready, hheals⟩

end BuildQt5
