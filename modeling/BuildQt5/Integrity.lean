import BuildQt5.Scripts.Fetch
import BuildQt5.Shell.Rely

/-!
# What do_fetch unpacks

An archive is checked by `fetch_download` and unpacked by a `tar` of its own, with other processes on the
same download directory in between. `Unspoiled` is what ought to hold at any time: what has been unpacked
for a module had the module's digest, and what is about to be unpacked has it. `triple_downloadModule`
shows it for the download branch among processes that spare the archive from the moment it is being
verified (`Spares`); a `do_fetch` alone on the file system is the case of no other process.

The digest is the one selected from the list in use. Nothing is checked when that selection is empty, so
what `do_fetch` guarantees about the lists needs a list that gives the digest (`Selects`), and a pattern
that names the archive `fetch_download` has checked (`Meant`).
-/

namespace BuildQt5
open Shell
open Prog (world run run_ note ifThen forEach)

/-! ### The archive of a module -/

section archives
variable (T : Tools) (E : Config) (list m : String)

/-- The name `fetch_download` gives the archive of a module. -/
def archiveName : String := basename (E.qtDownloadUrlPre ++ "/" ++ (m ++ E.qtDownloadUrlPost))

def archiveFile : Path := qtDownloads E ++ [archiveName E m]

/-- `tar` was given the archive of `fetch_download`, or its pattern matches that archive, which is there
when there is a network. -/
def Meant (a : Path) : Prop :=
  a = archiveFile E m ∨ E.noNetwork = false ∧ between (m ++ "-") ".tar.xz" (archiveName E m) = true

/-- The archive is there and has the digest that is selected for the module. -/
def Good (fs : Fs) : Prop := ∃ c, fs.content (archiveFile E m) = some c ∧ T.md5 c = digestOf list m

/-- What was unpacked for a module had the module's digest. -/
def Past (evs : List (Event Label)) : Prop :=
  ∀ pre a c m l, evs = pre ++ .unpacked a c :: .mark (.extract m) :: l → Meant E m a → digestOf list m ≠ "" →
    T.md5 c = digestOf list m

/-- Since `log₀`, what was unpacked for a module had the module's digest, and what is about to be has it. -/
def Unspoiled (log₀ : List (Event Label)) (v : World Label) : Prop :=
  ∃ evs, v.log = evs ++ log₀ ∧ Past T E list evs ∧
    ∀ m l, evs = .mark (.extract m) :: l → digestOf list m ≠ "" → E.noNetwork = false → Good T E list m v.fs

/-- Nothing is about to be unpacked. -/
def Idle (log₀ : List (Event Label)) (v : World Label) : Prop :=
  ∃ evs, v.log = evs ++ log₀ ∧ Past T E list evs ∧ ∀ m l, evs ≠ .mark (.extract m) :: l

end archives

/-- Neither an archive unpacked nor the announcement of one. -/
def quiet : Event Label → Bool
  | .unpacked _ _ | .mark (.extract _) => false
  | _ => true

section past
variable {T : Tools} {E : Config} {list m : String} {evs evs' : List (Event Label)}

theorem Past.append (h : Past T E list evs) (hq : ∀ a c, .unpacked a c ∉ evs') : Past T E list (evs' ++ evs) := by
  intro pre a c m l heq
  rcases List.append_eq_append_iff.1 heq with ⟨as, -, has⟩ | ⟨bs, hbs, has⟩
  · exact h as a c m l has
  · cases bs with
    | nil => exact h [] a c m l (by simpa using has.symm)
    | cons b bs =>
      rw [List.cons_append, List.cons.injEq] at has
      exact absurd (by rw [hbs, ← has.1]; simp) (hq a c)

theorem Past.mark {k : Label} (h : Past T E list evs) : Past T E list (.mark k :: evs) := by
  have hq : ∀ a c, .unpacked a c ∉ [Event.mark k] := by simp
  exact h.append hq

theorem Past.unpacked {a : Path} {c : String} (h : Past T E list (.mark (.extract m) :: evs))
    (hc : Meant E m a → digestOf list m ≠ "" → T.md5 c = digestOf list m) :
    Past T E list (.unpacked a c :: .mark (.extract m) :: evs) := by
  intro pre a' c' m' l heq
  cases pre with
  | nil =>
    simp only [List.nil_append, List.cons.injEq, Event.unpacked.injEq, Event.mark.injEq, Label.extract.injEq] at heq
    obtain ⟨⟨rfl, rfl⟩, rfl, -⟩ := heq
    exact hc
  | cons e pre =>
    rw [List.cons_append, List.cons.injEq] at heq
    exact h pre a' c' m' l heq.2

variable {log₀ : List (Event Label)} {v : World Label} {fs : Fs}

theorem Idle.append (h : Idle T E list log₀ v) (hq : ∀ e ∈ evs', quiet e = true) :
    Idle T E list log₀ ⟨fs, evs' ++ v.log⟩ := by
  obtain ⟨evs, hl, hp, hne⟩ := h
  refine ⟨evs' ++ evs, by simp [hl], hp.append fun a c hm => absurd (hq _ hm) (by simp [quiet]), ?_⟩
  intro m l heq
  cases evs' with
  | nil => exact hne m l heq
  | cons e evs' =>
    rw [List.cons_append, List.cons.injEq] at heq
    exact absurd (hq e (by simp)) (by simp [heq.1, quiet])

theorem Idle.mark {k : Label} (h : Idle T E list log₀ v) (hk : quiet (.mark k) = true) :
    Idle T E list log₀ ⟨v.fs, .mark k :: v.log⟩ := by
  have hq : ∀ e ∈ [.mark k], quiet e = true := by simpa using hk
  exact h.append hq

theorem Idle.unspoiled (h : Idle T E list log₀ v) : Unspoiled T E list log₀ v := by
  obtain ⟨evs, hl, hp, hne⟩ := h
  exact ⟨evs, hl, hp, fun m l heq => absurd heq (hne m l)⟩


theorem quiet_of_mid {c : Cmd Label} {fs fs' : Fs} {evs : List (Event Label)} (h : c.Mid T fs fs' evs)
    {e : Event Label} (he : e ∈ evs) : quiet e = true := by
  obtain ⟨r, rfl, -⟩ := h.events he
  rfl

/-- Only `tar` unpacks. -/
def Quiet (c : Cmd Label) : Prop := ∀ as dest, c ≠ .tar as dest

theorem quiet_of_events {c : Cmd Label} {fs : Fs} {n : Nat} (hc : Quiet c) {e : Event Label}
    (he : e ∈ c.events fs n) : quiet e = true := by
  cases c with
  | tar as dest => exact absurd rfl (hc as dest)
  | rmRf ps =>
    simp only [Cmd.events, List.mem_cons] at he
    rcases he with rfl | he
    · rfl
    · split at he
      · obtain ⟨r, -, rfl⟩ := List.mem_map.1 he
        rfl
      · cases he
  | patch dirs text => rw [List.mem_singleton.1 he]; rfl
  | cp job src dst => rw [List.mem_singleton.1 he]; rfl
  | ext job foot makes => rw [List.mem_singleton.1 he]; rfl
  | _ =>
    simp only [Cmd.events] at he
    split at he
    · rw [List.mem_singleton.1 he]; rfl
    · cases he

theorem quiet_preserves {c : Cmd Label} (hc : Quiet c) : c.Preserves T (Idle T E list log₀) := by
  refine ⟨fun v v' h hm => ?_, fun v n v' h hf => ?_⟩
  · obtain ⟨evs, hm, hl⟩ := hm
    obtain ⟨fs', log'⟩ := v'
    obtain rfl : log' = _ := hl
    exact h.append fun e he => quiet_of_mid hm he
  · obtain ⟨fs', log'⟩ := v'
    obtain rfl : log' = _ := hf.2
    exact h.append fun e he => quiet_of_events hc he

end past

/-! ### Among processes that spare the archive -/

/-- `fetch_verify` is at work on the number `num`, or has found it, and nothing has been unpacked since. -/
def holding (num : String) : List (Event Label) → Bool
  | .mark (.say .normal text) :: _ =>
    text ∈ ["Verifing...", "MD5 verify nummber = [" ++ num ++ "]", "MD5 real   nummber = [" ++ num ++ "]"]
  | .unpacked _ _ :: _ => false
  | _ :: log => holding num log
  | [] => false

/-- The others do not write in this process's log and leave the archive alone while it is held; without a
network, when a bad archive is not fetched again, they do not bring one either. -/
structure Spares (E : Config) (list m : String) (R : World Label → World Label → Prop) : Prop where
  log : ∀ v v', R v v' → v'.log = v.log
  content : ∀ v v', R v v' → holding (digestOf list m) v.log = true →
    v'.fs.content (archiveFile E m) = v.fs.content (archiveFile E m)
  absent : E.noNetwork = true → Stable R fun v => v.fs.content (archiveFile E m) = none

theorem spares_alone {E : Config} {list m : String} : Spares E list m Alone :=
  ⟨fun _ _ h => h.elim, fun _ _ h => h.elim, fun _ _ _ _ h => h.elim⟩

/-- The archive is held with the right digest; or there is no check, or no archive. -/
def Kept (T : Tools) (E : Config) (list m : String) (v : World Label) : Prop :=
  digestOf list m = "" ∨ holding (digestOf list m) v.log = true ∧ Good T E list m v.fs ∨
    E.noNetwork = true ∧ v.fs.content (archiveFile E m) = none

/-- `Kept`, at the `tar` of the module. -/
def AtTar (T : Tools) (E : Config) (list m : String) (log₀ : List (Event Label)) (v : World Label) : Prop :=
  (∃ l, v.log = .mark (.extract m) :: (l ++ log₀) ∧ Past T E list (.mark (.extract m) :: l)) ∧ Kept T E list m v

section rely
variable {T : Tools} {E : Config} {list m : String} {log₀ : List (Event Label)}
  {R : World Label → World Label → Prop} (hR : Spares E list m R)
include hR

theorem firm_idle : Firm R (Unspoiled T E list log₀) (Idle T E list log₀) := by
  refine ⟨fun v v' h hr => ?_, fun v h => h.unspoiled⟩
  obtain ⟨evs, hl, h⟩ := h
  exact ⟨evs, (hR.log v v' hr).trans hl, h⟩

theorem stable_kept : Stable R (Kept T E list m) := by
  intro v v' h hr
  rcases h with h | ⟨h, c, hc, hd⟩ | ⟨hno, h⟩
  · exact .inl h
  · refine .inr (.inl ⟨by rw [hR.log v v' hr]; exact h, c, ?_, hd⟩)
    rw [hR.content v v' hr h]; exact hc
  · exact .inr (.inr ⟨hno, hR.absent hno v v' h hr⟩)

theorem firm_held {P : Prop} :
    Firm R (Unspoiled T E list log₀) fun v => Idle T E list log₀ v ∧ (P → Kept T E list m v) :=
  ⟨fun v v' h hr => ⟨(firm_idle hR).stable v v' h.1 hr, fun hp => stable_kept hR v v' (h.2 hp) hr⟩,
    fun _ h => h.1.unspoiled⟩

theorem firm_atTar : Firm R (Unspoiled T E list log₀) (AtTar T E list m log₀) := by
  refine ⟨fun v v' h hr => ⟨?_, stable_kept hR v v' h.2 hr⟩, fun v h => ?_⟩
  · rw [hR.log v v' hr]; exact h.1
  · obtain ⟨⟨l, hl, hp⟩, hk⟩ := h
    refine ⟨_, hl, hp, fun m' l' heq hne hno => ?_⟩
    simp only [List.cons.injEq, Event.mark.injEq, Label.extract.injEq] at heq
    obtain ⟨rfl, -⟩ := heq
    rcases hk with hk | hk | hk
    · exact absurd hk hne
    · exact hk.2
    · rw [hno] at hk; exact absurd hk.1 (by simp)

/-- A script without `tar` has nothing to unpack. -/
theorem triple_quiet {α : Type} {p : Script α} (hp : p.All Quiet fun k => quiet (.mark k) = true) :
    Triple T R (Unspoiled T E list log₀) (Idle T E list log₀) p fun _ => Idle T E list log₀ :=
  triple_of_all (firm_idle hR) (fun _ hc => quiet_preserves hc) (fun _ _ hk h => h.mark hk) hp

/-- The archive stays as it was when the check began. -/
theorem firm_watched {o : Option String} : Firm R (Unspoiled T E list log₀) fun v =>
    Idle T E list log₀ v ∧ holding (digestOf list m) v.log = true ∧ v.fs.content (archiveFile E m) = o := by
  refine ⟨fun v v' h hr => ⟨(firm_idle hR).stable v v' h.1 hr, ?_, ?_⟩, fun v h => h.1.unspoiled⟩
  · rw [hR.log v v' hr]; exact h.2.1
  · rw [hR.content v v' hr h.2.1]; exact h.2.2

/-- After a check that succeeds the archive is held with the right digest. -/
theorem triple_fetchVerify (hne : digestOf list m ≠ "") :
    Triple T R (Unspoiled T E list log₀) (Idle T E list log₀)
      (fetchVerify T (archiveFile E m) (digestOf list m) .md5)
      fun n v => Idle T E list log₀ v ∧ (n = 0 → Kept T E list m v) := by
  refine Triple.bind (triple_note (firm_idle hR) (Firm.exists fun o => firm_watched hR (o := o))
    fun v h => ⟨_, h.mark rfl, by simp [holding], rfl⟩) fun _ => ?_
  refine Triple.bind (triple_world (Firm.exists fun o => firm_watched hR)
    (fun x _ => firm_watched hR (o := x.fs.content (archiveFile E m)))
    fun x ⟨_, h⟩ => ⟨h.1, h.2.1, rfl⟩) fun x => ?_
  refine Triple.bind (triple_note (firm_watched hR) (firm_watched hR (o := x.fs.content (archiveFile E m)))
    fun v h => ⟨h.1.mark rfl, ?_, h.2.2⟩) fun _ => ?_
  · show decide (_ ∈ _) = true
    simp [Digest.text]
  refine Triple.bind (triple_note (firm_watched hR) (firm_held hR (P := digestOf list m =
    realNum T (archiveFile E m) .md5 (x.fs.content (archiveFile E m)))) fun v h => ⟨h.1.mark rfl, fun hreal => ?_⟩)
    fun _ => ?_
  · refine .inr (.inl ⟨?_, ?_⟩)
    · show decide (_ ∈ _) = true
      simp [Digest.text, ← hreal]
    · cases hc : x.fs.content (archiveFile E m) with
      | none => rw [hc] at hreal; exact absurd hreal hne
      | some c => exact ⟨c, h.2.2.trans hc, by rw [hc] at hreal; exact hreal.symm⟩
  split
  · exact triple_pure (firm_held hR) fun v h => ⟨h.1, fun h0 => absurd h0 (by simp)⟩
  · rename_i hreal
    rw [not_not] at hreal
    refine Triple.bind (triple_note (firm_held hR) (firm_held hR (P := True)) fun v h => ⟨h.1.mark rfl, fun _ => ?_⟩)
      fun _ => triple_pure (firm_held hR) fun v h => ⟨h.1, fun _ => h.2 trivial⟩
    exact h.2 hreal

theorem firm_gone : Firm R (Unspoiled T E list log₀) fun v =>
    Idle T E list log₀ v ∧ (E.noNetwork = true → v.fs.content (archiveFile E m) = none) :=
  ⟨fun v v' h hr => ⟨(firm_idle hR).stable v v' h.1 hr, fun hno => hR.absent hno v v' (h.2 hno) hr⟩,
    fun _ h => h.1.unspoiled⟩

/-- A bad archive is removed. -/
theorem triple_verifyOrRemove (hne : digestOf list m ≠ "") :
    Triple T R (Unspoiled T E list log₀) (Idle T E list log₀)
      (verifyOrRemove T (archiveFile E m) (digestOf list m) .md5)
      fun good v => Idle T E list log₀ v ∧ (good = true → Kept T E list m v) ∧
        (good = false → E.noNetwork = true → v.fs.content (archiveFile E m) = none) := by
  unfold verifyOrRemove
  rw [if_neg hne]
  refine Triple.bind (triple_fetchVerify hR hne) fun code => triple_ite (fun h0 => ?_) fun _ => ?_
  · exact triple_pure (firm_held hR) fun v h => ⟨h.1, fun _ => h.2 h0, fun hf => by cases hf⟩
  · have hquiet : Quiet (.rmF (archiveFile E m)) := fun _ _ h => by cases h
    have hrm : Triple T R (Unspoiled T E list log₀) (Idle T E list log₀) (run_ (.rmF (archiveFile E m)))
        fun _ v => Idle T E list log₀ v ∧ (E.noNetwork = true → v.fs.content (archiveFile E m) = none) := by
      refine triple_run_ (firm_idle hR) (firm_gone hR) (quiet_preserves hquiet).1 fun v n v' h hf => ?_
      refine ⟨(quiet_preserves hquiet).2 v n v' h hf, fun _ => ?_⟩
      rw [hf.1.2]
      exact Fs.content_rmF
    refine Triple.bind (hrm.mono (fun v h => h.1) fun _ _ h => h) fun _ => ?_
    exact triple_pure (firm_gone hR) fun v h => ⟨h.1, fun hf => (by cases hf), fun _ => h.2⟩

theorem triple_download {net : Net} {url : String} (hne : digestOf list m ≠ "") :
    Triple T R (Unspoiled T E list log₀) (Idle T E list log₀)
      (download T E net url (qtDownloads E) (archiveName E m) (digestOf list m) .md5)
      fun n v => Idle T E list log₀ v ∧ (n = 0 → Kept T E list m v) := by
  have hsay : ∀ kind text, quiet (.mark (.say kind text)) = true := fun _ _ => rfl
  have hfail : Triple T R (Unspoiled T E list log₀) (Idle T E list log₀) (pure 1 : Script Nat)
      fun n v => Idle T E list log₀ v ∧ (n = 0 → Kept T E list m v) :=
    triple_pure (firm_idle hR) fun v h => ⟨h, fun h0 => absurd h0 (by simp)⟩
  refine Triple.bind (triple_quiet hR (Prog.all_ifThen fun _ => all_printLog_of hsay)) fun _ => ?_
  refine Triple.bind (triple_quiet hR (Prog.all_note.2 rfl)) fun _ => ?_
  refine Triple.bind (triple_quiet hR (Prog.all_note.2 rfl)) fun _ => ?_
  refine Triple.bind (triple_quiet hR (Prog.all_run_.2 fun _ _ h => by cases h)) fun _ => ?_
  refine Triple.bind (triple_quiet hR (all_wgetRetry hsay (fun _ _ h => by cases h) 10)) fun ok => ?_
  refine triple_ite (fun _ => ?_) fun _ => hfail
  refine Triple.bind (triple_quiet hR (Prog.all_world.2 trivial)) fun w => triple_ite (fun _ => ?_) fun _ => hfail
  refine Triple.bind (triple_quiet hR (Prog.all_run.2 fun _ _ h => by cases h)) fun code => ?_
  refine triple_ite (fun _ => ?_) fun _ => hfail
  exact triple_ite (fun h => absurd h hne) fun _ => triple_fetchVerify hR hne

/-- When `fetch_download` succeeds, the archive is held with the right digest. -/
theorem triple_fetchDownload {net : Net} :
    Triple T R (Unspoiled T E list log₀) (Idle T E list log₀)
      (fetchDownload T E net (E.qtDownloadUrlPre ++ "/" ++ (m ++ E.qtDownloadUrlPost)) (qtDownloads E) ""
        (digestOf list m) .md5)
      fun n v => Idle T E list log₀ v ∧ (n = 0 → Kept T E list m v) := by
  by_cases hne : digestOf list m = ""
  · refine (triple_quiet hR ((all_fetchDownload_cmds (fun _ _ => rfl) fun _ _ _ => rfl).mono (fun c hc => ?_)
      fun _ h => h)).mono (fun _ h => h) fun n v h => ⟨h, fun _ => .inl hne⟩
    rintro as dest rfl
    simp [fetchCmds] at hc
  · refine Triple.bind (triple_quiet hR (Prog.all_world.2 trivial)) fun w =>
      triple_ite (fun _ => ?_) fun _ => triple_download hR hne
    refine Triple.bind (triple_verifyOrRemove hR hne) fun good => triple_ite (fun hgood => ?_) fun hgood => ?_
    · exact (triple_pure (firm_held hR) fun v h => ⟨h.1, fun _ => h.2 hgood⟩).mono
        (fun v h => ⟨h.1, h.2.1⟩) fun _ _ h => h
    · rw [Bool.not_eq_true] at hgood
      refine Triple.mono (A := fun v => Idle T E list log₀ v ∧
        (E.noNetwork = true → v.fs.content (archiveFile E m) = none)) ?_ (fun v h => ⟨h.1, h.2.2 hgood⟩)
        fun _ _ h => h
      refine triple_ite (fun hno => ?_) fun _ => (triple_download hR hne).mono (fun v h => h.1) fun _ _ h => h
      refine Triple.bind (triple_note (firm_gone hR) (firm_gone hR) fun v h => ⟨h.1.mark rfl, h.2⟩) fun _ => ?_
      exact triple_pure (firm_gone hR) fun v h => ⟨h.1, fun _ => .inr (.inr ⟨hno, h.2 hno⟩)⟩

end rely

section download
variable {T : Tools} {E : Env} {list m : String} {log₀ : List (Event Label)}
  {R : World Label → World Label → Prop}

theorem apart_qtSrc : Apart (qtSrc E.toConfig) (archiveFile E.toConfig m) := by
  have h : Apart E.downloadDir (E.stageDir .qt5) := E.outside_apart .qt5 _ (by simp [Config.outside])
  have hfile : E.downloadDir <+: archiveFile E.toConfig m := by
    rw [archiveFile, qtDownloads, List.append_assoc]
    exact List.prefix_append _ _
  exact (h.below hfile).symm.below (List.prefix_append _ _)

theorem Kept.congr {v v' : World Label} (h : Kept T E.toConfig list m v) (hlog : v'.log = v.log)
    (hfs : v'.fs.content (archiveFile E.toConfig m) = v.fs.content (archiveFile E.toConfig m)) :
    Kept T E.toConfig list m v' := by
  unfold Kept Good at h ⊢
  rwa [hlog, hfs]

/-- With the archive in place, a pattern that is meant to name it names nothing else. -/
theorem Kept.meant {x : World Label} (h : Kept T E.toConfig list m x) {a : Path}
    (ha : expand x.fs (qtDownloads E.toConfig) (between (m ++ "-") ".tar.xz") (m ++ "-*.tar.xz") = [a])
    (hm : Meant E.toConfig m a) (hne : digestOf list m ≠ "") : a = archiveFile E.toConfig m := by
  rcases hm with hm | ⟨hno, hpat⟩
  · exact hm
  · rcases h with h | ⟨-, c, hc, -⟩ | h
    · exact absurd h hne
    · have hget : x.fs.get (archiveFile E.toConfig m) ≠ none := by
        rw [Fs.content_eq_some.1 hc]; simp
      have hmem := Fs.mem_glob.2 ⟨hget, hpat⟩
      unfold expand at ha
      split at ha
      · rename_i hg
        rw [hg] at hmem; cases hmem
      · have := List.mem_map_of_mem (f := fun y => qtDownloads E.toConfig ++ [y]) hmem
        rw [ha, List.mem_singleton] at this
        exact this.symm
    · rw [hno] at h; exact absurd h.1 (by simp)

variable (hR : Spares E.toConfig list m R)
include hR

theorem triple_tar {as : List Path} (has : ∀ a, as = [a] → Meant E.toConfig m a → digestOf list m ≠ "" →
      a = archiveFile E.toConfig m) :
    Triple T R (Unspoiled T E.toConfig list log₀) (AtTar T E.toConfig list m log₀)
      (run (.tar as (qtSrc E.toConfig)))
      fun n => if n = 0 then Idle T E.toConfig list log₀ else AtTar T E.toConfig list m log₀ := by
  have hoff : (Cmd.tar as (qtSrc E.toConfig) : Cmd Label).Off (archiveFile E.toConfig m) := by
    simpa [Cmd.Off, Cmd.roots] using apart_qtSrc (m := m)
  refine triple_run (firm_atTar hR) (fun n => ?_) (fun v v' h hm => ?_) fun v n v' h hf => ?_
  · split
    · exact firm_idle hR
    · exact firm_atTar hR
  · have hsame := (Framed.mid (M := fun _ => True) hoff hm).content
    obtain ⟨evs, hm, hl⟩ := hm
    obtain ⟨fs', log'⟩ := v'
    cases hm
    obtain rfl : log' = v.log := hl
    exact ⟨h.1, h.2.congr rfl hsame⟩
  · have hsame := (Framed.fin (M := fun _ => True) hoff hf).content
    obtain ⟨hfin, hl⟩ := hf
    obtain ⟨⟨l, hlog, hp⟩, hk⟩ := h
    split
    · rename_i h0
      subst h0
      rcases hx : Cmd.archive v.fs as with _ | ⟨a, c⟩
      · simp only [Cmd.Fin, hx, if_true] at hfin
        exact hfin.elim
      · simp only [Cmd.events, hx, if_true, Option.map_some, Option.toList_some] at hl
        refine ⟨.unpacked a c :: .mark (.extract m) :: l, by simp [hl, hlog], hp.unpacked fun hm hne => ?_, by simp⟩
        obtain ⟨rfl, hc⟩ := Cmd.archive_eq_some.1 hx
        rw [has a rfl hm hne] at hc
        rcases hk with hk | ⟨-, c', hc', hd⟩ | hk
        · exact absurd hk hne
        · rw [hc] at hc'; cases hc'; exact hd
        · rw [hk.2] at hc; cases hc
    · rename_i h0
      have hl' : v'.log = v.log := by simpa [Cmd.events, h0] using hl
      exact ⟨⟨l, hl'.trans hlog, hp⟩, hk.congr hl' hsame⟩

theorem triple_printError {A : World Label → Prop} {Q : Unit → World Label → Prop}
    (hA : Firm R (Unspoiled T E.toConfig list log₀) A)
    (he : ∀ v text, A v → Idle T E.toConfig list log₀ ⟨v.fs, .mark (.say .error text) :: v.log⟩) :
    Triple T R (Unspoiled T E.toConfig list log₀) A (printLog .error "") Q := by
  refine Triple.bind (triple_world hA (fun _ _ => hA) fun _ h => h) fun x => ?_
  exact Triple.bind (triple_note hA (firm_idle hR) fun v h => he v _ h) fun _ => triple_exit (firm_idle hR)

theorem triple_orError {n : Nat} :
    Triple T R (Unspoiled T E.toConfig list log₀)
      (if n = 0 then Idle T E.toConfig list log₀ else AtTar T E.toConfig list m log₀) (orError n)
      fun _ => Idle T E.toConfig list log₀ := by
  unfold orError
  split
  · exact triple_pure (firm_idle hR) fun _ h => h
  · refine triple_printError hR (firm_atTar hR) fun v text h => ?_
    obtain ⟨l, hl, hp⟩ := h.1
    exact ⟨.mark (.say .error text) :: .mark (.extract m) :: l, by simp [hl], hp.mark, by simp⟩

/-- With the archive held, its extraction is of the archive. -/
theorem triple_extractModule :
    Triple T R (Unspoiled T E.toConfig list log₀)
      (fun v => Idle T E.toConfig list log₀ v ∧ (True → Kept T E.toConfig list m v))
      (extractModule E.toConfig m) fun _ => Idle T E.toConfig list log₀ := by
  refine Triple.bind (triple_note (firm_held hR) (firm_held hR (P := True)) fun v h => ⟨h.1.mark rfl, fun _ => ?_⟩)
    fun _ => ?_
  · exact h.2 trivial
  refine Triple.bind (triple_note (firm_held hR) (firm_atTar hR) fun v h => ⟨?_, h.2 trivial⟩) fun _ => ?_
  · obtain ⟨evs, hl, hp, -⟩ := h.1
    exact ⟨evs, by simp [hl], hp.mark⟩
  refine Triple.bind (triple_world (firm_atTar hR) (fun x hx => Firm.of_imp (P := ∀ a, expand x.fs
      (qtDownloads E.toConfig) (between (m ++ "-") ".tar.xz") (m ++ "-*.tar.xz") = [a] → Meant E.toConfig m a →
      digestOf list m ≠ "" → a = archiveFile E.toConfig m) fun _ => firm_atTar hR)
    fun x hx => ⟨fun a ha hm hne => hx.2.meant ha hm hne, hx⟩) fun x w hw => ?_
  exact (Triple.bind (triple_tar hR hw.1) fun _ => triple_orError hR) w hw.2

theorem triple_downloadModule {net : Net} :
    Triple T R (Unspoiled T E.toConfig list log₀) (Idle T E.toConfig list log₀)
      (downloadModule T E.toConfig net list m) fun _ => Idle T E.toConfig list log₀ := by
  refine Triple.bind (triple_quiet hR (Prog.all_note.2 rfl)) fun _ => ?_
  refine Triple.bind (triple_quiet hR (Prog.all_run_.2 fun _ _ h => by cases h)) fun _ => ?_
  refine Triple.bind (triple_fetchDownload hR) fun code => ?_
  refine Triple.bind (B := fun _ v => Idle T E.toConfig list log₀ v ∧ (True → Kept T E.toConfig list m v)) ?_
    fun _ => triple_extractModule hR
  refine triple_ite (fun h0 => ?_) fun _ => ?_
  · exact triple_pure (firm_held hR) fun v h => ⟨h.1, fun _ => h.2 h0⟩
  · exact (triple_printError hR (firm_idle hR) fun v text h => h.mark rfl).mono (fun v h => h.1) fun _ _ h => h

end download

/-! ### do_fetch -/

section doFetch
variable {T : Tools} {E : Env} {net : Net} {list m : String} {log₀ : List (Event Label)}

/-- `QT_PACKAGE_MD5SUM_LIST`, as the modules are looked up in it. -/
def listInUse (E : Config) (net : Net) : String :=
  if net.hasCurl && !E.noNetwork then net.md5sumTxt.2 else E.md5sumTxt.getD ""

theorem quiet_removeOld : (removeOld E.toConfig m).All Quiet fun k => quiet (.mark k) = true := by
  refine Prog.All.bind (Prog.all_world.2 trivial) fun w => ?_
  split
  · exact Prog.all_ifThen fun _ => Prog.all_run_.2 fun _ _ h => by cases h
  · trivial

theorem quiet_copyModule : (copyModule E.toConfig net m).All Quiet fun k => quiet (.mark k) = true := by
  refine Prog.All.bind (all_printLog_of fun _ _ => rfl) fun _ => Prog.All.bind (Prog.all_world.2 trivial) fun w => ?_
  refine Prog.All.bind (Prog.all_run.2 fun _ _ h => ?_) fun _ => all_orError_of fun _ _ => rfl
  unfold copyCmd at h
  simp only at h
  split at h <;> cases h

theorem quiet_patchModule : (patchModule E.toConfig m).All Quiet fun k => quiet (.mark k) = true := by
  refine Prog.all_ifThen fun _ => Prog.All.bind (all_printLog_of fun _ _ => rfl) fun _ => ?_
  refine Prog.all_forEach fun file _ => Prog.All.bind (Prog.all_world.2 trivial) fun w => ?_
  exact Prog.All.bind (Prog.all_run.2 fun _ _ h => by cases h) fun _ => all_orError_of fun _ _ => rfl

theorem triple_md5List : Triple T Alone (Unspoiled T E.toConfig list log₀) (Idle T E.toConfig list log₀)
    (md5List E.toConfig net) fun l v => l = listInUse E.toConfig net ∧ Idle T E.toConfig list log₀ v := by
  have hR : Spares E.toConfig list "" Alone := spares_alone
  refine triple_ite (fun hcurl => triple_ite (fun hno => ?_) fun hno => ?_) fun hcurl => ?_
  · exact triple_pure (firm_idle hR) fun v h => ⟨by simp [listInUse, hno], h⟩
  · refine Triple.bind (triple_quiet hR (Prog.all_note.2 rfl)) fun _ => ?_
    refine Triple.bind (triple_quiet hR (all_orError_of fun _ _ => rfl)) fun _ => ?_
    exact triple_pure (firm_idle hR) fun v h => ⟨by simp [listInUse, hno, hcurl], h⟩
  · refine Triple.bind (triple_quiet hR (Prog.all_note.2 rfl)) fun _ => ?_
    exact triple_pure (firm_idle hR) fun v h => ⟨by simp [listInUse, hcurl], h⟩

theorem triple_fetchModule : Triple T Alone (Unspoiled T E.toConfig list log₀) (Idle T E.toConfig list log₀)
    (fetchModule T E.toConfig net list m) fun _ => Idle T E.toConfig list log₀ := by
  have hR : Spares E.toConfig list m Alone := spares_alone
  refine Triple.bind (triple_quiet hR quiet_removeOld) fun _ => ?_
  refine Triple.bind ?_ fun _ => triple_quiet hR quiet_patchModule
  refine Triple.bind (triple_quiet hR (Prog.all_world.2 trivial)) fun w => ?_
  exact triple_ite (fun _ => triple_quiet hR quiet_copyModule) fun _ => triple_downloadModule hR

theorem triple_doFetch {reset : Bool} :
    Triple T Alone (Unspoiled T E.toConfig (listInUse E.toConfig net) log₀)
      (Idle T E.toConfig (listInUse E.toConfig net) log₀) (doFetch T E.toConfig net reset)
      fun _ => Idle T E.toConfig (listInUse E.toConfig net) log₀ := by
  have hR : Spares E.toConfig (listInUse E.toConfig net) "" Alone := spares_alone
  have hrun_ : ∀ {c : Cmd Label}, Quiet c → Triple T Alone (Unspoiled T E.toConfig (listInUse E.toConfig net) log₀)
      (Idle T E.toConfig (listInUse E.toConfig net) log₀) (run_ c)
      fun _ => Idle T E.toConfig (listInUse E.toConfig net) log₀ := fun hc => triple_quiet hR (Prog.all_run_.2 hc)
  refine Triple.bind (hrun_ fun _ _ h => by cases h) fun _ => ?_
  refine Triple.bind (triple_quiet hR (Prog.all_world.2 trivial)) fun w => triple_ite (fun _ => ?_) fun _ => ?_
  · exact triple_quiet hR (Prog.All.bind (Prog.all_note.2 rfl) fun _ => all_printLog_of fun _ _ => rfl)
  refine Triple.bind (hrun_ fun _ _ h => by cases h) fun _ => ?_
  refine Triple.bind (hrun_ fun _ _ h => by cases h) fun _ => ?_
  refine Triple.bind (hrun_ fun _ _ h => by cases h) fun _ => ?_
  refine Triple.bind (triple_quiet hR (Prog.all_note.2 rfl)) fun _ => ?_
  refine Triple.bind ?_ fun _ => Triple.bind (triple_quiet hR (Prog.all_note.2 rfl)) fun _ => ?_
  · refine Triple.bind triple_md5List fun l v hv => ?_
    obtain ⟨rfl, hv⟩ := hv
    exact triple_forEach (firm_idle hR) (fun _ _ => triple_fetchModule) v hv
  · refine triple_quiet hR (Prog.All.bind (Prog.all_world.2 trivial) fun w => ?_)
    exact Prog.all_ifThen fun _ => Prog.all_run_.2 fun _ _ h => by cases h

/-- A line of the list has these two words. -/
def Gives (list name d : String) : Prop := ∃ l ∈ lines list, words (String.ofList l) = [d, name]

instance (list name d : String) : Decidable (Gives list name d) := inferInstanceAs (Decidable (∃ _ ∈ _, _))

/-- The list of the platform or the online one gives the digest. -/
def Listed (E : Config) (net : Net) (name d : String) : Prop :=
  Gives (E.md5sumTxt.getD "") name d ∨ Gives net.md5sumTxt.2 name d

instance (E : Config) (net : Net) (name d : String) : Decidable (Listed E net name d) :=
  inferInstanceAs (Decidable (_ ∨ _))

/-- The list in use selects something for the module, and no digest but one that is listed for its archive. -/
def Selects (T : Tools) (E : Config) (net : Net) (m : String) : Prop :=
  digestOf (listInUse E net) m ≠ "" ∧ ∀ c, T.md5 c = digestOf (listInUse E net) m →
    Listed E net (m ++ E.qtDownloadUrlPost) (T.md5 c)

/-- In every run of `do_fetch`, wherever it is, what has been unpacked for a module has a digest that is
listed for the module's archive, if the list in use selects one and the archive was meant. -/
theorem extracted_listed {w w' : World Label} {p : Script Unit} {reset : Bool} {evs pre l : List (Event Label)}
    {a : Path} {c : String} (hrun : Reach T Alone (doFetch T E.toConfig net reset, w) (p, w'))
    (hevs : w'.log = evs ++ w.log) (hext : evs = pre ++ .unpacked a c :: .mark (.extract m) :: l)
    (hsel : Selects T E.toConfig net m) (ha : Meant E.toConfig m a) :
    Listed E.toConfig net (m ++ E.qtDownloadUrlPost) (T.md5 c) := by
  have hidle : Idle T E.toConfig (listInUse E.toConfig net) w.log w := ⟨[], rfl, by simp [Past], by simp⟩
  obtain ⟨evs', hl, hp, -⟩ := ((triple_doFetch w hidle).reach hrun).inv
  obtain rfl : evs' = evs := List.append_cancel_right (hl.symm.trans hevs)
  exact hsel.2 c (hp pre a c m l hext ha hsel.1)

end doFetch

/-- One module, with its digest in the list of the platform. -/
def qtbaseEnv : Env :=
  ⟨{ Config.unset ["qt"] "qt5-android-ndk-ivi" with
      buildListTxt := "qtbase"
      qtDownloadUrlPre := "https://download.qt.io"
      qtDownloadUrlPost := "-src.tar.xz"
      md5sumTxt := some "good  qtbase-src.tar.xz" },
    unset_apart ["qt"] "qt5-android-ndk-ivi"⟩

/-- A server that answers the request for its list with this. -/
def qtNet (list : String) : Net := { Net.none with hasCurl := true, md5sumTxt := (0, list) }

/-- The download directory has this file. -/
def qtStart (file content : String) : World Label :=
  ⟨(Fs.empty.mkdirP ["qt", "downloads", "qt5"]).write ["qt", "downloads", "qt5", file] content, []⟩

theorem extracted_listed_qtbase : ∃ p w' l, Reach Tools.sample Alone
    (doFetch Tools.sample qtbaseEnv.toConfig (qtNet "good  qtbase-src.tar.xz") true,
      qtStart "qtbase-src.tar.xz" "good") (p, w') ∧
    w'.log = .mark (.ended .qt5) :: .unpacked ["qt", "downloads", "qt5", "qtbase-src.tar.xz"] "good" ::
      .mark (.extract "qtbase") :: l ∧
    Listed qtbaseEnv.toConfig (qtNet "good  qtbase-src.tar.xz") "qtbase-src.tar.xz" "good" := by
  have hrun : execAny Tools.sample (List.replicate 6 (.done 0))
      (doFetch Tools.sample qtbaseEnv.toConfig (qtNet "good  qtbase-src.tar.xz") true)
      (qtStart "qtbase-src.tar.xz" "good")
      (fun _ w' => w'.log.take 3 = [.mark (.ended .qt5),
        .unpacked ["qt", "downloads", "qt5", "qtbase-src.tar.xz"] "good", .mark (.extract "qtbase")]) = true := by
    decide
  obtain ⟨p, w', hr, hw⟩ := reach_of_execAny hrun
  have hlog : w'.log = [.mark (.ended .qt5)] ++ .unpacked ["qt", "downloads", "qt5", "qtbase-src.tar.xz"] "good" ::
      .mark (.extract "qtbase") :: w'.log.drop 3 := by
    conv_lhs => rw [← List.take_append_drop 3 w'.log, of_decide_eq_true hw]
    rfl
  refine ⟨p, w', _, hr, hlog, ?_⟩
  have hsel : Selects Tools.sample qtbaseEnv.toConfig (qtNet "good  qtbase-src.tar.xz") "qtbase" := by
    refine ⟨by decide, ?_⟩
    rintro c rfl
    decide
  exact extracted_listed hr (List.append_nil _).symm hlog hsel (.inl (by decide))

/-- The server answers the request for its list with an empty body, and an archive that no list has is
unpacked. -/
theorem unverified_extracted : ∃ w', Reach Tools.sample Alone
    (doFetch Tools.sample qtbaseEnv.toConfig (qtNet "") true,
      qtStart "qtbase-src.tar.xz.download_cache" "bad") (.pure (), w') ∧
    .unpacked ["qt", "downloads", "qt5", "qtbase-src.tar.xz"] "bad" ∈ w'.log ∧
    Gives (qtbaseEnv.md5sumTxt.getD "") "qtbase-src.tar.xz" "good" ∧
    ¬ Listed qtbaseEnv.toConfig (qtNet "") "qtbase-src.tar.xz" (Tools.sample.md5 "bad") := by
  have hrun : execAny Tools.sample (List.replicate 10 (.done 0))
      (doFetch Tools.sample qtbaseEnv.toConfig (qtNet "") true)
      (qtStart "qtbase-src.tar.xz.download_cache" "bad") (fun p w' => p.returned &&
        decide (.unpacked ["qt", "downloads", "qt5", "qtbase-src.tar.xz"] "bad" ∈ w'.log)) = true := by decide
  obtain ⟨p, w', hr, hw⟩ := reach_of_execAny hrun
  rw [Bool.and_eq_true, decide_eq_true_eq] at hw
  obtain rfl := eq_pure_of_returned hw.1
  exact ⟨w', hr, hw.2, by decide, by decide⟩

end BuildQt5
