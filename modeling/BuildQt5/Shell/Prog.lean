import BuildQt5.Shell.Fs

/-!
# Commands, programs and runs

A script is a `Prog`: a tree of commands whose continuation gets the exit code (`$?`), with tests of
the file system (`look`), labels for the log (`mark`) and `exit`. `ι` is the type of labels, by
which a development names what its external programs and its messages are about.

A run goes command by command (`Step`). A command may be in the middle of its work (`Cmd.Mid`: an
entry unlinked by `rm -rf`, a part of an archive unpacked) before it finishes (`Cmd.Fin`), so a run
that is killed is a `Step` sequence that stops anywhere. `mkdir -p`, `echo >`, `rm -f` and `mv` are
atomic and do what they are asked to; the tools of `Tools` and the `ext` programs succeed or fail as
they like, and change nothing outside the paths they are given. `R` is what other processes may do
to the file system between two commands; `Alone` is the case without any.
-/

namespace Shell

/-- An archive, as unpacked: one top directory, its tree, and whether the archive is undamaged. -/
structure Archive where
  top : String
  tree : Fs
  whole : Bool

/-- The functions the external tools compute: the digests of a content, what is in an archive of the
given file name and content, the tree a patch makes of a tree, what `file` says of a content. -/
structure Tools where
  md5 : String → String
  sha1 : String → String
  sha256 : String → String
  unpack : String → String → Archive
  patch : String → Fs → Option Fs
  file : String → String

inductive Cmd (ι : Type) where
  | mkdirP (p : Path)
  | write (p : Path) (text : String)
  | rmF (p : Path)
  | rmRf (ps : List Path)
  | mv (src dst : Path)
  /-- `cp -rf src ..`, a file or a tree, to its final name `dst` -/
  | cp (job : ι) (src dst : Path)
  /-- `tar -xf archives.. -C dest` -/
  | tar (archives : List Path) (dest : Path)
  /-- `patch -p1 -N -d dirs.. < text` -/
  | patch (dirs : List Path) (text : String)
  /-- An external program that changes at most what is at or below `foot`; when it succeeds the
  directories `makes` exist. -/
  | ext (job : ι) (foot makes : List Path)

/-- What is recorded of a run, newest first. -/
inductive Event (ι : Type) where
  /-- `mkdir -p` made the directory `p`, which was not there. -/
  | made (p : Path)
  | wrote (p : Path)
  | removed (p : Path)
  /-- `rm -rf ps` ended with this exit code. -/
  | rmExit (ps : List Path) (code : Nat)
  | moved (src dst : Path)
  | unpacked (archive : Path) (content : String)
  | patched (dirs : List Path) (code : Nat)
  | ran (job : ι) (code : Nat)
  | mark (m : ι)
deriving DecidableEq

structure World (ι : Type) where
  fs : Fs
  log : List (Event ι)

variable {ι α β : Type}

namespace Fs

/-- The content of the regular file `p`. -/
def content (fs : Fs) (p : Path) : Option String :=
  match fs.get p with
  | some (.file c) => some c
  | _ => none

theorem content_eq_some {fs : Fs} {p : Path} {c : String} :
    fs.content p = some c ↔ fs.get p = some (.file c) := by
  unfold content; split <;> simp_all

theorem content_mkdirP {fs : Fs} {p q : Path} : (fs.mkdirP p).content q = fs.content q := by
  rcases @get_mkdirP fs p q with h | ⟨h, h', -⟩
  · rw [content, h, content]
  · rw [content, h', content, h]

theorem content_rmF {fs : Fs} {p : Path} :
    (if fs.isFile p then fs.erase p else fs).content p = none := by
  split
  · rename_i hf
    obtain ⟨c, hc⟩ := isFile_iff.1 hf
    rw [content, get_erase_file hc, if_pos rfl]
  · rename_i hf
    unfold content
    split
    · rename_i c hc
      exact absurd (isFile_iff.2 ⟨c, hc⟩) hf
    · rfl

end Fs

/-- `patch` saves the hunks it refuses beside the file it was told to patch. -/
def rejectPath (p : Path) : Path := p.dropLast ++ [p.getLastD "" ++ ".rej"]

namespace Cmd

/-- The one archive `tar` was given, and its content; several arguments are member names to `tar`. -/
def archive (fs : Fs) : List Path → Option (Path × String)
  | [a] => (fs.content a).map fun c => (a, c)
  | _ => none

/-- The directory `tar` unpacks the archive `a` with content `c` to. -/
def topDir (T : Tools) (dest a : Path) (c : String) : Path := dest ++ [(T.unpack (a.getLastD "") c).top]

/-- What `patch` may change: the tree it was given, or, when the second of several arguments is
taken for the file to patch, the rejects beside that one. -/
def patchFoot (fs : Fs) : List Path → List Path
  | [d] => if fs.isDir d then [d] else []
  | _ :: e :: _ => [rejectPath e]
  | [] => []

/-- `c` in the middle of its work: the new file system and what is recorded. -/
inductive Mid (T : Tools) : Cmd ι → Fs → Fs → List (Event ι) → Prop
  | rmRf {ps : List Path} {fs : Fs} {r : Path} (hr : Fs.covers ps r = true) (hr0 : r ≠ [])
      (hg : fs.get r ≠ none) (hl : fs.leaf r = true) : Mid T (.rmRf ps) fs (fs.erase r) [.removed r]
  | tar {as : List Path} {dest a : Path} {c : String} {fs fs' : Fs} (ha : archive fs as = some (a, c))
      (h : Fs.Agree [topDir T dest a c] fs fs') : Mid T (.tar as dest) fs fs' []
  | patch {dirs : List Path} {text : String} {fs fs' : Fs} (h : Fs.Agree (patchFoot fs dirs) fs fs') :
      Mid T (.patch dirs text) fs fs' []
  | cp {job : ι} {src dst : Path} {fs fs' : Fs} (h : Fs.Agree [dst] fs fs') : Mid T (.cp job src dst) fs fs' []
  | ext {job : ι} {foot makes : List Path} {fs fs' : Fs} (h : Fs.Agree foot fs fs') :
      Mid T (.ext job foot makes) fs fs' []

/-- `tar` succeeded on the archive it found: a new top directory holds exactly the archive's tree,
and an old one is unpacked over. -/
def Unpacked (T : Tools) (fs fs' : Fs) (dest : Path) : Option (Path × String) → Prop
  | some (a, c) =>
    (T.unpack (a.getLastD "") c).whole = true ∧ fs.get dest = some .dir ∧
      if fs.get (topDir T dest a c) = none then
        fs' = fs.graft (topDir T dest a c) (T.unpack (a.getLastD "") c).tree
      else Fs.Agree [topDir T dest a c] fs fs' ∧ fs'.get (topDir T dest a c) = some .dir
  | none => False

/-- `tar` failed, perhaps after it had unpacked a part. -/
def PartUnpacked (T : Tools) (fs fs' : Fs) (dest : Path) : Option (Path × String) → Prop
  | some (a, c) => Fs.Agree [topDir T dest a c] fs fs'
  | none => fs' = fs

/-- `mv -f a b` succeeded, `a` being a file with this content. -/
def Moved (fs fs' : Fs) (a b : Path) : Option String → Prop
  | some c => a ≠ b ∧ (fs.write b c).get b = some (.file c) ∧ fs' = (fs.write b c).erase a
  | none => False

/-- Whether `cp` copies the one over the other: no directory over a file and no file over a directory. -/
def replaces : Option Node → Option Node → Bool
  | some .dir, some (.file _) => false
  | some (.file _), some .dir => false
  | _, _ => true

/-- `cp -rf` succeeded, what it was to copy being this: the entries of the tree `src` stand at `dst`,
over and beside what was there. -/
def Copied (fs fs' : Fs) (src dst : Path) : Option Node → Prop
  | some (.file c) => (fs.write dst c).get dst = some (.file c) ∧ fs' = fs.write dst c
  | some .dir => fs.get dst.dropLast = some .dir ∧ Fs.Agree [dst] fs fs' ∧
      (∀ e ∈ (src, .dir) :: fs.entries, src <+: e.1 →
        replaces (fs.get e.1) (fs.get (dst ++ e.1.drop src.length)) = true) ∧
      (∀ e ∈ fs'.entries, dst <+: e.1 → fs'.get e.1 = (fs.get (src ++ e.1.drop dst.length)).or (fs.get e.1)) ∧
      (∀ e ∈ (src, .dir) :: fs.entries, src <+: e.1 → fs'.get (dst ++ e.1.drop src.length) = fs.get e.1) ∧
      ∀ e ∈ fs.entries, dst <+: e.1 → fs'.get e.1 ≠ none
  | none => False

/-- `patch` put `t` in the place of the tree `d`. -/
def Replaced (fs fs' : Fs) (d : Path) : Option Fs → Prop
  | some t => fs.isDir d = true ∧ d ≠ [] ∧ fs' = fs.graft d t
  | none => False

/-- `patch` succeeded, which it does on one directory only. -/
def Patched (T : Tools) (fs fs' : Fs) (text : String) : List Path → Prop
  | [d] => Replaced fs fs' d (T.patch text (fs.sub d))
  | _ => False

/-- `c` ends with the exit code `n`. -/
def Fin (T : Tools) : Cmd ι → Fs → Nat → Fs → Prop
  | .mkdirP p, fs, n, fs' => n = 0 ∧ fs' = fs.mkdirP p
  | .write p c, fs, n, fs' => fs' = fs.write p c ∧ (n = 0 ↔ fs'.get p = some (.file c))
  | .rmF p, fs, n, fs' => n = 0 ∧ fs' = if fs.isFile p then fs.erase p else fs
  | .rmRf ps, fs, n, fs' => fs' = if n = 0 then fs.rmTrees ps else fs
  | .mv a b, fs, n, fs' => if n = 0 then Moved fs fs' a b (fs.content a) else fs' = fs
  | .tar as dest, fs, n, fs' =>
    if n = 0 then Unpacked T fs fs' dest (archive fs as) else PartUnpacked T fs fs' dest (archive fs as)
  | .patch dirs text, fs, n, fs' =>
    if n = 0 then Patched T fs fs' text dirs else Fs.Agree (patchFoot fs dirs) fs fs'
  | .cp _ src dst, fs, n, fs' =>
    if n = 0 then Copied fs fs' src dst (fs.get src) else Fs.Agree [dst] fs fs'
  | .ext _ foot makes, fs, n, fs' =>
    Fs.Agree foot fs fs' ∧ (n = 0 → ∀ p ∈ makes, fs'.get p = some .dir)

/-- What is recorded when `c` ends with the exit code `n`. -/
def events : Cmd ι → Fs → Nat → List (Event ι)
  | .mkdirP p, fs, _ => if fs.get p = none ∧ (fs.mkdirP p).get p = some .dir then [.made p] else []
  | .write p _, _, n => if n = 0 then [.wrote p] else []
  | .rmF p, fs, _ => if fs.isFile p then [.removed p] else []
  | .rmRf ps, fs, n => .rmExit ps n :: if n = 0 then (fs.below ps).map .removed else []
  | .mv a b, _, n => if n = 0 then [.moved a b] else []
  | .tar as _, fs, n => if n = 0 then ((archive fs as).map fun x => .unpacked x.1 x.2).toList else []
  | .patch dirs _, _, n => [.patched dirs n]
  | .cp job _ _, _, n => [.ran job n]
  | .ext job _ _, _, n => [.ran job n]

instance (T : Tools) (fs fs' : Fs) (dest : Path) : (x : Option (Path × String)) →
    Decidable (Unpacked T fs fs' dest x)
  | some (_, _) => inferInstanceAs (Decidable (_ ∧ _ ∧ _))
  | none => inferInstanceAs (Decidable False)

instance (T : Tools) (fs fs' : Fs) (dest : Path) : (x : Option (Path × String)) →
    Decidable (PartUnpacked T fs fs' dest x)
  | some (_, _) => inferInstanceAs (Decidable (Fs.Agree _ _ _))
  | none => inferInstanceAs (Decidable (_ = _))

instance (fs fs' : Fs) (a b : Path) : (x : Option String) → Decidable (Moved fs fs' a b x)
  | some _ => inferInstanceAs (Decidable (_ ∧ _ ∧ _))
  | none => inferInstanceAs (Decidable False)

instance (fs fs' : Fs) (src dst : Path) : (x : Option Node) → Decidable (Copied fs fs' src dst x)
  | some (.file _) => inferInstanceAs (Decidable (_ ∧ _))
  | some .dir => inferInstanceAs (Decidable (_ ∧ _ ∧ _ ∧ _ ∧ _ ∧ _))
  | none => inferInstanceAs (Decidable False)

instance (fs fs' : Fs) (d : Path) : (x : Option Fs) → Decidable (Replaced fs fs' d x)
  | some _ => inferInstanceAs (Decidable (_ ∧ _ ∧ _))
  | none => inferInstanceAs (Decidable False)

instance (T : Tools) (fs fs' : Fs) (text : String) : (dirs : List Path) →
    Decidable (Patched T fs fs' text dirs)
  | [] | _ :: _ :: _ => inferInstanceAs (Decidable False)
  | [_] => inferInstanceAs (Decidable (Replaced _ _ _ _))

instance (T : Tools) (fs : Fs) (n : Nat) (fs' : Fs) : (c : Cmd ι) → Decidable (c.Fin T fs n fs')
  | .mkdirP _ | .write _ _ | .rmF _ => inferInstanceAs (Decidable (_ ∧ _))
  | .rmRf _ => inferInstanceAs (Decidable (_ = _))
  | .mv a b => inferInstanceAs (Decidable (if n = 0 then Moved fs fs' a b (fs.content a) else fs' = fs))
  | .tar as dest => inferInstanceAs (Decidable (if n = 0 then Unpacked T fs fs' dest (archive fs as)
      else PartUnpacked T fs fs' dest (archive fs as)))
  | .patch dirs text => inferInstanceAs (Decidable (if n = 0 then Patched T fs fs' text dirs
      else Fs.Agree (patchFoot fs dirs) fs fs'))
  | .cp _ src dst => inferInstanceAs (Decidable (if n = 0 then Copied fs fs' src dst (fs.get src)
      else Fs.Agree [dst] fs fs'))
  | .ext _ _ _ => inferInstanceAs (Decidable (_ ∧ _))

/-- `c` goes on from `w` to `w'`. -/
def MidW (T : Tools) (c : Cmd ι) (w w' : World ι) : Prop :=
  ∃ evs, c.Mid T w.fs w'.fs evs ∧ w'.log = evs ++ w.log

/-- `c` takes `w` to `w'` and ends with the exit code `n`. -/
def FinW (T : Tools) (c : Cmd ι) (w : World ι) (n : Nat) (w' : World ι) : Prop :=
  c.Fin T w.fs n w'.fs ∧ w'.log = c.events w.fs n ++ w.log

end Cmd

/-- A script over the labels `ι` with a value in `α`. -/
inductive Prog (ι α : Type) where
  | pure (a : α)
  | exit (code : Nat)
  | look (k : World ι → Prog ι α)
  | mark (m : ι) (k : Prog ι α)
  | cmd (c : Cmd ι) (k : Nat → Prog ι α)

namespace Prog

def bind (f : α → Prog ι β) : Prog ι α → Prog ι β
  | .pure a => f a
  | .exit n => .exit n
  | .look k => .look fun w => (k w).bind f
  | .mark m k => .mark m (k.bind f)
  | .cmd c k => .cmd c fun n => (k n).bind f

instance : Monad (Prog ι) where
  pure := .pure
  bind p f := p.bind f

theorem bind_eq (p : Prog ι α) (f : α → Prog ι β) : p >>= f = p.bind f := rfl

theorem bind_assoc {γ : Type} (p : Prog ι α) (f : α → Prog ι β) (g : β → Prog ι γ) :
    p >>= f >>= g = p >>= fun a => f a >>= g := by
  simp only [bind_eq]
  induction p with
  | pure a => rfl
  | exit n => rfl
  | look k ih => exact congrArg Prog.look (funext ih)
  | mark m k ih => exact congrArg (Prog.mark m) ih
  | cmd c k ih => exact congrArg (Prog.cmd c) (funext ih)

/-- The state a test of the shell sees. -/
def world : Prog ι (World ι) := .look .pure

/-- A command, its exit code kept. -/
def run (c : Cmd ι) : Prog ι Nat := .cmd c .pure

/-- A command, its exit code not looked at. -/
def run_ (c : Cmd ι) : Prog ι Unit := .cmd c fun _ => .pure ()

def note (m : ι) : Prog ι Unit := .mark m (.pure ())

/-- `if c; then p; fi` -/
def ifThen (c : Bool) (p : Prog ι Unit) : Prog ι Unit := if c then p else .pure ()

/-- `for x in xs; do f x; done` -/
def forEach (f : β → Prog ι Unit) : List β → Prog ι Unit
  | [] => .pure ()
  | x :: xs => f x >>= fun _ => forEach f xs

end Prog

/-- No other process. -/
def Alone (_ _ : World ι) : Prop := False

/-- One step of a run, among other processes that do `R`. -/
inductive Step (T : Tools) (R : World ι → World ι → Prop) : Prog ι α × World ι → Prog ι α × World ι → Prop
  | look {k : World ι → Prog ι α} {w : World ι} : Step T R (.look k, w) (k w, w)
  | mark {m : ι} {k : Prog ι α} {w : World ι} : Step T R (.mark m k, w) (k, ⟨w.fs, .mark m :: w.log⟩)
  | mid {c : Cmd ι} {k : Nat → Prog ι α} {w w' : World ι} (h : c.MidW T w w') :
      Step T R (.cmd c k, w) (.cmd c k, w')
  | fin {c : Cmd ι} {k : Nat → Prog ι α} {w w' : World ι} {n : Nat} (h : c.FinW T w n w') :
      Step T R (.cmd c k, w) (k n, w')
  | other {p : Prog ι α} {w w' : World ι} (h : R w w') : Step T R (p, w) (p, w')

/-- A run of any length. -/
def Reach (T : Tools) (R : World ι → World ι → Prop) : Prog ι α × World ι → Prog ι α × World ι → Prop :=
  Relation.ReflTransGen (Step T R)

end Shell
