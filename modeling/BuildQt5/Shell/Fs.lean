import Mathlib

/-!
# File systems as trees of named entries

A file system is a list of entries (path and node, newer entries first) that is closed under
parents: every entry lies in a directory. The operations below (`mkdir`, `write`, `prune` and what
is built from them) keep that by construction, so a value of `Fs` is always a tree. Everything
else reads an `Fs` through `Fs.get`, and a directory listing (`Fs.names`) is determined by it.
-/

namespace Shell

/-- A path, one component at a time from the root; `[]` is the root. -/
abbrev Path := List String

inductive Node where
  | dir
  | file (content : String)
deriving DecidableEq, Repr

def lookupNode (l : List (Path × Node)) (p : Path) : Option Node :=
  if p = [] then some .dir else l.lookup p

structure Fs where
  entries : List (Path × Node)
  closed : ∀ e ∈ entries, e.1 ≠ [] ∧ lookupNode entries e.1.dropLast = some .dir
deriving DecidableEq

/-! ### Lists of entries -/

section entries
variable {l l' : List (Path × Node)} {p q d : Path} {n : Node}

theorem lookupNode_of_ne (hp : p ≠ []) : lookupNode l p = l.lookup p := by simp [lookupNode, hp]

theorem lookup_cons_ne (h : p ≠ q) : ((q, n) :: l).lookup p = l.lookup p := by
  rw [List.lookup_cons, beq_false_of_ne h]

theorem lookupNode_cons : lookupNode ((p, n) :: l) q = if q ≠ [] ∧ q = p then some n else lookupNode l q := by
  unfold lookupNode
  by_cases hq : q = []
  · simp [hq]
  · by_cases h : q = p
    · subst h; simp [hq]
    · simp [hq, lookup_cons_ne h, h]

theorem exists_of_lookup (h : l.lookup p ≠ none) : ∃ n, (p, n) ∈ l := by
  obtain ⟨n, hn⟩ := Option.ne_none_iff_exists'.1 h
  obtain ⟨a, b, rfl, -⟩ := List.lookup_eq_some_iff.1 hn
  exact ⟨n, by simp⟩

theorem lookup_ne_none_of_mem (h : (p, n) ∈ l) : l.lookup p ≠ none := by
  intro h0
  have := List.lookup_eq_none_iff.1 h0 _ h
  simp at this

theorem lookup_filter (keep : Path → Bool) :
    (l.filter fun e => keep e.1).lookup p = if keep p then l.lookup p else none := by
  induction l with
  | nil => simp
  | cons e l ih =>
    obtain ⟨q, m⟩ := e
    by_cases hq : keep q
    · by_cases h : p = q
      · subst h; simp [hq]
      · simp [hq, lookup_cons_ne h, ih]
    · by_cases h : p = q
      · subst h; simp [hq, ih]
      · simp [hq, lookup_cons_ne h, ih]

/-- Entries moved below `d`. -/
def shift (d : Path) (l : List (Path × Node)) : List (Path × Node) := l.map fun e => (d ++ e.1, e.2)

theorem lookup_shift : (shift d l).lookup (d ++ p) = l.lookup p := by
  induction l with
  | nil => rfl
  | cons e l ih =>
    obtain ⟨q, m⟩ := e
    simp only [shift, List.map_cons] at ih ⊢
    by_cases h : p = q
    · subst h; simp
    · rw [lookup_cons_ne h, lookup_cons_ne (by simpa using h), ih]

theorem lookup_shift_of_not (h : ¬ d <+: p) : (shift d l).lookup p = none := by
  rw [List.lookup_eq_none_iff]
  intro e he
  obtain ⟨e', -, rfl⟩ := List.mem_map.1 he
  simp only [bne_iff_ne, ne_eq]
  rintro rfl
  exact h (List.prefix_append ..)

/-- The entries strictly below `d`, with paths relative to it. -/
def relative (d : Path) (l : List (Path × Node)) : List (Path × Node) :=
  l.filterMap fun e => if d <+: e.1 ∧ e.1 ≠ d then some (e.1.drop d.length, e.2) else none

theorem lookup_relative (hp : p ≠ []) : (relative d l).lookup p = l.lookup (d ++ p) := by
  induction l with
  | nil => rfl
  | cons e l ih =>
    obtain ⟨q, m⟩ := e
    unfold relative at ih ⊢
    by_cases h : d <+: q ∧ q ≠ d
    · obtain ⟨⟨r, rfl⟩, -⟩ := id h
      rw [List.filterMap_cons_some (b := (r, m)) (by simp [h])]
      by_cases hr : p = r
      · subst hr; simp
      · rw [lookup_cons_ne hr, lookup_cons_ne (by simpa using hr), ih]
    · rw [List.filterMap_cons_none (by simp [h]), ih]
      have hne : d ++ p ≠ q := by
        rintro rfl; exact h ⟨List.prefix_append .., by simpa using hp⟩
      rw [lookup_cons_ne hne]

theorem relative_append : relative d (l ++ l') = relative d l ++ relative d l' := List.filterMap_append

theorem relative_shift (h : ∀ e ∈ l, e.1 ≠ []) : relative d (shift d l) = l := by
  induction l with
  | nil => rfl
  | cons e l ih =>
    have he : e.1 ≠ [] := h e (by simp)
    have ih := ih fun e' he' => h e' (by simp [he'])
    unfold relative shift at ih ⊢
    rw [List.map_cons, List.filterMap_cons_some (b := e) (by simp [he]), ih]

theorem relative_eq_nil (h : ∀ e ∈ l, ¬ d <+: e.1 ∨ e.1 = d) : relative d l = [] := by
  rw [relative, List.filterMap_eq_nil_iff]
  intro e he
  rcases h e he with h | h <;> simp [h]

end entries

namespace Fs
variable {fs : Fs} {p q d : Path} {n : Node}

/-! ### Reading -/

def empty : Fs := ⟨[], by simp⟩

def get (fs : Fs) (p : Path) : Option Node := lookupNode fs.entries p

def isDir (fs : Fs) (p : Path) : Bool := fs.get p = some .dir

def isFile (fs : Fs) (p : Path) : Bool :=
  match fs.get p with
  | some (.file _) => true
  | _ => false

theorem isDir_iff : fs.isDir p = true ↔ fs.get p = some .dir := by simp [isDir]

theorem isFile_iff : fs.isFile p = true ↔ ∃ c, fs.get p = some (.file c) := by
  unfold isFile; split <;> simp_all

@[simp] theorem get_nil : fs.get [] = some .dir := by simp [get, lookupNode]

theorem get_eq_lookup (hp : p ≠ []) : fs.get p = fs.entries.lookup p := lookupNode_of_ne hp

theorem mem_of_get (hp : p ≠ []) (h : fs.get p ≠ none) : ∃ n, (p, n) ∈ fs.entries :=
  exists_of_lookup (by rwa [get_eq_lookup hp] at h)

theorem get_of_mem (h : (p, n) ∈ fs.entries) : fs.get p ≠ none := by
  rw [get_eq_lookup (fs.closed _ h).1]; exact lookup_ne_none_of_mem h

/-- An entry lies in a directory. -/
theorem get_dropLast (h : fs.get p ≠ none) : fs.get p.dropLast = some .dir := by
  by_cases hp : p = []
  · simp [hp]
  · obtain ⟨n, hn⟩ := mem_of_get hp h
    exact (fs.closed _ hn).2

theorem get_append (r : Path) (h : fs.get (p ++ r) ≠ none) (hr : r ≠ []) : fs.get p = some .dir := by
  induction r using List.reverseRecOn with
  | nil => exact absurd rfl hr
  | append_singleton r x ih =>
    have hd := get_dropLast h
    rw [← List.append_assoc, List.dropLast_concat] at hd
    by_cases hr' : r = []
    · simpa [hr'] using hd
    · exact ih (by simp [hd]) hr'

/-- Everything strictly above an entry is a directory. -/
theorem get_above (h : fs.get q ≠ none) (hpq : p <+: q) (hne : p ≠ q) : fs.get p = some .dir := by
  obtain ⟨r, rfl⟩ := hpq
  exact get_append r h (by rintro rfl; simp at hne)

theorem get_eq_none_below (h : fs.get p = none) (hpq : p <+: q) : fs.get q = none := by
  by_contra hq
  by_cases hne : p = q
  · subst hne; exact hq h
  · rw [get_above hq hpq hne] at h; cases h

/-! ### Directory listings -/

/-- The names in the directory `d`, sorted (`ls`, and what a glob ranges over). -/
def names (fs : Fs) (d : Path) : List String :=
  ((fs.entries.filterMap fun e => if e.1.dropLast = d then e.1.getLast? else none).dedup).insertionSort
    (· ≤ ·)

theorem mem_names {x : String} : x ∈ fs.names d ↔ fs.get (d ++ [x]) ≠ none := by
  unfold names
  rw [List.mem_insertionSort, List.mem_dedup, List.mem_filterMap]
  constructor
  · rintro ⟨⟨p, m⟩, hp, h⟩
    split at h
    · rename_i hd
      obtain ⟨q, rfl⟩ := List.getLast?_eq_some_iff.1 h
      rw [List.dropLast_concat] at hd
      subst hd
      exact get_of_mem hp
    · cases h
  · intro h
    obtain ⟨m, hm⟩ := mem_of_get (by simp) h
    exact ⟨_, hm, by simp⟩

theorem nodup_names : (fs.names d).Nodup :=
  (List.perm_insertionSort _ _).nodup_iff.2 (List.nodup_dedup _)

/-- A listing is determined by what is there, up to its order. -/
theorem names_perm {fs' : Fs} (h : ∀ x, fs'.get (d ++ [x]) = fs.get (d ++ [x])) : (fs'.names d).Perm (fs.names d) := by
  rw [List.perm_ext_iff_of_nodup nodup_names nodup_names]
  intro x
  rw [mem_names, mem_names, h]

/-- The names in `d` that satisfy `f`, sorted: pathname expansion in the directory `d`. -/
def glob (fs : Fs) (d : Path) (f : String → Bool) : List String := (fs.names d).filter f

theorem mem_glob {f : String → Bool} {x : String} :
    x ∈ fs.glob d f ↔ fs.get (d ++ [x]) ≠ none ∧ f x = true := by
  simp [glob, mem_names]

theorem glob_eq_singleton {f : String → Bool} {x : String} (hx : fs.get (d ++ [x]) ≠ none) (hf : f x = true)
    (h : ∀ y, fs.get (d ++ [y]) ≠ none → f y = true → y = x) : fs.glob d f = [x] := by
  have hnd : (fs.glob d f).Nodup := nodup_names.filter _
  have hmem : ∀ y, y ∈ fs.glob d f ↔ y = x := fun y =>
    ⟨fun hy => h y (mem_glob.1 hy).1 (mem_glob.1 hy).2, fun hy => hy ▸ mem_glob.2 ⟨hx, hf⟩⟩
  match hg : fs.glob d f with
  | [] => have := (hmem x).2 rfl; simp [hg] at this
  | [y] => rw [(hmem y).1 (by simp [hg])]
  | y :: z :: r =>
    rw [hg] at hnd
    have hy := (hmem y).1 (by simp [hg])
    have hz := (hmem z).1 (by simp [hg])
    simp [hy, hz] at hnd

/-! ### New entries -/

theorem dropLast_ne_self (hp : p ≠ []) : p.dropLast ≠ p := by
  intro h
  have := congrArg List.length h
  rw [List.length_dropLast] at this
  have := List.length_pos_iff.2 hp
  omega

/-- A new entry in an existing directory, not over a directory. -/
def put (fs : Fs) (p : Path) (n : Node) (hp : p ≠ []) (hd : fs.get p.dropLast = some .dir)
    (hn : fs.get p ≠ some .dir) : Fs where
  entries := (p, n) :: fs.entries
  closed := by
    intro e he
    rcases List.mem_cons.1 he with rfl | he
    · refine ⟨hp, ?_⟩
      rw [lookupNode_cons, if_neg (fun h => dropLast_ne_self hp h.2)]
      exact hd
    · obtain ⟨h0, h1⟩ := fs.closed e he
      refine ⟨h0, ?_⟩
      rw [lookupNode_cons, if_neg]
      · exact h1
      · rintro ⟨-, h⟩
        rw [h] at h1
        exact hn h1

theorem get_put {hp : p ≠ []} {hd : fs.get p.dropLast = some .dir} {hn : fs.get p ≠ some .dir} :
    (fs.put p n hp hd hn).get q = if q = p then some n else fs.get q := by
  show lookupNode ((p, n) :: fs.entries) q = _
  rw [lookupNode_cons]
  by_cases h : q = p
  · subst h; simp [hp]
  · simp [h, get]

/-- `mkdir p`: nothing happens when `p` exists or its parent is no directory. -/
def mkdir (fs : Fs) (p : Path) : Fs :=
  if h : p ≠ [] ∧ fs.get p.dropLast = some .dir ∧ fs.get p = none then
    fs.put p .dir h.1 h.2.1 (by simp [h.2.2])
  else fs

theorem get_mkdir : (fs.mkdir p).get q =
    if q = p ∧ fs.get p.dropLast = some .dir ∧ fs.get p = none then some .dir else fs.get q := by
  unfold mkdir
  split
  · rename_i h; rw [get_put]; simp [h.2]
  · rename_i h
    by_cases hp : p = []
    · simp [hp]
    · rw [if_neg]; rintro ⟨-, h'⟩; exact h ⟨hp, h'⟩

/-- `echo c > p`: nothing happens when `p` is a directory or its parent is none. -/
def write (fs : Fs) (p : Path) (c : String) : Fs :=
  if h : p ≠ [] ∧ fs.get p.dropLast = some .dir ∧ fs.get p ≠ some .dir then
    fs.put p (.file c) h.1 h.2.1 h.2.2
  else fs

theorem get_write {c : String} : (fs.write p c).get q =
    if q = p ∧ fs.get p.dropLast = some .dir ∧ fs.get p ≠ some .dir then some (.file c) else fs.get q := by
  unfold write
  split
  · rename_i h; rw [get_put]; simp [h.2]
  · rename_i h
    by_cases hp : p = []
    · simp [hp]
    · rw [if_neg]; rintro ⟨-, h'⟩; exact h ⟨hp, h'⟩

theorem get_write_of_ne {c : String} (h : q ≠ p) : (fs.write p c).get q = fs.get q := by
  simp [get_write, h]

def mkdirFrom (fs : Fs) (base : Path) : Path → Fs
  | [] => fs
  | x :: r => (fs.mkdir (base ++ [x])).mkdirFrom (base ++ [x]) r

/-- `mkdir -p p`. -/
def mkdirP (fs : Fs) (p : Path) : Fs := fs.mkdirFrom [] p

theorem get_mkdirFrom (base r : Path) : (fs.mkdirFrom base r).get q = fs.get q ∨
    fs.get q = none ∧ (fs.mkdirFrom base r).get q = some .dir ∧ q <+: base ++ r := by
  induction r generalizing fs base with
  | nil => exact .inl rfl
  | cons x r ih =>
    have hq : (fs.mkdir (base ++ [x])).get q = _ := get_mkdir
    rcases @ih (fs.mkdir (base ++ [x])) (base ++ [x]) with h | ⟨h0, h1, h2⟩
    · rw [mkdirFrom, h, hq]
      split
      · rename_i hc
        obtain ⟨rfl, -, hn⟩ := hc
        exact .inr ⟨hn, rfl, by simp⟩
      · exact .inl rfl
    · rw [hq] at h0
      split at h0
      · cases h0
      · exact .inr ⟨h0, h1, by simpa using h2⟩

theorem isDir_mkdirFrom (base r : Path) (hb : fs.get base = some .dir)
    (h : ∀ q, q <+: base ++ r → fs.get q = none ∨ fs.get q = some .dir) :
    (fs.mkdirFrom base r).get (base ++ r) = some .dir := by
  induction r generalizing fs base with
  | nil => simpa [mkdirFrom] using hb
  | cons x r ih =>
    have hx : (fs.mkdir (base ++ [x])).get (base ++ [x]) = some .dir := by
      rw [get_mkdir]
      rcases h (base ++ [x]) (by simp) with h | h <;> simp [h, hb]
    have := @ih (fs.mkdir (base ++ [x])) (base ++ [x]) hx fun q hq => by
      rw [get_mkdir]
      split
      · exact .inr rfl
      · exact h q (by simpa using hq)
    simpa [mkdirFrom] using this

theorem get_mkdirP : (fs.mkdirP p).get q = fs.get q ∨
    fs.get q = none ∧ (fs.mkdirP p).get q = some .dir ∧ q <+: p :=
  get_mkdirFrom [] p

theorem get_mkdirP_of_some (h : fs.get q = some n) : (fs.mkdirP p).get q = some n := by
  rcases @get_mkdirP fs p q with h' | ⟨h', -⟩
  · rw [h', h]
  · rw [h] at h'; cases h'

theorem get_mkdirP_of_not (h : ¬ q <+: p) : (fs.mkdirP p).get q = fs.get q := by
  rcases @get_mkdirP fs p q with h' | ⟨-, -, h'⟩
  · exact h'
  · exact absurd h' h

/-- `mkdir -p` makes the directory unless a file stands in the way. -/
theorem isDir_mkdirP (h : ∀ q, q <+: p → fs.get q = none ∨ fs.get q = some .dir) :
    (fs.mkdirP p).get p = some .dir :=
  isDir_mkdirFrom [] p get_nil (by simpa using h)

/-! ### Removal -/

/-- Keep the paths in `keep`, a set that contains the parents of its members. -/
def prune (fs : Fs) (keep : Path → Bool)
    (h : ∀ p, p ≠ [] → keep p = true → p.dropLast = [] ∨ keep p.dropLast = true ∨ fs.get p = none) : Fs where
  entries := fs.entries.filter fun e => keep e.1
  closed := by
    rintro ⟨p, n⟩ he
    obtain ⟨he, hk⟩ := List.mem_filter.1 he
    obtain ⟨h0, h1⟩ := fs.closed _ he
    refine ⟨h0, ?_⟩
    rcases h p h0 hk with hp | hp | hp
    · simp [hp, lookupNode]
    · by_cases hd : p.dropLast = []
      · simp [hd, lookupNode]
      · rw [lookupNode_of_ne hd] at h1
        simp only
        rw [lookupNode_of_ne hd, lookup_filter, if_pos hp, h1]
    · exact absurd hp (get_of_mem he)

theorem get_prune {keep : Path → Bool} {h} (hq : q ≠ []) :
    (fs.prune keep h).get q = if keep q then fs.get q else none := by
  rw [get_eq_lookup hq, get_eq_lookup hq]
  exact lookup_filter keep

/-- No entry lies strictly below `p`. -/
def leaf (fs : Fs) (p : Path) : Bool := fs.entries.all fun e => !(decide (p <+: e.1) && decide (e.1 ≠ p))

theorem leaf_iff : fs.leaf p = true ↔ ∀ q, p <+: q → q ≠ p → fs.get q = none := by
  simp only [leaf, List.all_eq_true, Bool.not_eq_true', Bool.and_eq_false_iff, decide_eq_false_iff_not]
  constructor
  · intro h q hq hne
    by_contra hg
    obtain ⟨n, hn⟩ := mem_of_get (by rintro rfl; exact hne (List.prefix_nil.1 hq).symm) hg
    rcases h _ hn with h | h
    · exact h hq
    · exact h hne
  · rintro h ⟨q, n⟩ he
    by_contra hc
    push Not at hc
    exact get_of_mem he (h q hc.1 hc.2)

theorem leaf_of_file {c : String} (h : fs.get p = some (.file c)) : fs.leaf p = true := by
  refine leaf_iff.2 fun q hq hne => ?_
  by_contra hg
  rw [get_above hg hq hne.symm] at h
  cases h

/-- Unlink a file or remove an empty directory; nothing happens when `p` is not empty. -/
def erase (fs : Fs) (p : Path) : Fs :=
  if h : fs.leaf p = true then
    fs.prune (fun q => q ≠ p) fun q hq _ => by
      by_cases hp : q.dropLast = p
      · right; right
        refine leaf_iff.1 h q (hp ▸ List.dropLast_prefix q) fun hqp => ?_
        exact dropLast_ne_self hq (hp.trans hqp.symm)
      · exact .inr (.inl (by simpa using hp))
  else fs

theorem get_erase (hp : p ≠ []) : (fs.erase p).get q = if q = p ∧ fs.leaf p = true then none else fs.get q := by
  unfold erase
  split
  · rename_i h
    by_cases hq : q = []
    · subst hq; simp [Ne.symm hp]
    · rw [get_prune hq]; by_cases hqp : q = p <;> simp [hqp, h]
  · rename_i h; simp [h]

/-- `p` is at or below one of the paths `ps`. -/
def covers (ps : List Path) (p : Path) : Bool := ps.any fun q => decide (q <+: p)

theorem covers_iff {ps : List Path} : covers ps p = true ↔ ∃ q ∈ ps, q <+: p := by simp [covers]

theorem get_erase_file {c : String} (h : fs.get p = some (.file c)) :
    (fs.erase p).get q = if q = p then none else fs.get q := by
  have hp : p ≠ [] := by rintro rfl; simp at h
  simp [get_erase hp, leaf_of_file h]

/-- Everything at or below the paths `ps` removed. -/
def rmTrees (fs : Fs) (ps : List Path) : Fs :=
  fs.prune (fun q => !covers ps q) fun q _ hk => by
    by_cases hd : covers ps q.dropLast = true
    · obtain ⟨r, hr, hrq⟩ := covers_iff.1 hd
      have : covers ps q = true := covers_iff.2 ⟨r, hr, hrq.trans (List.dropLast_prefix q)⟩
      simp [this] at hk
    · exact .inr (.inl (by simpa using hd))

theorem get_rmTrees {ps : List Path} (hq : q ≠ []) :
    (fs.rmTrees ps).get q = if covers ps q then none else fs.get q := by
  rw [rmTrees, get_prune hq]
  cases covers ps q <;> simp

/-- The paths of the entries at or below `ps`. -/
def below (fs : Fs) (ps : List Path) : List Path := ((fs.entries.map Prod.fst).filter (covers ps)).dedup

theorem mem_below {ps : List Path} : p ∈ fs.below ps ↔ p ≠ [] ∧ fs.get p ≠ none ∧ covers ps p = true := by
  simp only [below, List.mem_dedup, List.mem_filter, List.mem_map]
  constructor
  · rintro ⟨⟨⟨q, n⟩, he, rfl⟩, hc⟩
    exact ⟨(fs.closed _ he).1, get_of_mem he, hc⟩
  · rintro ⟨hp, hg, hc⟩
    obtain ⟨n, hn⟩ := mem_of_get hp hg
    exact ⟨⟨_, hn, rfl⟩, hc⟩

/-! ### Subtrees -/

/-- What lies below `d`, as a file system of its own. -/
def sub (fs : Fs) (d : Path) : Fs where
  entries := relative d fs.entries
  closed := by
    intro e he
    obtain ⟨⟨q, n⟩, hq, h⟩ := List.mem_filterMap.1 he
    split at h
    · rename_i hd
      obtain ⟨⟨r, rfl⟩, hne⟩ := hd
      have hr : r ≠ [] := by rintro rfl; simp at hne
      simp only [Option.some.injEq] at h
      subst h
      simp only [List.drop_left]
      refine ⟨hr, ?_⟩
      by_cases hd : r.dropLast = []
      · simp [hd, lookupNode]
      · rw [lookupNode_of_ne hd, lookup_relative hd]
        have := (fs.closed _ hq).2
        rw [List.dropLast_append_of_ne_nil hr, lookupNode_of_ne (by simp [hd])] at this
        exact this
    · cases h

theorem get_sub {r : Path} (hr : r ≠ []) : (fs.sub d).get r = fs.get (d ++ r) := by
  rw [get_eq_lookup hr, get_eq_lookup (by simp [hr])]
  exact lookup_relative hr

theorem get_eq_of_sub {d' : Path} (hd : fs.get d = fs.get d') (h : fs.sub d = fs.sub d') (r : Path) :
    fs.get (d ++ r) = fs.get (d' ++ r) := by
  by_cases hr : r = []
  · simpa [hr] using hd
  · rw [← get_sub hr, h, get_sub hr]

theorem lookup_nil_entries : fs.entries.lookup [] = none := by
  rw [List.lookup_eq_none_iff]
  intro e he
  simpa using Ne.symm (fs.closed e he).1

/-- `fs` with the tree `t` in place of whatever was at or below `d`; `d` must lie in a directory. -/
def graft (fs : Fs) (d : Path) (t : Fs) : Fs :=
  if h : d ≠ [] ∧ fs.get d.dropLast = some .dir then
    { entries := shift d t.entries ++ (d, .dir) :: fs.entries.filter fun e => !decide (d <+: e.1)
      closed := by
        have hfar : ∀ q, ¬ d <+: q → lookupNode (shift d t.entries ++ (d, .dir) ::
            fs.entries.filter fun e => !decide (d <+: e.1)) q = fs.get q := by
          intro q hq
          by_cases hq0 : q = []
          · simp [hq0, lookupNode]
          · have hne : q ≠ d := by rintro rfl; exact hq (List.prefix_refl _)
            rw [lookupNode_of_ne hq0, List.lookup_append, lookup_shift_of_not hq, Option.none_or,
              lookup_cons_ne hne, lookup_filter (fun q => !decide (d <+: q)), get_eq_lookup hq0]
            simp [hq]
        intro e he
        rcases List.mem_append.1 he with he | he
        · obtain ⟨⟨r, n⟩, hr, rfl⟩ := List.mem_map.1 he
          obtain ⟨hr0, hr1⟩ := t.closed _ hr
          refine ⟨by simp [hr0], ?_⟩
          simp only [List.dropLast_append_of_ne_nil hr0]
          rw [lookupNode_of_ne (by simp [h.1]), List.lookup_append, lookup_shift]
          by_cases hd : r.dropLast = []
          · rw [hd, lookup_nil_entries]; simp
          · rw [lookupNode_of_ne hd] at hr1; simp [hr1]
        · rcases List.mem_cons.1 he with rfl | he
          · refine ⟨h.1, ?_⟩
            rw [hfar _ (fun hd => dropLast_ne_self h.1
              ((List.dropLast_prefix d).eq_of_length_le hd.length_le))]
            exact h.2
          · obtain ⟨he, hk⟩ := List.mem_filter.1 he
            obtain ⟨h0, h1⟩ := fs.closed e he
            refine ⟨h0, ?_⟩
            rw [hfar]
            · exact h1
            · intro hd
              simp [hd.trans (List.dropLast_prefix _)] at hk }
  else fs

section graft
variable {t : Fs} (hd : d ≠ []) (h : fs.get d.dropLast = some .dir)
include hd h

theorem get_graft_self : (fs.graft d t).get d = some .dir := by
  have hs := lookup_shift (d := d) (l := t.entries) (p := [])
  rw [List.append_nil, lookup_nil_entries] at hs
  rw [graft, dif_pos ⟨hd, h⟩, get_eq_lookup hd]
  simp only
  rw [List.lookup_append, hs]
  simp

theorem get_graft_append {r : Path} : (fs.graft d t).get (d ++ r) = t.get r := by
  by_cases hr : r = []
  · subst hr; rw [List.append_nil, get_graft_self hd h, get_nil]
  · rw [graft, dif_pos ⟨hd, h⟩, get_eq_lookup (by simp [hd]), get_eq_lookup hr]
    simp only
    rw [List.lookup_append, lookup_shift, lookup_cons_ne (by simpa using hr),
      lookup_filter (fun q => !decide (d <+: q))]
    simp

theorem sub_graft : (fs.graft d t).sub d = t := by
  have : relative d (fs.graft d t).entries = t.entries := by
    rw [graft, dif_pos ⟨hd, h⟩, relative_append, relative_shift fun e he => (t.closed e he).1,
      relative_eq_nil, List.append_nil]
    intro e he
    rcases List.mem_cons.1 he with rfl | he
    · exact .inr rfl
    · exact .inl (by simpa using (List.mem_filter.1 he).2)
  obtain ⟨l, hl⟩ := t
  simp only [sub, this]

end graft

theorem get_graft_of_not {t : Fs} (hq : ¬ d <+: q) : (fs.graft d t).get q = fs.get q := by
  unfold graft
  split
  · by_cases hq0 : q = []
    · simp [hq0]
    · have hne : q ≠ d := by rintro rfl; exact hq (List.prefix_refl _)
      rw [get_eq_lookup hq0, get_eq_lookup hq0]
      simp only
      rw [List.lookup_append, lookup_shift_of_not hq, Option.none_or,
        lookup_cons_ne hne, lookup_filter (fun q => !decide (d <+: q))]
      simp [hq]
  · rfl

section graft
variable {t t' : Fs} (hd : d ≠ []) (h : fs.get d.dropLast = some .dir)
include hd h

/-- A second tree takes the place of the first. -/
theorem graft_graft : (fs.graft d t).graft d t' = fs.graft d t' := by
  have hup : (fs.graft d t).get d.dropLast = some .dir :=
    (get_graft_of_not fun hp => dropLast_ne_self hd ((List.dropLast_prefix d).eq_of_length_le hp.length_le)).trans h
  have hrest : (fs.graft d t).entries.filter (fun e => !decide (d <+: e.1)) =
      fs.entries.filter fun e => !decide (d <+: e.1) := by
    have hshift : (shift d t.entries).filter (fun e => !decide (d <+: e.1)) = [] := by
      rw [List.filter_eq_nil_iff]
      intro e he
      obtain ⟨e', -, rfl⟩ := List.mem_map.1 he
      simp
    rw [graft, dif_pos ⟨hd, h⟩]
    simp only [List.filter_append, hshift, List.nil_append]
    rw [List.filter_cons_of_neg (by simp), List.filter_filter]
    simp only [Bool.and_self]
  have hone : (fs.graft d t).graft d t' = ⟨_, _⟩ := dif_pos ⟨hd, hup⟩
  have htwo : fs.graft d t' = ⟨_, _⟩ := dif_pos ⟨hd, h⟩
  rw [hone, htwo]
  simp only [hrest]

/-- The names beside a tree that was there stay. -/
theorem glob_graft {D : Path} {z : String} {f : String → Bool} (hD : d = D ++ [z]) (hz : fs.get d = some .dir) :
    ((fs.graft d t).glob D f).Perm (fs.glob D f) := by
  refine (names_perm fun x => ?_).filter _
  by_cases hx : x = z
  · rw [hx, ← hD, get_graft_self hd h, hz]
  · refine get_graft_of_not fun hp => hx ?_
    rw [hD] at hp
    simpa using (hp.eq_of_length (by simp)).symm

end graft

/-! ### Changes confined to a region -/

/-- `fs` and `fs'` differ at most at or below the paths `foot`. -/
def Agree (foot : List Path) (fs fs' : Fs) : Prop := ∀ p, covers foot p = false → fs'.get p = fs.get p

/-- `Agree`, checked on the entries of both. -/
def agreeB (foot : List Path) (fs fs' : Fs) : Bool :=
  (fs.entries ++ fs'.entries).all fun e => covers foot e.1 || fs'.get e.1 == fs.get e.1

theorem agreeB_iff {foot : List Path} {fs' : Fs} : agreeB foot fs fs' = true ↔ Agree foot fs fs' := by
  simp only [agreeB, List.all_eq_true, Bool.or_eq_true, beq_iff_eq]
  constructor
  · intro h p hp
    by_cases hp0 : p = []
    · simp [hp0]
    · by_contra hne
      have hmem : ∃ n, (p, n) ∈ fs.entries ++ fs'.entries := by
        by_cases hg : fs.get p = none
        · rw [hg] at hne
          obtain ⟨n, hn⟩ := mem_of_get hp0 hne
          exact ⟨n, by simp [hn]⟩
        · obtain ⟨n, hn⟩ := mem_of_get hp0 hg
          exact ⟨n, by simp [hn]⟩
      obtain ⟨n, hn⟩ := hmem
      rcases h _ hn with h | h
      · simp [h] at hp
      · exact hne h
  · intro h e _
    by_cases hc : covers foot e.1 = true
    · exact .inl hc
    · exact .inr (h _ (by simpa using hc))

instance (foot : List Path) (fs fs' : Fs) : Decidable (Agree foot fs fs') :=
  decidable_of_iff _ agreeB_iff

/-- What `fs'` has at and below `d` can be put there in `fs`. -/
theorem exists_transplant {fs' : Fs} (hd : d ≠ []) (h : fs'.get d ≠ none → fs.get d.dropLast = some .dir) :
    ∃ fs'' : Fs, Agree [d] fs fs'' ∧ ∀ r, fs''.get (d ++ r) = fs'.get (d ++ r) := by
  have hrm : ∀ q, (fs.rmTrees [d]).get q = if d <+: q then none else fs.get q := by
    intro q
    by_cases hq : q = []
    · simp [hq, hd]
    · rw [get_rmTrees hq]; simp [covers]
  have hnot : ∀ q, covers [d] q = false → ¬ d <+: q := fun q hq => by simpa [covers] using hq
  have hup : ¬ d <+: d.dropLast := fun hpre =>
    dropLast_ne_self hd ((List.dropLast_prefix d).eq_of_length_le hpre.length_le)
  rcases hg : fs'.get d with _ | _ | c
  · refine ⟨fs.rmTrees [d], fun q hq => by rw [hrm, if_neg (hnot q hq)], fun r => ?_⟩
    rw [hrm, if_pos (List.prefix_append _ _), get_eq_none_below hg (List.prefix_append _ _)]
  · have hdir := h (by simp [hg])
    refine ⟨fs.graft d (fs'.sub d), fun q hq => get_graft_of_not (hnot q hq), fun r => ?_⟩
    rw [get_graft_append hd hdir]
    by_cases hr : r = []
    · rw [hr, get_nil, List.append_nil, hg]
    · rw [get_sub hr]
  · have hdir := h (by simp [hg])
    have hput : (fs.rmTrees [d]).get d.dropLast = some .dir ∧ (fs.rmTrees [d]).get d ≠ some .dir := by
      rw [hrm, hrm, if_neg hup, if_pos (List.prefix_refl _)]
      exact ⟨hdir, by simp⟩
    refine ⟨(fs.rmTrees [d]).write d c, fun q hq => ?_, fun r => ?_⟩
    · have hne : q ≠ d := by rintro rfl; exact hnot _ hq (List.prefix_refl _)
      rw [get_write_of_ne hne, hrm, if_neg (hnot q hq)]
    · by_cases hr : r = []
      · rw [hr, List.append_nil, get_write, if_pos ⟨rfl, hput⟩, hg]
      · rw [get_write_of_ne (by simpa using hr), hrm, if_pos (List.prefix_append _ _)]
        by_contra hne
        rw [get_append r (Ne.symm hne) hr] at hg
        cases hg

theorem Agree.refl (foot : List Path) (fs : Fs) : Agree foot fs fs := fun _ _ => rfl

theorem Agree.trans {foot : List Path} {a b c : Fs} (h : Agree foot a b) (h' : Agree foot b c) :
    Agree foot a c := fun p hp => (h' p hp).trans (h p hp)

end Fs

end Shell
