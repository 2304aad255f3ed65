import BuildQt5.Shell.Text

/-!
# Pathname expansion

An unquoted word with one of the characters `*`, `?` and `[` stands for the paths that match it, component by
component, or for itself when there is none.
-/

namespace Shell

/-! ### Patterns -/

inductive Atom where
  | lit (c : Char)
  | one
  | many
  | set (negated : Bool) (ranges : List (Char × Char))

def Atom.accepts : Atom → Char → Bool
  | .lit d, c => c = d
  | .one, _ | .many, _ => true
  | .set negated ranges, c => (ranges.any fun r => decide (r.1 ≤ c ∧ c ≤ r.2)) != negated

/-- The characters between the brackets, as ranges. -/
def toRanges : List Char → List (Char × Char)
  | a :: '-' :: b :: cs => (a, b) :: toRanges cs
  | a :: cs => (a, a) :: toRanges cs
  | [] => []

/-- A set whose `[` has been read, and what follows it; a `]` is literal at its beginning. -/
def readSet (cs : List Char) : Option (Atom × List Char) :=
  let (negated, cs) := match cs with
    | '!' :: cs | '^' :: cs => (true, cs)
    | cs => (false, cs)
  match cs with
  | [] => none
  | c :: cs =>
    match cs.dropWhile (· ≠ ']') with
    | [] => none
    | _ :: rest => some (.set negated (toRanges (c :: cs.takeWhile (· ≠ ']'))), rest)

/-- The pattern a word is read as, from at most `n` characters of it. -/
def readPattern : Nat → List Char → List Atom
  | 0, _ | _, [] => []
  | n + 1, '*' :: cs => .many :: readPattern n cs
  | n + 1, '?' :: cs => .one :: readPattern n cs
  | n + 1, '\\' :: c :: cs => .lit c :: readPattern n cs
  | n + 1, '[' :: cs =>
    match readSet cs with
    | some (a, rest) => a :: readPattern n rest
    | none => .lit '[' :: readPattern n cs
  | n + 1, c :: cs => .lit c :: readPattern n cs

def fits : List Atom → List Char → Bool
  | [], s => s = []
  | .many :: p, s => s.tails.any (fits p)
  | _ :: _, [] => false
  | a :: p, c :: s => a.accepts c && fits p s

def isPattern (s : String) : Bool := s.toList.any fun c => c = '*' || c = '?' || c = '['

/-- Whether the name `x` matches; a leading dot is matched by a dot only. -/
def matchName (pattern x : String) : Bool :=
  (visible x || pattern.toList.head? = some '.') && fits (readPattern pattern.toList.length pattern.toList) x.toList

/-- A character that no pattern begins with. -/
def plainChar (c : Char) : Prop := c ≠ '*' ∧ c ≠ '?' ∧ c ≠ '[' ∧ c ≠ '\\'

theorem readPattern_cons {n : Nat} {c : Char} {cs : List Char} (h : plainChar c) :
    readPattern (n + 1) (c :: cs) = .lit c :: readPattern n cs := by
  obtain ⟨h1, h2, h3, h4⟩ := h
  rw [readPattern]
  all_goals simp_all

/-- The first character of a name that matches is one that the first atom of the pattern accepts. -/
theorem head_of_matchName {pattern x : String} {a : Atom} {p : List Atom} (ha : a ≠ .many)
    (hp : readPattern pattern.toList.length pattern.toList = a :: p) (h : matchName pattern x = true) :
    ∃ c, x.toList.head? = some c ∧ a.accepts c = true := by
  rw [matchName, hp, Bool.and_eq_true] at h
  cases hx : x.toList with
  | nil =>
    rw [hx] at h
    cases a <;> simp_all [fits]
  | cons c s =>
    refine ⟨c, rfl, ?_⟩
    rw [hx] at h
    cases a with
    | many => exact absurd rfl ha
    | _ =>
      simp only [fits, Bool.and_eq_true] at h
      exact h.2.1

/-- Plain characters are read as themselves. -/
theorem readPattern_append {cs r : List Char} (h : ∀ c ∈ cs, plainChar c) (k : Nat) :
    readPattern (cs.length + k) (cs ++ r) = cs.map .lit ++ readPattern k r := by
  induction cs with
  | nil => rw [List.length_nil, Nat.zero_add]; rfl
  | cons c cs ih =>
    rw [List.length_cons, Nat.add_right_comm, List.cons_append, readPattern_cons (h c List.mem_cons_self),
      ih fun d hd => h d (List.mem_cons_of_mem _ hd)]
    rfl

theorem fits_many {p : List Atom} {s : List Char} : fits (.many :: p) s = true ↔ ∃ t, t <:+ s ∧ fits p t = true := by
  simp [fits]

theorem fits_lits {cs s : List Char} {p : List Atom} :
    fits (cs.map .lit ++ p) s = true ↔ ∃ t, s = cs ++ t ∧ fits p t = true := by
  induction cs generalizing s with
  | nil => simp
  | cons c cs ih =>
    cases s with
    | nil => simp [fits]
    | cons d s =>
      simp only [List.map_cons, List.cons_append, fits, Atom.accepts, Bool.and_eq_true, decide_eq_true_eq, ih,
        List.cons.injEq]
      exact ⟨fun ⟨hd, t, ht, hp⟩ => ⟨t, ⟨hd, ht⟩, hp⟩, fun ⟨t, ⟨hd, ht⟩, hp⟩ => ⟨hd, t, ht, hp⟩⟩

/-- `*d*` with a plain `d` matches the texts that contain `d`. -/
theorem fits_contains {d s : List Char} (h : ∀ c ∈ d, plainChar c) :
    fits (readPattern (d.length + 2) ('*' :: (d ++ ['*']))) s = true ↔ d <:+: s := by
  have hread : readPattern (d.length + 2) ('*' :: (d ++ ['*'])) = .many :: (d.map .lit ++ [.many]) := by
    rw [readPattern, readPattern_append h 1]
    rfl
  rw [hread, fits_many]
  constructor
  · rintro ⟨t, ⟨a, rfl⟩, ht⟩
    obtain ⟨b, rfl, -⟩ := fits_lits.1 ht
    exact ⟨a, b, by simp⟩
  · rintro ⟨a, b, rfl⟩
    refine ⟨d ++ b, ⟨a, by simp⟩, fits_lits.2 ⟨b, rfl, fits_many.2 ⟨[], List.nil_suffix, rfl⟩⟩⟩

/-! ### Expansion -/

/-- The paths below `base` that match the components `r`, there or not where none of them is a pattern. -/
def expandFrom (fs : Fs) : Path → Path → List Path
  | base, [] => [base]
  | base, x :: r =>
    if isPattern x then (fs.glob base (matchName x)).flatMap fun y => expandFrom fs (base ++ [y]) r
    else expandFrom fs (base ++ [x]) r

/-- What the path `r` below the plain path `base` expands to, unquoted. -/
def pathExpand (fs : Fs) (base r : Path) : List Path :=
  if r.any isPattern then
    match (expandFrom fs base r).filter fun q => fs.get q ≠ none with
    | [] => [r]
    | qs => qs.map (List.drop base.length)
  else [r]

/-- What the word `s` expands to in the working directory `cwd`. -/
def wordExpand (fs : Fs) (cwd : Path) (s : String) : List String :=
  if isPattern s then
    let base := if s.toList.head? = some '/' then [] else cwd
    match (expandFrom fs base (splitPath s)).filter fun q => fs.get q ≠ none with
    | [] => [s]
    | qs => qs.map fun q => (if s.toList.head? = some '/' then "/" else "") ++ joinPath (q.drop base.length)
  else [s]

section expand
variable {fs : Fs} {p q : Path} {cwd : Path} {s : String}

theorem pathExpand_plain (h : ∀ x ∈ p, isPattern x = false) : pathExpand fs q p = [p] := by
  rw [pathExpand, if_neg]
  simpa using h

theorem expandFrom_ge {base r : Path} (h : q ∈ expandFrom fs base r) : base <+: q := by
  induction r generalizing base with
  | nil => rw [List.mem_singleton.1 h]
  | cons x r ih =>
    rw [expandFrom] at h
    split at h
    · obtain ⟨y, -, hq⟩ := List.mem_flatMap.1 h
      exact (List.prefix_append _ _).trans (ih hq)
    · exact (List.prefix_append _ _).trans (ih h)

theorem expandFrom_perm {fs' : Fs} {base r : Path} (h : ∀ p, fs'.get (base ++ p) = fs.get (base ++ p)) :
    (expandFrom fs' base r).Perm (expandFrom fs base r) := by
  induction r generalizing base with
  | nil => exact .refl _
  | cons x r ih =>
    have hbelow : ∀ (y : String) p, fs'.get (base ++ [y] ++ p) = fs.get (base ++ [y] ++ p) := fun y p => by
      rw [List.append_assoc, h]
    rw [expandFrom, expandFrom]
    split
    · exact ((Fs.names_perm fun y => h [y]).filter _).flatMap fun y _ => ih (hbelow y)
    · exact ih (hbelow x)

/-- So is an expansion. -/
theorem pathExpand_perm {fs' : Fs} {base r : Path} (h : ∀ p, fs'.get (base ++ p) = fs.get (base ++ p)) :
    (pathExpand fs' base r).Perm (pathExpand fs base r) := by
  have hkeep : (expandFrom fs' base r).filter (fun q => fs'.get q ≠ none) =
      (expandFrom fs' base r).filter fun q => fs.get q ≠ none := by
    refine List.filter_congr fun q hq => ?_
    obtain ⟨s, rfl⟩ := expandFrom_ge hq
    rw [h s]
  have hperm : ((expandFrom fs' base r).filter fun q => fs'.get q ≠ none).Perm
      ((expandFrom fs base r).filter fun q => fs.get q ≠ none) := hkeep ▸ (expandFrom_perm h).filter _
  unfold pathExpand
  split
  · cases hB : (expandFrom fs base r).filter fun q => fs.get q ≠ none with
    | nil => rw [hB] at hperm; rw [hperm.eq_nil]
    | cons q qs =>
      cases hA : (expandFrom fs' base r).filter fun q => fs'.get q ≠ none with
      | nil => rw [hA, hB] at hperm; exact absurd hperm.symm.eq_nil (by simp)
      | cons q' qs' => rw [hA, hB] at hperm; exact hperm.map _
  · exact .refl _

theorem expandFrom_head {base r : Path} {x : String} (h : q ∈ expandFrom fs base (x :: r)) :
    ∃ y r', q = base ++ y :: r' ∧ (y = x ∨ matchName x y = true) := by
  rw [expandFrom] at h
  split at h
  · obtain ⟨y, hy, hq⟩ := List.mem_flatMap.1 h
    obtain ⟨r', rfl⟩ := expandFrom_ge hq
    exact ⟨y, r', by simp, .inr (Fs.mem_glob.1 hy).2⟩
  · obtain ⟨r', rfl⟩ := expandFrom_ge h
    exact ⟨x, r', by simp, .inl rfl⟩

theorem splitPath_head {q : List Char} (hne : q ≠ []) (hq : '/' ∉ q) (hs : q <+: s.toList) :
    ∃ x r, splitPath s = x :: r ∧ q <+: x.toList := by
  obtain ⟨t, ht⟩ := hs
  obtain ⟨y, ys, -, hy⟩ := splitOnP_append (p := (· = '/')) (x := q)
    (fun c hc => by simpa using fun h : c = '/' => hq (h ▸ hc)) t
  refine ⟨String.ofList (q ++ y), (ys.filter (· ≠ [])).map String.ofList, ?_, by simp⟩
  rw [splitPath, ← ht, hy, List.filter_cons_of_pos (by simp [hne]), List.map_cons]

/-- What a word is expanded to begins as the word does, or with a character that the first atom of the word accepts. -/
theorem head_of_wordExpand_atom {x : String} {q : List Char} {a : Atom} (hne : q ≠ []) (hq : '/' ∉ q) (ha : a ≠ .many)
    (hread : ∀ r, ∃ p, readPattern (q ++ r).length (q ++ r) = a :: p) (hs : q <+: s.toList)
    (hx : x ∈ wordExpand fs cwd s) :
    x.toList.head? = q.head? ∨ ∃ c, x.toList.head? = some c ∧ a.accepts c = true := by
  obtain ⟨d, q', rfl⟩ := List.exists_cons_of_ne_nil hne
  have hhead : ∀ y : String, d :: q' <+: y.toList → y.toList.head? = some d := by
    rintro y ⟨r, hr⟩
    rw [← hr]
    rfl
  have habs : ¬ s.toList.head? = some '/' := by
    rw [hhead s hs]
    simpa using fun h : d = '/' => hq (h ▸ List.mem_cons_self)
  unfold wordExpand at hx
  rw [if_neg habs, if_neg habs] at hx
  split at hx
  · obtain ⟨b, r, hsplit, hb⟩ := splitPath_head hne hq hs
    simp only [hsplit] at hx
    split at hx
    · rw [List.mem_singleton.1 hx]
      exact .inl (hhead s hs)
    · obtain ⟨q, hq, rfl⟩ := List.mem_map.1 hx
      obtain ⟨y, r', rfl, hy⟩ := expandFrom_head (List.mem_filter.1 hq).1
      have hfirst : ∃ c, y.toList.head? = some c ∧ (c = d ∨ a.accepts c = true) := by
        rcases hy with rfl | hy
        · exact ⟨d, hhead y hb, .inl rfl⟩
        · obtain ⟨t, ht⟩ := hb
          obtain ⟨p, hp⟩ := hread t
          rw [ht] at hp
          obtain ⟨c, hc, hac⟩ := head_of_matchName ha hp hy
          exact ⟨c, hc, .inr hac⟩
      obtain ⟨c, hc, hcd⟩ := hfirst
      obtain ⟨cs, hcs⟩ := List.head?_eq_some_iff.1 hc
      have hout : ("" ++ joinPath (List.drop cwd.length (cwd ++ y :: r'))).toList.head? = some c := by
        cases r' with
        | nil => simp [joinPath, hcs]
        | cons z r' => simp [joinPath, hcs, String.intercalate_cons_cons]
      rcases hcd with rfl | hac
      · exact .inl hout
      · exact .inr ⟨c, hout, hac⟩
  · rw [List.mem_singleton.1 hx]
    exact .inl (hhead s hs)

/-- Expansion keeps a plain first character. -/
theorem head_of_wordExpand {x : String} {c : Char} (hc : plainChar c) (hc' : c ≠ '/') (hs : s.toList.head? = some c)
    (hx : x ∈ wordExpand fs cwd s) : x.toList.head? = some c := by
  obtain ⟨cs, hcs⟩ := List.head?_eq_some_iff.1 hs
  have hread : ∀ r, ∃ p, readPattern ([c] ++ r).length ([c] ++ r) = .lit c :: p := fun r => ⟨_, readPattern_cons hc⟩
  rcases head_of_wordExpand_atom (q := [c]) (by simp) (by simpa using Ne.symm hc') (by simp) hread ⟨cs, hcs.symm⟩ hx with
    h | ⟨d, hd, hacc⟩
  · exact h
  · rw [hd, show d = c by simpa [Atom.accepts] using hacc]

theorem wordExpand_ne_nil : wordExpand fs cwd s ≠ [] := by
  unfold wordExpand
  split
  · simp only
    split
    · simp
    · rename_i hne
      simpa using hne
  · simp

theorem wordExpand_plain (h : isPattern s = false) : wordExpand fs cwd s = [s] := by
  rw [wordExpand, if_neg (by simp [h])]

end expand

end Shell
