import BuildQt5.Shell.Fs

/-!
# Text

The text functions of the shell and of the tools a script pipes text through, on lists of characters.
-/

namespace Shell

/-- `tr '[a-z]' '[A-Z]'` -/
def upper (s : String) : String := String.ofList (s.toList.map Char.toUpper)

/-- Slashes at the end do not count. -/
def basename (s : String) : String :=
  String.ofList (((s.toList.reverse.dropWhile (· = '/')).takeWhile (· ≠ '/')).reverse)

theorem basename_slash {pre name : String} (hne : name ≠ "") (h : '/' ∉ name.toList) :
    basename (pre ++ "/" ++ name) = name := by
  have hrev : (pre ++ "/" ++ name).toList.reverse = name.toList.reverse ++ '/' :: pre.toList.reverse := by simp
  have hchars : ∀ c ∈ name.toList.reverse, c ≠ '/' := by
    rintro c hc rfl
    exact h (List.mem_reverse.1 hc)
  have hdrop : (name.toList.reverse ++ '/' :: pre.toList.reverse).dropWhile (· = '/') =
      name.toList.reverse ++ '/' :: pre.toList.reverse := by
    cases hl : name.toList.reverse with
    | nil => exact absurd (String.toList_eq_nil_iff.1 (List.reverse_eq_nil_iff.1 hl)) hne
    | cons c cs => simp [hchars c (by simp [hl])]
  have htake : (name.toList.reverse ++ '/' :: pre.toList.reverse).takeWhile (· ≠ '/') = name.toList.reverse := by
    rw [List.takeWhile_append_of_pos fun c hc => by simpa using hchars c hc]
    simp
  rw [basename, hrev, hdrop, htake, List.reverse_reverse, String.ofList_toList]

/-- `${s/old/new}`: the first occurrence replaced. -/
def replaceFirst (old new : List Char) : List Char → List Char
  | [] => if old = [] then new else []
  | c :: cs => if old <+: c :: cs then new ++ (c :: cs).drop old.length else c :: replaceFirst old new cs

def isBlank (c : Char) : Bool := c = ' ' || c = '\t' || c = '\n'

def wordChars (cs : List Char) : List (List Char) := (cs.splitOnP isBlank).filter (· ≠ [])

/-- The words an unquoted variable is split into. -/
def words (s : String) : List String := (wordChars s.toList).map String.ofList

def lines (s : String) : List (List Char) := s.toList.splitOnP (· = '\n')

section split
variable {cs w : List Char} {c : Char}

theorem wordChars_append_cons (x y : List Char) (hc : isBlank c = true) :
    wordChars (x ++ c :: y) = wordChars x ++ wordChars y := by
  rw [wordChars, List.splitOnP_append_cons x y hc, List.filter_append]
  rfl

theorem flatten_splitOnP (p : Char → Bool) (cs : List Char) : (cs.splitOnP p).flatten = cs.filter (!p ·) := by
  induction cs with
  | nil => rfl
  | cons c cs ih =>
    rw [List.splitOnP_cons_eq_if_modifyHead]
    obtain ⟨r, rs, hr⟩ := List.exists_cons_of_ne_nil (List.splitOnP_ne_nil p cs)
    rw [hr] at ih ⊢
    cases hc : p c <;> simp_all

theorem flatten_wordChars : (wordChars cs).flatten = cs.filter (!isBlank ·) := by
  rw [← flatten_splitOnP, wordChars]
  generalize cs.splitOnP isBlank = l
  induction l with
  | nil => rfl
  | cons w l ih => cases w <;> simp_all

theorem ne_nil_of_mem_wordChars (h : w ∈ wordChars cs) : w ≠ [] := by
  simpa using (List.mem_filter.1 h).2

theorem not_blank_of_mem_wordChars (h : w ∈ wordChars cs) (hc : c ∈ w) : isBlank c = false := by
  have hf : c ∈ cs.filter (!isBlank ·) := (@flatten_wordChars cs) ▸ List.mem_flatten.2 ⟨w, h, hc⟩
  simpa using (List.mem_filter.1 hf).2

theorem wordChars_of_word (hw : w ≠ []) (h : ∀ c ∈ w, isBlank c = false) : wordChars w = [w] := by
  rw [wordChars, List.splitOnP_eq_singleton h]
  simp [hw]

/-- The first piece begins with whatever there is before the first separator. -/
theorem splitOnP_append {p : Char → Bool} {x : List Char} (hx : ∀ c ∈ x, p c = false) (y : List Char) :
    ∃ r rs, y.splitOnP p = r :: rs ∧ (x ++ y).splitOnP p = (x ++ r) :: rs := by
  obtain ⟨r, rs, hr⟩ := List.exists_cons_of_ne_nil (List.splitOnP_ne_nil p y)
  refine ⟨r, rs, hr, ?_⟩
  induction x with
  | nil => exact hr
  | cons c x ih =>
    rw [List.cons_append, List.splitOnP_cons_eq_if_modifyHead, ih fun d hd => hx d (List.mem_cons_of_mem _ hd),
      hx c List.mem_cons_self]
    rfl

theorem wordChars_append {x y : List Char} (hne : x ≠ []) (hx : ∀ c ∈ x, isBlank c = false) :
    ∃ r ws, wordChars (x ++ y) = (x ++ r) :: ws := by
  obtain ⟨r, rs, -, hr⟩ := splitOnP_append hx y
  refine ⟨r, rs.filter (· ≠ []), ?_⟩
  rw [wordChars, hr, List.filter_cons_of_pos (by simp [hne])]

/-- The words of a text are the words of its lines. -/
theorem wordChars_lines (cs : List Char) : wordChars cs = (cs.splitOnP (· = '\n')).flatMap wordChars := by
  induction hn : cs.length using Nat.strong_induction_on generalizing cs with
  | _ n ih =>
    subst hn
    by_cases h : '\n' ∈ cs
    · obtain ⟨x, y, rfl⟩ := List.append_of_mem h
      rw [wordChars_append_cons x y rfl, List.splitOnP_append_cons x y (by simp), List.flatMap_append,
        ← ih x.length (by simp) x rfl, ← ih y.length (by simp; omega) y rfl]
    · have hline : ∀ c ∈ cs, decide (c = '\n') = false := by
        intro c hc
        simpa using fun hn : c = '\n' => h (hn ▸ hc)
      rw [List.splitOnP_eq_singleton hline, List.flatMap_singleton]

end split

/-- `awk '{print $1}'` on one line. -/
def firstField (l : List Char) : String := String.ofList ((l.dropWhile isBlank).takeWhile (!isBlank ·))

theorem firstField_append {w rest : List Char} {c : Char} (hw : w ≠ []) (h : ∀ c ∈ w, isBlank c = false)
    (hc : isBlank c = true) : firstField (w ++ c :: rest) = String.ofList w := by
  obtain ⟨a, w', rfl⟩ := List.exists_cons_of_ne_nil hw
  have ha : isBlank a = false := h a List.mem_cons_self
  rw [firstField, List.cons_append, List.dropWhile_cons_of_neg (by simp [ha]), ← List.cons_append,
    List.takeWhile_append_of_pos (by simpa using h), List.takeWhile_cons_of_neg (by simp [hc]), List.append_nil]

section join
variable {ls ls' : List String}

theorem lines_join (hne : ls ≠ []) (h : ∀ l ∈ ls, '\n' ∉ l.toList) :
    lines ("\n".intercalate ls) = ls.map String.toList := by
  have hsplit := @List.splitOn_intercalate Char (ls.map String.toList) _ _ '\n' (by simpa using h) (by simpa using hne)
  rw [lines, String.toList_intercalate]
  exact hsplit

/-- Lines that are not empty can be told from their text. -/
theorem join_inj (h : ∀ l ∈ ls, l ≠ "" ∧ '\n' ∉ l.toList) (h' : ∀ l ∈ ls', l ≠ "" ∧ '\n' ∉ l.toList) :
    "\n".intercalate ls = "\n".intercalate ls' ↔ ls = ls' := by
  refine ⟨fun heq => ?_, fun heq => heq ▸ rfl⟩
  have hread : ∀ ks : List String, (∀ l ∈ ks, l ≠ "" ∧ '\n' ∉ l.toList) →
      (lines ("\n".intercalate ks)).filter (· ≠ []) = ks.map String.toList := by
    intro ks hks
    by_cases hne : ks = []
    · rw [hne]; rfl
    · rw [lines_join hne fun l hl => (hks l hl).2, List.filter_eq_self]
      intro x hx
      obtain ⟨l, hl, rfl⟩ := List.mem_map.1 hx
      simpa using (hks l hl).1
  have hmap : ls.map String.toList = ls'.map String.toList := by rw [← hread ls h, heq, hread ls' h']
  exact List.map_injective_iff.2 (fun _ _ => String.toList_injective) hmap

end join

/-! ### echo -e -/

/-- Where `echo -e` is in an escape: none, after the backslash, or in the digits of `\0`, `\x`, `\u` or `\U`
(the base, how many more may come, the value so far, and what to print if there was none). -/
inductive Escape where
  | none
  | slash
  | digits (base left value : Nat) (otherwise : List Char)

def hexValue (c : Char) : Option Nat :=
  if '0' ≤ c ∧ c ≤ '9' then some (c.toNat - '0'.toNat)
  else if 'a' ≤ c ∧ c ≤ 'f' then some (c.toNat - 'a'.toNat + 10)
  else if 'A' ≤ c ∧ c ≤ 'F' then some (c.toNat - 'A'.toNat + 10)
  else .none

/-- The character of an escape by one letter. -/
def escaped : Char → Option Char
  | 'a' => some '\x07'
  | 'b' => some '\x08'
  | 'e' | 'E' => some '\x1b'
  | 'f' => some '\x0c'
  | 'n' => some '\n'
  | 'r' => some '\r'
  | 't' => some '\t'
  | 'v' => some '\x0b'
  | '\\' => some '\\'
  | _ => .none

/-- What `echo -e` prints from here on; `\c` ends it. -/
def unescapeFrom : Escape → List Char → List Char
  | .none, [] => []
  | .slash, [] => ['\\']
  | .digits _ _ _ otherwise, [] => otherwise
  | .none, c :: cs => if c = '\\' then unescapeFrom .slash cs else c :: unescapeFrom .none cs
  | .slash, c :: cs =>
    match escaped c with
    | some d => d :: unescapeFrom .none cs
    | .none =>
      if c = 'c' then []
      else if c = '0' then unescapeFrom (.digits 8 3 0 [Char.ofNat 0]) cs
      else if c = 'x' then unescapeFrom (.digits 16 2 0 ['\\', 'x']) cs
      else if c = 'u' then unescapeFrom (.digits 16 4 0 ['\\', 'u']) cs
      else if c = 'U' then unescapeFrom (.digits 16 8 0 ['\\', 'U']) cs
      else '\\' :: c :: unescapeFrom .none cs
  | .digits base left value otherwise, c :: cs =>
    match left, (hexValue c).filter (· < base) with
    | left + 1, some d => unescapeFrom (.digits base left (value * base + d) [Char.ofNat (value * base + d)]) cs
    | _, _ => otherwise ++ if c = '\\' then unescapeFrom .slash cs else c :: unescapeFrom .none cs

def unescape : List Char → List Char := unescapeFrom .none

theorem unescape_eq_self {cs : List Char} (h : '\\' ∉ cs) : unescape cs = cs := by
  unfold unescape
  induction cs with
  | nil => rfl
  | cons c cs ih =>
    simp only [List.mem_cons, not_or] at h
    rw [unescapeFrom, if_neg (Ne.symm h.1), ih h.2]

theorem unescape_cons {c : Char} {cs : List Char} (h : c ≠ '\\') : unescape (c :: cs) = c :: unescape cs := by
  unfold unescape
  rw [unescapeFrom, if_neg h]

/-- A word `echo` takes for options. -/
def isEchoOption (s : String) : Bool :=
  match s.toList with
  | '-' :: c :: cs => (c :: cs).all fun d => d = 'n' || d = 'e' || d = 'E'
  | _ => false

/-- `echo`, with or without the escapes; the newline at the end is left out. -/
def echoWords : Bool → List String → List Char
  | _, [] => []
  | escapes, s :: args =>
    if isEchoOption s then
      echoWords (s.toList.foldl (fun b c => if c = 'e' then true else if c = 'E' then false else b) escapes) args
    else
      let text := (" ".intercalate (s :: args)).toList
      if escapes then unescape text else text

/-- `echo -e $text`, without the quotes that would keep blanks. -/
def echoE (text : String) : String := String.ofList (unescape (" ".intercalate (words text)).toList)

def joinPath (p : Path) : String := "/".intercalate p

def splitPath (s : String) : Path := ((s.toList.splitOnP (· = '/')).filter (· ≠ [])).map String.ofList

/-! ### Patterns -/

/-- The pattern `m*`. -/
def star (m x : String) : Bool := m.toList <+: x.toList

/-- The pattern `m-*`. -/
def dash (m x : String) : Bool := (m ++ "-").toList <+: x.toList

/-- The pattern `pre*post`. -/
def between (pre post x : String) : Bool :=
  pre.toList <+: x.toList && post.toList <:+ x.toList.drop pre.toList.length

/-- The names a pattern or `ls` sees. -/
def visible (x : String) : Bool := x.toList.head? ≠ some '.'

theorem dash_iff {m x : String} : dash m x = true ↔ (m ++ "-").toList <+: x.toList := by simp [dash]

theorem star_of_dash {m x : String} (h : dash m x = true) : star m x = true := by
  rw [dash_iff, String.toList_append] at h
  simpa [star] using (List.prefix_append _ _).trans h

/-- Of two names for one tree one begins with the other and a `-`. -/
theorem eq_of_dash {m m' x : String} (h : dash m x = true) (h' : dash m' x = true) (hn : dash m m' = false)
    (hn' : dash m' m = false) : m = m' := by
  have hcase : ∀ a b : String, (a ++ "-").toList <+: (b ++ "-").toList → dash a b = false → a = b := by
    intro a b hp hab
    have hdash : ∀ c : String, (c ++ "-").toList = c.toList ++ ['-'] := fun c => String.toList_append
    rw [hdash b, List.prefix_concat_iff, hdash a] at hp
    rcases hp with hp | hp
    · exact String.toList_inj.1 (List.append_cancel_right hp)
    · rw [← hdash, ← dash_iff, hab] at hp
      cases hp
  rw [dash_iff] at h h'
  rcases List.prefix_or_prefix_of_prefix h h' with hp | hp
  · exact hcase m m' hp hn
  · exact (hcase m' m hp hn').symm

theorem dash_of_not_mem {m m' : String} (h : '-' ∉ m'.toList) : dash m m' = false := by
  refine Bool.eq_false_iff.2 fun hd => h ?_
  rw [dash_iff, String.toList_append] at hd
  exact hd.subset (by simp)

end Shell
