import BuildQt5.Shell.Glob
import BuildQt5.Shell.Paths

/-!
# echo -e of an unquoted variable

`echo -e $text` splits the text into words, expands each against the working directory, joins what it gets by single
blanks and decodes the escapes. `echoVar_eq_iff` says when the text comes out with its `\n` turned into line breaks and
nothing else changed.
-/

namespace Shell

/-! ### Line breaks -/

/-- The text with each `\n` turned into a line break. -/
def breakLines : List Char → List Char
  | '\\' :: 'n' :: cs => '\n' :: breakLines cs
  | c :: cs => c :: breakLines cs
  | [] => []

/-- There is no backslash other than in a `\n`. -/
def onlyBreaks : List Char → Bool
  | '\\' :: 'n' :: cs => onlyBreaks cs
  | c :: cs => c ≠ '\\' && onlyBreaks cs
  | [] => true

section breaks
variable {cs ds : List Char} {c : Char}

theorem breakLines_cons (h : c ≠ '\\') : breakLines (c :: cs) = c :: breakLines cs := by
  rw [breakLines]
  simp [h]

theorem onlyBreaks_cons (h : c ≠ '\\') : onlyBreaks (c :: cs) = onlyBreaks cs := by
  rw [onlyBreaks]
  · simp [h]
  · simp [h]

/-- A text with line breaks only, read from its beginning. -/
@[elab_as_elim]
theorem onlyBreaks_induction {motive : (cs : List Char) → onlyBreaks cs = true → Prop} (nil : motive [] rfl)
    (brk : ∀ cs (h : onlyBreaks cs = true), motive cs h → motive ('\\' :: 'n' :: cs) h)
    (char : ∀ c cs (hc : c ≠ '\\') (h : onlyBreaks cs = true), motive cs h →
      motive (c :: cs) ((onlyBreaks_cons hc).trans h)) (cs : List Char) (h : onlyBreaks cs = true) : motive cs h := by
  fun_induction onlyBreaks cs with
  | case1 cs ih => exact brk cs h (ih h)
  | case2 c cs hne ih =>
    have h' := h
    rw [onlyBreaks] at h'
    · obtain ⟨hc, hcs⟩ : c ≠ '\\' ∧ onlyBreaks cs = true := by simpa using h'
      exact char c cs hc hcs (ih hcs)
    · exact hne
  | case3 => exact nil

theorem onlyBreaks_of_not_mem (h : '\\' ∉ cs) : onlyBreaks cs = true := by
  induction cs with
  | nil => rfl
  | cons c cs ih =>
    simp only [List.mem_cons, not_or] at h
    rw [onlyBreaks_cons (Ne.symm h.1)]
    exact ih h.2

theorem unescape_eq_breakLines (h : onlyBreaks cs = true) : unescape cs = breakLines cs := by
  induction cs, h using onlyBreaks_induction with
  | nil => rfl
  | brk cs h ih => exact congrArg _ ih
  | char c cs hc h ih => rw [unescape_cons hc, breakLines_cons hc, ih]

theorem breakLines_append (h : onlyBreaks cs = true) : breakLines (cs ++ ds) = breakLines cs ++ breakLines ds := by
  induction cs, h using onlyBreaks_induction with
  | nil => rfl
  | brk cs h ih => exact congrArg _ ih
  | char c cs hc h ih => rw [List.cons_append, breakLines_cons hc, breakLines_cons hc, ih, List.cons_append]

theorem onlyBreaks_append (h : onlyBreaks cs = true) : onlyBreaks (cs ++ ds) = onlyBreaks ds := by
  induction cs, h using onlyBreaks_induction with
  | nil => rfl
  | brk cs h ih => exact ih
  | char c cs hc h ih => rw [List.cons_append, onlyBreaks_cons hc, ih]

/-- Before a character that ends no `\n`, a text with line breaks only is complete. -/
theorem onlyBreaks_of_append_cons (hc : c ≠ 'n') (h : onlyBreaks (cs ++ c :: ds) = true) : onlyBreaks cs = true := by
  fun_induction onlyBreaks cs with
  | case1 cs ih => exact ih h
  | case2 d cs hd ih =>
    by_cases hd' : d = '\\'
    · subst hd'
      -- the backslash would stand before `c` or before a character of `cs` that is not `n`
      rw [List.cons_append, onlyBreaks] at h
      · simp at h
      · intro cs' _ heq
        cases cs with
        | nil => exact hc (List.cons.inj heq).1
        | cons e cs => exact hd cs rfl (by rw [(List.cons.inj heq).1])
    · rw [List.cons_append, onlyBreaks_cons hd'] at h
      simp [hd', ih h]
  | case3 => rfl

theorem count_breakLines (h : onlyBreaks cs = true) :
    (breakLines cs).count '\n' = cs.count '\\' + cs.count '\n' := by
  induction cs, h using onlyBreaks_induction with
  | nil => rfl
  | brk cs h ih =>
    simp only [breakLines, List.count_cons, ih]
    simp
    omega
  | char c cs hc h ih =>
    simp only [breakLines_cons hc, List.count_cons, ih]
    simp [hc]
    omega

theorem breakLines_inj (h : onlyBreaks cs = true) (h' : onlyBreaks ds = true) (hn : '\n' ∉ cs) (hn' : '\n' ∉ ds)
    (heq : breakLines cs = breakLines ds) : cs = ds := by
  induction cs, h using onlyBreaks_induction generalizing ds with
  | nil =>
    cases ds, h' using onlyBreaks_induction with
    | nil => rfl
    | brk ds h' _ => cases heq
    | char d ds hd h' _ => rw [breakLines_cons hd] at heq; cases heq
  | brk cs h ih =>
    cases ds, h' using onlyBreaks_induction with
    | nil => cases heq
    | brk ds h' _ =>
      simp only [List.mem_cons, not_or] at hn hn'
      rw [ih h' hn.2.2 hn'.2.2 (List.cons.inj heq).2]
    | char d ds hd h' _ =>
      rw [breakLines_cons hd] at heq
      simp [← (List.cons.inj heq).1] at hn'
  | char c cs hc h ih =>
    rw [breakLines_cons hc] at heq
    cases ds, h' using onlyBreaks_induction with
    | nil => cases heq
    | brk ds h' _ => simp [(List.cons.inj heq).1] at hn
    | char d ds hd h' _ =>
      rw [breakLines_cons hd] at heq
      simp only [List.mem_cons, not_or] at hn hn'
      rw [(List.cons.inj heq).1, ih h' hn.2 hn'.2 (List.cons.inj heq).2]

theorem onlyBreaks_of_mem_wordChars {w : List Char} (h : onlyBreaks cs = true) (hw : w ∈ wordChars cs) :
    onlyBreaks w = true := by
  induction hn : cs.length using Nat.strong_induction_on generalizing cs with
  | _ n ih =>
    subst hn
    by_cases hblank : ∃ c ∈ cs, isBlank c = true
    · obtain ⟨c, hc, hb⟩ := hblank
      obtain ⟨x, y, rfl⟩ := List.append_of_mem hc
      have hne : c ≠ 'n' ∧ c ≠ '\\' := by constructor <;> (rintro rfl; cases hb)
      have hx := onlyBreaks_of_append_cons hne.1 h
      rw [onlyBreaks_append hx, onlyBreaks_cons hne.2] at h
      rw [wordChars_append_cons x y hb] at hw
      rcases List.mem_append.1 hw with hw | hw
      · exact ih x.length (by simp) hx hw rfl
      · exact ih y.length (by simp; omega) h hw rfl
    · have hword : ∀ c ∈ cs, isBlank c = false := by simpa using hblank
      rw [wordChars, List.splitOnP_eq_singleton hword] at hw
      rw [List.mem_singleton.1 (List.mem_filter.1 hw).1]
      exact h

end breaks

/-! ### Words -/

/-- The text is its words with single blanks between them. -/
def Spaced (text : String) : Prop := " ".intercalate (words text) = text

instance (text : String) : Decidable (Spaced text) := inferInstanceAs (Decidable (_ = _))

section words
variable {text : String} {ws : List String}

theorem word_of_mem_words {w : String} (h : w ∈ words text) : w.toList ∈ wordChars text.toList := by
  obtain ⟨cs, hcs, rfl⟩ := List.mem_map.1 h
  rwa [String.toList_ofList]

theorem join_cons_cons (w v : String) (ws : List String) :
    (" ".intercalate (w :: v :: ws)).toList = w.toList ++ ' ' :: (" ".intercalate (v :: ws)).toList := by
  simp [String.intercalate_cons_cons]

theorem words_join (h : ∀ w ∈ ws, w ≠ "" ∧ ∀ c ∈ w.toList, isBlank c = false) : words (" ".intercalate ws) = ws := by
  induction ws with
  | nil => rfl
  | cons w ws ih =>
    have hw : words w = [w] := by
      rw [words, wordChars_of_word (by simpa using (h w List.mem_cons_self).1) (h w List.mem_cons_self).2]
      simp
    cases ws with
    | nil => rwa [String.intercalate_singleton]
    | cons v ws =>
      rw [words, join_cons_cons, wordChars_append_cons _ _ rfl, List.map_append]
      exact congrArg₂ _ hw (ih fun x hx => h x (List.mem_cons_of_mem _ hx))

/-- A text with two blanks in a row is not spaced. -/
theorem not_spaced_of_two (h : [' ', ' '] <:+: text.toList) : ¬ Spaced text := by
  intro hs
  obtain ⟨a, b, h⟩ := h
  rw [List.append_assoc, List.cons_append, List.cons_append, List.nil_append] at h
  have hwords : ∀ w ∈ (words text).map String.toList, ' ' ∉ w := by
    intro w hw hblank
    obtain ⟨v, hv, rfl⟩ := List.mem_map.1 hw
    exact absurd (not_blank_of_mem_wordChars (word_of_mem_words hv) hblank) (by decide)
  have hne : (words text).map String.toList ≠ [] := by
    intro hnil
    rw [Spaced, List.map_eq_nil_iff.1 hnil] at hs
    simp [← hs] at h
  have hsplit := List.splitOn_intercalate ' ' hwords hne
  have hjoin : [' '].intercalate ((words text).map String.toList) = text.toList := by
    conv_rhs => rw [← hs, String.toList_intercalate]
    rfl
  -- the piece between the two blanks is empty, and no word is
  rw [hjoin, ← h, List.splitOn, List.splitOnP_append_cons _ _ (by simp), List.splitOnP_cons_eq_if_modifyHead] at hsplit
  have hmem : [] ∈ (words text).map String.toList := by
    rw [← hsplit]
    simp
  obtain ⟨v, hv, hempty⟩ := List.mem_map.1 hmem
  exact ne_nil_of_mem_wordChars (word_of_mem_words hv) hempty

end words

/-! ### echo -/

/-- What `echo` prints, with or without the line break at its end and with or without the escapes; a `\c` drops that
line break too. -/
def echoOut : Bool → Bool → List String → List Char
  | newline, _, [] => if newline then ['\n'] else []
  | newline, escapes, s :: args =>
    if isEchoOption s then
      echoOut (newline && !s.toList.contains 'n')
        (s.toList.foldl (fun b c => if c = 'e' then true else if c = 'E' then false else b) escapes) args
    else
      let text := (" ".intercalate (s :: args)).toList ++ if newline then ['\n'] else []
      if escapes then unescape text else text

section echo
variable (fs : Fs) (cwd : Path) (text : String)

/-- The words of an unquoted variable, expanded. -/
def expanded : List String := (words text).flatMap (wordExpand fs cwd)

/-- `echo -e $text` in the working directory `cwd`. -/
def echoVar : String := String.ofList (echoOut true false ("-e" :: expanded fs cwd text))

/-- No word of the text is expanded to something else. -/
def Unmatched : Prop := ∀ s ∈ words text, wordExpand fs cwd s = [s]

instance : Decidable (Unmatched fs cwd text) := List.decidableBAll _ _

/-- `echo` takes no word of the text for an option. -/
def NoOption : Prop := ∀ s ∈ (expanded fs cwd text).head?, isEchoOption s = false

/-- The text with its line breaks, and the one `echo` adds. -/
def brokenText : String := String.ofList (breakLines text.toList ++ ['\n'])

end echo

/-- A word without backslash. -/
def isPlain (x : String) : Prop := x ≠ "" ∧ ∀ c ∈ x.toList, isBlank c = false ∧ c ≠ '\\'

/-- No name has a blank or a backslash. -/
def PlainNames (fs : Fs) : Prop := ∀ e ∈ fs.entries, ∀ x ∈ e.1, isPlain x

section echo
variable {fs : Fs} {cwd : Path} {text : String}

theorem echoVar_eq (h : NoOption fs cwd text) :
    echoVar fs cwd text = String.ofList (unescape ((" ".intercalate (expanded fs cwd text)).toList ++ ['\n'])) := by
  have hargs : echoOut true false ("-e" :: expanded fs cwd text) = echoOut true true (expanded fs cwd text) := rfl
  rw [echoVar, hargs]
  cases hw : expanded fs cwd text with
  | nil => rfl
  | cons s args =>
    rw [NoOption, hw] at h
    rw [echoOut, if_neg (by simp [h s rfl])]
    rfl

theorem head_of_isEchoOption {s : String} (h : isEchoOption s = true) : s.toList.head? = some '-' := by
  unfold isEchoOption at h
  split at h
  · rename_i hs
    rw [hs]
    rfl
  · cases h

/-- A text with this beginning, which the shell reads as `a` and more, has no option for its first word. -/
theorem noOption_of_prefix {q : List Char} {a : Atom} (hne : q ≠ []) (hq : ∀ c ∈ q, c ≠ '/' ∧ isBlank c = false)
    (ha : a ≠ .many) (hread : ∀ r, ∃ p, readPattern (q ++ r).length (q ++ r) = a :: p) (hdash : q.head? ≠ some '-')
    (hacc : a.accepts '-' = false) (hs : q <+: text.toList) : NoOption fs cwd text := by
  obtain ⟨t, ht⟩ := hs
  obtain ⟨r, ws, hw⟩ := @wordChars_append q t hne fun c hc => (hq c hc).2
  have hwords : words text = String.ofList (q ++ r) :: ws.map String.ofList := by rw [words, ← ht, hw, List.map_cons]
  obtain ⟨x, xs, hx⟩ := List.exists_cons_of_ne_nil (@wordExpand_ne_nil fs cwd (String.ofList (q ++ r)))
  intro s hs
  rw [expanded, hwords, List.flatMap_cons, hx] at hs
  obtain rfl : x = s := by simpa using hs
  rw [Bool.eq_false_iff]
  intro hopt
  have hhead := head_of_isEchoOption hopt
  rcases head_of_wordExpand_atom hne (fun hmem => (hq _ hmem).1 rfl) ha hread (by simp) (hx ▸ List.mem_cons_self) with
    h | ⟨c, hc, hac⟩
  · exact hdash (h ▸ hhead)
  · rw [hhead] at hc
    rw [← Option.some.inj hc, hacc] at hac
    cases hac

theorem expanded_of_unmatched (h : Unmatched fs cwd text) : expanded fs cwd text = words text := by
  rw [expanded, List.flatMap_congr h, List.flatMap_singleton']

theorem echoVar_of_unmatched (hs : Spaced text) (hu : Unmatched fs cwd text) (ho : NoOption fs cwd text)
    (he : unescape (text.toList ++ ['\n']) = breakLines text.toList ++ ['\n']) :
    echoVar fs cwd text = brokenText text := by
  rw [echoVar_eq ho, expanded_of_unmatched hu, hs, he, brokenText]

theorem mem_joinPath {r : Path} {c : Char} (h : c ∈ (joinPath r).toList) : c = '/' ∨ ∃ x ∈ r, c ∈ x.toList := by
  induction r with
  | nil => simp [joinPath] at h
  | cons x r ih =>
    cases r with
    | nil => exact .inr ⟨x, List.mem_singleton.2 rfl, by rwa [joinPath_singleton] at h⟩
    | cons y r =>
      rw [joinPath_cons_cons, List.mem_append, List.mem_cons] at h
      rcases h with h | h | h
      · exact .inr ⟨x, List.mem_cons_self, h⟩
      · exact .inl h
      · rcases ih h with h | ⟨z, hz, hc⟩
        · exact .inl h
        · exact .inr ⟨z, List.mem_cons_of_mem _ hz, hc⟩

theorem joinPath_ne_empty {x : String} {r : Path} (h : x ≠ "") : joinPath (x :: r) ≠ "" := by
  intro he
  cases r with
  | nil => rw [joinPath_singleton] at he; exact h he
  | cons y r => simpa [he] using joinPath_cons_cons x y r

theorem splitPath_ne_nil {s : String} (h : isPattern s = true) : splitPath s ≠ [] := by
  intro hnil
  have hslash : s.toList.filter (fun c => !decide (c = '/')) = [] := by
    rw [← flatten_splitOnP, List.flatten_eq_nil_iff]
    simpa [splitPath] using hnil
  obtain ⟨c, hc, hp⟩ := List.any_eq_true.1 h
  have hne : c = '/' := by simpa using List.filter_eq_nil_iff.1 hslash c hc
  subst hne
  cases hp

/-- A word is expanded to itself, or to plain words. -/
theorem mem_wordExpand (hP : PlainNames fs) {s x : String} (hx : x ∈ wordExpand fs cwd s) :
    isPlain x ∨ wordExpand fs cwd s = [s] := by
  by_cases hs : isPattern s = true
  swap
  · exact .inr (wordExpand_plain (by simpa using hs))
  unfold wordExpand at hx ⊢
  rw [if_pos hs] at hx ⊢
  simp only at hx ⊢
  generalize (if s.toList.head? = some '/' then [] else cwd) = base at hx ⊢
  split at hx
  · exact .inr (by simp_all)
  · obtain ⟨q, hq, rfl⟩ := List.mem_map.1 hx
    obtain ⟨hq, hget⟩ := List.mem_filter.1 hq
    obtain ⟨a, r, hr⟩ := List.exists_cons_of_ne_nil (splitPath_ne_nil hs)
    rw [hr] at hq
    obtain ⟨y, r', rfl, -⟩ := expandFrom_head hq
    obtain ⟨n, hmem⟩ := Fs.mem_of_get (p := base ++ y :: r') (by simp) (by simpa using hget)
    have hplain : ∀ z ∈ y :: r', isPlain z := fun z hz => hP _ hmem z (List.mem_append_right _ hz)
    rw [List.drop_left]
    refine .inl ⟨?_, fun c hc => ?_⟩
    · intro he
      exact joinPath_ne_empty (hplain y List.mem_cons_self).1 (String.append_eq_empty_iff.1 he).2
    · have hc' : c = '/' ∨ c ∈ (joinPath (y :: r')).toList := by
        rw [String.toList_append, List.mem_append] at hc
        refine hc.imp_left fun hc => ?_
        split at hc
        · simpa using hc
        · simp at hc
      rcases hc'.imp_right mem_joinPath with rfl | rfl | ⟨z, hz, hc⟩
      · decide
      · decide
      · exact (hplain z hz).2 c hc

/-- The arguments are words in which a backslash stands only in a `\n`. -/
theorem expanded_words (hP : PlainNames fs) (hb : onlyBreaks text.toList = true) {x : String}
    (hx : x ∈ expanded fs cwd text) : (x ≠ "" ∧ ∀ c ∈ x.toList, isBlank c = false) ∧ onlyBreaks x.toList = true := by
  obtain ⟨s, hs, hx⟩ := List.mem_flatMap.1 hx
  have hs := word_of_mem_words hs
  rcases mem_wordExpand hP hx with h | h
  · exact ⟨⟨h.1, fun c hc => (h.2 c hc).1⟩, onlyBreaks_of_not_mem fun hc => (h.2 _ hc).2 rfl⟩
  · rw [h] at hx
    rw [List.mem_singleton.1 hx]
    exact ⟨⟨fun he => ne_nil_of_mem_wordChars hs (by rw [he]; rfl), fun c hc => not_blank_of_mem_wordChars hs hc⟩,
      onlyBreaks_of_mem_wordChars hb hs⟩

theorem count_join {c : Char} (hc : c ≠ ' ') (ws : List String) :
    (" ".intercalate ws).toList.count c = (ws.map fun w => w.toList.count c).sum := by
  induction ws with
  | nil => rfl
  | cons w ws ih =>
    cases ws with
    | nil => simp
    | cons v ws =>
      rw [join_cons_cons, List.count_append, List.count_cons_of_ne (Ne.symm hc), ih, List.map_cons (a := w), List.sum_cons]

theorem count_words {c : Char} (hc : isBlank c = false) :
    text.toList.count c = ((words text).map fun w => w.toList.count c).sum := by
  have hwords : (words text).map (fun w => w.toList.count c) = (wordChars text.toList).map (List.count c) := by
    simp [words]
  rw [hwords, ← List.count_flatten, flatten_wordChars, List.count_filter (by simp [hc])]

/-- Expansion adds no backslash. -/
theorem count_expanded_le (hP : PlainNames fs) :
    (" ".intercalate (expanded fs cwd text)).toList.count '\\' ≤ text.toList.count '\\' := by
  rw [count_join (by decide), count_words rfl, expanded]
  induction words text with
  | nil => exact Nat.le_refl _
  | cons s ss ih =>
    have hs : ((wordExpand fs cwd s).map fun w => w.toList.count '\\').sum ≤ s.toList.count '\\' := by
      by_cases h : wordExpand fs cwd s = [s]
      · simp [h]
      · have hzero : ∀ w ∈ wordExpand fs cwd s, w.toList.count '\\' = 0 := fun w hw =>
          List.count_eq_zero.2 fun hc => (((mem_wordExpand hP hw).resolve_right h).2 _ hc).2 rfl
        rw [List.map_congr_left hzero]
        simp
    simp only [List.flatMap_cons, List.map_append, List.sum_append, List.map_cons, List.sum_cons]
    exact Nat.add_le_add hs ih

theorem onlyBreaks_join {ws : List String} (h : ∀ w ∈ ws, onlyBreaks w.toList = true) :
    onlyBreaks (" ".intercalate ws).toList = true := by
  induction ws with
  | nil => rfl
  | cons w ws ih =>
    have hw := h w List.mem_cons_self
    have hws := ih fun v hv => h v (List.mem_cons_of_mem _ hv)
    cases ws with
    | nil => rwa [String.intercalate_singleton]
    | cons v ws =>
      rw [join_cons_cons, onlyBreaks_append hw, onlyBreaks_cons (by decide)]
      exact hws

/-- A list that is expanded to itself, every element to something, is so element by element. -/
theorem eq_singleton_of_flatMap {α : Type} {f : α → List α} (hf : ∀ a, f a ≠ []) {l : List α} (h : l.flatMap f = l) :
    ∀ a ∈ l, f a = [a] := by
  have hlen : ∀ l : List α, l.length ≤ (l.flatMap f).length := by
    intro l
    induction l with
    | nil => exact Nat.le_refl _
    | cons a l ih =>
      have := List.length_pos_iff.2 (hf a)
      rw [List.flatMap_cons, List.length_append, List.length_cons]
      omega
  induction l with
  | nil => simp
  | cons a l ih =>
    rw [List.flatMap_cons] at h
    obtain ⟨b, bs, hb⟩ := List.exists_cons_of_ne_nil (hf a)
    have hcount := congrArg List.length h
    have hbs : bs = [] := by
      have := hlen l
      rw [hb, List.length_append, List.length_cons, List.length_cons] at hcount
      exact List.eq_nil_of_length_eq_zero (by omega)
    rw [hb, hbs] at h
    obtain ⟨rfl, hl⟩ := List.cons.inj h
    rintro c hc
    rcases List.mem_cons.1 hc with rfl | hc
    · rw [hb, hbs]
    · exact ih hl c hc

/-- Where no name has a blank or a backslash, a text whose backslashes all stand in a `\n` comes out with these turned
into line breaks and nothing else changed exactly when it is spaced and nothing matches it. -/
theorem echoVar_eq_iff (hP : PlainNames fs) (hb : onlyBreaks text.toList = true) (ho : NoOption fs cwd text) :
    echoVar fs cwd text = brokenText text ↔ Spaced text ∧ Unmatched fs cwd text := by
  have hend : ∀ {cs}, onlyBreaks cs = true → unescape (cs ++ ['\n']) = breakLines cs ++ ['\n'] := by
    intro cs hcs
    rw [unescape_eq_breakLines (by rw [onlyBreaks_append hcs]; rfl), breakLines_append hcs]
    rfl
  refine ⟨fun h => ?_, fun h => echoVar_of_unmatched h.1 h.2 ho (hend hb)⟩
  have hargs := fun x (hx : x ∈ expanded fs cwd text) => expanded_words hP hb hx
  have hJ : onlyBreaks (" ".intercalate (expanded fs cwd text)).toList = true := onlyBreaks_join fun x hx => (hargs x hx).2
  have heq : breakLines (" ".intercalate (expanded fs cwd text)).toList = breakLines text.toList := by
    rw [echoVar_eq ho, brokenText, hend hJ] at h
    exact List.append_cancel_right (String.ofList_injective h)
  -- the arguments have no line break
  have hJn : (" ".intercalate (expanded fs cwd text)).toList.count '\n' = 0 := by
    rw [count_join (by decide), List.sum_eq_zero_iff]
    intro k hk
    obtain ⟨x, hx, rfl⟩ := List.mem_map.1 hk
    exact List.count_eq_zero.2 fun hmem => absurd ((hargs x hx).1.2 _ hmem) (by decide)
  -- a line break in the text itself would be one too many
  have hXn : text.toList.count '\n' = 0 := by
    have h1 := count_breakLines hJ
    have h2 := count_breakLines hb
    have h3 := @count_expanded_le fs cwd text hP
    rw [heq] at h1
    omega
  have hjoin : " ".intercalate (expanded fs cwd text) = text :=
    String.toList_inj.1 (breakLines_inj hJ hb (List.count_eq_zero.1 hJn) (List.count_eq_zero.1 hXn) heq)
  have hwords : words text = expanded fs cwd text := by
    have := words_join fun x hx => (hargs x hx).1
    rwa [hjoin] at this
  refine ⟨by rw [Spaced, hwords, hjoin], ?_⟩
  exact eq_singleton_of_flatMap (fun _ => wordExpand_ne_nil) hwords.symm

end echo

end Shell
