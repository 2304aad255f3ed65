import BuildQt5.Shell.Glob
import BuildQt5.Scripts.Env

/-!
# build.list

The three loops over `BUILD_LIST` take the text apart into words, not into lines: `for name in $BUILD_LIST` splits
and expands it, `echo -e $name` expands and prints each word again. On names that the shell reads as themselves the
loops see the lines of the file if and only if every line has at most one word, or comments alone
(`build_list_iff`).
-/

namespace BuildQt5
open Shell

/-! ### The loops -/

section loops
variable (fs : Fs) (cwd : Path)

/-- `$(echo -e $name | sed 's/ //g')` -/
def dname (name : String) : String :=
  let printed := echoWords true ((words name).flatMap (wordExpand fs cwd))
  String.ofList (((printed.filter (· ≠ ' ')).reverse.dropWhile (· = '\n')).reverse)

/-- The names a loop over `BUILD_LIST` does not pass over, in the working directory `cwd`. -/
def listed (text : String) : List String :=
  (((words text).flatMap (wordExpand fs cwd)).map (dname fs cwd)).filter fun d => d.toList.head? ≠ some '#' && d ≠ ""

/-- The loop of `do_fetch.sh`. -/
def fetchList (E : Config) : List String := listed fs cwd E.buildListTxt

/-- The first loop of `do_compile.sh`. -/
def compileList (E : Config) : List String := (listed fs cwd E.buildListTxt).filter (· ≠ "qtbase")

/-- The loop over the examples, tests and tools in `do_compile.sh`. -/
def extrasList (E : Config) : List String := listed fs cwd E.buildListTxt

end loops

/-! ### What the file says -/

/-- The module of a line, if it is neither blank nor a comment: the line without its blanks. -/
def lineModule (l : List Char) : Option String :=
  if (l.dropWhile isBlank).head? = none ∨ (l.dropWhile isBlank).head? = some '#' then none
  else some (String.ofList (l.filter (!isBlank ·)))

def lineModules (text : String) : List String := (lines text).filterMap lineModule

def isComment (w : List Char) : Bool := w.head? = some '#'

/-- Every line has at most one word, or comments alone. -/
def Linewise (text : String) : Prop :=
  ∀ l ∈ lines text, (wordChars l).length ≤ 1 ∨ ∀ w ∈ wordChars l, isComment w = true

/-- The shell reads the word as itself: no pattern, no escape, no option of `echo`. -/
def plainWord (w : String) : Prop := isPattern w = false ∧ '\\' ∉ w.toList ∧ isEchoOption w = false

/-- Every word that does not begin with a `#` is plain. -/
def PlainList (text : String) : Prop := ∀ w ∈ words text, w.toList.head? ≠ some '#' → plainWord w

/-! ### What the loops see -/

section seen
variable {fs : Fs} {cwd : Path} {w x text : String}

theorem word_of_mem (h : w ∈ words text) : w.toList ≠ [] ∧ ∀ c ∈ w.toList, isBlank c = false := by
  obtain ⟨cs, hcs, rfl⟩ := List.mem_map.1 h
  rw [String.toList_ofList]
  exact ⟨ne_nil_of_mem_wordChars hcs, fun c hc => not_blank_of_mem_wordChars hcs hc⟩

theorem words_of_word (h : w.toList ≠ []) (hb : ∀ c ∈ w.toList, isBlank c = false) : words w = [w] := by
  rw [words, wordChars_of_word h hb, List.map_singleton, String.ofList_toList]

theorem dname_plain (h : w.toList ≠ []) (hb : ∀ c ∈ w.toList, isBlank c = false) (hp : plainWord w) :
    dname fs cwd w = w := by
  have hprint : echoWords true [w] = w.toList := by
    rw [echoWords, if_neg (by simp [hp.2.2]), if_pos rfl, String.intercalate_singleton, unescape_eq_self hp.2.1]
  have hspace : w.toList.filter (· ≠ ' ') = w.toList := by
    rw [List.filter_eq_self]
    intro c hc
    have := hb c hc
    simp_all [isBlank]
  have hnewline : w.toList.reverse.dropWhile (· = '\n') = w.toList.reverse := by
    rw [List.dropWhile_eq_self_iff]
    intro hl
    have := hb _ (List.mem_reverse.1 (List.getElem_mem hl))
    simp_all [isBlank]
  rw [dname, words_of_word h hb, List.flatMap_singleton, wordExpand_plain hp.1]
  rw [hprint, hspace, hnewline, List.reverse_reverse, String.ofList_toList]

theorem head_trim {c : Char} {cs : List Char} (hc : c ≠ '\n') :
    (((c :: cs).reverse.dropWhile (· = '\n')).reverse).head? = some c := by
  rw [List.reverse_cons, List.dropWhile_append]
  split <;> simp [hc]

/-- A comment stays one. -/
theorem dname_comment (hx : x.toList.head? = some '#') : (dname fs cwd x).toList.head? = some '#' := by
  obtain ⟨cs, hcs⟩ := List.head?_eq_some_iff.1 hx
  obtain ⟨y, ys, hy : wordChars ('#' :: cs) = ('#' :: y) :: ys⟩ :=
    @wordChars_append ['#'] cs (by simp) (by simp [isBlank])
  obtain ⟨a, as, ha⟩ := List.exists_cons_of_ne_nil (@wordExpand_ne_nil fs cwd (String.ofList ('#' :: y)))
  have hhead : a.toList.head? = some '#' :=
    head_of_wordExpand (by simp [plainChar]) (by simp) (by simp) (ha ▸ List.mem_cons_self)
  obtain ⟨bs, hbs⟩ := List.head?_eq_some_iff.1 hhead
  have hargs : ∃ rest, (words x).flatMap (wordExpand fs cwd) = a :: rest := by
    rw [words, hcs, hy, List.map_cons, List.flatMap_cons, ha]
    exact ⟨_, rfl⟩
  obtain ⟨rest, hargs⟩ := hargs
  have hprint : ∃ out, echoWords true (a :: rest) = '#' :: out := by
    have htext : ∃ out, (" ".intercalate (a :: rest)).toList = '#' :: out := by
      cases rest with
      | nil => exact ⟨bs, by rw [String.intercalate_singleton, hbs]⟩
      | cons b rest => exact ⟨_, by rw [String.intercalate_cons_cons, String.toList_append, String.toList_append, hbs]; rfl⟩
    obtain ⟨out, htext⟩ := htext
    rw [echoWords, if_neg (by simp [isEchoOption, hbs]), if_pos rfl, htext, unescape_cons (by simp)]
    exact ⟨_, rfl⟩
  obtain ⟨out, hprint⟩ := hprint
  rw [dname, hargs, hprint, String.toList_ofList, List.filter_cons_of_pos (by simp)]
  exact head_trim (by simp)

theorem listed_eq (h : PlainList text) : listed fs cwd text =
    (words text).filter fun d => d.toList.head? ≠ some '#' := by
  have hword : ∀ w ∈ words text, w.toList ≠ [] ∧ (∀ c ∈ w.toList, isBlank c = false) ∧
      (w.toList.head? ≠ some '#' → plainWord w) :=
    fun w hw => ⟨(word_of_mem hw).1, (word_of_mem hw).2, h w hw⟩
  unfold listed
  generalize words text = ws at hword ⊢
  induction ws with
  | nil => rfl
  | cons w ws ih =>
    obtain ⟨hne, hblank, hplain⟩ := hword w List.mem_cons_self
    rw [List.flatMap_cons, List.map_append, List.filter_append, ih fun v hv => hword v (List.mem_cons_of_mem _ hv)]
    by_cases hw : w.toList.head? = some '#'
    · have hskip : ((wordExpand fs cwd w).map (dname fs cwd)).filter
          (fun d => d.toList.head? ≠ some '#' && d ≠ "") = [] := by
        rw [List.filter_eq_nil_iff]
        intro d hd
        obtain ⟨v, hv, rfl⟩ := List.mem_map.1 hd
        have hv' := head_of_wordExpand (c := '#') (by simp [plainChar]) (by simp) hw hv
        simp [dname_comment hv']
      rw [hskip, List.filter_cons_of_neg (by simpa using hw), List.nil_append]
    · have hkeep : w ≠ "" := fun h => hne (by simp [h])
      rw [wordExpand_plain (hplain hw).1, List.map_singleton, dname_plain hne hblank (hplain hw),
        List.filter_cons_of_pos (by simp [hw, hkeep]), List.filter_cons_of_pos (by simpa using hw)]
      rfl

end seen

/-! ### Words and lines -/

section lines
variable {l : List Char} {ws : List (List Char)} {text : String}

/-- What the loops see of a line with these words. -/
def seenIn (ws : List (List Char)) : List String := (ws.filter (!isComment ·)).map String.ofList

/-- What a line with these words says. -/
def saidIn : List (List Char) → List String
  | [] => []
  | w :: ws => if isComment w then [] else [String.ofList (w :: ws).flatten]

theorem head_dropWhile (p : Char → Bool) (l : List Char) : (l.dropWhile p).head? = (l.filter (!p ·)).head? := by
  induction l with
  | nil => rfl
  | cons c l ih => cases hc : p c <;> simp [hc, ih]

theorem lineModule_eq : (lineModule l).toList = saidIn (wordChars l) := by
  rw [lineModule, head_dropWhile, ← flatten_wordChars]
  have hne : ∀ w ∈ wordChars l, w ≠ [] := fun w hw => ne_nil_of_mem_wordChars hw
  cases hl : wordChars l with
  | nil => rfl
  | cons w ws =>
    obtain ⟨c, w', rfl⟩ := List.exists_cons_of_ne_nil (hne w (hl ▸ List.mem_cons_self))
    by_cases hc : c = '#'
    · simp [saidIn, isComment, hc]
    · simp [saidIn, isComment, hc]

theorem lineModules_eq : lineModules text = (lines text).flatMap fun l => saidIn (wordChars l) := by
  rw [lineModules, List.filterMap_eq_flatMap_toList]
  simp only [lineModule_eq]

theorem seen_eq : (words text).filter (fun d => d.toList.head? ≠ some '#') =
    (lines text).flatMap fun l => seenIn (wordChars l) := by
  have hcomment : (fun d : String => decide (d.toList.head? ≠ some '#')) ∘ String.ofList = fun w => !isComment w := by
    funext w
    simp [isComment]
  rw [words, wordChars_lines, lines, List.filter_map, List.filter_flatMap, List.map_flatMap, hcomment]
  rfl

theorem said_le_seen : (saidIn ws).length ≤ (seenIn ws).length := by
  cases ws with
  | nil => exact le_refl _
  | cons w ws =>
    rw [saidIn, seenIn]
    cases hw : isComment w <;> simp [hw]

theorem seen_eq_said_iff (hne : ∀ w ∈ ws, w ≠ []) :
    seenIn ws = saidIn ws ↔ ws.length ≤ 1 ∨ ∀ w ∈ ws, isComment w = true := by
  cases ws with
  | nil => simp [seenIn, saidIn]
  | cons w ws =>
    cases hw : isComment w with
    | true =>
      have hseen : seenIn (w :: ws) = seenIn ws := by simp [seenIn, hw]
      rw [hseen, saidIn, if_pos hw]
      constructor
      · intro h
        right
        intro v hv
        rcases List.mem_cons.1 hv with rfl | hv
        · exact hw
        · have := List.map_eq_nil_iff.1 h
          rw [List.filter_eq_nil_iff] at this
          simpa using this v hv
      · rintro (h | h)
        · obtain rfl : ws = [] := by simpa using h
          rfl
        · rw [seenIn, List.map_eq_nil_iff, List.filter_eq_nil_iff]
          intro v hv
          simp [h v (List.mem_cons_of_mem _ hv)]
    | false =>
      have hseen : seenIn (w :: ws) = String.ofList w :: seenIn ws := by simp [seenIn, hw]
      rw [hseen, saidIn, if_neg (by simp [hw])]
      constructor
      · intro h
        left
        obtain ⟨h1, -⟩ := List.cons.inj h
        have hflat : ws.flatten = [] := by
          have h2 := String.ofList_injective h1
          rw [List.flatten_cons] at h2
          exact List.self_eq_append_right.1 h2
        cases ws with
        | nil => simp
        | cons v ws => exact absurd (List.append_eq_nil_iff.1 hflat).1 (hne v (by simp))
      · rintro (h | h)
        · obtain rfl : ws = [] := by simpa using h
          simp [seenIn]
        · rw [h w List.mem_cons_self] at hw
          cases hw

/-- Two lists made piece by piece, one nowhere shorter than the other, are equal only piece by piece. -/
theorem flatMap_eq_iff {α β : Type} {f g : α → List β} {L : List α} (h : ∀ a ∈ L, (g a).length ≤ (f a).length) :
    L.flatMap f = L.flatMap g ↔ ∀ a ∈ L, f a = g a := by
  induction L with
  | nil => simp
  | cons a L ih =>
    have hL : ∀ b ∈ L, (g b).length ≤ (f b).length := fun b hb => h b (List.mem_cons_of_mem _ hb)
    have ha := h a List.mem_cons_self
    rw [List.flatMap_cons, List.flatMap_cons, List.forall_mem_cons, ← ih hL]
    constructor
    · intro heq
      have hlen : (L.flatMap g).length ≤ (L.flatMap f).length := by
        rw [List.length_flatMap, List.length_flatMap]
        exact List.sum_le_sum hL
      have htotal := congrArg List.length heq
      rw [List.length_append, List.length_append] at htotal
      exact List.append_inj heq (by omega)
    · rintro ⟨h1, h2⟩
      rw [h1, h2]

end lines

/-- On plain names the loops see what the lines say, if and only if every line has at most one word or comments
alone. -/
theorem build_list_iff (fs : Fs) (cwd : Path) (E : Config) (hplain : PlainList E.buildListTxt) :
    E.modules = fetchList fs cwd E ∧
    ((fetchList fs cwd E = lineModules E.buildListTxt ∧
      compileList fs cwd E = (lineModules E.buildListTxt).filter (· ≠ "qtbase") ∧
      extrasList fs cwd E = lineModules E.buildListTxt) ↔ Linewise E.buildListTxt) := by
  have hseen : listed fs cwd E.buildListTxt = E.modules := listed_eq hplain
  have hiff : E.modules = lineModules E.buildListTxt ↔ Linewise E.buildListTxt := by
    rw [Config.modules, seen_eq, lineModules_eq, flatMap_eq_iff fun l _ => said_le_seen]
    exact forall₂_congr fun l _ => seen_eq_said_iff fun w hw => ne_nil_of_mem_wordChars hw
  refine ⟨hseen.symm, ?_⟩
  rw [fetchList, compileList, extrasList, hseen, ← hiff]
  constructor
  · rintro ⟨h, -, -⟩
    exact h
  · intro h
    rw [h]
    exact ⟨rfl, rfl, rfl⟩

/-- The environment with this list. -/
def listEnv (text : String) : Config := { Config.unset ["top"] "p" with buildListTxt := text }

theorem build_list_modules : Linewise "qtbase\n#qtwayland\n  qtsvg " ∧
    fetchList .empty [] (listEnv "qtbase\n#qtwayland\n  qtsvg ") = ["qtbase", "qtsvg"] := by
  have hplain : PlainList (listEnv "qtbase\n#qtwayland\n  qtsvg ").buildListTxt := by
    unfold PlainList plainWord
    decide
  have hline : Linewise (listEnv "qtbase\n#qtwayland\n  qtsvg ").buildListTxt := by
    unfold Linewise
    decide
  refine ⟨hline, ((build_list_iff .empty [] _ hplain).2.2 hline).1.trans ?_⟩
  decide

/-- A module in a comment is fetched and compiled. -/
theorem comment_fetched : "qtwayland" ∈ fetchList .empty [] (listEnv "qtbase\n# qtwayland") ∧
    "qtwayland" ∈ compileList .empty [] (listEnv "qtbase\n# qtwayland") ∧
    lineModules "qtbase\n# qtwayland" = ["qtbase"] := by
  decide

end BuildQt5
