import BuildQt5.Scripts.Fetch

/-!
# The digest of a module

`DMD5SUM` is picked from the md5 list by `grep -E "$dname-"` and `grep -E ".tar.xz"`, neither of them tied to the file
name or to its ends. A list is one of lines `<digest>  <file name>`; `$(..)` has taken the line breaks at its end away.
-/

namespace BuildQt5
open Shell

structure SumLine where
  digest : String
  name : String
  digest_ne : digest ≠ ""
  digest_word : ∀ c ∈ digest.toList, isBlank c = false
  name_line : '\n' ∉ name.toList

namespace SumLine

def text (l : SumLine) : String := l.digest ++ ("  " ++ l.name)

/-- Both filters let the line through. -/
def taken (m : String) (l : SumLine) : Bool := decide ((m ++ "-").toList <:+: l.text.toList) && hasTarXz l.text.toList

/-- The line is the one of this file. -/
def isOf (file : String) (l : SumLine) : Bool := l.name = file

theorem firstField_text (l : SumLine) : firstField l.text.toList = l.digest := by
  have htext : l.text.toList = l.digest.toList ++ ' ' :: (' ' :: l.name.toList) := by simp [text]
  rw [htext, firstField_append (by simpa using l.digest_ne) l.digest_word rfl, String.ofList_toList]

theorem digest_line (l : SumLine) : l.digest ≠ "" ∧ '\n' ∉ l.digest.toList :=
  ⟨l.digest_ne, fun h => absurd (l.digest_word _ h) (by decide)⟩

theorem text_line (l : SumLine) : '\n' ∉ l.text.toList := by
  simp [text, l.digest_line.2, l.name_line]

end SumLine

def sumList (ls : List SumLine) : String := "\n".intercalate (ls.map SumLine.text)

/-- The digest of the file, empty when no line has it. -/
def digestIn (ls : List SumLine) (file : String) : String := ((ls.find? (SumLine.isOf file)).map SumLine.digest).getD ""

section
variable {ls : List SumLine} {m file : String}

/-- The digests of all lines taken, one a line. -/
theorem digestOf_sumList :
    digestOf (sumList ls) m = "\n".intercalate ((ls.filter (SumLine.taken m)).map SumLine.digest) := by
  by_cases hne : ls = []
  · rw [hne]
    have hnone : (lines (sumList [])).filter (fun l => decide ((m ++ "-").toList <:+: l) && hasTarXz l) = [] := by
      simp [sumList, lines, hasTarXz]
    rw [digestOf, hnone]
    rfl
  · have hlines : lines (sumList ls) = ls.map fun l => l.text.toList := by
      rw [sumList, lines_join (by simpa using hne) (by simpa using fun l _ => l.text_line), List.map_map]
      rfl
    rw [digestOf, hlines, List.filter_map, List.map_map]
    exact congrArg _ (List.map_congr_left fun l _ => l.firstField_text)

/-- File names being different, the lines of one file are one at most. -/
theorem digestIn_eq_join (h : (ls.map SumLine.name).Nodup) :
    digestIn ls file = "\n".intercalate ((ls.filter (SumLine.isOf file)).map SumLine.digest) := by
  rw [digestIn, ← List.head?_filter]
  have hone : ((ls.filter (SumLine.isOf file)).map SumLine.name).Nodup := h.sublist (List.filter_sublist.map _)
  have hname : ∀ l ∈ ls.filter (SumLine.isOf file), l.name = file := fun l hl => by
    simpa [SumLine.isOf] using (List.mem_filter.1 hl).2
  match hf : ls.filter (SumLine.isOf file) with
  | [] => rfl
  | [l] => simp
  | l :: k :: rest =>
    rw [hf] at hone hname
    simp [hname l (by simp), hname k (by simp)] at hone

/-- Where digests differ too, the same digests are of the same lines. -/
theorem map_filter_digest_iff {p q : SumLine → Bool} (h : (ls.map SumLine.digest).Nodup) :
    (ls.filter p).map SumLine.digest = (ls.filter q).map SumLine.digest ↔ ∀ l ∈ ls, p l = q l := by
  refine ⟨fun heq l hl => ?_, fun heq => congrArg _ (List.filter_congr heq)⟩
  have hmem : ∀ r : SumLine → Bool, l.digest ∈ (ls.filter r).map SumLine.digest ↔ r l = true := by
    intro r
    refine ⟨fun hd => ?_, fun hr => List.mem_map_of_mem (List.mem_filter.2 ⟨hl, hr⟩)⟩
    obtain ⟨k, hk, hkd⟩ := List.mem_map.1 hd
    obtain ⟨hk, hr⟩ := List.mem_filter.1 hk
    rwa [← List.inj_on_of_nodup_map h hk hl hkd]
  rw [Bool.eq_iff_iff, ← hmem p, ← hmem q, heq]

end

/-- `DMD5SUM` is the digest of `<module>$QT_DOWNLOAD_URL_POST`, or empty when the list has no such line, exactly when
the digests of the lines that contain `<module>-` and match `.tar.xz` are those of that file's line. When no two lines
have the same digest, this says that of all lines just that file's pass the filters. -/
theorem digest_of_module_iff (ls : List SumLine) (m post : String) (h : (ls.map SumLine.name).Nodup) :
    (digestOf (sumList ls) m = digestIn ls (m ++ post) ↔
      (ls.filter (SumLine.taken m)).map SumLine.digest = (ls.filter (SumLine.isOf (m ++ post))).map SumLine.digest) ∧
    ((ls.map SumLine.digest).Nodup → (digestOf (sumList ls) m = digestIn ls (m ++ post) ↔
      ∀ l ∈ ls, l.taken m = l.isOf (m ++ post))) := by
  have hlines : ∀ ks : List SumLine, ∀ d ∈ ks.map SumLine.digest, d ≠ "" ∧ '\n' ∉ d.toList := by
    intro ks d hd
    obtain ⟨l, -, rfl⟩ := List.mem_map.1 hd
    exact l.digest_line
  rw [digestOf_sumList, digestIn_eq_join h, join_inj (hlines _) (hlines _)]
  exact ⟨Iff.rfl, map_filter_digest_iff⟩

/-- A line of the list of a Qt release. -/
def SumLine.single (d : Char) (name : String) (hd : isBlank d = false) (hname : '\n' ∉ name.toList) : SumLine :=
  ⟨String.singleton d, name, by simp [String.ext_iff], by simpa using hd, hname⟩

def sumQtbase : SumLine := SumLine.single 'a' "qtbase-everywhere-src-5.15.3.tar.xz" rfl (by decide)

def sumQtsvg : SumLine := SumLine.single 'b' "qtsvg-everywhere-src-5.15.3.tar.xz" rfl (by decide)

def sumQtsvgZip : SumLine := SumLine.single 'c' "qtsvg-everywhere-src-5.15.3.zip" rfl (by decide)

theorem digest_of_qtsvg : digestOf (sumList [sumQtbase, sumQtsvg, sumQtsvgZip]) "qtsvg" = "b" :=
  (digest_of_module_iff [sumQtbase, sumQtsvg, sumQtsvgZip] "qtsvg" "-everywhere-src-5.15.3.tar.xz" (by decide)).1.2
    (by decide +kernel)

/-- Another version of the module in the list: both digests are picked. And the digest of a module is picked for one
whose name it ends in, although the list has none for that. -/
theorem digest_of_other_lines :
    digestOf (sumList [sumQtsvg, SumLine.single 'c' "qtsvg-everywhere-src-5.15.2.tar.xz" rfl (by decide)]) "qtsvg" = "b\nc" ∧
    digestIn [sumQtsvg, SumLine.single 'c' "qtsvg-everywhere-src-5.15.2.tar.xz" rfl (by decide)]
      ("qtsvg" ++ "-everywhere-src-5.15.3.tar.xz") = "b" ∧
    digestOf (sumList [sumQtsvg]) "svg" = "b" ∧ digestIn [sumQtsvg] ("svg" ++ "-everywhere-src-5.15.3.tar.xz") = "" := by
  decide +kernel

end BuildQt5
