import BuildQt5.Shell.Echo

/-!
# The configuration files

`do_compile.sh` and `do_deploy.sh` put a text together, with `\n` for its line breaks, and write it with `echo -e $text`:
the two `qt.conf`, `environment-setup` and `qt5.sh`. A file holds the text it was made from exactly when the text has
single blanks between its words and nothing in the working directory matches one of them (`config_texts`), which the
text of `environment-setup` and that of `qt5.sh` never have, if only for the two blanks in their date.
-/

namespace BuildQt5
open Shell

/-- What goes into the texts. `sign` is `USER_SIGN_STR` and `notice` the line on the owner after the date. -/
structure ConfigData where
  platform : String
  runtimePath : String
  libName : String
  day : String
  time : String
  sign : String
  notice : String
  sdkAdd : String
  runtimeAdd : String
  sdkEnvAdd : String
  runtimeEnvAdd : String

/-- The lines, each with a `\n` after it. -/
def withBreaks : List String → String
  | [] => ""
  | l :: ls => l ++ ("\\n" ++ withBreaks ls)

namespace ConfigData
variable (d : ConfigData)

def rule : String := "echo -e \"##########################################################################\""

/-- `date "+%Y-%m-%d  %H:%M:%S"` -/
def date : String := d.day ++ "  " ++ d.time

/-- `$QT_RUNTIME_PREFIX_PATH/usr/$TARGET_LIB_NAME` -/
def lib : String := d.runtimePath ++ "/usr/" ++ d.libName

/-- `QT_SDK_CONFIGSTR` -/
def sdkConfigStr : String :=
  withBreaks ["[Paths]", "Prefix=../../../target/usr", "HostPrefix=../../../host/usr"] ++ d.sdkAdd

/-- `QT_RUNTIME_CONFIGSTR` -/
def runtimeConfigStr : String :=
  withBreaks ["[Paths]",
    "Prefix=" ++ d.runtimePath ++ "/usr",
    "Headers=" ++ d.runtimePath ++ "/usr/include",
    "Binaries=" ++ d.runtimePath ++ "/usr/bin",
    "Libraries=" ++ d.lib,
    "ArchData=" ++ d.lib,
    "Qml2Imports=" ++ d.lib ++ "/qml",
    "Plugins=" ++ d.lib ++ "/plugins",
    "LibraryExecutables=" ++ d.lib ++ "/libexec",
    "Settings=" ++ d.runtimePath ++ "/etc",
    "Data=" ++ d.runtimePath ++ "/usr/share",
    "Translations=" ++ d.runtimePath ++ "/usr/share/translations",
    "Documentation=" ++ d.runtimePath ++ "/usr/share/doc",
    "Examples=" ++ d.runtimePath ++ "/usr/share/examples",
    "Tests=" ++ d.runtimePath ++ "/usr/share/tests"] ++ d.runtimeAdd

/-- `QT_SDK_ENV_CONFIGSTR` -/
def sdkEnvConfigStr : String :=
  withBreaks ["#!/bin/bash", "", d.sign,
    "CURRENT_DIR=\"$(cd \"$(dirname \"$\x7bBASH_SOURCE[0]:-$0\x7d\")\" && pwd)\"", "",
    "echo -e \"Setup sdk environment...\"",
    "echo -e \"\"",
    rule,
    "echo -e \"Platform: " ++ d.platform ++ "\"",
    "echo -e \"Root: $CURRENT_DIR\"",
    "echo -e \"Date: " ++ d.date ++ "\"",
    d.notice,
    rule,
    "echo -e \"\"",
    "echo -e \"Please run qmake or cmake to compile your project.\"",
    "echo -e \"\"", "",
    "[[ $PATH != *$CURRENT_DIR/host/usr/bin* ]] && export PATH=$CURRENT_DIR/host/usr/bin:$PATH",
    "[[ $LD_LIBRARY_PATH != *$CURRENT_DIR/host/usr/lib* ]] && export " ++
      "LD_LIBRARY_PATH=$CURRENT_DIR/host/usr/lib:$LD_LIBRARY_PATH",
    "[ -f $CURRENT_DIR/host/usr/cmake/toolchain.cmake ] && export " ++
      "CMAKE_TOOLCHAIN_FILE=$CURRENT_DIR/host/usr/cmake/toolchain.cmake",
    "export BUILD_TARGET_PREFIX=$CURRENT_DIR/host/usr",
    "export QT_QMAKE_EXECUTABLE=$CURRENT_DIR/host/usr/bin/qmake"] ++ d.sdkEnvAdd

/-- `QT_RUNTIME_ENV_CONFIGSTR` -/
def runtimeEnvConfigStr : String :=
  withBreaks ["#!/bin/sh", "", d.sign,
    "echo -e \"Setup runtime environment...\"",
    "echo -e \"\"",
    rule,
    "echo -e \"Platform: " ++ d.platform ++ "\"",
    "echo -e \"Date: " ++ d.date ++ "\"",
    d.notice,
    rule,
    "echo -e \"\"", "",
    "[[ $PATH != *" ++ d.runtimePath ++ "/usr/bin* ]] && export PATH=" ++ d.runtimePath ++ "/usr/bin:$PATH",
    "[[ $LD_LIBRARY_PATH != *" ++ d.lib ++ "* ]] && export LD_LIBRARY_PATH=" ++ d.lib ++ ":$LD_LIBRARY_PATH",
    "export QML2_IMPORT_PATH=" ++ d.lib ++ "/qml",
    "export QT_QPA_FONTDIR=" ++ d.runtimePath ++ "/usr/share/fonts",
    "export QT_PLUGIN_PATH=" ++ d.lib ++ "/plugins"] ++ d.runtimeEnvAdd

def texts : List String := [d.sdkConfigStr, d.runtimeConfigStr, d.sdkEnvConfigStr, d.runtimeEnvConfigStr]

/-- No backslash other than in a `\n` goes into the texts. -/
def OnlyBreaks : Prop :=
  ∀ s ∈ [d.platform, d.runtimePath, d.libName, d.day, d.time, d.sign, d.notice, d.sdkAdd, d.runtimeAdd, d.sdkEnvAdd,
    d.runtimeEnvAdd], onlyBreaks s.toList = true

end ConfigData

/-! ### The texts -/

section texts
variable {d : ConfigData} {text l : String} {ls : List String}

theorem onlyBreaks_withBreaks (h : ∀ l ∈ ls, onlyBreaks l.toList = true) : onlyBreaks (withBreaks ls).toList = true := by
  induction ls with
  | nil => rfl
  | cons l ls ih =>
    rw [withBreaks, String.toList_append, onlyBreaks_append (h l List.mem_cons_self), String.toList_append]
    exact ih fun k hk => h k (List.mem_cons_of_mem _ hk)

theorem infix_withBreaks (h : l ∈ ls) : l.toList <:+: (withBreaks ls).toList := by
  induction ls with
  | nil => cases h
  | cons k ls ih =>
    rw [withBreaks, String.toList_append, String.toList_append]
    rcases List.mem_cons.1 h with rfl | h
    · exact (List.prefix_append _ _).isInfix
    · exact ((ih h).trans (List.suffix_append _ _).isInfix).trans (List.suffix_append _ _).isInfix

theorem onlyBreaks_append_string {a b : String} (ha : onlyBreaks a.toList = true) (hb : onlyBreaks b.toList = true) :
    onlyBreaks (a ++ b).toList = true := by
  rw [String.toList_append, onlyBreaks_append ha, hb]

theorem onlyBreaks_texts (h : d.OnlyBreaks) (ht : text ∈ d.texts) : onlyBreaks text.toList = true := by
  simp only [ConfigData.OnlyBreaks, List.forall_mem_cons] at h
  obtain ⟨hplatform, hpath, hlib, hday, htime, hsign, hnotice, hsdk, hruntime, hsdkEnv, hruntimeEnv, -⟩ := h
  have hl : onlyBreaks d.lib.toList = true :=
    onlyBreaks_append_string (onlyBreaks_append_string hpath (by decide)) hlib
  have hdate : onlyBreaks d.date.toList = true :=
    onlyBreaks_append_string (onlyBreaks_append_string hday (by decide)) htime
  have hrule : onlyBreaks ConfigData.rule.toList = true := by decide +kernel
  simp only [ConfigData.texts, List.mem_cons, List.not_mem_nil, or_false] at ht
  rcases ht with rfl | rfl | rfl | rfl
  all_goals
    refine onlyBreaks_append_string (onlyBreaks_withBreaks ?_) (by with_reducible assumption)
    simp only [List.forall_mem_cons, List.not_mem_nil, false_imp_iff, implies_true, and_true]
    and_intros
    all_goals repeat' first | with_reducible assumption | with_reducible apply onlyBreaks_append_string | decide +kernel

theorem prefix_withBreaks (l : String) (ls : List String) (add : String) :
    l.toList <+: (withBreaks (l :: ls) ++ add).toList := by
  rw [withBreaks, String.toList_append, String.toList_append, List.append_assoc]
  exact List.prefix_append _ _

/-- No text begins with what `echo` takes for an option, whatever its first word is expanded to. -/
theorem noOption_texts (fs : Fs) (cwd : Shell.Path) (ht : text ∈ d.texts) : NoOption fs cwd text := by
  have hpaths : "[Paths]".toList <+: text.toList → NoOption fs cwd text := fun h =>
    noOption_of_prefix (a := .set false (toRanges "Paths".toList)) (by simp) (by simp [isBlank]) (by simp)
      (fun r => ⟨_, rfl⟩) (by simp) (by decide +kernel) h
  have hcomment : "#".toList <+: text.toList → NoOption fs cwd text := fun h =>
    noOption_of_prefix (a := .lit '#') (by simp) (by simp [isBlank]) (by simp) (fun r => ⟨_, rfl⟩) (by simp) rfl h
  simp only [ConfigData.texts, List.mem_cons, List.not_mem_nil, or_false] at ht
  rcases ht with rfl | rfl | rfl | rfl
  · exact hpaths (prefix_withBreaks _ _ _)
  · exact hpaths (prefix_withBreaks _ _ _)
  · exact hcomment ((by decide +kernel : "#".toList <+: "#!/bin/bash".toList).trans (prefix_withBreaks _ _ _))
  · exact hcomment ((by decide +kernel : "#".toList <+: "#!/bin/sh".toList).trans (prefix_withBreaks _ _ _))

theorem not_spaced_env (ht : text = d.sdkEnvConfigStr ∨ text = d.runtimeEnvConfigStr) : ¬ Spaced text := by
  have hline : [' ', ' '] <:+: ("echo -e \"Date: " ++ d.date ++ "\"").toList := by
    refine ⟨("echo -e \"Date: " ++ d.day).toList, (d.time ++ "\"").toList, ?_⟩
    simp [ConfigData.date]
  refine not_spaced_of_two (hline.trans ?_)
  rcases ht with rfl | rfl
  · rw [ConfigData.sdkEnvConfigStr, String.toList_append (t := d.sdkEnvAdd)]
    refine (infix_withBreaks ?_).trans (List.prefix_append _ _).isInfix
    simp only [List.mem_cons, true_or, or_true]
  · rw [ConfigData.runtimeEnvConfigStr, String.toList_append (t := d.runtimeEnvAdd)]
    refine (infix_withBreaks ?_).trans (List.prefix_append _ _).isInfix
    simp only [List.mem_cons, true_or, or_true]

end texts

/-- Where nothing matches, `echoE` is what `echo -e` prints of such a text, the line break at its end left out. -/
theorem echoVar_eq_echoE {d : ConfigData} {fs : Fs} {cwd : Shell.Path} {text : String} (hd : d.OnlyBreaks)
    (ht : text ∈ d.texts) (h : Unmatched fs cwd text) : echoVar fs cwd text = echoE text ++ "\n" := by
  have hwords : onlyBreaks (" ".intercalate (words text)).toList = true :=
    onlyBreaks_join fun w hw => onlyBreaks_of_mem_wordChars (onlyBreaks_texts hd ht) (word_of_mem_words hw)
  rw [echoVar_eq (noOption_texts fs cwd ht), expanded_of_unmatched h, echoE, unescape_eq_breakLines hwords,
    unescape_eq_breakLines (by rw [onlyBreaks_append hwords]; rfl), breakLines_append hwords, String.ofList_append]
  rfl

def clusterTexts : ConfigData where
  platform := "qt5-android-ndk-cluster"
  runtimePath := "/data/qt5"
  libName := "lib64"
  day := "2022-04-25"
  time := "15:52:29"
  sign := ""
  notice := ""
  sdkAdd := ""
  runtimeAdd := ""
  sdkEnvAdd := ""
  runtimeEnvAdd := ""

theorem clusterTexts_onlyBreaks : clusterTexts.OnlyBreaks := by unfold ConfigData.OnlyBreaks; decide +kernel

theorem plainNames_empty : PlainNames Fs.empty := by simp [PlainNames, Fs.empty]

end BuildQt5
