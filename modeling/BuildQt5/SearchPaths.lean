import BuildQt5.Shell.Glob

/-!
# PATH and LD_LIBRARY_PATH

`[[ $PATH != *$dir* ]] && export PATH=$dir:$PATH` looks for the directory as a pattern anywhere in the value, not as a
component. The set-up is right exactly when a match is a component, and when without a match the variable is set, the
directory has no colon and the pattern it is matches itself (`search_paths_iff`).
-/

namespace BuildQt5
open Shell

/-- The two variables, `none` where unset. -/
structure SearchEnv where
  path : Option String
  ldLibraryPath : Option String
deriving DecidableEq

/-- `[[ $value = *$dir* ]]`, without the extended patterns. -/
def globHit (dir value : String) : Bool :=
  fits (readPattern (dir.toList.length + 2) ('*' :: (dir.toList ++ ['*']))) value.toList

section setup
variable (hit : String → String → Bool)

/-- One line of a set-up, where `hit` says how `[[ .. ]]` matches. -/
def prependDir (dir : String) (v : Option String) : Option String :=
  if hit dir (v.getD "") then v else some (dir ++ ":" ++ v.getD "")

def hostPrefixOf (sdk : String) : String := sdk ++ "/host/usr"

/-- The lines of `build-qt5.sh`. -/
def buildPaths (sdk : String) (e : SearchEnv) : SearchEnv :=
  ⟨prependDir hit (hostPrefixOf sdk ++ "/bin") e.path, prependDir hit (hostPrefixOf sdk ++ "/lib") e.ldLibraryPath⟩

/-- The lines of `environment-setup`. -/
def environmentSetupPaths (currentDir : String) (e : SearchEnv) : SearchEnv :=
  ⟨prependDir hit (currentDir ++ "/host/usr/bin") e.path, prependDir hit (currentDir ++ "/host/usr/lib") e.ldLibraryPath⟩

theorem buildPaths_eq (sdk : String) : buildPaths hit sdk = environmentSetupPaths hit sdk := by
  funext e
  simp only [buildPaths, environmentSetupPaths, hostPrefixOf, String.append_assoc]
  rfl

end setup

/-- The components of a variable; an unset one has none. -/
def components : Option String → List (List Char)
  | none => []
  | some s => s.toList.splitOn ':'

/-- `v'` is `v` with the directory among its components: those of `v` are kept in order and none is a new empty one. -/
structure Extends (dir : String) (v v' : Option String) : Prop where
  present : dir.toList ∈ components v'
  kept : (components v).Sublist (components v')
  no_empty : (components v').count [] ≤ (components v).count []

/-- What is asked of a set-up. -/
structure SetUp (f : SearchEnv → SearchEnv) (root : String) (e : SearchEnv) : Prop where
  path : Extends (root ++ "/host/usr/bin") e.path (f e).path
  ldLibraryPath : Extends (root ++ "/host/usr/lib") e.ldLibraryPath (f e).ldLibraryPath
  again : f (f e) = f e

/-- The line does what is asked for this directory and value. -/
def Suits (hit : String → String → Bool) (dir : String) (v : Option String) : Prop :=
  if hit dir (v.getD "") = true then dir.toList ∈ components v
  else v ≠ none ∧ ':' ∉ dir.toList ∧ hit dir (dir ++ ":" ++ v.getD "") = true

/-! ### One variable -/

section
variable {hit : String → String → Bool} {dir : String} {v : Option String}

theorem not_mem_of_mem_components {x : List Char} (h : x ∈ components v) : ':' ∉ x := by
  cases v with
  | none => cases h
  | some s =>
    intro hc
    have hmem : ':' ∈ (s.toList.splitOnP (· == ':')).flatten := List.mem_flatten.2 ⟨x, h, hc⟩
    rw [flatten_splitOnP] at hmem
    simp at hmem

theorem components_prepend (h : ':' ∉ dir.toList) (s : String) :
    components (some (dir ++ ":" ++ s)) = dir.toList :: components (some s) := by
  have htext : (dir ++ ":" ++ s).toList = dir.toList ++ ':' :: s.toList := by simp
  rw [components, htext, List.splitOn, List.splitOnP_append_cons _ _ (by simp), List.splitOnP_eq_singleton]
  · rfl
  · intro c hc
    simpa using fun heq : c = ':' => h (heq ▸ hc)

theorem infix_of_mem_components {x : List Char} (h : x ∈ components v) : x <:+: (v.getD "").toList := by
  have hjoin : ∀ ls : List (List Char), x ∈ ls → x <:+: [':'].intercalate ls := by
    intro ls hx
    induction ls with
    | nil => cases hx
    | cons l ls ih =>
      cases ls with
      | nil => rw [List.mem_singleton.1 hx, List.intercalate_singleton]
      | cons k ls =>
        rw [List.intercalate_cons_cons]
        rcases List.mem_cons.1 hx with rfl | hx
        · rw [List.append_assoc]; exact (List.prefix_append _ _).isInfix
        · exact (ih hx).trans (List.suffix_append _ _).isInfix
  cases v with
  | none => cases h
  | some s =>
    have := hjoin _ h
    rwa [components, List.intercalate_splitOn] at this

theorem prependDir_iff (hne : dir ≠ "") :
    (Extends dir v (prependDir hit dir v) ∧ prependDir hit dir (prependDir hit dir v) = prependDir hit dir v) ↔
      Suits hit dir v := by
  unfold Suits
  by_cases hh : hit dir (v.getD "") = true
  · have hv : prependDir hit dir v = v := if_pos hh
    rw [if_pos hh, hv]
    exact ⟨fun h => h.1.present, fun h => ⟨⟨h, List.Sublist.refl _, Nat.le_refl _⟩, hv⟩⟩
  · have hv : prependDir hit dir v = some (dir ++ ":" ++ v.getD "") := if_neg hh
    rw [if_neg hh, hv]
    constructor
    · rintro ⟨h, hagain⟩
      have hcolon : ':' ∉ dir.toList := not_mem_of_mem_components h.present
      refine ⟨?_, hcolon, ?_⟩
      · -- an unset variable gets an empty component
        rintro rfl
        have hcount := h.no_empty
        rw [components_prepend hcolon] at hcount
        have hone : (components (some (none.getD ""))).count [] = 1 := rfl
        rw [List.count_cons_of_ne (by simpa using hne), hone] at hcount
        exact absurd hcount (by decide)
      · -- without a match the directory is put there again
        by_contra hno
        have htwice : prependDir hit dir (some (dir ++ ":" ++ v.getD "")) =
            some (dir ++ ":" ++ (dir ++ ":" ++ v.getD "")) :=
          if_neg hno
        rw [htwice, Option.some.injEq] at hagain
        have hlen := congrArg String.length hagain
        simp only [String.length_append] at hlen
        have : ":".length = 1 := rfl
        omega
    · rintro ⟨hset, hcolon, hself⟩
      obtain ⟨s, rfl⟩ := Option.ne_none_iff_exists'.1 hset
      refine ⟨?_, if_pos hself⟩
      rw [Option.getD_some]
      have hcomp := components_prepend hcolon s
      refine ⟨?_, ?_, ?_⟩
      · rw [hcomp]
        exact List.mem_cons_self
      · rw [hcomp]
        exact List.sublist_cons_self _ _
      · rw [hcomp, List.count_cons_of_ne (by simpa using hne)]

/-- No character of the directory is special in a pattern; a `(` could begin an extended one. -/
def plainDir (dir : String) : Prop := ∀ c ∈ dir.toList, plainChar c ∧ c ≠ '('

/-- A plain directory is looked for as it is. -/
def ReadsPlain (hit : String → String → Bool) : Prop :=
  ∀ dir value, plainDir dir → (hit dir value = true ↔ dir.toList <:+: value.toList)

theorem globHit_readsPlain : ReadsPlain globHit := fun _ _ h => fits_contains fun c hc => (h c hc).1

theorem suits_plain (hr : ReadsPlain hit) (hp : plainDir dir) : Suits hit dir v ↔
    dir.toList ∈ components v ∨ v ≠ none ∧ ':' ∉ dir.toList ∧ ¬ dir.toList <:+: (v.getD "").toList := by
  have hself : hit dir (dir ++ ":" ++ v.getD "") = true :=
    (hr _ _ hp).2 ⟨[], (":" ++ v.getD "").toList, by simp⟩
  unfold Suits
  by_cases h : dir.toList <:+: (v.getD "").toList
  · rw [if_pos ((hr _ _ hp).2 h)]
    simp [h]
  · rw [if_neg fun hh => h ((hr _ _ hp).1 hh)]
    have hno : dir.toList ∉ components v := fun hmem => h (infix_of_mem_components hmem)
    simp [h, hno, hself]

end

/-! ### Both variables -/

section
variable {hit : String → String → Bool}

theorem setUp_iff (root : String) (e : SearchEnv) : SetUp (environmentSetupPaths hit root) root e ↔
    Suits hit (root ++ "/host/usr/bin") e.path ∧ Suits hit (root ++ "/host/usr/lib") e.ldLibraryPath := by
  have hne : ∀ s : String, s ≠ "" → root ++ s ≠ "" := fun s hs h => hs (String.append_eq_empty_iff.1 h).2
  rw [← prependDir_iff (hne _ (by decide)), ← prependDir_iff (hne _ (by decide))]
  constructor
  · intro h
    exact ⟨⟨h.path, congrArg SearchEnv.path h.again⟩, h.ldLibraryPath, congrArg SearchEnv.ldLibraryPath h.again⟩
  · rintro ⟨⟨hpath, hpath'⟩, hld, hld'⟩
    exact ⟨hpath, hld, congrArg₂ SearchEnv.mk hpath' hld'⟩

theorem plainDir_append {root s : String} (h : plainDir root) (hs : plainDir s) : plainDir (root ++ s) := by
  intro c hc
  rw [String.toList_append, List.mem_append] at hc
  exact hc.elim (h c) (hs c)

end

/-- The set-up lines of `build-qt5.sh` and of `environment-setup` do the same, and do what is asked exactly when they
suit both variables, however `[[ .. ]]` matches. For an SDK directory without pattern characters that is: the directory
is a component already, or the variable is set, the directory has no colon and is no part of the value. -/
theorem search_paths_iff (hit : String → String → Bool) (root : String) (e : SearchEnv) :
    buildPaths hit root e = environmentSetupPaths hit root e ∧
    (SetUp (environmentSetupPaths hit root) root e ↔
      Suits hit (root ++ "/host/usr/bin") e.path ∧ Suits hit (root ++ "/host/usr/lib") e.ldLibraryPath) ∧
    (ReadsPlain hit → plainDir root → ∀ v, ∀ dir ∈ [root ++ "/host/usr/bin", root ++ "/host/usr/lib"],
      (Suits hit dir v ↔
        dir.toList ∈ components v ∨ v ≠ none ∧ ':' ∉ dir.toList ∧ ¬ dir.toList <:+: (v.getD "").toList)) := by
  refine ⟨congrFun (buildPaths_eq hit root) e, setUp_iff root e, fun hr hp v dir hdir => suits_plain hr ?_⟩
  have hbin : plainDir "/host/usr/bin" := by simp [plainDir, plainChar]
  have hlib : plainDir "/host/usr/lib" := by simp [plainDir, plainChar]
  simp only [List.mem_cons, List.not_mem_nil, or_false] at hdir
  rcases hdir with rfl | rfl
  · exact plainDir_append hp hbin
  · exact plainDir_append hp hlib

/-- Both variables set, and nothing of the SDK in them. -/
theorem search_paths_opt :
    SetUp (environmentSetupPaths globHit "/opt/sdk") "/opt/sdk" ⟨some "/usr/bin:/bin", some "/usr/lib"⟩ := by
  obtain ⟨-, hiff, hplain⟩ := search_paths_iff globHit "/opt/sdk" ⟨some "/usr/bin:/bin", some "/usr/lib"⟩
  have hroot : plainDir "/opt/sdk" := by simp [plainDir, plainChar]
  have hdir := hplain globHit_readsPlain hroot
  have hbin := hdir (some "/usr/bin:/bin") ("/opt/sdk" ++ "/host/usr/bin") List.mem_cons_self
  have hlib := hdir (some "/usr/lib") ("/opt/sdk" ++ "/host/usr/lib") (List.mem_cons_of_mem _ List.mem_cons_self)
  refine hiff.2 ⟨hbin.2 (.inr ⟨by simp, ?_, ?_⟩), hlib.2 (.inr ⟨by simp, ?_, ?_⟩)⟩
  all_goals decide +kernel

/-- An unset variable gets an empty component, a longer name hides the directory, and pattern characters make each run
put it there again. -/
theorem search_paths_wrong :
    environmentSetupPaths globHit "/sdk" ⟨some "/sdk/host/usr/bin2:/bin", none⟩ =
      ⟨some "/sdk/host/usr/bin2:/bin", some "/sdk/host/usr/lib:"⟩ ∧
    (environmentSetupPaths globHit "/s[d]k" (environmentSetupPaths globHit "/s[d]k" ⟨some "/bin", some "/lib"⟩)).path =
      some "/s[d]k/host/usr/bin:/s[d]k/host/usr/bin:/bin" := by
  decide +kernel

end BuildQt5
