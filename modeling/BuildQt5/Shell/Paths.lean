import BuildQt5.Shell.Text

/-!
# Paths as texts

A script that edits a path edits its text. Joining names and splitting the text at the slashes are inverse to each
other, and `${path/old/new}` with an `old` that has no slash works on the first name that contains it (`replaceIn`).
Where `new` begins with `old` no two paths become one (`replaceIn_injective`).
-/

namespace Shell

/-- The name of a directory entry. -/
def IsName (x : String) : Prop := x ≠ "" ∧ '/' ∉ x.toList

instance (x : String) : Decidable (IsName x) := inferInstanceAs (Decidable (_ ∧ _))

theorem joinPath_cons_cons (x y : String) (r : Path) :
    (joinPath (x :: y :: r)).toList = x.toList ++ '/' :: (joinPath (y :: r)).toList := by
  simp [joinPath, String.intercalate_cons_cons]

theorem joinPath_singleton (x : String) : joinPath [x] = x := by simp [joinPath]

theorem sep_inj {c : Char} {a x t s : List Char} (ha : c ∉ a) (hx : c ∉ x) (h : a ++ c :: t <+: x ++ c :: s) :
    a = x ∧ t <+: s := by
  induction a generalizing x with
  | nil =>
    cases x with
    | nil => exact ⟨rfl, (List.cons_prefix_cons.1 h).2⟩
    | cons d x => exact absurd (List.cons_prefix_cons.1 h).1 fun heq => hx (heq ▸ List.mem_cons_self)
  | cons b a ih =>
    cases x with
    | nil => exact absurd (List.cons_prefix_cons.1 h).1 fun heq => ha (heq ▸ List.mem_cons_self)
    | cons d x =>
      obtain ⟨rfl, h'⟩ := List.cons_prefix_cons.1 h
      obtain ⟨rfl, ht⟩ := ih (fun hc => ha (List.mem_cons_of_mem _ hc)) (fun hc => hx (List.mem_cons_of_mem _ hc)) h'
      exact ⟨rfl, ht⟩

/-- The first name, from the text. -/
theorem joinPath_starts {a : String} {t : List Char} {p : Path} (ha : '/' ∉ a.toList) (hp : ∀ x ∈ p, IsName x)
    (h : a.toList ++ '/' :: t <+: (joinPath p).toList) : ∃ x r, p = a :: x :: r ∧ t <+: (joinPath (x :: r)).toList := by
  cases p with
  | nil => simp [joinPath] at h
  | cons y s =>
    have hy := (hp y List.mem_cons_self).2
    cases s with
    | nil =>
      rw [joinPath_singleton] at h
      exact absurd (h.subset (by simp)) hy
    | cons x r =>
      rw [joinPath_cons_cons] at h
      obtain ⟨heq, ht⟩ := sep_inj ha hy h
      exact ⟨x, r, by rw [String.toList_injective heq], ht⟩

/-- The last name ends the text. -/
theorem joinPath_ends {p : Path} (hp : p ≠ []) : (p.getLastD "").toList <:+ (joinPath p).toList := by
  induction p with
  | nil => exact absurd rfl hp
  | cons x r ih =>
    cases r with
    | nil => rw [joinPath_singleton]; exact List.suffix_refl _
    | cons y r =>
      rw [joinPath_cons_cons]
      exact (ih (List.cons_ne_nil y r)).trans ((List.suffix_cons _ _).trans (List.suffix_append _ _))

theorem splitOnP_joinPath {x : String} {r : Path} (h : ∀ y ∈ x :: r, '/' ∉ y.toList) :
    (joinPath (x :: r)).toList.splitOnP (· = '/') = (x :: r).map String.toList := by
  induction r generalizing x with
  | nil =>
    rw [joinPath_singleton, List.splitOnP_eq_singleton]
    · rfl
    · intro c hc
      have hx := h x List.mem_cons_self
      simpa using fun heq : c = '/' => hx (heq ▸ hc)
  | cons y r ih =>
    have hx : ∀ c ∈ x.toList, decide (c = '/') = false := by
      intro c hc
      have hx := h x List.mem_cons_self
      simpa using fun heq : c = '/' => hx (heq ▸ hc)
    rw [joinPath_cons_cons, List.splitOnP_append_cons_of_forall_mem hx '/' (by simp),
      ih fun z hz => h z (List.mem_cons_of_mem _ hz)]
    rfl

theorem splitPath_joinPath {p : Path} (h : ∀ x ∈ p, IsName x) : splitPath (joinPath p) = p := by
  cases p with
  | nil => decide
  | cons x r =>
    rw [splitPath, splitOnP_joinPath fun y hy => (h y hy).2, List.filter_eq_self.2, List.map_map]
    · simp [Function.comp_def]
    · intro cs hcs
      obtain ⟨y, hy, rfl⟩ := List.mem_map.1 hcs
      simpa using (h y hy).1

/-! ### The first occurrence -/

section replace
variable {old new cs x y : List Char} {c : Char}

theorem replaceFirst_cons_start (h : old <+: c :: cs) :
    replaceFirst old new (c :: cs) = new ++ (c :: cs).drop old.length := if_pos h

theorem replaceFirst_cons (h : ¬ old <+: c :: cs) : replaceFirst old new (c :: cs) = c :: replaceFirst old new cs :=
  if_neg h

theorem replaceFirst_self (hold : old ≠ []) : replaceFirst old new old = new := by
  obtain ⟨c, cs, rfl⟩ := List.exists_cons_of_ne_nil hold
  rw [replaceFirst_cons_start (List.prefix_refl _), List.drop_length, List.append_nil]

theorem replaceFirst_of_absent (hold : old ≠ []) (h : ¬ old <:+: cs) : replaceFirst old new cs = cs := by
  induction cs with
  | nil => exact if_neg hold
  | cons c cs ih =>
    rw [replaceFirst_cons fun hp => h hp.isInfix, ih fun hi => h (hi.trans (List.suffix_cons c cs).isInfix)]

/-- Where the first occurrence is. -/
theorem exists_first (hold : old ≠ []) (h : old <:+: cs) : ∃ a b, cs = a ++ old ++ b ∧
    (∀ new, replaceFirst old new cs = a ++ new ++ b) := by
  induction cs with
  | nil => exact absurd (List.infix_nil.1 h) hold
  | cons c cs ih =>
    by_cases hp : old <+: c :: cs
    · obtain ⟨b, hb⟩ := hp
      refine ⟨[], b, by simpa using hb.symm, fun new => ?_⟩
      rw [replaceFirst_cons_start ⟨b, hb⟩, ← hb, List.drop_left]
      rfl
    · have hi : old <:+: cs := (List.infix_cons_iff.1 h).resolve_left hp
      obtain ⟨a, b, rfl, hnew⟩ := ih hi
      exact ⟨c :: a, b, by simp, fun new => by rw [replaceFirst_cons hp, hnew]; simp⟩

/-- An occurrence in the first part is the first one of the whole. -/
theorem replaceFirst_append (hold : old ≠ []) (h : old <:+: x) :
    replaceFirst old new (x ++ y) = replaceFirst old new x ++ y := by
  induction x with
  | nil => exact absurd (List.infix_nil.1 h) hold
  | cons c x ih =>
    by_cases hp : old <+: c :: x
    · rw [replaceFirst_cons_start hp, List.cons_append, replaceFirst_cons_start, ← List.cons_append,
        List.drop_append_of_le_length hp.length_le, List.append_assoc]
      exact hp.trans (List.prefix_append _ _)
    · have hi : old <:+: x := (List.infix_cons_iff.1 h).resolve_left hp
      have hlen : old.length ≤ (c :: x).length := hi.length_le.trans (Nat.le_succ _)
      rw [replaceFirst_cons hp, List.cons_append, replaceFirst_cons, ih hi, List.cons_append]
      intro hp'
      exact hp (List.prefix_of_prefix_length_le hp' (List.prefix_append (c :: x) y) hlen)

/-- A separator that `old` does not contain: the first occurrence is on one side of it. -/
theorem replaceFirst_sep (hold : old ≠ []) (hc : c ∉ old) (h : ¬ old <:+: x) :
    replaceFirst old new (x ++ c :: y) = x ++ c :: replaceFirst old new y := by
  induction x with
  | nil =>
    refine replaceFirst_cons fun hp => ?_
    obtain ⟨d, rest, rfl⟩ := List.exists_cons_of_ne_nil hold
    obtain ⟨rfl, -⟩ := List.cons_prefix_cons.1 hp
    exact hc List.mem_cons_self
  | cons d x ih =>
    rw [List.cons_append, replaceFirst_cons, ih fun hi => h (hi.trans (List.suffix_cons d x).isInfix), List.cons_append]
    intro hp
    by_cases hlen : old.length ≤ (d :: x).length
    · exact h (List.prefix_of_prefix_length_le hp (List.prefix_append (d :: x) (c :: y)) hlen).isInfix
    · -- a longer `old` contains the separator
      have hsep : d :: x ++ [c] <+: old := by
        refine List.prefix_of_prefix_length_le ?_ hp (by simp at hlen ⊢; omega)
        exact ⟨y, by simp⟩
      exact hc (hsep.subset (by simp))

theorem infix_replaceFirst_iff (hold : old ≠ []) (hnew : old <+: new) :
    old <:+: replaceFirst old new cs ↔ old <:+: cs := by
  constructor
  · intro h
    by_contra hn
    rw [replaceFirst_of_absent hold hn] at h
    exact hn h
  · intro h
    obtain ⟨a, b, -, hr⟩ := exists_first hold h
    rw [hr new]
    exact hnew.isInfix.trans ⟨a, b, rfl⟩

theorem prefix_of_prefix_replaceFirst (hold : old ≠ []) (hnew : old <+: new) (h : old <+: replaceFirst old new cs) :
    old <+: cs := by
  by_cases hi : old <:+: cs
  · obtain ⟨a, b, hcs, hr⟩ := exists_first hold hi
    obtain ⟨t, rfl⟩ := hnew
    rw [hr] at h
    have hshort : old <+: a ++ old := by
      refine List.prefix_of_prefix_length_le h ?_ (by simp)
      exact ⟨t ++ b, by simp⟩
    rw [hcs]
    exact hshort.trans (List.prefix_append _ _)
  · rwa [replaceFirst_of_absent hold hi] at h

theorem replaceFirst_injective (hold : old ≠ []) (hnew : old <+: new) :
    Function.Injective (replaceFirst old new) := by
  have hnil : replaceFirst old new [] = [] := if_neg hold
  have hnew0 : new ≠ [] := by rintro rfl; exact hold (List.prefix_nil.1 hnew)
  have hcons : ∀ c cs, replaceFirst old new (c :: cs) ≠ [] := by
    intro c cs
    by_cases hp : old <+: c :: cs
    · rw [replaceFirst_cons_start hp]; simp [hnew0]
    · rw [replaceFirst_cons hp]; simp
  intro cs
  induction cs with
  | nil =>
    intro cs' h
    cases cs' with
    | nil => rfl
    | cons c cs' => exact absurd (h.symm.trans hnil) (hcons c cs')
  | cons c cs ih =>
    intro cs' h
    cases cs' with
    | nil => exact absurd (h.trans hnil) (hcons c cs)
    | cons d cs' =>
      have hsame : old <+: c :: cs ↔ old <+: d :: cs' := by
        constructor
        · intro hp
          refine prefix_of_prefix_replaceFirst hold hnew (h ▸ ?_)
          rw [replaceFirst_cons_start hp]
          exact hnew.trans (List.prefix_append _ _)
        · intro hp
          refine prefix_of_prefix_replaceFirst hold hnew (h.symm ▸ ?_)
          rw [replaceFirst_cons_start hp]
          exact hnew.trans (List.prefix_append _ _)
      by_cases hp : old <+: c :: cs
      · have hp' := hsame.1 hp
        rw [replaceFirst_cons_start hp, replaceFirst_cons_start hp'] at h
        rw [← List.prefix_iff_eq_append.1 hp, ← List.prefix_iff_eq_append.1 hp', List.append_cancel_left h]
      · rw [replaceFirst_cons hp, replaceFirst_cons fun hp' => hp (hsame.2 hp')] at h
        obtain ⟨rfl, ht⟩ := List.cons.inj h
        rw [ih ht]

end replace

/-! ### In a path -/

/-- `old` replaced in the first name that contains it. -/
def replaceIn (old new : List Char) : Path → Path
  | [] => []
  | x :: r =>
    if old <:+: x.toList then String.ofList (replaceFirst old new x.toList) :: r else x :: replaceIn old new r

section path
variable {old new : List Char} {p q : Path} {x : String}

theorem replaceIn_cons_first {r : Path} (h : old <:+: x.toList) :
    replaceIn old new (x :: r) = String.ofList (replaceFirst old new x.toList) :: r := if_pos h

theorem replaceIn_cons {r : Path} (h : ¬ old <:+: x.toList) :
    replaceIn old new (x :: r) = x :: replaceIn old new r := if_neg h

theorem replaceIn_eq_nil_iff : replaceIn old new p = [] ↔ p = [] := by
  cases p with
  | nil => simp [replaceIn]
  | cons x r => rw [replaceIn]; split <;> simp

/-- On the text of the path. -/
theorem replaceFirst_joinPath (hold : old ≠ []) (hsep : '/' ∉ old) (p : Path) :
    replaceFirst old new (joinPath p).toList = (joinPath (replaceIn old new p)).toList := by
  induction p with
  | nil => exact if_neg hold
  | cons x r ih =>
    cases r with
    | nil =>
      by_cases h : old <:+: x.toList
      · rw [replaceIn_cons_first h, joinPath_singleton, joinPath_singleton, String.toList_ofList]
      · rw [replaceIn_cons h, replaceIn, joinPath_singleton, replaceFirst_of_absent hold h]
    | cons y r =>
      rw [joinPath_cons_cons]
      by_cases h : old <:+: x.toList
      · rw [replaceIn_cons_first h, joinPath_cons_cons, replaceFirst_append hold h, String.toList_ofList]
      · rw [replaceIn_cons h, replaceFirst_sep hold hsep h, ih]
        obtain ⟨z, s, hz⟩ := List.exists_cons_of_ne_nil
          (fun h0 => absurd (replaceIn_eq_nil_iff.1 h0) (by simp) : replaceIn old new (y :: r) ≠ [])
        rw [hz, joinPath_cons_cons]

theorem replaceIn_of_not (h : ∀ x ∈ p, ¬ old <:+: x.toList) : replaceIn old new p = p := by
  induction p with
  | nil => rfl
  | cons x r ih =>
    rw [replaceIn_cons (h x List.mem_cons_self), ih fun y hy => h y (List.mem_cons_of_mem _ hy)]

/-- A name that contains `old` keeps what follows it as it is. -/
theorem replaceIn_append (h : ∃ x ∈ p, old <:+: x.toList) : replaceIn old new (p ++ q) = replaceIn old new p ++ q := by
  induction p with
  | nil => simp at h
  | cons y r ih =>
    by_cases hy : old <:+: y.toList
    · rw [List.cons_append, replaceIn_cons_first hy, replaceIn_cons_first hy, List.cons_append]
    · obtain ⟨x, hx, hi⟩ := h
      have hr : x ∈ r := by
        rcases List.mem_cons.1 hx with rfl | hx
        · exact absurd hi hy
        · exact hx
      rw [List.cons_append, replaceIn_cons hy, replaceIn_cons hy, ih ⟨x, hr, hi⟩, List.cons_append]

/-- A first name without `old` is the one that was there. -/
theorem replaceIn_eq_cons (hold : old ≠ []) (hnew : old <+: new) (hx : ¬ old <:+: x.toList)
    (h : replaceIn old new p = x :: q) : ∃ r, p = x :: r ∧ replaceIn old new r = q := by
  cases p with
  | nil => simp [replaceIn] at h
  | cons y r =>
    by_cases hy : old <:+: y.toList
    · rw [replaceIn_cons_first hy] at h
      refine absurd ?_ hx
      rw [← (List.cons.inj h).1, String.toList_ofList, infix_replaceFirst_iff hold hnew]
      exact hy
    · rw [replaceIn_cons hy] at h
      obtain ⟨rfl, hq⟩ := List.cons.inj h
      exact ⟨r, rfl, hq⟩

theorem replaceIn_dropLast : (replaceIn old new p).dropLast = replaceIn old new p.dropLast := by
  induction p with
  | nil => rfl
  | cons x r ih =>
    cases r with
    | nil => rw [replaceIn]; split <;> rfl
    | cons y r =>
      by_cases h : old <:+: x.toList
      · rw [replaceIn_cons_first h, List.dropLast_cons_cons, List.dropLast_cons_cons, replaceIn_cons_first h]
      · have hne : replaceIn old new (y :: r) ≠ [] := fun h0 => absurd (replaceIn_eq_nil_iff.1 h0) (by simp)
        rw [replaceIn_cons h, List.dropLast_cons_of_ne_nil hne, ih, List.dropLast_cons_cons, replaceIn_cons h]

/-- The characters of the new path are old ones or characters of `new`. -/
theorem char_replaceIn (hold : old ≠ []) {c : Char} (hx : x ∈ replaceIn old new p) (hc : c ∈ x.toList) :
    c ∈ new ∨ ∃ y ∈ p, c ∈ y.toList := by
  induction p with
  | nil => simp [replaceIn] at hx
  | cons y r ih =>
    have hr : x ∈ r → c ∈ new ∨ ∃ z ∈ y :: r, c ∈ z.toList := fun hx => .inr ⟨x, List.mem_cons_of_mem _ hx, hc⟩
    by_cases hi : old <:+: y.toList
    · rw [replaceIn_cons_first hi] at hx
      rcases List.mem_cons.1 hx with rfl | hx
      · obtain ⟨a, b, hy, hnew⟩ := exists_first hold hi
        rw [String.toList_ofList, hnew, List.mem_append, List.mem_append] at hc
        rcases hc with (hc | hc) | hc
        · exact .inr ⟨y, List.mem_cons_self, by simp [hy, hc]⟩
        · exact .inl hc
        · exact .inr ⟨y, List.mem_cons_self, by simp [hy, hc]⟩
      · exact hr hx
    · rw [replaceIn_cons hi] at hx
      rcases List.mem_cons.1 hx with rfl | hx
      · exact .inr ⟨x, List.mem_cons_self, hc⟩
      · rcases ih hx with h | ⟨z, hz, hcz⟩
        · exact .inl h
        · exact .inr ⟨z, List.mem_cons_of_mem _ hz, hcz⟩

theorem ne_empty_replaceIn (hold : old ≠ []) (hnew : new ≠ []) (h : ∀ x ∈ p, x ≠ "") :
    ∀ x ∈ replaceIn old new p, x ≠ "" := by
  induction p with
  | nil => simp [replaceIn]
  | cons y r ih =>
    intro x hx
    by_cases hi : old <:+: y.toList
    · rw [replaceIn_cons_first hi] at hx
      rcases List.mem_cons.1 hx with rfl | hx
      · obtain ⟨a, b, -, hr⟩ := exists_first hold hi
        intro h0
        have hlen := congrArg String.toList h0
        simp [hr, hnew] at hlen
      · exact h x (List.mem_cons_of_mem _ hx)
    · rw [replaceIn_cons hi] at hx
      rcases List.mem_cons.1 hx with rfl | hx
      · exact h x List.mem_cons_self
      · exact ih (fun z hz => h z (List.mem_cons_of_mem _ hz)) x hx

theorem isName_replaceIn (hold : old ≠ []) (hnew : new ≠ []) (hsep : '/' ∉ new) (h : ∀ x ∈ p, IsName x) :
    ∀ x ∈ replaceIn old new p, IsName x := by
  refine fun x hx => ⟨ne_empty_replaceIn hold hnew (fun y hy => (h y hy).1) x hx, fun hc => ?_⟩
  rcases char_replaceIn hold hx hc with hc | ⟨y, hy, hc⟩
  · exact hsep hc
  · exact (h y hy).2 hc

theorem replaceIn_injective (hold : old ≠ []) (hnew : old <+: new) : Function.Injective (replaceIn old new) := by
  intro p
  induction p with
  | nil =>
    intro q h
    exact (replaceIn_eq_nil_iff.1 h.symm).symm
  | cons x r ih =>
    intro q h
    cases q with
    | nil => exact absurd (replaceIn_eq_nil_iff.1 h) (by simp)
    | cons y s =>
      -- a name contains `old` before if and only if it does after
      have hmark : ∀ z : String, old <:+: (String.ofList (replaceFirst old new z.toList)).toList ↔ old <:+: z.toList := by
        intro z
        rw [String.toList_ofList, infix_replaceFirst_iff hold hnew]
      by_cases hx : old <:+: x.toList
      · by_cases hy : old <:+: y.toList
        · rw [replaceIn_cons_first hx, replaceIn_cons_first hy] at h
          obtain ⟨h1, rfl⟩ := List.cons.inj h
          rw [String.toList_injective (replaceFirst_injective hold hnew (String.ofList_injective h1))]
        · rw [replaceIn_cons_first hx, replaceIn_cons hy] at h
          obtain ⟨h1, -⟩ := List.cons.inj h
          exact absurd (h1 ▸ (hmark x).2 hx) hy
      · by_cases hy : old <:+: y.toList
        · rw [replaceIn_cons hx, replaceIn_cons_first hy] at h
          obtain ⟨h1, -⟩ := List.cons.inj h
          exact absurd (h1.symm ▸ (hmark y).2 hy) hx
        · rw [replaceIn_cons hx, replaceIn_cons hy] at h
          obtain ⟨rfl, ht⟩ := List.cons.inj h
          rw [ih ht]

end path

end Shell
