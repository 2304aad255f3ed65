import BuildQt5.Shell.Frame
import BuildQt5.Shell.Trace

/-!
# Plans and goals

A plan is a list of external programs in the order in which they are to be run, each with whether the run goes on only
if it succeeds. `Executes T code pl p`: every run of `p`, wherever it stops, has executed a front of the plan and nothing
else; it ends when the whole plan is done, and exits, with `code`, just after the first failure that counts. A goal is
weaker: `Achieves T gs p` says that `p` ends only after successful runs of programs that meet the goals `gs`, in this
order, perhaps among others. Both go through `bind` by putting the lists one after the other.
-/

namespace Shell
open Relation

variable {ι α β : Type} {T : Tools} {w v u : World ι}

/-- The external programs that were run, oldest first. -/
def executed (evs : List (Event ι)) : List (ι × Nat) := (ran evs).reverse

theorem executed_append (l l' : List (Event ι)) : executed (l ++ l') = executed l' ++ executed l := by
  rw [executed, ran_append, List.reverse_append, executed, executed]

/-- What was executed from `w` to `v`. -/
def Since (P : List (ι × Nat) → Prop) (w v : World ι) : Prop := ∃ evs, v.log = evs ++ w.log ∧ P (executed evs)

section since
variable {P P' P'' : List (ι × Nat) → Prop}

theorem Since.refl (h : P []) : Since P w w := ⟨[], rfl, h⟩

theorem Since.mono (h : Since P w v) (hP : ∀ rs, P rs → P' rs) : Since P' w v := by
  obtain ⟨evs, hl, he⟩ := h
  exact ⟨evs, hl, hP _ he⟩

theorem Since.trans (h : Since P w v) (h' : Since P' v u) (hP : ∀ rs rs', P rs → P' rs' → P'' (rs ++ rs')) :
    Since P'' w u := by
  obtain ⟨evs, hl, he⟩ := h
  obtain ⟨evs', hl', he'⟩ := h'
  refine ⟨evs' ++ evs, by rw [hl', hl, List.append_assoc], ?_⟩
  rw [executed_append]
  exact hP _ _ he he'

theorem Since.mark {m : ι} (h : P []) : Since P w ⟨w.fs, .mark m :: w.log⟩ := ⟨[.mark m], rfl, h⟩

theorem Since.mid {c : Cmd ι} (h : P []) (hm : c.MidW T w v) : Since P w v := by
  obtain ⟨evs, hm, hl⟩ := hm
  refine ⟨evs, hl, ?_⟩
  have hran : ran evs = [] := by
    obtain ⟨fs, log⟩ := v
    cases hm <;> rfl
  rwa [executed, hran]

theorem Since.fin {c : Cmd ι} {n : Nat} (h : P (c.job.map fun j => (j, n)).toList) (hf : c.FinW T w n v) :
    Since P w v := by
  refine ⟨_, hf.2, ?_⟩
  rw [executed, Cmd.ran_events]
  cases hc : c.job <;> simpa [hc] using h

end since

theorem Since.nil_trans {P : List (ι × Nat) → Prop} (h : Since (· = []) w v) (h' : Since P v u) : Since P w u :=
  h.trans h' fun rs rs' hrs hrs' => by rwa [hrs, List.nil_append]

/-- A command: what it has executed when it is done. -/
theorem safe_since {P : List (ι × Nat) → Prop} {c : Cmd ι} {X : Nat → World ι → Prop} (h0 : P [])
    (h : ∀ n, P (c.job.map fun j => (j, n)).toList) :
    Safe T Alone (Since P w) (fun n => Since (· = (c.job.map fun j => (j, n)).toList) w) X (Prog.run c) w := by
  refine safe_busy (Since (· = []) w) (.refl rfl) (fun _ h => h.mono fun rs hrs => by rwa [hrs]) ?_ ?_
  · exact fun v v' hv hm => hv.nil_trans (.mid rfl hm)
  · intro v n v' hv hf
    exact safe_pure.2 ⟨hv.nil_trans (.fin (h n) hf), hv.nil_trans (.fin rfl hf)⟩

/-! ### Plans -/

/-- Programs in their order, each with whether a failure of it ends the run. -/
abbrev Plan (ι : Type) := List (ι × Bool)

namespace Plan
variable {pl pl' : Plan ι} {rs rs' : List (ι × Nat)}

/-- The whole plan has been executed, and what counts has succeeded. -/
def Done (pl : Plan ι) (rs : List (ι × Nat)) : Prop :=
  List.Forall₂ (fun x r => r.1 = x.1 ∧ (x.2 = true → r.2 = 0)) pl rs

/-- A front of the plan has been executed. -/
def Begun (pl : Plan ι) (rs : List (ι × Nat)) : Prop := ∃ front, front <+: pl ∧ Done front rs

/-- A front of the plan has been executed, and the last of it was the first failure that counts. -/
def Broken (pl : Plan ι) (rs : List (ι × Nat)) : Prop :=
  ∃ front j rs' n, front ++ [(j, true)] <+: pl ∧ rs = rs' ++ [(j, n)] ∧ Done front rs' ∧ n ≠ 0

theorem Done.append (h : Done pl rs) (h' : Done pl' rs') : Done (pl ++ pl') (rs ++ rs') := List.rel_append h h'

theorem Done.begun (h : Done pl rs) : Begun pl rs := ⟨pl, List.prefix_refl _, h⟩

theorem begun_nil : Begun pl [] := ⟨[], List.nil_prefix, .nil⟩

theorem eq_nil_of_done (h : Done [] rs) : rs = [] := List.forall₂_nil_left_iff.1 h

theorem eq_nil_of_begun (h : Begun [] rs) : rs = [] := by
  obtain ⟨front, hf, hd⟩ := h
  rw [List.prefix_nil.1 hf] at hd
  exact eq_nil_of_done hd

theorem not_broken_nil : ¬ Broken [] rs := by
  rintro ⟨front, j, rs', n, hf, -⟩
  simpa using List.prefix_nil.1 hf

theorem Begun.left (h : Begun pl rs) : Begun (pl ++ pl') rs := by
  obtain ⟨front, hf, hd⟩ := h
  exact ⟨front, hf.trans (List.prefix_append _ _), hd⟩

theorem Begun.right (h : Done pl rs) (h' : Begun pl' rs') : Begun (pl ++ pl') (rs ++ rs') := by
  obtain ⟨front, hf, hd⟩ := h'
  exact ⟨pl ++ front, (List.prefix_append_right_inj _).2 hf, h.append hd⟩

theorem Broken.left (h : Broken pl rs) : Broken (pl ++ pl') rs := by
  obtain ⟨front, j, rs', n, hf, h⟩ := h
  exact ⟨front, j, rs', n, hf.trans (List.prefix_append _ _), h⟩

theorem Broken.right (h : Done pl rs) (h' : Broken pl' rs') : Broken (pl ++ pl') (rs ++ rs') := by
  obtain ⟨front, j, rs₁, n, hf, rfl, hd, hn⟩ := h'
  refine ⟨pl ++ front, j, rs ++ rs₁, n, ?_, by simp, h.append hd, hn⟩
  rw [List.append_assoc]
  exact (List.prefix_append_right_inj _).2 hf

end Plan

def Executes (T : Tools) (code : Nat) (pl : Plan ι) (p : Prog ι α) : Prop :=
  ∀ w, Safe T Alone (Since (fun rs => pl.Begun rs ∨ pl.Broken rs) w) (fun _ => Since pl.Done w)
    (fun n v => n = code ∧ Since pl.Broken w v) p w

/-- `p` gives up, and executes nothing. -/
def GivesUp (T : Tools) (code : Nat) (p : Prog ι α) : Prop :=
  ∀ w, Safe T Alone (Since (· = []) w) (fun _ _ => False) (fun n v => n = code ∧ Since (· = []) w v) p w

section executes
variable {code : Nat} {pl pl' : Plan ι} {p : Prog ι α} {c : Cmd ι} {j : ι}

theorem Executes.bind {f : α → Prog ι β} (hp : Executes T code pl p) (hf : ∀ a, Executes T code pl' (f a)) :
    Executes T code (pl ++ pl') (p >>= f) := fun w => by
  refine safe_bind ((hp w).mono (fun _ h => h.mono fun _ => .imp .left .left) (fun a v hv => ?_)
    fun n v h => ⟨h.1, h.2.mono fun _ => .left⟩)
  exact (hf a v).mono (fun _ h => hv.trans h fun _ _ h => .imp (.right h) (.right h))
    (fun _ _ h => hv.trans h fun _ _ => .append) fun _ _ h => ⟨h.1, hv.trans h.2 fun _ _ => .right⟩

/-- Something that executes nothing, and then the plan. -/
theorem Executes.after {f : α → Prog ι β} (hp : Executes T code [] p) (hf : ∀ a, Executes T code pl (f a)) :
    Executes T code pl (p >>= f) := hp.bind hf

theorem executes_pure {a : α} : Executes T code [] (.pure a : Prog ι α) := fun _ =>
  safe_pure.2 ⟨.refl (.inl Plan.begun_nil), .refl .nil⟩

theorem executes_note {m : ι} : Executes T code [] (Prog.note m) := fun _ =>
  safe_note.2 ⟨.refl (.inl Plan.begun_nil), .mark (.inl Plan.begun_nil), .mark .nil⟩

theorem executes_ite {b : Prop} [Decidable b] {q : Prog ι α} (hp : b → Executes T code pl p)
    (hq : ¬ b → Executes T code pl' q) : Executes T code (if b then pl else pl') (if b then p else q) := by
  split
  · exact hp ‹_›
  · exact hq ‹_›

theorem executes_ifThen {b : Bool} {p : Prog ι Unit} (hp : Executes T code pl p) :
    Executes T code (if b then pl else []) (Prog.ifThen b p) := executes_ite (fun _ => hp) fun _ => executes_pure

theorem executes_ifThen_nil {b : Bool} {p : Prog ι Unit} (hp : Executes T code [] p) :
    Executes T code [] (Prog.ifThen b p) := by
  unfold Prog.ifThen
  split
  · exact hp
  · exact executes_pure

theorem executes_forEach {f : β → Prog ι Unit} {pls : β → Plan ι} (hf : ∀ x, Executes T code (pls x) (f x))
    (xs : List β) : Executes T code (xs.flatMap pls) (Prog.forEach f xs) := by
  induction xs with
  | nil => exact executes_pure
  | cons x xs ih => exact (hf x).bind fun _ => ih

/-- A command that is not a run of an external program. -/
theorem executes_silent (hc : c.job = none) : Executes T code [] (Prog.run c) := fun _ =>
  (safe_since (.inl Plan.begun_nil) fun n => .inl (by rw [hc]; exact Plan.begun_nil)).mono (fun _ h => h)
    (fun _ _ h => h.mono fun rs hrs => by rw [hrs, hc]; exact .nil) fun _ _ h => h

/-- A run of an external program whose failure does not end the run. -/
theorem executes_run (hc : c.job = some j) : Executes T code [(j, false)] (Prog.run c) := by
  have hdone : ∀ n, Plan.Done [(j, false)] [(j, n)] := fun n => .cons ⟨rfl, by simp⟩ .nil
  intro w
  refine (safe_since (.inl Plan.begun_nil) fun n => ?_).mono (fun _ h => h) (fun n _ h => h.mono fun rs hrs => ?_)
    fun _ _ h => h
  · rw [hc]
    exact .inl (hdone n).begun
  · rw [hrs, hc]
    exact hdone n

theorem Executes.unit {p : Prog ι Nat} (hp : Executes T code pl p) : Executes T code pl (p >>= fun _ => .pure ()) := by
  have h := hp.bind (f := fun _ => (.pure () : Prog ι Unit)) fun _ => executes_pure
  rwa [List.append_nil] at h

/-- A run of an external program whose failure ends the run. -/
theorem executes_checked {f : Nat → Prog ι β} (hc : c.job = some j) (h0 : Executes T code [] (f 0))
    (hn : ∀ n, n ≠ 0 → GivesUp T code (f n)) : Executes T code [(j, true)] (Prog.run c >>= f) := by
  intro w
  have hbroken : ∀ n, n ≠ 0 → Plan.Broken [(j, true)] [(j, n)] := fun n hn =>
    ⟨[], j, [], n, List.prefix_refl _, rfl, .nil, hn⟩
  have hdone : Plan.Done [(j, true)] [(j, 0)] := .cons ⟨rfl, fun _ => rfl⟩ .nil
  have hone : ∀ n, Plan.Begun [(j, true)] [(j, n)] ∨ Plan.Broken [(j, true)] [(j, n)] := by
    intro n
    by_cases h : n = 0
    · subst h
      exact .inl hdone.begun
    · exact .inr (hbroken n h)
  refine safe_bind ((safe_since (.inl Plan.begun_nil) fun n => ?_).mono (fun _ h => h) (fun n v hv => ?_) fun _ _ h => h)
  · rw [hc]
    exact hone n
  · have hv : Since (· = [(j, n)]) w v := hv.mono fun rs hrs => by rw [hrs, hc]; rfl
    by_cases h : n = 0
    · subst h
      refine (h0 v).mono (fun _ h => hv.trans h fun rs rs' hrs h' => ?_) (fun _ _ h => hv.trans h fun rs rs' hrs h' => ?_)
        fun _ _ h => ⟨h.1, hv.trans h.2 fun _ _ _ h' => absurd h' Plan.not_broken_nil⟩
      · rw [hrs, Plan.eq_nil_of_begun (h'.resolve_right Plan.not_broken_nil)]
        exact .inl hdone.begun
      · rw [hrs, Plan.eq_nil_of_done h']
        exact hdone
    · refine (hn n h v).mono (fun _ h' => hv.trans h' fun rs rs' hrs hrs' => ?_) (fun _ _ h => h.elim)
        fun _ _ h' => ⟨h'.1, hv.trans h'.2 fun rs rs' hrs hrs' => ?_⟩
      all_goals rw [hrs, hrs', List.append_nil]
      · exact .inr (hbroken n h)
      · exact hbroken n h

/-- `p` follows the plan and exits, with 0 when it is done. -/
def Finishes (T : Tools) (code : Nat) (pl : Plan ι) (p : Prog ι α) : Prop :=
  ∀ w, Safe T Alone (Since (fun rs => pl.Begun rs ∨ pl.Broken rs) w) (fun _ _ => False)
    (fun n v => n = 0 ∧ Since pl.Done w v ∨ n = code ∧ Since pl.Broken w v) p w

theorem finishes_exit : Finishes T code [] (.exit 0 : Prog ι α) := fun _ =>
  safe_exit.2 ⟨.refl (.inl Plan.begun_nil), .inl ⟨rfl, .refl .nil⟩⟩

theorem Executes.finishes {f : α → Prog ι β} (hp : Executes T code pl p) (hf : ∀ a, Finishes T code pl' (f a)) :
    Finishes T code (pl ++ pl') (p >>= f) := fun w => by
  refine safe_bind ((hp w).mono (fun _ h => h.mono fun _ => .imp .left .left) (fun a v hv => ?_)
    fun n v h => .inr ⟨h.1, h.2.mono fun _ => .left⟩)
  exact (hf a v).mono (fun _ h => hv.trans h fun _ _ h => .imp (.right h) (.right h)) (fun _ _ h => h) fun _ _ =>
    .imp (.imp_right fun h => hv.trans h fun _ _ => .append) (.imp_right fun h => hv.trans h fun _ _ => .right)

end executes

/-! ### Goals -/

/-- Among `rs` are successful runs of programs that meet the goals, in this order. -/
def Meets (gs : List (ι → Prop)) (rs : List (ι × Nat)) : Prop :=
  ∃ rs', List.Sublist rs' rs ∧ List.Forall₂ (fun g r => g r.1 ∧ r.2 = 0) gs rs'

def Achieves (T : Tools) (gs : List (ι → Prop)) (p : Prog ι α) : Prop :=
  ∀ w, Safe T Alone (fun _ => True) (fun _ => Since (Meets gs) w) (fun n _ => n ≠ 0) p w

section goals
variable {gs gs' : List (ι → Prop)} {rs rs' : List (ι × Nat)} {p : Prog ι α} {P : Cmd ι → Prop} {M : ι → Prop}

theorem meets_nil : Meets [] rs := ⟨[], List.nil_sublist _, .nil⟩

theorem Meets.append (h : Meets gs rs) (h' : Meets gs' rs') : Meets (gs ++ gs') (rs ++ rs') := by
  obtain ⟨l, hl, hm⟩ := h
  obtain ⟨l', hl', hm'⟩ := h'
  exact ⟨l ++ l', hl.append hl', List.rel_append hm hm'⟩

theorem meets_one {g : ι → Prop} {j : ι} (h : g j) : Meets [g] [(j, 0)] :=
  ⟨_, List.Sublist.refl _, .cons ⟨h, rfl⟩ .nil⟩

theorem Meets.imp (h : Meets gs rs) (hg : List.Forall₂ (fun g g' => ∀ j, g j → g' j) gs gs') : Meets gs' rs := by
  obtain ⟨rs', hsub, hm⟩ := h
  refine ⟨rs', hsub, ?_⟩
  clear hsub
  induction hm generalizing gs' with
  | nil =>
    cases hg
    exact .nil
  | cons hx _ ih =>
    cases hg with
    | cons hg hgs => exact .cons ⟨hg _ hx.1, hx.2⟩ (ih hgs)

/-- What counts in a plan. -/
theorem Plan.Done.meets {pl : Plan ι} (h : pl.Done rs) : Meets ((pl.filter (·.2)).map fun x j => j = x.1) rs := by
  induction h with
  | nil => exact meets_nil
  | @cons x r pl rs hx _ ih =>
    obtain ⟨rs', hsub, hm⟩ := ih
    by_cases hb : x.2 = true
    · rw [List.filter_cons_of_pos hb]
      exact ⟨r :: rs', hsub.cons_cons r, .cons ⟨hx.1, hx.2 hb⟩ hm⟩
    · rw [List.filter_cons_of_neg hb]
      exact ⟨rs', hsub.cons r, hm⟩

theorem Achieves.bind {f : α → Prog ι β} (hp : Achieves T gs p) (hf : ∀ a, Achieves T gs' (f a)) :
    Achieves T (gs ++ gs') (p >>= f) := fun w =>
  safe_bind ((hp w).mono (fun _ h => h) (fun a v hv => (hf a v).mono (fun _ h => h)
    (fun _ _ h => hv.trans h fun _ _ => .append) fun _ _ h => h) fun _ _ h => h)

theorem Achieves.imp (hp : Achieves T gs p) (hg : List.Forall₂ (fun g g' => ∀ j, g j → g' j) gs gs') :
    Achieves T gs' p := fun w =>
  (hp w).mono (fun _ h => h) (fun _ _ h => h.mono fun _ h => h.imp hg) fun _ _ h => h

theorem achieves_nil (hp : p.All P M) : Achieves T [] p := fun _ =>
  (safe_grown hp).mono (fun _ _ => trivial) (fun _ _ ⟨evs, hl, _⟩ => ⟨evs, hl, meets_nil⟩) fun _ _ h => h.1

/-- Something that is of no matter, and then the goals. -/
theorem Achieves.after {f : α → Prog ι β} (hp : Achieves T [] p) (hf : ∀ a, Achieves T gs (f a)) :
    Achieves T gs (p >>= f) := hp.bind hf

/-- The goals, and then something that is of no matter. -/
theorem Achieves.first {f : α → Prog ι β} (hp : Achieves T gs p) (hf : ∀ a, Achieves T [] (f a)) :
    Achieves T gs (p >>= f) := by
  have h := hp.bind hf
  rwa [List.append_nil] at h

theorem achieves_pure {a : α} : Achieves T [] (.pure a : Prog ι α) :=
  achieves_nil (P := fun _ => True) (M := fun _ => True) trivial

theorem achieves_world : Achieves T [] (Prog.world : Prog ι (World ι)) :=
  achieves_nil (P := fun _ => True) (M := fun _ => True) (Prog.all_world.2 trivial)

theorem achieves_cmd {c : Cmd ι} : Achieves T [] (Prog.run c) :=
  achieves_nil (P := fun _ => True) (M := fun _ => True) (Prog.all_run.2 trivial)

theorem achieves_cmd_ {c : Cmd ι} : Achieves T [] (Prog.run_ c) :=
  achieves_nil (P := fun _ => True) (M := fun _ => True) (Prog.all_run_.2 trivial)

theorem achieves_ite {b : Prop} [Decidable b] {q : Prog ι α} (hp : b → Achieves T gs p) (hq : ¬ b → Achieves T gs q) :
    Achieves T gs (if b then p else q) := by
  split
  · exact hp ‹_›
  · exact hq ‹_›

/-- A program whose failure ends the run, and what follows. -/
theorem achieves_checked {f : Nat → Prog ι β} {c : Cmd ι} {j : ι} {g : ι → Prop} (hc : c.job = some j) (hg : g j)
    (h0 : Achieves T gs (f 0))
    (hn : ∀ n, n ≠ 0 → ∀ w, Safe T Alone (fun _ => True) (fun _ _ => False) (fun m _ => m ≠ 0) (f n) w) :
    Achieves T (g :: gs) (Prog.run c >>= f) := by
  intro w
  refine safe_bind ((safe_since (P := fun _ => True) trivial fun _ => trivial).mono (fun _ _ => trivial) (fun n v hv => ?_)
    fun _ _ h => h)
  by_cases h : n = 0
  · subst h
    refine (h0 v).mono (fun _ h => h) (fun _ u h => hv.trans h fun rs rs' hrs h' => ?_) fun _ _ h => h
    rw [hrs, hc]
    exact (meets_one hg).append h'
  · exact (hn n h v).mono (fun _ h => h) (fun _ _ h => h.elim) fun _ _ h => h

theorem Executes.achieves {code : Nat} {pl : Plan ι} (h : Executes T code pl p) (hcode : code ≠ 0) :
    Achieves T ((pl.filter (·.2)).map fun x j => j = x.1) p := fun w =>
  (h w).mono (fun _ _ => trivial) (fun _ _ h => h.mono fun _ => Plan.Done.meets) fun _ _ h => by rw [h.1]; exact hcode

end goals

end Shell
