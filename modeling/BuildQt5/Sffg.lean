import BuildQt5.Machine
import Mathlib.Algebra.Order.Ring.Int

/-!
# libsffg.cpp

The surface library of the Android platforms, as a machine over its four globals. A null `sp<>` is
`none`, an object is a number; an out-pointer is only looked at for being null. What the SurfaceFlinger
client answers in a call is a `Client`. `SFFG_ERROR` comes with the line that is printed.
`sffg_destroy` releases and disposes the objects and assigns no global.
-/

namespace BuildQt5

structure DisplayInfo where
  w : Int
  h : Int
  orientation : Nat
deriving DecidableEq

structure Globals where
  session : Option Nat
  display : Option Nat
  control : Option Nat
  displayInfo : DisplayInfo
deriving DecidableEq

def Globals.start : Globals := ⟨none, none, none, ⟨0, 0, 0⟩⟩

/-- The answers of the SurfaceFlinger client during one call; a status is `NO_ERROR` when it is 0. -/
structure Client where
  newSession : Nat
  initCheck : Int
  physicalDisplayIds : List Nat
  physicalDisplayToken : Nat → Option Nat
  /-- The status of `getDisplayInfo`, and what is in `g_displayInfo` after it. -/
  displayInfo : Int × DisplayInfo
  createSurface : Int → Int → Option Nat
  isValid : Bool
  getSurface : Option Nat
  apply : Int

inductive Reply where
  | size (width height : Int)
  | window (surface : Nat)
  | done
deriving DecidableEq

/-- `SFFG_OK` with what is returned through the pointers, or `SFFG_ERROR`. -/
abbrev Status := Except String Reply

/-! ### sffg_init -/

section init
variable (c : Client) (screen : Int) (width height : Bool)

/-- The tests before anything is assigned. -/
def initGuard (g : Globals) : Option String :=
  if screen < 0 then some "libsffg: Invalid display screen (input)"
  else if !width || !height then some "libsffg: Invalid display size (input)"
  else if g.session.isSome then some "libsffg: Session has inited"
  else if g.display.isSome then some "libsffg: Display has inited"
  else if g.control.isSome then some "libsffg: Control has inited"
  else none

/-- Width and height as reported; `DISPLAY_ORIENTATION_0` and `_180` are 0 and 2. -/
def reportedSize (i : DisplayInfo) : Reply :=
  if i.orientation = 0 || i.orientation = 2 then .size i.w i.h else .size i.h i.w

def readDisplayInfo (g : Globals) : Status × Globals :=
  let g := { g with displayInfo := c.displayInfo.2 }
  if c.displayInfo.1 ≠ 0 then (.error "libsffg: Invalid display info", g)
  else if g.displayInfo.w ≤ 0 || g.displayInfo.h ≤ 0 then (.error "libsffg: Invalid display size", g)
  else (.ok (reportedSize g.displayInfo), g)

def openDisplay (g : Globals) : Status × Globals :=
  match c.physicalDisplayIds[screen.toNat]? with
  | none => (.error "libsffg: Invalid display screen", g)
  | some id =>
    let g := { g with display := c.physicalDisplayToken id }
    if g.display.isNone then (.error "libsffg: Invalid display screen", g) else readDisplayInfo c g

def sffgInit (g : Globals) : Status × Globals :=
  match initGuard screen width height g with
  | some message => (.error message, g)
  | none =>
    let g := { g with session := some c.newSession }
    if c.initCheck ≠ 0 then (.error ("libsffg: Session init error, status=" ++ toString c.initCheck), g)
    else openDisplay c screen g

end init

/-! ### sffg_create -/

section create
variable (c : Client) (stack index : Int) (window : Bool)

def createGuard (g : Globals) : Option String :=
  if stack < 0 then some "libsffg: Invalid display stack (input)"
  else if index < 0 then some "libsffg: Invalid display index (input)"
  else if !window then some "libsffg: Invalid native_window (input)"
  else if g.session.isNone then some "libsffg: Session not init"
  else if g.display.isNone then some "libsffg: Display not init"
  else if g.control.isSome then some "libsffg: Control has inited"
  else none

/-- From the surface to the end of the transaction. -/
def showSurface (g : Globals) : Status × Globals :=
  match c.getSurface with
  | none => (.error "libsffg: Invalid surface", g)
  | some surface =>
    if c.apply ≠ 0 then (.error ("libsffg: Transform error, status=" ++ toString c.apply), g)
    else (.ok (.window surface), g)

def sffgCreate (g : Globals) : Status × Globals :=
  match createGuard stack index window g with
  | some message => (.error message, g)
  | none =>
    let g := { g with control := c.createSurface g.displayInfo.w g.displayInfo.h }
    if g.control.isNone || !c.isValid then (.error "libsffg: Control create failed", g) else showSurface c g

end create

def sffgDestroy (g : Globals) : Status × Globals :=
  if g.session.isNone then (.error "libsffg: Session not init", g) else (.ok .done, g)

/-- The calls; of a pointer, whether it is not null. -/
inductive Call where
  | init (screen : Int) (width height : Bool)
  | create (stack index : Int) (window : Bool)
  | destroy
deriving DecidableEq

def sffg : Client × Call → Globals → Status × Globals
  | (c, .init screen width height), g => sffgInit c screen width height g
  | (c, .create stack index window), g => sffgCreate c stack index window g
  | (_, .destroy), g => sffgDestroy g

/-! ### When a call succeeds -/

/-- The client calls of `sffg_init` all succeed. -/
def InitOk (c : Client) (screen : Int) : Prop :=
  c.initCheck = 0 ∧ (∃ id, c.physicalDisplayIds[screen.toNat]? = some id ∧ (c.physicalDisplayToken id).isSome = true) ∧
    c.displayInfo.1 = 0 ∧ 0 < c.displayInfo.2.w ∧ 0 < c.displayInfo.2.h

/-- The client calls of `sffg_create` after `createSurface` all succeed. -/
def CreateOk (c : Client) : Prop := c.isValid = true ∧ c.getSurface.isSome = true ∧ c.apply = 0

section spec
variable {c : Client} {g : Globals} {screen stack index : Int} {width height window : Bool}

theorem initGuard_eq_none : initGuard screen width height g = none ↔
    0 ≤ screen ∧ width = true ∧ height = true ∧ g.session = none ∧ g.display = none ∧ g.control = none := by
  unfold initGuard
  rcases lt_or_ge screen 0 with h | h
  · simp [h, Int.not_le.2 h]
  · rw [if_neg (Int.not_lt.2 h)]
    cases width <;> cases height <;> cases g.session <;> cases g.display <;> cases g.control <;> simp [h]

theorem createGuard_eq_none : createGuard stack index window g = none ↔
    0 ≤ stack ∧ 0 ≤ index ∧ window = true ∧ g.session ≠ none ∧ g.display ≠ none ∧ g.control = none := by
  unfold createGuard
  rcases lt_or_ge stack 0 with h | h
  · simp [h, Int.not_le.2 h]
  · rcases lt_or_ge index 0 with h' | h'
    · simp [h', Int.not_le.2 h', Int.not_lt.2 h]
    · rw [if_neg (Int.not_lt.2 h), if_neg (Int.not_lt.2 h')]
      cases window <;> cases g.session <;> cases g.display <;> cases g.control <;> simp [h, h']

theorem readDisplayInfo_isOk : (readDisplayInfo c g).1.isOk = true ↔
    c.displayInfo.1 = 0 ∧ 0 < c.displayInfo.2.w ∧ 0 < c.displayInfo.2.h := by
  unfold readDisplayInfo
  by_cases h : c.displayInfo.1 = 0
  · by_cases h' : c.displayInfo.2.w ≤ 0 ∨ c.displayInfo.2.h ≤ 0
    · simp [h, h', Except.isOk, Except.toBool]; omega
    · simp [h, h', Except.isOk, Except.toBool]; omega
  · simp [h, Except.isOk, Except.toBool]

theorem openDisplay_isOk : (openDisplay c screen g).1.isOk = true ↔
    (∃ id, c.physicalDisplayIds[screen.toNat]? = some id ∧ (c.physicalDisplayToken id).isSome = true) ∧
      c.displayInfo.1 = 0 ∧ 0 < c.displayInfo.2.w ∧ 0 < c.displayInfo.2.h := by
  unfold openDisplay
  cases hid : c.physicalDisplayIds[screen.toNat]? with
  | none => simp [Except.isOk, Except.toBool]
  | some id =>
    cases ht : c.physicalDisplayToken id with
    | none => simp [ht, Except.isOk, Except.toBool]
    | some token => simp [ht, readDisplayInfo_isOk]

theorem sffgInit_isOk : (sffgInit c screen width height g).1.isOk = true ↔
    initGuard screen width height g = none ∧ InitOk c screen := by
  unfold sffgInit InitOk
  cases hg : initGuard screen width height g with
  | some message => simp [Except.isOk, Except.toBool]
  | none =>
    by_cases hc : c.initCheck = 0
    · simp [hc, openDisplay_isOk]
    · simp [hc, Except.isOk, Except.toBool]

theorem openDisplay_session : (openDisplay c screen g).2.session = g.session := by
  unfold openDisplay
  cases c.physicalDisplayIds[screen.toNat]? with
  | none => rfl
  | some id => simp only [readDisplayInfo]; split <;> [rfl; (split <;> [rfl; (split <;> rfl)])]

/-- Once its tests are passed, `sffg_init` leaves a session. -/
theorem sffgInit_session (h : initGuard screen width height g = none) :
    (sffgInit c screen width height g).2.session = some c.newSession := by
  unfold sffgInit
  rw [h]
  by_cases hc : c.initCheck = 0
  · simp [hc, openDisplay_session]
  · simp [hc]

/-- A successful `sffg_init` leaves a session and a display, and no control. -/
theorem inited_globals (h : (sffgInit c screen width height g).1.isOk = true) :
    (sffgInit c screen width height g).2.session ≠ none ∧ (sffgInit c screen width height g).2.display ≠ none ∧
      (sffgInit c screen width height g).2.control = none := by
  obtain ⟨hg, hc, ⟨id, hid, ht⟩, hi, hw, hh⟩ := sffgInit_isOk.1 h
  have hsize : ¬ (c.displayInfo.2.w ≤ 0 ∨ c.displayInfo.2.h ≤ 0) := by omega
  obtain ⟨token, ht⟩ := Option.isSome_iff_exists.1 ht
  have hcontrol := (initGuard_eq_none.1 hg).2.2.2.2.2
  simp [sffgInit, hg, hc, openDisplay, hid, ht, readDisplayInfo, hi, hsize, hcontrol]

theorem showSurface_isOk : (showSurface c g).1.isOk = true ↔ c.getSurface.isSome = true ∧ c.apply = 0 := by
  unfold showSurface
  cases c.getSurface with
  | none => simp [Except.isOk, Except.toBool]
  | some surface => by_cases h : c.apply = 0 <;> simp [h, Except.isOk, Except.toBool]

theorem showSurface_globals : (showSurface c g).2 = g := by
  unfold showSurface
  cases c.getSurface with
  | none => rfl
  | some surface => simp only; split <;> rfl

/-- Once its tests are passed, `sffg_create` leaves what `createSurface` gave it, whatever follows. -/
theorem sffgCreate_globals (h : createGuard stack index window g = none) : (sffgCreate c stack index window g).2 =
    { g with control := c.createSurface g.displayInfo.w g.displayInfo.h } := by
  unfold sffgCreate
  rw [h]
  simp only
  split
  · rfl
  · exact showSurface_globals

theorem sffgCreate_isOk : (sffgCreate c stack index window g).1.isOk = true ↔
    createGuard stack index window g = none ∧
      (c.createSurface g.displayInfo.w g.displayInfo.h).isSome = true ∧ CreateOk c := by
  unfold sffgCreate CreateOk
  cases hg : createGuard stack index window g with
  | some message => simp [Except.isOk, Except.toBool]
  | none =>
    cases hs : c.createSurface g.displayInfo.w g.displayInfo.h with
    | none => simp [Except.isOk, Except.toBool]
    | some control =>
      cases hv : c.isValid with
      | false => simp [Except.isOk, Except.toBool]
      | true => simp [showSurface_isOk]

end spec

/-! ### Failed calls -/

/-- The call passes its tests, and a client call fails after a global has been assigned. -/
def FailsLate : Client × Call → Globals → Prop
  | (c, .init screen width height), g => initGuard screen width height g = none ∧ ¬ InitOk c screen
  | (c, .create stack index window), g => createGuard stack index window g = none ∧
      (c.createSurface g.displayInfo.w g.displayInfo.h).isSome = true ∧ ¬ CreateOk c
  | (_, .destroy), _ => False

/-- A failed call leaves the globals as they were unless it fails late. -/
theorem failed_unchanged_iff {x : Client × Call} {g : Globals} (h : (sffg x g).1.isOk = false) :
    (sffg x g).2 = g ↔ ¬ FailsLate x g := by
  obtain ⟨c, a⟩ := x
  cases a with
  | init screen width height =>
    simp only [sffg, FailsLate] at h ⊢
    cases hg : initGuard screen width height g with
    | some message => simp [sffgInit, hg]
    | none =>
      -- a session is left where there was none
      have hok : ¬ InitOk c screen := fun hok => by
        rw [sffgInit_isOk.2 ⟨hg, hok⟩] at h; cases h
      have hne : (sffgInit c screen width height g).2 ≠ g := by
        intro heq
        have hs := sffgInit_session (c := c) hg
        rw [heq, (initGuard_eq_none.1 hg).2.2.2.1] at hs
        cases hs
      simp [hne, hok]
  | create stack index window =>
    simp only [sffg, FailsLate] at h ⊢
    cases hg : createGuard stack index window g with
    | some message => simp [sffgCreate, hg]
    | none =>
      have hcontrol := (createGuard_eq_none.1 hg).2.2.2.2.2
      rw [sffgCreate_globals hg]
      cases hs : c.createSurface g.displayInfo.w g.displayInfo.h with
      | none =>
        have heq : ({ g with control := none } : Globals) = g := by cases g; simp_all
        simp [heq]
      | some control =>
        have hok : ¬ CreateOk c := fun hok => by
          rw [sffgCreate_isOk.2 ⟨hg, by simp [hs], hok⟩] at h; cases h
        have hne : ({ g with control := some control } : Globals) ≠ g := fun heq => by
          have := congrArg Globals.control heq
          rw [hcontrol] at this
          cases this
        simp [hne, hok]
  | destroy =>
    simp only [sffg, FailsLate, sffgDestroy]
    split <;> simp

/-- The state after these calls. -/
def after (xs : List (Client × Call)) : Globals := Machine.run sffg xs Globals.start

/-- No call of the run fails late. -/
def NeverLate (xs : List (Client × Call)) : Prop := ∀ ys x zs, xs = ys ++ x :: zs → ¬ FailsLate x (after ys)

/-- An `sffg_init` among these calls returned `SFFG_OK`. -/
def InitedIn (xs : List (Client × Call)) : Prop :=
  ∃ ys c screen width height zs, xs = ys ++ (c, .init screen width height) :: zs ∧
    (sffgInit c screen width height (after ys)).1.isOk = true

theorem InitedIn.append {xs ys : List (Client × Call)} (h : InitedIn xs) : InitedIn (xs ++ ys) := by
  obtain ⟨us, c, screen, width, height, vs, rfl, hok⟩ := h
  exact ⟨us, c, screen, width, height, vs ++ ys, by simp, hok⟩

theorem sffg_session {x : Client × Call} {g : Globals} (h : (sffg x g).2.session ≠ g.session) :
    ∃ c screen width height, x = (c, .init screen width height) ∧ initGuard screen width height g = none := by
  obtain ⟨c, a⟩ := x
  cases a with
  | init screen width height =>
    refine ⟨c, screen, width, height, rfl, ?_⟩
    cases hg : initGuard screen width height g with
    | some message => simp [sffg, sffgInit, hg] at h
    | none => rfl
  | create stack index window =>
    cases hg : createGuard stack index window g with
    | some message => simp [sffg, sffgCreate, hg] at h
    | none => simp [sffg, sffgCreate_globals hg] at h
  | destroy => simp only [sffg, sffgDestroy] at h; split at h <;> simp at h

/-- In a run without late failures a session is there only after an `sffg_init` that succeeded. -/
theorem inited_of_session (xs : List (Client × Call)) :
    NeverLate xs → (after xs).session ≠ none → InitedIn xs := by
  refine Machine.run_inv (I := fun xs (g : Globals) => NeverLate xs → g.session ≠ none → InitedIn xs) ?_ ?_ xs
  · exact fun _ h => absurd rfl h
  · intro xs x ih hlate hs
    have hxs : NeverLate xs := fun ys y zs h => hlate ys y (zs ++ [x]) (by simp [h])
    by_cases hsame : (sffg x (Machine.run sffg xs Globals.start)).2.session =
        (Machine.run sffg xs Globals.start).session
    · rw [hsame] at hs
      exact (ih hxs hs).append
    · obtain ⟨c, screen, width, height, rfl, hg⟩ := sffg_session hsame
      have hok : InitOk c screen := by
        by_contra hno
        exact hlate xs _ [] rfl ⟨hg, hno⟩
      exact ⟨xs, c, screen, width, height, [], rfl, sffgInit_isOk.2 ⟨hg, hok⟩⟩

/-- A failed call leaves the globals as they were unless it fails late. In a run without late failures
every failed call does, `sffg_create` succeeds only after an `sffg_init` that did, and after a failed
call any call does what it would have done in its place. -/
theorem failed_calls (x : Client × Call) (g : Globals) (xs zs : List (Client × Call)) :
    ((sffg x g).1.isOk = false → ((sffg x g).2 = g ↔ ¬ FailsLate x g)) ∧
    (NeverLate (xs ++ x :: zs) →
      ((sffg x (after xs)).1.isOk = false → after (xs ++ [x]) = after xs ∧
        ∀ y, sffg y (after (xs ++ [x])) = sffg y (after xs)) ∧
      ∀ c stack index window, x = (c, .create stack index window) → (sffg x (after xs)).1.isOk = true →
        InitedIn xs) := by
  refine ⟨fun h => failed_unchanged_iff h, fun hlate => ⟨fun hfail => ?_, ?_⟩⟩
  · have hsame : after (xs ++ [x]) = after xs := by
      rw [after, Machine.run_concat]
      exact (failed_unchanged_iff hfail).2 (hlate xs x zs rfl)
    exact ⟨hsame, fun y => by rw [hsame]⟩
  · rintro c stack index window rfl hok
    have hxs : NeverLate xs := fun ys y us h => hlate ys y (us ++ (c, .create stack index window) :: zs) (by simp [h])
    exact inited_of_session xs hxs (createGuard_eq_none.1 (sffgCreate_isOk.1 hok).1).2.2.2.1

/-- A client on which everything succeeds, with one display. -/
def goodClient : Client := ⟨1, 0, [7], fun id => some id, (0, ⟨4, 3, 0⟩), fun _ _ => some 2, true, some 3, 0⟩

def goodInit : Client × Call := (goodClient, .init 0 true true)

def goodCreate : Client × Call := (goodClient, .create 0 0 true)

theorem goodClient_ok : InitOk goodClient 0 ∧ CreateOk goodClient := by
  refine ⟨⟨rfl, ⟨7, rfl, rfl⟩, rfl, by decide, by decide⟩, rfl, rfl, rfl⟩

/-- `sffg_init` and `sffg_create` succeed, the one after the other. -/
theorem failed_calls_good : (sffg goodCreate (after [goodInit])).1.isOk = true ∧ InitedIn [goodInit] := by
  have hlate : NeverLate [goodInit, goodCreate] := by
    intro ys x zs h
    match ys, h with
    | [], h => cases h; exact fun hl => hl.2 goodClient_ok.1
    | [_], h => cases h; exact fun hl => hl.2.2 goodClient_ok.2
    | _ :: _ :: _, h => simp at h
  have hall := (failed_calls goodCreate Globals.start [goodInit] []).2 hlate
  exact ⟨by decide, hall.2 goodClient 0 0 true rfl (by decide)⟩

/-- The information of the display cannot be had at first. -/
def badInit : Client × Call := ({ goodClient with displayInfo := (-1, ⟨0, 0, 0⟩) }, .init 0 true true)

/-- `sffg_init` fails and leaves a session and a display; `sffg_create` then succeeds without any
`sffg_init` having done so, and a second `sffg_init` fails for ever. -/
theorem failed_init_leaves_session : (sffg badInit Globals.start).1.isOk = false ∧
    after [badInit] ≠ Globals.start ∧ (sffg goodCreate (after [badInit])).1.isOk = true ∧
    ¬ InitedIn [badInit] ∧
    ∀ c screen width height, (sffg (c, .init screen width height) (after [badInit])).1.isOk = false := by
  refine ⟨by decide, by decide, by decide, ?_, fun c screen width height => ?_⟩
  · rintro ⟨ys, c, screen, width, height, zs, h, hok⟩
    match ys, h with
    | [], h => cases h; exact absurd hok (by decide)
    | _ :: _, h => simp at h
  · rw [← Bool.not_eq_true]
    intro hok
    have hs := (initGuard_eq_none.1 (sffgInit_isOk.1 hok).1).2.2.2.1
    exact absurd hs (by decide)

/-! ### The platform integration -/

/-- The `QT_SFFG_DISPLAY_*` variables, where they hold a number. -/
structure QtEnv where
  screen : Option Int
  stack : Option Int
  index : Option Int

/-- The value of a variable, or the default when it is not a number or negative. -/
def orDefault (env : Option Int) (default : Int) : Int :=
  match env with
  | some v => if 0 ≤ v then v else default
  | none => default

inductive WindowCall where
  | platformInit
  | createNativeWindow
  | destroyNativeWindow
deriving DecidableEq

/-- The call of the library a function of `QEglFSSffgIntegration` makes. -/
def WindowCall.call (env : QtEnv) : WindowCall → Call
  | .platformInit => .init (orDefault env.screen 0) true true
  | .createNativeWindow => .create (orDefault env.stack 0) (orDefault env.index 0x50000000) true
  | .destroyNativeWindow => .destroy

def WindowCall.fatal : WindowCall → String
  | .platformInit => "Failed to invoke sffg_init"
  | .createNativeWindow => "Failed to invoke sffg_create"
  | .destroyNativeWindow => "Failed to invoke sffg_destroy"

/-- `QEglFSSffgIntegration`, the library loaded: an error of the library is a `qFatal`. -/
def integration (env : QtEnv) (x : Client × WindowCall) (g : Globals) : Status × Globals :=
  let r := sffg (x.1, x.2.call env) g
  (r.1.mapError fun _ => x.2.fatal, r.2)

theorem orDefault_nonneg {env : Option Int} {default : Int} (h : 0 ≤ default) : 0 ≤ orDefault env default := by
  unfold orDefault
  split
  · split
    · assumption
    · exact h
  · exact h

/-! ### Cycles -/

/-- One cycle of init, create and destroy with valid arguments, in which every client call succeeds. -/
structure Cycle where
  screen : Int
  stack : Int
  index : Int
  initClient : Client
  createClient : Client
  valid : 0 ≤ screen ∧ 0 ≤ stack ∧ 0 ≤ index
  init_ok : InitOk initClient screen
  create_ok : (∀ w h, (createClient.createSurface w h).isSome = true) ∧ CreateOk createClient

def Cycle.calls (c : Cycle) : List (Client × Call) :=
  [(c.initClient, .init c.screen true true), (c.createClient, .create c.stack c.index true), (c.createClient, .destroy)]

/-- The same cycle through the integration. -/
def Cycle.windowCalls (c : Cycle) : List (Client × WindowCall) :=
  [(c.initClient, .platformInit), (c.createClient, .createNativeWindow), (c.createClient, .destroyNativeWindow)]

/-- From the initial state a cycle succeeds, and leaves its session. -/
theorem Cycle.outs_start (c : Cycle) : (∀ r ∈ Machine.outs sffg c.calls Globals.start, r.isOk = true) ∧
    (Machine.run sffg c.calls Globals.start).session ≠ none := by
  have hguard : initGuard c.screen true true Globals.start = none :=
    initGuard_eq_none.2 ⟨c.valid.1, rfl, rfl, rfl, rfl, rfl⟩
  have hinit : (sffgInit c.initClient c.screen true true Globals.start).1.isOk = true :=
    sffgInit_isOk.2 ⟨hguard, c.init_ok⟩
  obtain ⟨hsession, hdisplay, hcontrol⟩ := inited_globals hinit
  generalize hg : (sffgInit c.initClient c.screen true true Globals.start).2 = g at hsession hdisplay hcontrol
  have hguard' : createGuard c.stack c.index true g = none :=
    createGuard_eq_none.2 ⟨c.valid.2.1, c.valid.2.2, rfl, hsession, hdisplay, hcontrol⟩
  have hcreate : (sffgCreate c.createClient c.stack c.index true g).1.isOk = true :=
    sffgCreate_isOk.2 ⟨hguard', c.create_ok.1 _ _, c.create_ok.2⟩
  have hafter : (sffgCreate c.createClient c.stack c.index true g).2.session = g.session := by
    rw [sffgCreate_globals hguard']
  have hdestroy : sffgDestroy (sffgCreate c.createClient c.stack c.index true g).2 =
      (.ok .done, (sffgCreate c.createClient c.stack c.index true g).2) := by
    rw [sffgDestroy, if_neg (by simpa [hafter, Option.isNone_iff_eq_none] using hsession)]
  constructor
  · simp only [Cycle.calls, Machine.outs, sffg, hg, hdestroy, List.mem_cons, List.not_mem_nil, or_false]
    rintro r (rfl | rfl | rfl)
    · exact hinit
    · exact hcreate
    · rfl
  · simp only [Cycle.calls, Machine.run, sffg, hg, hdestroy, hafter]
    exact hsession

/-- With a session there, `sffg_init` fails. -/
theorem Cycle.outs_session (c : Cycle) {g : Globals} (hg : g.session ≠ none) :
    ∃ r ∈ Machine.outs sffg c.calls g, r.isOk = false := by
  refine ⟨(sffgInit c.initClient c.screen true true g).1, by simp [Cycle.calls, Machine.outs, sffg], ?_⟩
  rw [← Bool.not_eq_true]
  exact fun hok => hg (initGuard_eq_none.1 (sffgInit_isOk.1 hok).1).2.2.2.1

theorem cycles_isOk (cs : List Cycle) :
    (∀ r ∈ Machine.outs sffg (cs.flatMap Cycle.calls) Globals.start, r.isOk = true) ↔ cs.length ≤ 1 := by
  match cs with
  | [] => simp [Machine.outs]
  | [c] => simpa using c.outs_start.1
  | c :: d :: cs =>
    obtain ⟨r, hr, hok⟩ := d.outs_session c.outs_start.2
    refine iff_of_false (fun h => ?_) (by simp)
    have := h r (by simp [Machine.outs_append, hr])
    rw [hok] at this
    cases this

/-- The integration comes to a `qFatal` where the library fails, and nowhere else. -/
theorem integration_isOk {env : QtEnv} (xs : List (Client × WindowCall)) (g : Globals) :
    (∀ r ∈ Machine.outs (integration env) xs g, r.isOk = true) ↔
      ∀ r ∈ Machine.outs sffg (xs.map fun x => (x.1, x.2.call env)) g, r.isOk = true := by
  induction xs generalizing g with
  | nil => simp [Machine.outs]
  | cons x xs ih =>
    have hhead : (integration env x g).1.isOk = (sffg (x.1, x.2.call env) g).1.isOk := by
      cases h : (sffg (x.1, x.2.call env) g).1 <;> simp [integration, h, Except.mapError, Except.isOk, Except.toBool]
    simp only [Machine.outs, List.map_cons, List.forall_mem_cons, hhead]
    exact and_congr_right fun _ => ih _

/-- A run of cycles succeeds throughout exactly when it has one at most: `sffg_destroy` leaves the
globals as they are. So the integration ends in a `qFatal` in the second cycle. -/
theorem cycles_ok_iff (cs : List Cycle) (env : QtEnv) (c : Client) (g : Globals) :
    ((∀ r ∈ Machine.outs sffg (cs.flatMap Cycle.calls) Globals.start, r.isOk = true) ↔ cs.length ≤ 1) ∧
    ((∀ c ∈ cs, c.screen = orDefault env.screen 0) →
      ((∀ r ∈ Machine.outs (integration env) (cs.flatMap Cycle.windowCalls) Globals.start, r.isOk = true) ↔
        cs.length ≤ 1)) ∧
    ((sffg (c, .destroy) g).1.isOk = true → (sffg (c, .destroy) g).2 = g ∧ g.session ≠ none) := by
  refine ⟨cycles_isOk cs, fun hcs => ?_, fun hok => ?_⟩
  · let inEnv (c : Cycle) : Cycle := { c with
      stack := orDefault env.stack 0
      index := orDefault env.index 0x50000000
      valid := ⟨c.valid.1, orDefault_nonneg (by decide), orDefault_nonneg (by decide)⟩ }
    have hcalls : (cs.flatMap Cycle.windowCalls).map (fun x => (x.1, x.2.call env)) =
        (cs.map inEnv).flatMap Cycle.calls := by
      rw [List.map_flatMap, List.flatMap_map, List.flatMap_def, List.flatMap_def]
      refine congrArg List.flatten (List.map_congr_left fun c hc => ?_)
      simp [Cycle.windowCalls, Cycle.calls, WindowCall.call, inEnv, hcs c hc]
    rw [integration_isOk, hcalls, cycles_isOk, List.length_map]
  · simp only [sffg, sffgDestroy] at hok ⊢
    split at hok
    · cases hok
    · rename_i h
      simp [h, ← Option.isNone_iff_eq_none]

def goodCycle : Cycle := ⟨0, 0, 0, goodClient, goodClient, by decide, goodClient_ok.1, fun _ _ => rfl, goodClient_ok.2⟩

/-- The second cycle fails although every client call succeeds. -/
theorem second_cycle_fails : ¬ ∀ r ∈ Machine.outs sffg ([goodCycle, goodCycle].flatMap Cycle.calls) Globals.start,
    r.isOk = true := by decide

/-! ### The size of the surface -/

/-- The size a call asks `createSurface` for, if it comes to that. -/
def requestedSize : Call → Globals → Option (Int × Int)
  | .create stack index window, g =>
    if createGuard stack index window g = none then some (g.displayInfo.w, g.displayInfo.h) else none
  | _, _ => none

/-- Of `createSurface` a call sees the answer for the size it asks for, and nothing else. -/
theorem sffg_congr_requested {c : Client} {a : Call} {g : Globals} {f : Int → Int → Option Nat}
    (hf : ∀ s, requestedSize a g = some s → f s.1 s.2 = c.createSurface s.1 s.2) :
    sffg ({ c with createSurface := f }, a) g = sffg (c, a) g := by
  cases a with
  | create stack index window =>
    simp only [sffg, sffgCreate]
    split
    · rfl
    · rename_i hg
      rw [hf (g.displayInfo.w, g.displayInfo.h) (if_pos hg)]
      rfl
  | init screen width height => rfl
  | destroy => rfl

/-- All globals but the control are the same. -/
structure SameDisplay (g g' : Globals) : Prop where
  session : g'.session = g.session
  display : g'.display = g.display
  info : g'.displayInfo = g.displayInfo

theorem SameDisplay.refl (g : Globals) : SameDisplay g g := ⟨rfl, rfl, rfl⟩

theorem SameDisplay.trans {g g' g'' : Globals} (h : SameDisplay g g') (h' : SameDisplay g' g'') : SameDisplay g g'' :=
  ⟨h'.session.trans h.session, h'.display.trans h.display, h'.info.trans h.info⟩

/-- With a session there, a call changes the control at most, and that only when it is `sffg_create`. -/
theorem sffg_of_session {x : Client × Call} {g : Globals} (h : g.session ≠ none) : SameDisplay g (sffg x g).2 ∧
    ((∀ stack index window, x.2 ≠ .create stack index window) → (sffg x g).2 = g) := by
  obtain ⟨c, a⟩ := x
  cases a with
  | init screen width height =>
    have hfail : (sffg (c, .init screen width height) g).2 = g := by
      cases hg : initGuard screen width height g with
      | some message => simp only [sffg, sffgInit, hg]
      | none => exact absurd (initGuard_eq_none.1 hg).2.2.2.1 h
    rw [hfail]
    exact ⟨.refl g, fun _ => rfl⟩
  | create stack index window =>
    refine ⟨?_, fun hne => absurd rfl (hne stack index window)⟩
    cases hg : createGuard stack index window g with
    | some message =>
      simp only [sffg, sffgCreate, hg]
      exact .refl g
    | none =>
      rw [sffg, sffgCreate_globals hg]
      exact ⟨rfl, rfl, rfl⟩
  | destroy =>
    have hsame : (sffg (c, .destroy) g).2 = g := by simp only [sffg, sffgDestroy]; split <;> rfl
    rw [hsame]
    exact ⟨.refl g, fun _ => rfl⟩

theorem run_of_session (ys : List (Client × Call)) {g : Globals} (h : g.session ≠ none) :
    SameDisplay g (Machine.run sffg ys g) ∧
      ((∀ y ∈ ys, ∀ stack index window, y.2 ≠ .create stack index window) → Machine.run sffg ys g = g) := by
  induction ys generalizing g with
  | nil => exact ⟨.refl g, fun _ => rfl⟩
  | cons y ys ih =>
    obtain ⟨hstep, hsame⟩ := sffg_of_session (x := y) h
    have hs : (sffg y g).2.session ≠ none := by rw [hstep.session]; exact h
    refine ⟨hstep.trans (ih hs).1, fun hys => ?_⟩
    have hy := hsame (hys y List.mem_cons_self)
    exact ((ih hs).2 fun z hz => hys z (List.mem_cons_of_mem _ hz)).trans hy

/-- A successful `sffg_init` keeps the display's answer, and reports its size. -/
theorem sffgInit_ok {c : Client} {g : Globals} {screen : Int} {width height : Bool} {r : Reply}
    (h : (sffgInit c screen width height g).1 = .ok r) :
    r = reportedSize c.displayInfo.2 ∧ (sffgInit c screen width height g).2.displayInfo = c.displayInfo.2 := by
  obtain ⟨hg, hc, ⟨id, hid, ht⟩, hi, hw, hh⟩ := sffgInit_isOk.1 (by rw [h]; rfl)
  have hsize : ¬ (c.displayInfo.2.w ≤ 0 ∨ c.displayInfo.2.h ≤ 0) := by omega
  obtain ⟨token, ht⟩ := Option.isSome_iff_exists.1 ht
  have hout : sffgInit c screen width height g = (.ok (reportedSize c.displayInfo.2),
      { g with session := some c.newSession, display := some token, displayInfo := c.displayInfo.2 }) := by
    simp [sffgInit, hg, hc, openDisplay, hid, ht, readDisplayInfo, hi, hsize]
  rw [hout] at h ⊢
  exact ⟨(Except.ok.inj h).symm, rfl⟩

/-- The panel is not turned by a quarter, or it is square. -/
def Upright (i : DisplayInfo) : Prop := i.orientation = 0 ∨ i.orientation = 2 ∨ i.w = i.h

theorem reportedSize_eq_iff {i : DisplayInfo} : reportedSize i = .size i.w i.h ↔ Upright i := by
  unfold reportedSize Upright
  split
  · rename_i h
    simp only [Bool.or_eq_true, decide_eq_true_eq] at h
    exact iff_of_true rfl (by tauto)
  · rename_i h
    simp only [Bool.or_eq_true, decide_eq_true_eq, not_or] at h
    simp only [Reply.size.injEq, h, false_or]
    exact ⟨fun h => h.2, fun h => ⟨h.symm, h⟩⟩

/-- The globals after a successful `sffg_init` and any further calls. -/
theorem inited_run {xs : List (Client × Call)} {c : Client} {screen : Int} {width height : Bool} {r : Reply}
    (h : (sffgInit c screen width height (after xs)).1 = .ok r) (ys : List (Client × Call)) :
    (after (xs ++ (c, .init screen width height) :: ys)).displayInfo = c.displayInfo.2 ∧
      ((∀ y ∈ ys, ∀ stack index window, y.2 ≠ .create stack index window) → ∀ stack index, 0 ≤ stack → 0 ≤ index →
        createGuard stack index true (after (xs ++ (c, .init screen width height) :: ys)) = none) := by
  have hrun : after (xs ++ (c, .init screen width height) :: ys) =
      Machine.run sffg ys (sffgInit c screen width height (after xs)).2 := Machine.run_append xs _
  obtain ⟨hsession, hdisplay, hcontrol⟩ := inited_globals (by rw [h]; rfl)
  obtain ⟨hkept, hsame⟩ := run_of_session ys hsession
  rw [hrun]
  refine ⟨hkept.info.trans (sffgInit_ok h).2, fun hys stack index hs hi => ?_⟩
  rw [hsame hys]
  exact createGuard_eq_none.2 ⟨hs, hi, rfl, hsession, hdisplay, hcontrol⟩

/-- The calls the integration makes. -/
def WindowCall.calls (env : QtEnv) (xs : List (Client × WindowCall)) : List (Client × Call) :=
  xs.map fun x => (x.1, x.2.call env)

theorem integration_run {env : QtEnv} (xs : List (Client × WindowCall)) (g : Globals) :
    Machine.run (integration env) xs g = Machine.run sffg (WindowCall.calls env xs) g := by
  induction xs generalizing g with
  | nil => rfl
  | cons x xs ih => exact ih _

/-- After an `sffg_init` that succeeded, in whatever state, each later call that asks for a surface asks for the size
reported exactly when the panel is upright, and the next `sffg_create` with valid arguments does ask. The integration's
screen size and its native window agree in the same cases. -/
theorem surface_size_iff (c : Client) (w h : Int) :
    (∀ xs screen width height, (sffgInit c screen width height (after xs)).1 = .ok (.size w h) →
      (∀ ys a s, requestedSize a (after (xs ++ (c, .init screen width height) :: ys)) = some s →
        (s = (w, h) ↔ Upright c.displayInfo.2)) ∧
      ∀ ys, (∀ y ∈ ys, ∀ stack index window, y.2 ≠ .create stack index window) →
        ∀ stack index, 0 ≤ stack → 0 ≤ index →
          (requestedSize (.create stack index true) (after (xs ++ (c, .init screen width height) :: ys)) = some (w, h) ↔
            Upright c.displayInfo.2)) ∧
    ∀ env xs, (integration env (c, .platformInit) (Machine.run (integration env) xs Globals.start)).1 = .ok (.size w h) →
      ∀ ys, (∀ y ∈ ys, y.2 ≠ .createNativeWindow) →
        (requestedSize (WindowCall.createNativeWindow.call env)
          (Machine.run (integration env) (xs ++ (c, .platformInit) :: ys) Globals.start) = some (w, h) ↔
            Upright c.displayInfo.2) := by
  have hsize : ∀ {i : DisplayInfo}, Reply.size w h = reportedSize i → ((i.w, i.h) = (w, h) ↔ Upright i) := by
    intro i hr
    rw [← reportedSize_eq_iff, ← hr, Reply.size.injEq, Prod.mk.injEq]
    exact ⟨fun h => ⟨h.1.symm, h.2.symm⟩, fun h => ⟨h.1.symm, h.2.symm⟩⟩
  have hlib : ∀ xs screen width height, (sffgInit c screen width height (after xs)).1 = .ok (.size w h) →
      ∀ ys, (∀ y ∈ ys, ∀ stack index window, y.2 ≠ .create stack index window) → ∀ stack index, 0 ≤ stack → 0 ≤ index →
        (requestedSize (.create stack index true) (after (xs ++ (c, .init screen width height) :: ys)) = some (w, h) ↔
          Upright c.displayInfo.2) := by
    intro xs screen width height hok ys hys stack index hs hi
    obtain ⟨hinfo, hguard⟩ := inited_run hok ys
    rw [requestedSize, if_pos (hguard hys stack index hs hi), Option.some.injEq, hinfo]
    exact hsize (sffgInit_ok hok).1
  refine ⟨fun xs screen width height hok => ⟨fun ys a s hreq => ?_, hlib xs screen width height hok⟩, ?_⟩
  · obtain ⟨hinfo, -⟩ := inited_run hok ys
    cases a with
    | create stack index window =>
      rw [requestedSize, Option.ite_none_right_eq_some, hinfo, Option.some.injEq] at hreq
      rw [← hreq.2]
      exact hsize (sffgInit_ok hok).1
    | init screen width height => cases hreq
    | destroy => cases hreq
  · intro env xs hok ys hys
    rw [integration_run] at hok ⊢
    have hinit : (sffgInit c (orDefault env.screen 0) true true (after (WindowCall.calls env xs))).1 =
        .ok (.size w h) := by
      simp only [integration, WindowCall.call, sffg, Except.mapError] at hok
      split at hok
      · cases hok
      · rename_i r hr
        rw [after, hr, hok]
    have hcalls : WindowCall.calls env (xs ++ (c, .platformInit) :: ys) =
        WindowCall.calls env xs ++ (c, .init (orDefault env.screen 0) true true) :: WindowCall.calls env ys := by
      simp [WindowCall.calls, WindowCall.call]
    rw [hcalls]
    refine hlib _ _ _ _ hinit _ (fun y hy => ?_) _ _ (orDefault_nonneg (by decide)) (orDefault_nonneg (by decide))
    obtain ⟨z, hz, rfl⟩ := List.mem_map.1 hy
    obtain ⟨d, b⟩ := z
    intro stack index window hcreate
    cases b with
    | createNativeWindow => exact hys _ hz rfl
    | platformInit => cases hcreate
    | destroyNativeWindow => cases hcreate

/-- The good client's panel is upright. -/
theorem surface_size_good : requestedSize goodCreate.2 (after [goodInit]) = some (4, 3) := by
  have hcreate := ((surface_size_iff goodClient 4 3).1 [] 0 true true (by decide)).2
  exact (hcreate [] (by simp) 0 0 (by decide) (by decide)).2 (.inl rfl)

/-- A panel of 4 by 3, turned by a quarter. -/
def turnedInit : Client × Call := ({ goodClient with displayInfo := (0, ⟨4, 3, 1⟩) }, .init 0 true true)

/-- 3 by 4 is reported, and `sffg_create` asks for 4 by 3. -/
theorem turned_size_differs : (sffg turnedInit Globals.start).1 = .ok (.size 3 4) ∧
    requestedSize goodCreate.2 (after [turnedInit]) = some (4, 3) ∧
    (sffg goodCreate (after [turnedInit])).1.isOk = true := by
  decide

end BuildQt5
