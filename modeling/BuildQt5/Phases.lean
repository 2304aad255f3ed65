import BuildQt5.Sffg

/-!
# The phases of libsffg

What a user of the surface library can find out about it. Its answers depend on four phases and the display
information alone (`sffg_refines`): nothing is open, a session without a display, an open display, a window on
it. No call goes back a phase, so a process of the integration that comes to no `qFatal` makes at most one
`sffg_init` and one `sffg_create`, in this order and nothing before them, and with a SurfaceFlinger client that
serves it any such process is without a `qFatal` (`window_calls`).
-/

namespace BuildQt5

inductive Phase where
  | closed
  /-- `sffg_init` has made a session, and failed to get a display. -/
  | sessionOnly
  | opened (info : DisplayInfo)
  | showing (info : DisplayInfo)
deriving DecidableEq

namespace Phase

/-! ### What each call does -/

/-- What is wrong with the arguments of `sffg_init`. -/
def initArgs (screen : Int) (width height : Bool) : Option String :=
  if screen < 0 then some "libsffg: Invalid display screen (input)"
  else if !width || !height then some "libsffg: Invalid display size (input)"
  else none

def createArgs (stack index : Int) (window : Bool) : Option String :=
  if stack < 0 then some "libsffg: Invalid display stack (input)"
  else if index < 0 then some "libsffg: Invalid display index (input)"
  else if !window then some "libsffg: Invalid native_window (input)"
  else none

/-- The answer for a display with this information. -/
def measure (c : Client) : Status :=
  if c.displayInfo.1 ≠ 0 then .error "libsffg: Invalid display info"
  else if c.displayInfo.2.w ≤ 0 || c.displayInfo.2.h ≤ 0 then .error "libsffg: Invalid display size"
  else .ok (reportedSize c.displayInfo.2)

/-- The session comes first, whatever becomes of the display. -/
def openUp (c : Client) (screen : Int) : Status × Phase :=
  if c.initCheck ≠ 0 then
    (.error ("libsffg: Session init error, status=" ++ toString c.initCheck), .sessionOnly)
  else match (c.physicalDisplayIds[screen.toNat]?).bind c.physicalDisplayToken with
    | none => (.error "libsffg: Invalid display screen", .sessionOnly)
    | some _ => (measure c, .opened c.displayInfo.2)

/-- The answer when there is a control. -/
def present (c : Client) : Status :=
  if !c.isValid then .error "libsffg: Control create failed"
  else match c.getSurface with
    | none => .error "libsffg: Invalid surface"
    | some surface =>
      if c.apply ≠ 0 then .error ("libsffg: Transform error, status=" ++ toString c.apply) else .ok (.window surface)

def putUp (c : Client) (info : DisplayInfo) : Status × Phase :=
  match c.createSurface info.w info.h with
  | none => (.error "libsffg: Control create failed", .opened info)
  | some _ => (present c, .showing info)

def init (c : Client) (screen : Int) : Phase → Status × Phase
  | closed => openUp c screen
  | p => (.error "libsffg: Session has inited", p)

def create (c : Client) : Phase → Status × Phase
  | closed => (.error "libsffg: Session not init", closed)
  | sessionOnly => (.error "libsffg: Display not init", sessionOnly)
  | opened info => putUp c info
  | showing info => (.error "libsffg: Control has inited", showing info)

def destroy : Phase → Status × Phase
  | closed => (.error "libsffg: Session not init", closed)
  | p => (.ok .done, p)

def step : Client × Call → Phase → Status × Phase
  | (c, .init screen width height), p =>
    match initArgs screen width height with
    | some message => (.error message, p)
    | none => p.init c screen
  | (c, .create stack index window), p =>
    match createArgs stack index window with
    | some message => (.error message, p)
    | none => p.create c
  | (_, .destroy), p => p.destroy

end Phase

/-! ### The globals -/

/-- The phase the globals stand for. The other combinations of null and not null do not occur. -/
inductive InPhase : Globals → Phase → Prop
  | closed {info : DisplayInfo} : InPhase ⟨none, none, none, info⟩ .closed
  | sessionOnly {session : Nat} {info : DisplayInfo} : InPhase ⟨some session, none, none, info⟩ .sessionOnly
  | opened {session display : Nat} {info : DisplayInfo} :
      InPhase ⟨some session, some display, none, info⟩ (.opened info)
  | showing {session display control : Nat} {info : DisplayInfo} :
      InPhase ⟨some session, some display, some control, info⟩ (.showing info)

/-- The answers are the same, and the globals are in the phase. -/
def Agree (r : Status × Globals) (r' : Status × Phase) : Prop := r.1 = r'.1 ∧ InPhase r.2 r'.2

section refines
variable {c : Client} {g : Globals} {p : Phase} {screen stack index : Int} {width height window : Bool}

/-- The tests of `sffg_init`: of its arguments, then of the globals. -/
theorem initGuard_eq : initGuard screen width height g = (Phase.initArgs screen width height).or
    (if g.session.isSome then some "libsffg: Session has inited"
    else if g.display.isSome then some "libsffg: Display has inited"
    else if g.control.isSome then some "libsffg: Control has inited"
    else none) := by
  unfold initGuard Phase.initArgs
  by_cases h : screen < 0
  · rw [if_pos h, if_pos h, Option.some_or]
  · rw [if_neg h, if_neg h]
    by_cases h' : (!width || !height) = true
    · rw [if_pos h', if_pos h', Option.some_or]
    · rw [if_neg h', if_neg h', Option.none_or]

theorem createGuard_eq : createGuard stack index window g = (Phase.createArgs stack index window).or
    (if g.session.isNone then some "libsffg: Session not init"
    else if g.display.isNone then some "libsffg: Display not init"
    else if g.control.isSome then some "libsffg: Control has inited"
    else none) := by
  unfold createGuard Phase.createArgs
  by_cases h : stack < 0
  · rw [if_pos h, if_pos h, Option.some_or]
  · rw [if_neg h, if_neg h]
    by_cases h' : index < 0
    · rw [if_pos h', if_pos h', Option.some_or]
    · rw [if_neg h', if_neg h']
      by_cases h'' : (!window) = true
      · rw [if_pos h'', if_pos h'', Option.some_or]
      · rw [if_neg h'', if_neg h'', Option.none_or]

theorem sffgInit_rejected {message : String} (h : initGuard screen width height g = some message) :
    sffgInit c screen width height g = (.error message, g) := by rw [sffgInit, h]

theorem sffgCreate_rejected {message : String} (h : createGuard stack index window g = some message) :
    sffgCreate c stack index window g = (.error message, g) := by rw [sffgCreate, h]

theorem readDisplayInfo_eq : readDisplayInfo c g = (Phase.measure c, { g with displayInfo := c.displayInfo.2 }) := by
  unfold readDisplayInfo Phase.measure
  by_cases h : c.displayInfo.1 ≠ 0
  · simp only [if_pos h]
  · by_cases h' : (c.displayInfo.2.w ≤ 0 || c.displayInfo.2.h ≤ 0) = true
    · simp only [if_neg h, if_pos h']
    · simp only [if_neg h, if_neg h']

/-- What follows the tests of `sffg_init`. -/
theorem agree_openUp {info : DisplayInfo} (hguard : initGuard screen width height ⟨none, none, none, info⟩ = none) :
    Agree (sffgInit c screen width height ⟨none, none, none, info⟩) (Phase.openUp c screen) := by
  unfold sffgInit Phase.openUp
  rw [hguard]
  by_cases hinit : c.initCheck ≠ 0
  · simp only [if_pos hinit]
    exact ⟨rfl, .sessionOnly⟩
  · simp only [if_neg hinit, openDisplay]
    cases c.physicalDisplayIds[screen.toNat]? with
    | none => exact ⟨rfl, .sessionOnly⟩
    | some id =>
      simp only [Option.bind_some]
      cases c.physicalDisplayToken id with
      | none => exact ⟨rfl, .sessionOnly⟩
      | some token =>
        simp only [Option.isNone_some, readDisplayInfo_eq]
        exact ⟨rfl, .opened⟩

theorem agree_init (h : InPhase g p) :
    Agree (sffgInit c screen width height g) (Phase.step (c, .init screen width height) p) := by
  have hguard : initGuard screen width height g = _ := initGuard_eq
  cases hargs : Phase.initArgs screen width height with
  | some message =>
    rw [hargs, Option.some_or] at hguard
    simp only [Phase.step, hargs]
    rw [sffgInit_rejected hguard]
    exact ⟨rfl, h⟩
  | none =>
    rw [hargs, Option.none_or] at hguard
    simp only [Phase.step, hargs]
    -- the session alone decides: without one there is neither a display nor a control
    cases h with
    | closed => exact agree_openUp hguard
    | sessionOnly =>
      rw [sffgInit_rejected hguard]
      exact ⟨rfl, .sessionOnly⟩
    | opened =>
      rw [sffgInit_rejected hguard]
      exact ⟨rfl, .opened⟩
    | showing =>
      rw [sffgInit_rejected hguard]
      exact ⟨rfl, .showing⟩

/-- What follows the tests of `sffg_create`. -/
theorem agree_putUp {session display : Nat} {info : DisplayInfo}
    (hguard : createGuard stack index window ⟨some session, some display, none, info⟩ = none) :
    Agree (sffgCreate c stack index window ⟨some session, some display, none, info⟩) (Phase.putUp c info) := by
  unfold sffgCreate Phase.putUp Phase.present
  rw [hguard]
  cases hcontrol : c.createSurface info.w info.h with
  | none => simpa [hcontrol] using ⟨rfl, .opened⟩
  | some control =>
    cases hvalid : c.isValid with
    | false => simpa [hcontrol, hvalid] using ⟨rfl, .showing⟩
    | true =>
      simp only [showSurface, Option.isNone_some, Bool.not_true, Bool.or_self, Bool.false_eq_true, if_false]
      cases c.getSurface with
      | none => exact ⟨rfl, .showing⟩
      | some surface =>
        by_cases happly : c.apply ≠ 0
        · simp only [if_pos happly]
          exact ⟨rfl, .showing⟩
        · simp only [if_neg happly]
          exact ⟨rfl, .showing⟩

theorem agree_create (h : InPhase g p) :
    Agree (sffgCreate c stack index window g) (Phase.step (c, .create stack index window) p) := by
  have hguard : createGuard stack index window g = _ := createGuard_eq
  cases hargs : Phase.createArgs stack index window with
  | some message =>
    rw [hargs, Option.some_or] at hguard
    simp only [Phase.step, hargs]
    rw [sffgCreate_rejected hguard]
    exact ⟨rfl, h⟩
  | none =>
    rw [hargs, Option.none_or] at hguard
    simp only [Phase.step, hargs]
    cases h with
    | closed =>
      rw [sffgCreate_rejected hguard]
      exact ⟨rfl, .closed⟩
    | sessionOnly =>
      rw [sffgCreate_rejected hguard]
      exact ⟨rfl, .sessionOnly⟩
    | opened => exact agree_putUp hguard
    | showing =>
      rw [sffgCreate_rejected hguard]
      exact ⟨rfl, .showing⟩

theorem agree_destroy (h : InPhase g p) : Agree (sffgDestroy g) (Phase.step (c, .destroy) p) := by
  cases h with
  | closed => exact ⟨rfl, .closed⟩
  | sessionOnly => exact ⟨rfl, .sessionOnly⟩
  | opened => exact ⟨rfl, .opened⟩
  | showing => exact ⟨rfl, .showing⟩

theorem sffg_simulates : Machine.Simulates sffg Phase.step InPhase := by
  rintro ⟨c, call⟩ g p h
  cases call with
  | init screen width height => exact agree_init h
  | create stack index window => exact agree_create h
  | destroy => exact agree_destroy h

end refines

/-- Over any calls, with whatever answers of the client, the library returns what the phases return, and its globals
are in the phase. -/
theorem sffg_refines (xs : List (Client × Call)) :
    Machine.outs sffg xs Globals.start = Machine.outs Phase.step xs .closed ∧
      InPhase (after xs) (Machine.run Phase.step xs .closed) := sffg_simulates.run .closed xs

/-! ### The integration -/

/-- The phases a call of the integration that succeeds leads from and to. -/
inductive Phase.Next : Phase → WindowCall → Phase → Prop
  | init {info : DisplayInfo} : Next .closed .platformInit (.opened info)
  | create {info : DisplayInfo} : Next (.opened info) .createNativeWindow (.showing info)
  | destroy {p : Phase} (h : p ≠ .closed) : Next p .destroyNativeWindow p

/-- The client calls succeed, whatever surface is asked for. -/
def Client.Serves (env : QtEnv) (c : Client) : Prop :=
  InitOk c (orDefault env.screen 0) ∧ (∀ w h, (c.createSurface w h).isSome = true) ∧ CreateOk c

/-- The calls that are left to be made. -/
def Phase.rest : Phase → List WindowCall
  | closed => [.platformInit, .createNativeWindow]
  | sessionOnly => []
  | opened _ => [.createNativeWindow]
  | showing _ => []

/-- Apart from `destroyNativeWindow`, which does not come first, the calls are a front of those that are left. -/
def Phase.Orderly (p : Phase) (ws : List WindowCall) : Prop :=
  ws.filter (· ≠ .destroyNativeWindow) <+: p.rest ∧ (p = .closed → ws.head? ≠ some .destroyNativeWindow)

section integration
variable {env : QtEnv} {c : Client} {p q : Phase} {v : WindowCall} {ws : List WindowCall} {screen : Int}
  {info : DisplayInfo}

theorem measure_isOk : (Phase.measure c).isOk = true ↔
    c.displayInfo.1 = 0 ∧ 0 < c.displayInfo.2.w ∧ 0 < c.displayInfo.2.h := by
  have hread := readDisplayInfo_isOk (c := c) (g := Globals.start)
  rwa [readDisplayInfo_eq] at hread

theorem opened_of_ok (h : (Phase.openUp c screen).1.isOk = true) :
    (Phase.openUp c screen).2 = .opened c.displayInfo.2 := by
  unfold Phase.openUp at h ⊢
  split at h
  · cases h
  · rename_i hinit
    rw [if_neg hinit]
    split at h
    · cases h
    · rfl

theorem openUp_ok (h : InitOk c screen) : (Phase.openUp c screen).1.isOk = true := by
  obtain ⟨hinit, ⟨id, hid, htoken⟩, hmeasure⟩ := h
  obtain ⟨token, htoken⟩ := Option.isSome_iff_exists.1 htoken
  simpa [Phase.openUp, hinit, hid, htoken] using measure_isOk.2 hmeasure

theorem present_isOk : (Phase.present c).isOk = true ↔ CreateOk c := by
  unfold Phase.present CreateOk
  cases c.isValid with
  | false => simp [Except.isOk, Except.toBool]
  | true =>
    cases c.getSurface with
    | none => simp [Except.isOk, Except.toBool]
    | some surface => by_cases h : c.apply = 0 <;> simp [h, Except.isOk, Except.toBool]

theorem showing_of_ok (h : (Phase.putUp c info).1.isOk = true) : (Phase.putUp c info).2 = .showing info := by
  unfold Phase.putUp at h ⊢
  split at h
  · cases h
  · rfl

theorem putUp_ok (hsurface : (c.createSurface info.w info.h).isSome = true) (h : CreateOk c) :
    (Phase.putUp c info).1.isOk = true := by
  obtain ⟨control, hcontrol⟩ := Option.isSome_iff_exists.1 hsurface
  simpa [Phase.putUp, hcontrol] using present_isOk.2 h

/-- The integration passes valid arguments. -/
theorem step_platformInit : Phase.step (c, WindowCall.platformInit.call env) p = p.init c (orDefault env.screen 0) := by
  have hscreen : 0 ≤ orDefault env.screen 0 := orDefault_nonneg (by decide)
  simp [WindowCall.call, Phase.step, Phase.initArgs, Int.not_lt.2 hscreen]

theorem step_createNativeWindow : Phase.step (c, WindowCall.createNativeWindow.call env) p = p.create c := by
  have hstack : 0 ≤ orDefault env.stack 0 := orDefault_nonneg (by decide)
  have hindex : 0 ≤ orDefault env.index 0x50000000 := orDefault_nonneg (by decide)
  simp [WindowCall.call, Phase.step, Phase.createArgs, Int.not_lt.2 hstack, Int.not_lt.2 hindex]

theorem next_of_ok (h : (Phase.step (c, v.call env) p).1.isOk = true) : p.Next v (Phase.step (c, v.call env) p).2 := by
  cases v with
  | platformInit =>
    rw [step_platformInit] at h ⊢
    cases p with
    | closed =>
      rw [Phase.init, opened_of_ok h]
      exact .init
    | sessionOnly => cases h
    | opened info => cases h
    | showing info => cases h
  | createNativeWindow =>
    rw [step_createNativeWindow] at h ⊢
    cases p with
    | closed => cases h
    | sessionOnly => cases h
    | opened info =>
      rw [Phase.create, showing_of_ok h]
      exact .create
    | showing info => cases h
  | destroyNativeWindow =>
    cases p with
    | closed => cases h
    | sessionOnly => exact .destroy nofun
    | opened info => exact .destroy nofun
    | showing info => exact .destroy nofun

theorem ok_of_next (hc : Client.Serves env c) (h : p.Next v q) : (Phase.step (c, v.call env) p).1.isOk = true := by
  cases h with
  | init =>
    rw [step_platformInit]
    exact openUp_ok hc.1
  | create =>
    rw [step_createNativeWindow]
    exact putUp_ok (hc.2.1 _ _) hc.2.2
  | destroy hp =>
    cases p with
    | closed => exact absurd rfl hp
    | sessionOnly => rfl
    | opened info => rfl
    | showing info => rfl

/-! ### Orders of calls -/

theorem Phase.Next.orderly_cons (h : p.Next v q) : p.Orderly (v :: ws) ↔ q.Orderly ws := by
  cases h with
  | init => simp [Phase.Orderly, Phase.rest, List.cons_prefix_cons]
  | create => simp [Phase.Orderly, Phase.rest, List.cons_prefix_cons]
  | destroy hp => simp [Phase.Orderly, hp]

theorem Phase.Orderly.next (h : p.Orderly (v :: ws)) : ∃ q, p.Next v q := by
  obtain ⟨hfront, hhead⟩ := h
  cases v with
  | platformInit =>
    cases p with
    | closed => exact ⟨.opened ⟨0, 0, 0⟩, .init⟩
    | sessionOnly => simp [Phase.rest] at hfront
    | opened info => simp [Phase.rest, List.cons_prefix_cons] at hfront
    | showing info => simp [Phase.rest] at hfront
  | createNativeWindow =>
    cases p with
    | closed => simp [Phase.rest, List.cons_prefix_cons] at hfront
    | sessionOnly => simp [Phase.rest] at hfront
    | opened info => exact ⟨.showing info, .create⟩
    | showing info => simp [Phase.rest] at hfront
  | destroyNativeWindow => exact ⟨p, .destroy fun hp => hhead hp rfl⟩

theorem orderly_of_ok (xs : List (Client × WindowCall))
    (h : ∀ r ∈ Machine.outs Phase.step (WindowCall.calls env xs) p, r.isOk = true) : p.Orderly (xs.map Prod.snd) := by
  induction xs generalizing p with
  | nil => exact ⟨List.nil_prefix, fun _ => nofun⟩
  | cons x xs ih =>
    obtain ⟨hx, hxs⟩ := List.forall_mem_cons.1 h
    exact (next_of_ok hx).orderly_cons.2 (ih hxs)

theorem ok_of_orderly (xs : List (Client × WindowCall)) (hserve : ∀ x ∈ xs, Client.Serves env x.1)
    (h : p.Orderly (xs.map Prod.snd)) :
    ∀ r ∈ Machine.outs Phase.step (WindowCall.calls env xs) p, r.isOk = true := by
  induction xs generalizing p with
  | nil => nofun
  | cons x xs ih =>
    obtain ⟨hx, hxs⟩ := List.forall_mem_cons.1 hserve
    obtain ⟨q, hq⟩ := h.next
    have hok := ok_of_next hx hq
    exact List.forall_mem_cons.2 ⟨hok, ih hxs ((next_of_ok hok).orderly_cons.1 h)⟩

end integration

end BuildQt5
