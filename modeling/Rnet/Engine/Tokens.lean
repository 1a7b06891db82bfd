import Rnet.Engine.Accepting

/-!
# Poll tokens

A `usize` is a slab key, the token of a listener or `WAKE_TOKEN`. The tokens of the listeners start 1024 below the
largest `usize`, which is `WAKE_TOKEN`, and `listener_token` wraps; so they stay apart from the others, and both
dispatches serve the source an event was registered for, if and only if there are at most 1024 listeners
(`tokens_apart_iff`). Nothing bounds the number of addresses.

`Acceptor::run` is a state machine around `accept_loop`, as the main loop of `EventLoop` is one.
-/

namespace Rnet

/-- `listener_token`, in release mode: the sum wraps. -/
def listenerToken (index : Nat) : Nat := (LISTENER_TOKEN_START + index) % 2 ^ 64

/-- What is registered with a poller. -/
inductive Source
  | waker
  | listener (idx : Nat)
  | connection (key : Nat)
  deriving DecidableEq, Repr

namespace Source

/-- The token it is registered with: by `Waker::new`, by `EventLoop::build` and `Acceptor::run`, by `register`. -/
def token : Source → Nat
  | waker => WAKE_TOKEN
  | listener idx => listenerToken idx
  | connection key => key

/-- What may be registered by a loop with `n` listeners. A descriptor has 24 bits for the key. -/
def Registered (n : Nat) : Source → Prop
  | waker => True
  | listener idx => idx < n
  | connection key => key < 2 ^ 24

/-- What the loops take a token for. -/
def ofToken (token : Nat) : Source :=
  if token = WAKE_TOKEN then waker
  else match isListenerToken token with
    | some idx => listener idx
    | none => connection token

end Source

namespace Accepting

/-! ## `Acceptor::run` -/

inductive RunPhase
  /-- in the loop that registers the listeners -/
  | registering
  /-- before `is_running.load` -/
  | checking
  | polling
  /-- with the tokens of the events still to be handled -/
  | events (tokens : List Nat)
  /-- in `accept_loop` -/
  | accepting (tokens : List Nat)
  | returned (res : IoResult Unit)

structure AcceptorRun where
  acceptor : Acceptor
  isRunning : Bool
  /-- the waker's flag -/
  awoken : Bool
  phase : RunPhase

inductive RunLabel
  /-- the next step of `run` -/
  | advance
  | registerError (e : IoError)
  | poll (tokens : List Nat)
  | pollError (e : IoError)
  /-- the workers do something -/
  | workers (ws : List Worker)
  /-- `AcceptorHandle::shutdown` stores `is_running` -/
  | shutdown
  /-- it wakes the acceptor -/
  | wake

namespace AcceptorRun

def goto (r : AcceptorRun) (phase : RunPhase) : AcceptorRun := { r with phase }

/-- One event of the batch. A token of neither kind is skipped. -/
def handleEvent (r : AcceptorRun) (token : Nat) (tokens : List Nat) : AcceptorRun :=
  if token = WAKE_TOKEN then
    if !r.isRunning then r.goto (.returned (.ok ()))
    else { r with awoken := false, phase := .events tokens }
  else
    match isListenerToken token with
    | some idx => { r with acceptor := { r.acceptor with pc := .called idx }, phase := .accepting tokens }
    | none => r.goto (.events tokens)

/-- The next step of `run`; the indexing in `accept_loop` may panic. -/
def advance (r : AcceptorRun) : Option AcceptorRun :=
  match r.phase with
  | .registering => some (r.goto .checking)
  | .checking => some (r.goto (if r.isRunning then .polling else .returned (.ok ())))
  | .events [] => some (r.goto .checking)
  | .events (token :: tokens) => some (r.handleEvent token tokens)
  | .accepting tokens =>
    match r.acceptor.pc with
    | .returned => some (r.goto (.events tokens))
    | .called _ | .looping _ _ => (r.acceptor.step .advance).map fun acceptor => { r with acceptor }
  | .polling | .returned _ => none

def step (r : AcceptorRun) : RunLabel → Option AcceptorRun
  | .advance => r.advance
  | .registerError e =>
    match r.phase with
    | .registering => some (r.goto (.returned (.error e)))
    | _ => none
  | .poll tokens =>
    match r.phase with
    | .polling => some (r.goto (.events tokens))
    | _ => none
  | .pollError e =>
    match r.phase with
    | .polling => some (r.goto (if e.kind = .interrupted then .checking else .returned (.error e)))
    | _ => none
  | .workers ws => some { r with acceptor := { r.acceptor with workers := ws } }
  | .shutdown => some { r with isRunning := false }
  | .wake => some { r with awoken := true }

/-- What `run` does for an event of `s`. -/
def serve (r : AcceptorRun) (s : Source) (tokens : List Nat) : AcceptorRun :=
  match s with
  | .waker =>
    if !r.isRunning then r.goto (.returned (.ok ()))
    else { r with awoken := false, phase := .events tokens }
  | .listener idx => { r with acceptor := { r.acceptor with pc := .called idx }, phase := .accepting tokens }
  | .connection _ => r.goto (.events tokens)

theorem handleEvent_eq (r : AcceptorRun) (token : Nat) (tokens : List Nat) :
    r.handleEvent token tokens = r.serve (.ofToken token) tokens := by
  unfold handleEvent Source.ofToken
  split
  · rfl
  · cases isListenerToken token <;> rfl

end AcceptorRun

end Accepting

/-! ## The main loop -/

section

open EventLoop Programs

variable {η κ Msg : Type} [Codec κ Msg] [EventHandler η κ Msg]

/-- What `run_loop` does for an event of `s`. -/
def Machine.serve (m : Machine η κ) (s : Source) (ev : Event) (evs : List Event) : Machine η κ :=
  match s with
  | .waker =>
    { m with
      el := { m.el with handle := { m.el.handle with awoken := false } }
      phase := .draining MAX_ASYNC_TASK_ONE_TIME evs }
  | .listener idx =>
    match m.el.listeners with
    | none => m.goto (.events evs)
    | some ls => { m with el := { m.el with listeners := none }, phase := .accepting idx ls evs }
  | .connection key => m.call (processIo key ev) fun _ => .events evs

theorem Machine.handleEvent_eq (m : Machine η κ) (ev : Event) (evs : List Event) :
    m.handleEvent ev evs = m.serve (.ofToken ev.token) ev evs := by
  unfold handleEvent Source.ofToken
  split
  · rfl
  · cases isListenerToken ev.token <;> rfl

end

/-! ## The ranges -/

theorem isListenerToken_of_lt {token : Nat} (h : token < LISTENER_TOKEN_START) : isListenerToken token = none :=
  if_neg fun ⟨hle, _⟩ => Nat.not_le_of_lt h hle

/-- Below 1024 the sum does not wrap. -/
theorem listenerToken_eq {i : Nat} (h : i < 1024) : listenerToken i = LISTENER_TOKEN_START + i := by
  unfold listenerToken LISTENER_TOKEN_START
  omega

theorem isListenerToken_listenerToken {i : Nat} (h : i < 1024) : isListenerToken (listenerToken i) = some i := by
  have hrange : LISTENER_TOKEN_START ≤ LISTENER_TOKEN_START + i ∧ LISTENER_TOKEN_START + i < 2 ^ 64 - 1 := by
    unfold LISTENER_TOKEN_START
    omega
  rw [listenerToken_eq h, isListenerToken, if_pos hrange, Nat.add_sub_cancel_left]

/-- The next listener has the token of the waker. -/
theorem listenerToken_1024 : listenerToken 1024 = WAKE_TOKEN := rfl

/-- The tokens of a loop with `n` listeners. -/
structure TokensApart (n : Nat) : Prop where
  listener : ∀ i < n, isListenerToken (listenerToken i) = some i
  key : ∀ k < 2 ^ 24, isListenerToken k = none
  injective : ∀ i < n, ∀ j < n, listenerToken i = listenerToken j → i = j
  listener_ne_wake : ∀ i < n, listenerToken i ≠ WAKE_TOKEN
  key_ne_wake : ∀ k < 2 ^ 24, k ≠ WAKE_TOKEN

theorem tokensApart {n : Nat} (hn : n ≤ 1024) : TokensApart n where
  listener i hi := isListenerToken_listenerToken (by omega)
  key k hk := isListenerToken_of_lt (by unfold LISTENER_TOKEN_START; omega)
  injective i hi j hj h := by
    rw [listenerToken_eq (by omega), listenerToken_eq (by omega)] at h
    exact Nat.add_left_cancel h
  listener_ne_wake i hi := by
    rw [listenerToken_eq (by omega)]
    unfold LISTENER_TOKEN_START WAKE_TOKEN
    omega
  key_ne_wake k hk := by
    unfold WAKE_TOKEN
    omega

/-- Tokens that are apart are taken for what they are. -/
theorem TokensApart.ofToken_token {n : Nat} (h : TokensApart n) {s : Source} (hs : s.Registered n) :
    Source.ofToken s.token = s := by
  cases s with
  | waker => rfl
  | listener idx => simp only [Source.ofToken, Source.token, if_neg (h.listener_ne_wake idx hs), h.listener idx hs]
  | connection key => simp only [Source.ofToken, Source.token, if_neg (h.key_ne_wake key hs), h.key key hs]

/-! ## The dispatch -/

section

open EventLoop Accepting

variable (η κ : Type) {Msg : Type} [Codec κ Msg] [EventHandler η κ Msg]

/-- Each event is served as one of the source it was registered for, by the main loop and by the acceptor. -/
structure Dispatches (n : Nat) : Prop where
  loop : ∀ (m : Machine η κ) (s : Source) (ev : Event) (evs : List Event), s.Registered n → ev.token = s.token →
    m.handleEvent ev evs = m.serve s ev evs
  acceptor : ∀ (r : AcceptorRun) (s : Source) (tokens : List Nat), s.Registered n →
    r.handleEvent s.token tokens = r.serve s tokens

theorem TokensApart.dispatches {n : Nat} (h : TokensApart n) : Dispatches η κ n where
  loop m s ev evs hs htoken := by rw [m.handleEvent_eq, htoken, h.ofToken_token hs]
  acceptor r s tokens hs := by rw [r.handleEvent_eq, h.ofToken_token hs]

/-- **The tokens stay apart, and each event is dispatched to its source, exactly up to 1024 listeners.** -/
theorem tokens_apart_iff (n : Nat) : (TokensApart n ∧ Dispatches η κ n) ↔ n ≤ 1024 := by
  constructor
  · rintro ⟨h, -⟩
    by_contra hn
    exact h.listener_ne_wake 1024 (Nat.lt_of_not_le hn) listenerToken_1024
  · intro hn
    exact ⟨tokensApart hn, (tokensApart hn).dispatches η κ⟩

end

/-! ## Runs of the acceptor -/

namespace Accepting

open Runs

/-- The listener a call of `accept_loop` is for. -/
def Pc.index : Pc → Option Nat
  | .called index | .looping index _ => some index
  | .returned => none

def RunPhase.tokens : RunPhase → List Nat
  | .events tokens | .accepting tokens => tokens
  | _ => []

/-- An iteration of `accept_loop` stays with its listener. -/
theorem Acceptor.advance_frame {a a' : Acceptor} (h : a.step .advance = some a') :
    a'.listeners.length = a.listeners.length ∧ ∀ i, a'.pc.index = some i → a.pc.index = some i := by
  cases hpc : a.pc with
  | returned => simp [step, hpc] at h
  | called index =>
    simp only [step, hpc] at h
    obtain ⟨l, -, rfl⟩ := Option.map_eq_some_iff.mp h
    simp only [Listener.localAddr]
    exact ⟨trivial, fun i hi => hi⟩
  | looping index localAddr =>
    simp only [step, hpc] at h
    obtain ⟨l, -, rfl⟩ := Option.map_eq_some_iff.mp h
    unfold acceptOne
    split
    · exact ⟨List.length_set, fun i hi => by cases hi⟩
    · rw [(dispatch_frame _ _).1, (dispatch_frame _ _).2]
      exact ⟨List.length_set, fun i hi => by rwa [hpc] at hi⟩

namespace AcceptorRun

/-- `poll` reports what was registered. -/
def Reports (n : Nat) : RunLabel → Prop
  | .poll tokens => ∀ token ∈ tokens, ∃ s : Source, s.Registered n ∧ token = s.token
  | _ => True

/-- There are `n` listeners, and `accept_loop` is called for one of them. -/
structure InBounds (n : Nat) (r : AcceptorRun) : Prop where
  listeners : r.acceptor.listeners.length = n
  batch : ∀ token ∈ r.phase.tokens, ∃ s : Source, s.Registered n ∧ token = s.token
  index : ∀ tokens, r.phase = .accepting tokens → ∀ i, r.acceptor.pc.index = some i → i < n

variable {n : Nat} {r r' : AcceptorRun}

/-- In another phase, outside `accept_loop`. -/
theorem InBounds.goto (h : InBounds n r) {phase : RunPhase} (hsub : ∀ token ∈ phase.tokens, token ∈ r.phase.tokens)
    (hout : ∀ tokens, phase ≠ .accepting tokens) : InBounds n (r.goto phase) :=
  ⟨h.listeners, fun token ht => h.batch token (hsub token ht), fun tokens ht => absurd ht (hout tokens)⟩

theorem InBounds.handleEvent (hn : n ≤ 1024) {token : Nat} {tokens : List Nat} (h : InBounds n r)
    (hphase : r.phase = .events (token :: tokens)) : InBounds n (r.handleEvent token tokens) := by
  have hbatch : ∀ t ∈ token :: tokens, ∃ s : Source, s.Registered n ∧ t = s.token := by
    have := h.batch
    rwa [hphase] at this
  have hrest : ∀ t ∈ tokens, ∃ s : Source, s.Registered n ∧ t = s.token := fun t ht => hbatch t (.tail _ ht)
  obtain ⟨s, hs, rfl⟩ := hbatch token List.mem_cons_self
  rw [handleEvent_eq, (tokensApart hn).ofToken_token hs]
  cases s with
  | waker =>
    unfold serve
    dsimp only
    split
    · exact h.goto (by simp [RunPhase.tokens]) (by simp)
    · exact ⟨h.listeners, hrest, by simp⟩
  | listener idx =>
    refine ⟨h.listeners, hrest, fun _ _ i hi => ?_⟩
    obtain rfl : idx = i := Option.some.inj hi
    exact hs
  | connection key => exact ⟨h.listeners, hrest, by simp [serve, AcceptorRun.goto]⟩

theorem InBounds.advance (hn : n ≤ 1024) (h : InBounds n r) (hstep : r.advance = some r') : InBounds n r' := by
  unfold AcceptorRun.advance at hstep
  cases hphase : r.phase with
  | registering | checking =>
    simp only [hphase, Option.some.injEq] at hstep
    subst hstep
    refine h.goto ?_ ?_ <;> (try split) <;> simp [RunPhase.tokens]
  | polling | returned _ => simp [hphase] at hstep
  | events tokens =>
    cases tokens with
    | nil =>
      simp only [hphase, Option.some.injEq] at hstep
      subst hstep
      exact h.goto (by simp [RunPhase.tokens]) (by simp)
    | cons token tokens =>
      simp only [hphase, Option.some.injEq] at hstep
      subst hstep
      exact h.handleEvent hn hphase
  | accepting tokens =>
    simp only [hphase] at hstep
    split at hstep
    · cases hstep
      exact h.goto (by simp [hphase, RunPhase.tokens]) (by simp)
    all_goals
      obtain ⟨a', ha, rfl⟩ := Option.map_eq_some_iff.mp hstep
      obtain ⟨hlen, hidx⟩ := Acceptor.advance_frame ha
      refine ⟨hlen.trans h.listeners, ?_, fun _ _ i hi => h.index tokens hphase i (hidx i hi)⟩
      have hbatch := h.batch
      rwa [hphase] at hbatch

theorem InBounds.step (hn : n ≤ 1024) (h : InBounds n r) {l : RunLabel} (hl : Reports n l)
    (hstep : r.step l = some r') : InBounds n r' := by
  cases l with
  | advance => exact h.advance hn hstep
  | poll tokens =>
    cases hphase : r.phase <;> simp only [AcceptorRun.step, hphase, Option.some.injEq, reduceCtorEq] at hstep
    subst hstep
    exact ⟨h.listeners, hl, by simp [AcceptorRun.goto]⟩
  | registerError e =>
    cases hphase : r.phase <;> simp only [AcceptorRun.step, hphase, Option.some.injEq, reduceCtorEq] at hstep
    subst hstep
    exact h.goto (by simp [RunPhase.tokens]) (by simp)
  | pollError e =>
    cases hphase : r.phase <;> simp only [AcceptorRun.step, hphase, Option.some.injEq, reduceCtorEq] at hstep
    subst hstep
    refine h.goto ?_ ?_ <;> split <;> simp [RunPhase.tokens]
  | workers _ | shutdown | wake =>
    cases hstep
    exact ⟨h.listeners, h.batch, h.index⟩

/-- **`Acceptor::run` never indexes past its listeners**, if there are at most 1024: whatever `poll` reports of what was
registered, and whatever else happens, the next step is there while `accept_loop` runs. -/
theorem accept_loop_in_bounds {a : Acceptor} {awoken : Bool} {ls : List RunLabel} (hn : a.listeners.length ≤ 1024)
    (hpoll : ∀ l ∈ ls, Reports a.listeners.length l)
    (hrun : run AcceptorRun.step ⟨a, true, awoken, .registering⟩ ls = some r) {tokens : List Nat}
    (hphase : r.phase = .accepting tokens) : r.advance.isSome = true := by
  have h0 : InBounds a.listeners.length ⟨a, true, awoken, .registering⟩ :=
    ⟨rfl, by simp [RunPhase.tokens], by simp⟩
  have hok : Along AcceptorRun.step (fun _ l => Reports a.listeners.length l) ⟨a, true, awoken, .registering⟩ ls :=
    .of_labels hpoll
  have hr : InBounds a.listeners.length r :=
    run_invariant (fun _ _ _ h hl hs => InBounds.step hn h hl hs) h0 hok hrun
  unfold AcceptorRun.advance
  simp only [hphase]
  cases hpc : r.acceptor.pc with
  | returned => rfl
  | called index | looping index _ =>
    have hlt : index < r.acceptor.listeners.length := by
      rw [hr.listeners]
      exact hr.index tokens hphase index (by rw [hpc]; rfl)
    simp [Acceptor.step, hpc, List.getElem?_eq_getElem hlt]

end AcceptorRun

end Accepting

/-- With 1025 addresses the last listener has the waker's token, and its events are taken for those of the waker. -/
theorem last_listener_wakes : ¬ TokensApart 1025 ∧ listenerToken 1024 = WAKE_TOKEN ∧
    isListenerToken (listenerToken 1024) = none ∧ Source.ofToken (Source.listener 1024).token = .waker := by
  refine ⟨fun h => h.listener_ne_wake 1024 (by decide) listenerToken_1024, rfl, ?_, rfl⟩
  decide

end Rnet
