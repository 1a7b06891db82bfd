import Rnet.EventLoop.Failures

/-!
# The life of a connection

`word id` is what happened to the incarnation with number `id`: its callbacks and the drop of its socket, in order. A
live connection's word is `opened` and any number of `traffic`; the word of one that is gone ends with `closed` and
`dropped` (`Tracked`). Every effect keeps this in the absence of poller errors (`Effect.tracked`), and so does every
run in which `on_open` never asks for an end and the system fails neither `poll` nor a wake while connections are live
(`callbacks_bracketed`). A connection that `on_open` refuses is dropped without `on_close` (`refused_never_closed`).
-/

namespace Rnet

open Programs Relation

variable {η κ Msg : Type}

/-! ## Words -/

/-- What can happen to an incarnation: its callbacks, and the drop of its socket. -/
inductive Mark
  | opened
  | traffic
  | closed
  | dropped
  deriving DecidableEq, Repr

def Obs.mark (id : Nat) : Obs κ → Option Mark
  | .opens before _ _ => if before.id = id then some .opened else none
  | .traffic before _ _ => if before.id = id then some .traffic else none
  | .closes before _ _ => if before.id = id then some .closed else none
  | .drops n => if n = id then some .dropped else none
  | .merged _ | .ticks _ _ _ => none

/-- What happened to the incarnation with a number, in order. -/
def word (id : Nat) (trace : List (Obs κ)) : List Mark := trace.filterMap (Obs.mark id)

/-- Opened, and not closed yet. -/
def Running (w : List Mark) : Prop := ∃ n, w = .opened :: List.replicate n .traffic

/-- Opened, closed once, and then dropped. -/
def Over (w : List Mark) : Prop := ∃ n, w = .opened :: List.replicate n .traffic ++ [.closed, .dropped]

theorem word_append (id : Nat) (trace new : List (Obs κ)) : word id (trace ++ new) = word id trace ++ word id new :=
  List.filterMap_append

theorem Running.traffic {w : List Mark} (h : Running w) : Running (w ++ [.traffic]) := by
  obtain ⟨n, rfl⟩ := h
  exact ⟨n + 1, by rw [List.cons_append, ← List.replicate_succ']⟩

theorem Running.over {w : List Mark} (h : Running w) : Over (w ++ [.closed, .dropped]) := by
  obtain ⟨n, rfl⟩ := h
  exact ⟨n, rfl⟩

namespace EventLoop

/-- The live connections are running, all others are over or never were. -/
structure Tracked (el : EventLoop η κ) : Prop where
  sound : el.Sound
  live : ∀ {k i}, el.connections.get k = some i → Running (word i.id el.trace)
  rest : ∀ {id}, (∀ k i, el.connections.get k = some i → i.id ≠ id) → word id el.trace = [] ∨ Over (word id el.trace)
  fresh : ∀ {id}, el.minted ≤ id → word id el.trace = []

/-- Whoever is live stays live. -/
def Lasts (el el' : EventLoop η κ) : Prop :=
  ∀ (k : Nat) (i : Incarnation κ), el.connections.get k = some i → ∃ j, el'.connections.get k = some j

variable {el el' : EventLoop η κ} {key : Nat} {serving : Prop}

theorem lasts_setIncarnation (el : EventLoop η κ) (key : Nat) (j : Incarnation κ) :
    el.Lasts (el.setIncarnation key j) := by
  intro k i hi
  by_cases hk : k = key
  · subst hk
    exact ⟨j, get_setIncarnation_self hi j⟩
  · exact ⟨i, (Slab.get_set_ne hk).trans hi⟩

namespace Tracked

/-- Nobody comes or goes, and what is recorded is about one live connection, or about none. -/
theorem grows (h : el.Tracked) (hs : el'.Sound) (hk : el.Keeps el') (hl : el.Lasts el') (hm : el.minted ≤ el'.minted)
    {new : List (Obs κ)} (htrace : el'.trace = el.trace ++ new)
    (hnew : ∀ id, word id new = [] ∨ word id new = [.traffic] ∧ ∃ k i, el.connections.get k = some i ∧ i.id = id) :
    el'.Tracked where
  sound := hs
  live {k j} hj := by
    obtain ⟨i, hi, hij⟩ := hk k j hj
    rw [htrace, word_append, hij.id]
    rcases hnew i.id with hn | ⟨hn, -⟩
    · rw [hn, List.append_nil]
      exact h.live hi
    · rw [hn]
      exact (h.live hi).traffic
  rest {id} hid := by
    have hid' : ∀ k i, el.connections.get k = some i → i.id ≠ id := by
      intro k i hi
      obtain ⟨j, hj⟩ := hl k i hi
      obtain ⟨i', hi', hij⟩ := hk k j hj
      rw [hi] at hi'
      cases hi'
      rw [← hij.id]
      exact hid k j hj
    rw [htrace, word_append]
    rcases hnew id with hn | ⟨-, k, i, hi, hii⟩
    · rw [hn, List.append_nil]
      exact h.rest hid'
    · exact absurd hii (hid' k i hi)
  fresh {id} hid := by
    rw [htrace, word_append, h.fresh (Nat.le_trans hm hid)]
    rcases hnew id with hn | ⟨-, k, i, hi, hii⟩
    · exact hn
    · have := h.sound.minted hi
      omega

/-- Nothing is recorded about anybody. -/
theorem silent (h : el.Tracked) (hs : el'.Sound) (hk : el.Keeps el') (hl : el.Lasts el') (hm : el.minted ≤ el'.minted)
    (htrace : el'.trace = el.trace) : el'.Tracked :=
  h.grows hs hk hl hm (htrace.trans (List.append_nil _).symm) fun _ => Or.inl rfl

theorem congr (h : el.Tracked) (hc : el'.connections = el.connections) (hm : el.minted ≤ el'.minted)
    (hloop : el'.loopId = el.loopId) (htrace : el'.trace = el.trace) : el'.Tracked :=
  h.silent (h.sound.keeps (.of_eq hc) hm hloop) (.of_eq hc) (fun k i hi => ⟨i, by rw [hc, hi]⟩) hm htrace

variable [Codec κ Msg] [EventHandler η κ Msg]

/-- **Closing** ends the word of the connection that is closed. -/
theorem gone (h : el.Tracked) {i : Incarnation κ} (hi : el.connections.get key = some i) (graceful : Bool) :
    (el.gone key i graceful).Tracked := by
  have hclose : Effect True key el (el.gone key i graceful) := .closes i graceful hi trivial
  have hs := hclose.sound h.sound
  have hmark : ∀ id, word id [el.closeObs i graceful, .drops i.id] = if i.id = id then [.closed, .dropped] else [] := by
    intro id
    by_cases hid : i.id = id <;> simp [word, closeObs, Obs.mark, hid]
  have hword : ∀ id, word id (el.gone key i graceful).trace =
      word id el.trace ++ if i.id = id then [.closed, .dropped] else [] := by
    intro id
    rw [gone_trace, word_append, hmark]
  refine ⟨hs, fun {k j} hj => ?_, fun {id} hid => ?_, fun {id} hid => ?_⟩
  · rw [gone_get] at hj
    split at hj
    · cases hj
    · rename_i hk
      have hne : i.id ≠ j.id := fun he => hk (h.sound.distinct hi hj he).symm
      rw [hword, if_neg hne, List.append_nil]
      exact h.live hj
  · rw [hword]
    by_cases hii : i.id = id
    · rw [if_pos hii, ← hii]
      exact Or.inr (h.live hi).over
    · rw [if_neg hii, List.append_nil]
      refine h.rest fun k j hj => ?_
      by_cases hk : k = key
      · rw [hk, hi] at hj
        cases hj
        exact hii
      · exact hid k j (by rw [gone_get, if_neg hk, hj])
  · have hlt := h.sound.minted hi
    have hid : el.minted ≤ id := hid
    rw [hword, if_neg (by omega), List.append_nil]
    exact h.fresh hid

/-- **Admitting** begins the word of a new number. -/
theorem admits (h : el.Tracked) (socket : Socket) (localAddr peerAddr : NetworkAddress) :
    ((el.opening socket localAddr peerAddr).2.enter (el.opening socket localAddr peerAddr).1).Tracked := by
  let i := (el.opening socket localAddr peerAddr).1
  have hid : i.id = el.minted := (opening_same el socket localAddr peerAddr).id
  have hword : ∀ id, word id ((el.opening socket localAddr peerAddr).2.enter i).trace =
      word id el.trace ++ if el.minted = id then [.opened] else [] := by
    intro id
    show word id (el.trace ++ [.opens (el.incarnation socket localAddr peerAddr) _ _]) = _
    rw [word_append]
    by_cases hm : el.minted = id <;> simp [word, Obs.mark, incarnation, hm]
  have hget : ∀ k, ((el.opening socket localAddr peerAddr).2.enter i).connections.get k =
      if k = el.connections.vacantKey then some i else el.connections.get k := fun k =>
    Slab.get_insert (s := el.connections)
  refine ⟨h.sound.admits socket localAddr peerAddr, fun {k j} hj => ?_, fun {id} hn => ?_, fun {id} hle => ?_⟩
  · rw [hget] at hj
    rw [hword]
    split at hj
    · cases hj
      rw [hid, if_pos rfl, h.fresh (Nat.le_refl _)]
      exact ⟨0, rfl⟩
    · have hlt := h.sound.minted hj
      rw [if_neg (by omega), List.append_nil]
      exact h.live hj
  · have hvac := hn el.connections.vacantKey i (by rw [hget, if_pos rfl])
    rw [hword, if_neg (by rwa [hid] at hvac), List.append_nil]
    refine h.rest fun k j hj => hn k j ?_
    rw [hget, if_neg (fun hk => by rw [hk, Slab.get_vacantKey] at hj; cases hj), hj]
  · have hle : el.minted + 1 ≤ id := hle
    rw [hword, if_neg (by omega), List.append_nil]
    exact h.fresh (by omega)

end Tracked

variable [Codec κ Msg] [EventHandler η κ Msg]

/-- **Every effect keeps the words in order**, unless the poller fails. -/
theorem Effect.tracked (he : Effect serving key el el') (hh : el.Healthy) (h : el.Tracked) : el'.Tracked := by
  have hs := he.sound h.sound
  have hk := he.same
  have hm := Nat.le_of_eq he.minted.1.symm
  cases he with
  | neutral hn => exact h.congr hn.connections (Nat.le_of_eq hn.minted.symm) hn.loopId hn.trace
  | push priority cmd _ => exact h.congr rfl (Nat.le_refl _) rfl rfl
  | serves i c hi hc _ => exact h.silent hs hk (lasts_setIncarnation _ _ _) hm rfl
  | readsNothing i s a n hi hs' ha => exact h.silent hs hk (lasts_setIncarnation _ _ _) hm rfl
  | traffic i s a n s' bs hi hs' ha hne hset hact =>
    refine h.grows hs hk (fun k j hj => ?_) hm (List.append_assoc _ _ _) fun id => ?_
    · obtain ⟨j₁, h₁⟩ := lasts_setIncarnation el key { i with conn := { i.conn with socket := some s' }.receive bs }
        k j hj
      obtain ⟨j₂, h₂⟩ := lasts_setIncarnation (el.hears key i s' bs).2 key (el.hears key i s' bs).1 k j₁ h₁
      exact lasts_setIncarnation _ key _ k j₂ h₂
    · by_cases hid : i.id = id
      · exact Or.inr ⟨by simp [word, Obs.mark, hid], key, i, hi, hid⟩
      · exact Or.inl (by simp [word, Obs.mark, hid])
  | lastTraffic i s a n s' bs hi hs' ha hne hset hact =>
    refine h.grows hs hk (fun k j hj => ?_) hm rfl fun id => ?_
    · obtain ⟨j₁, h₁⟩ := lasts_setIncarnation el key { i with conn := { i.conn with socket := some s' }.receive bs }
        k j hj
      exact lasts_setIncarnation (el.hears key i s' bs).2 key (el.hears key i s' bs).1 k j₁ h₁
    · by_cases hid : i.id = id
      · exact Or.inr ⟨by simp [word, Obs.mark, hid], key, i, hi, hid⟩
      · exact Or.inl (by simp [word, Obs.mark, hid])
  | closes i graceful hi _ => exact h.gone hi graceful
  | failsToClose i graceful e hi he _ => exact absurd he (hh.no_error e)
  | ticks op hd conns hop _ =>
    unfold tickOp at hs hk hm ⊢
    cases hi : el.connections.get key with
    | none => exact h
    | some i =>
      rw [hi] at hs hk hm
      exact h.silent hs hk (lasts_setIncarnation { el with handle := (op.apply i el.handle).2 } key _) hm rfl
  | recordsTick before after action _ => exact h.grows hs hk (fun k j hj => ⟨j, hj⟩) hm rfl fun id => Or.inl rfl

end EventLoop

/-! ## Runs -/

namespace Machine

open EventLoop Runs

variable {m m' : Machine η κ} {l : Label η}

variable [Codec κ Msg] [EventHandler η κ Msg]

/-- The step does not lead into one of the ends without `on_close`: an `on_open` that asks for an end, or, while there
are connections, a `poll` or a wake that fails. -/
def Orderly (m : Machine η κ) : Label η → Prop
  | .advance => (∀ r ∈ m.registration, m.el.openAction r.1 r.2.1 r.2.2 = .none) ∧
      (m.nextCommand = some .wake → m.el.handle.wake.1.isOk ∨ m.el.connections.keys = [])
  | .pollError e => e.kind = .interrupted ∨ m.el.connections.keys = []
  | _ => True

instance (m : Machine η κ) : (l : Label η) → Decidable (m.Orderly l)
  | .advance => inferInstanceAs (Decidable (_ ∧ (_ → _ ∨ _)))
  | .pollError _ => inferInstanceAs (Decidable (_ ∨ _))
  | .poll _ | .tick _ | .trigger _ | .accept _ _ _ | .mint _ | .handler _ | .drop => inferInstanceAs (Decidable True)

/-- **A task of an orderly step fails only when all connections are closed.** -/
theorem Starts.fails {task : Task} {el₀ t : EventLoop η κ} {e : IoError} (hs : Starts m l task el₀) (hcalm : m.Calm)
    (hh : m.el.Healthy) (hord : m.Orderly l) (ht : task.run el₀ = .error e t) : t.Emptied := by
  have hh₀ : el₀.Healthy := by
    obtain ⟨h', rfl, -⟩ := hs.withHandle
    exact ⟨hh.socket, hh.results⟩
  refine task_fails hh₀ (hs.settled hcalm) (fun hcmd => ?_) ht
  cases hs with
  | @command left evs q h' hphase hq _ =>
    obtain ⟨-, hwakes, hawoken, -, -⟩ := takeCommand_some hq
    rcases hord.2 (by rw [nextCommand_draining hphase hq, Task.command.inj hcmd]) with hok | hkeys
    · left
      have hsame : h'.wake.1 = m.el.handle.wake.1 := by
        unfold EventLoopHandle.wake
        rw [hawoken, hwakes]
        split <;> rfl
      show h'.wake.1 = .ok ()
      rw [hsame]
      cases hres : m.el.handle.wake.1 with
      | ok u => rfl
      | error e => rw [hres] at hok; cases hok
    · exact Or.inr (emptied_iff.mpr hkeys)
  | io _ _ _ | ordered _ _ _ | accepted _ _ | first _ _ | tick _ _ => cases hcmd

/-- What holds between the steps of orderly runs. -/
structure Kept (m : Machine η κ) : Prop where
  calm : m.Calm
  tracked : m.el.Tracked
  healthy : m.el.Healthy
  emptied : ¬m.phase.Live → m.el.Emptied

omit [Codec κ Msg] [EventHandler η κ Msg] in
theorem Kept.neutral {el el' : EventLoop η κ} (h : el.Neutral el') (hh : el.Healthy) : el'.Healthy :=
  ⟨fun {k i} hi => hh.socket (by rw [← h.connections, hi]), fun r hr => hh.results r (h.results.subset hr)⟩

/-- **A connection that `on_open` refuses never gets `on_close`**: its socket is dropped after the one callback. -/
theorem refused_never_closed {el t : EventLoop η κ} (h : el.Tracked) {s : Socket} {la pa : NetworkAddress}
    (hact : el.openAction s la pa = .close) (ht : register s la pa el = .ok ⟨⟩ t) :
    word el.minted t.trace = [.opened, .dropped] := by
  have hact' : el.polled.openAction s la pa = .close := hact
  have hid : (el.polled.opening s la pa).1.id = el.minted := (opening_same el.polled s la pa).id
  rcases register_cases s la pa el with ⟨e, h', -⟩ | ⟨ha, -⟩ | ⟨-, h'⟩ | ⟨ha, -⟩
  · rw [h'] at ht
    cases ht
  · rw [hact'] at ha
    cases ha
  · rw [h', hid] at ht
    cases ht
    show word el.minted ((el.trace ++ [.opens (el.polled.incarnation s la pa) _ _]) ++ [.drops el.minted]) = _
    rw [word_append, word_append, h.fresh (Nat.le_refl _)]
    simp [word, Obs.mark, incarnation, polled]
  · rw [hact'] at ha
    cases ha

end Machine

/-! ## Two runs -/

/-- A handler that lets connections in, or does not. -/
inductive Doorman
  | admits
  | refuses
  deriving DecidableEq

instance : EventHandler Doorman RawCodec RawMsg where
  onOpen h _ := (⟨[], if h = .admits then .none else .close⟩, h)
  onTraffic h _ := (⟨[], .none⟩, h)
  onClose h _ := (⟨[], .none⟩, h)
  onTick h _ := (⟨[], 0, .none⟩, h)

/-- A loop with such a handler. -/
def doormanLoop (h : Doorman) : EventLoop Doorman RawCodec := .new 0 ⟨64, 8, false⟩ h [] [] (fun _ => 0) 0

namespace Machine

open EventLoop Runs

/-- A connection comes, sends a byte, and the loop is shut down. -/
def visit : List (Label Doorman) :=
  [.accept ⟨4, [], [.data [1]], [], [], none⟩ (.tcp "a") (.tcp "b"), .advance, .advance, .poll [], .advance, .advance,
    .advance, .tick false, .advance, .poll [⟨0, true, false, false, false⟩], .advance, .trigger .shutdown, .advance,
    .tick false, .advance, .poll [], .advance, .drop]

end Machine
end Rnet
