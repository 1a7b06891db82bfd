import Rnet.EventLoop.Consistency
import Rnet.EventLoop.Numbers

/-!
# What a clean return leaves

`run` returns `Ok` when `run_loop` ends with an error of kind `Interrupted`, which is how a shutdown ends it. The
shutdown is complete then (`ShutDown`) if the step that ended it was clean: the poller let the connections go,
`accept_process` did not hold the listeners, and no other operation was interrupted (`Clean`). Whoever entered the
slab is live or got `on_close` (`Accounted`), so `clean_return` follows from what a shutdown leaves. `unclean_return`
is a run whose only `on_open` asks for the shutdown while `accept_process` holds the listeners: they stay registered.
-/

namespace Rnet

open Programs Relation

variable {η κ Msg : Type}

/-! ## Whoever entered the slab -/

/-- The incarnation with a number got `on_close`. -/
def GotClose (id : Nat) (trace : List (Obs κ)) : Prop :=
  ∃ before after action, .closes before after action ∈ trace ∧ before.id = id

theorem GotClose.mono {id : Nat} {trace trace' : List (Obs κ)} (h : GotClose id trace) (ht : trace <+: trace') :
    GotClose id trace' := h.imp fun _ => Exists.imp fun _ => Exists.imp fun _ h => ⟨ht.subset h.1, h.2⟩

namespace EventLoop

/-- Whoever entered the slab is live, or got `on_close`. -/
def Accounted (el : EventLoop η κ) : Prop :=
  ∀ before after, .opens before after .none ∈ el.trace →
    (∃ k i, el.connections.get k = some i ∧ i.id = before.id) ∨ GotClose before.id el.trace

variable {el el' t : EventLoop η κ} {key : Nat} {serving : Prop}

/-- The live connections stay or get `on_close`, and nobody enters. -/
theorem Accounted.grows (h : el.Accounted) {new : List (Obs κ)} (htrace : el'.trace = el.trace ++ new)
    (hnew : ∀ b a c, .opens b a c ∉ new)
    (hlive : ∀ k i, el.connections.get k = some i →
      (∃ k j, el'.connections.get k = some j ∧ j.id = i.id) ∨ GotClose i.id el'.trace) : el'.Accounted := by
  intro before after ho
  rw [htrace] at ho
  have ho : .opens before after .none ∈ el.trace := (List.mem_append.mp ho).resolve_right (hnew _ _ _)
  rcases h before after ho with ⟨k, i, hi, hid⟩ | hc
  · rw [← hid]
    exact hlive k i hi
  · exact Or.inr (hc.mono (htrace ▸ List.prefix_append _ _))

theorem Accounted.congr (h : el.Accounted) (hc : el'.connections = el.connections) (ht : el'.trace = el.trace) :
    el'.Accounted :=
  h.grows (ht.trans (List.append_nil _).symm) (by simp) fun k i hi => Or.inl ⟨k, i, by rw [hc, hi], rfl⟩

variable [Codec κ Msg] [EventHandler η κ Msg]

/-- Effects call no `on_open`. -/
theorem Effect.records (h : Effect serving key el el') :
    ∃ new, el'.trace = el.trace ++ new ∧ ∀ b a c, .opens b a c ∉ new := by
  obtain ⟨new, hnew⟩ := h.prefix_trace
  refine ⟨new, hnew.symm, fun b a c ho => ?_⟩
  have hissued := h.issued
  rw [← hnew, issued_append] at hissued
  have hnil : Rnet.issued new = [] := List.append_right_eq_self.mp hissued
  have hmem : (b.id, b.conn.gfd) ∈ Rnet.issued new := List.mem_filterMap.mpr ⟨_, ho, rfl⟩
  rw [hnil] at hmem
  cases hmem

theorem Effect.accounted (he : Effect serving key el el') (h : el.Accounted) : el'.Accounted := by
  obtain ⟨new, hnew, hopens⟩ := he.records
  refine h.grows hnew hopens fun k i hi => ?_
  by_cases hk : k = key
  · subst hk
    rcases he.alive_or_gone hi with ⟨j, hj⟩ | ⟨graceful, -, rfl⟩
    · obtain ⟨i', hi', hij⟩ := he.same k j hj
      rw [hi] at hi'
      cases hi'
      exact Or.inl ⟨k, j, hj, hij.id⟩
    · right
      rw [gone_trace]
      exact ⟨_, _, _, List.mem_append_right _ List.mem_cons_self, rfl⟩
  · exact Or.inl ⟨k, i, (he.frame hk).trans hi, rfl⟩

theorem Registers.accounted (hr : Registers el el') (h : el.Accounted) : el'.Accounted := by
  cases hr with
  | admits socket localAddr peerAddr hact =>
    intro before after ho
    rcases List.mem_append.mp (show _ ∈ el.trace ++ [_] from ho) with ho | ho
    · rcases h before after ho with ⟨k, i, hi, hid⟩ | hc
      · refine Or.inl ⟨k, i, ?_, hid⟩
        have hk : k ≠ el.connections.vacantKey := fun hk => by
          rw [hk, Slab.get_vacantKey] at hi
          cases hi
        exact Slab.get_insert.trans ((if_neg hk).trans hi)
      · exact Or.inr (hc.mono (List.prefix_append el.trace _))
    · injection List.mem_singleton.mp ho with hbefore _ _
      refine Or.inl ⟨el.connections.vacantKey, _, Slab.get_insert_self, ?_⟩
      rw [hbefore]
      exact (opening_same el socket localAddr peerAddr).id
  | refuses socket localAddr peerAddr hact =>
    intro before after ho
    rcases List.mem_append.mp (show _ ∈ el.trace ++ [_] from ho) with ho | ho
    · exact (h before after ho).imp_right fun hc => hc.mono (List.prefix_append el.trace _)
    · injection List.mem_singleton.mp ho with _ _ hnone
      exact absurd hnone.symm hact
  | dropsRefused before after action hobs hact =>
    have htrace : (el.record (.drops after.id)).trace = el.trace ++ [.drops after.id] := rfl
    exact h.grows htrace (by simp) fun k i hi => Or.inl ⟨k, i, hi, rfl⟩

theorem Evolves.accounted (h : Evolves el el') (ha : el.Accounted) : el'.Accounted := by
  cases h with
  | change h => exact h.elim (fun ⟨_, he⟩ => he.accounted ha) fun hr => hr.accounted ha
  | takes _ | gets _ _ | mints _ => exact ha.congr rfl rfl
  | @drops key i hi =>
    have htrace : (el.record (.drops i.id)).trace = el.trace ++ [.drops i.id] := rfl
    exact ha.grows htrace (by simp) fun k j hj => Or.inl ⟨k, j, hj, rfl⟩

/-! ## The end of the loop -/

omit [Codec κ Msg] [EventHandler η κ Msg] in
/-- **A shutdown that has taken full effect.** -/
structure ShutDown (el : EventLoop η κ) : Prop where
  slab : el.connections.keys = []
  connCount : el.handle.connCount = 0
  /-- every connection inserted in the slab got `on_close` -/
  closed : ∀ before after, .opens before after .none ∈ el.trace → GotClose before.id el.trace
  /-- no listener that the loop has is registered -/
  listeners : ∀ ls, el.listeners = some ls → ∀ l ∈ ls, l.interest = none

omit [Codec κ Msg] [EventHandler η κ Msg] in
theorem Emptied.shutDown (h : el.Emptied) (hc : el.Counted) (ha : el.Accounted) (hl : el.listeners = none) :
    el.ShutDown where
  slab := emptied_iff.mp h
  connCount := by
    rw [hc.count, emptied_iff.mp h]
    rfl
  closed before after ho := (ha before after ho).resolve_left fun ⟨k, i, hi, _⟩ => by
    rw [h k] at hi
    cases hi
  listeners ls hls := by
    rw [hl] at hls
    cases hls

end EventLoop

namespace Machine

open EventLoop Runs

/-- `run_loop` has returned, and `run` returns `Ok`. -/
def returnsOk (m : Machine η κ) : Bool :=
  match m.phase with
  | .exited res => (runResult res).isOk
  | _ => false

theorem returnsOk_iff {m : Machine η κ} : m.returnsOk ↔ ∃ res, m.phase = .exited res ∧ runResult res = .ok () := by
  unfold returnsOk
  cases m.phase with
  | exited res =>
    cases h : runResult res with
    | ok u => simp [h, Except.isOk, Except.toBool]
    | error e => simp [h, Except.isOk, Except.toBool]
  | _ => simp

/-- `accept_process` has the listeners. -/
def holdsListeners (m : Machine η κ) : Bool :=
  match m.phase with
  | .accepting _ _ _ => true
  | _ => false

/-- The answer is no interruption. -/
def Uninterrupted (r : IoResult Unit) : Prop := ∀ e, r = .error e → e.kind ≠ .interrupted

variable [Codec κ Msg] [EventHandler η κ Msg]

/-- **The step leads to a shutdown only if it is complete**: the poller lets the connections go, and `accept_process`
does not hold the listeners. And nothing but a shutdown is interrupted. -/
structure Clean (m : Machine η κ) (l : Label η) : Prop where
  shutdown : ∀ {task el₀ u}, Starts m l task el₀ → task.ShutsDown el₀ u →
    u.Released ∧ m.holdsListeners = false
  others : ∀ {task el₀}, Starts m l task el₀ → (∃ u, task.ShutsDown el₀ u) ∨
    (∀ r ∈ task.asked el₀, Uninterrupted r) ∧ (task = .command .wake → Uninterrupted el₀.handle.wake.1)

variable {m m' : Machine η κ} {l : Label η}

/-- After `run_loop` has returned, nothing happens to connections and listeners until the loop is dropped. -/
theorem exited_step {res : IoResult Unit} (h : step m l = some m') (hm : m.phase = .exited res)
    {res' : IoResult Unit} (hm' : m'.phase = .exited res') :
    res' = res ∧ m'.el.connections = m.el.connections ∧ m'.el.listeners = m.el.listeners := by
  have hsame : m'.phase = m.phase → res' = res := fun hp => by
    rw [hm', hm] at hp
    cases hp
    rfl
  cases l with
  | advance => simp [step, advance, hm] at h
  | poll evs => simp [step, hm] at h
  | pollError e => simp [step, hm] at h
  | tick due => simp [step, hm] at h
  | trigger cmd => cases h; exact ⟨hsame rfl, rfl, rfl⟩
  | accept socket localAddr peerAddr => cases h; exact ⟨hsame rfl, rfl, rfl⟩
  | mint n => cases h; exact ⟨hsame rfl, rfl, rfl⟩
  | handler s => cases h; exact ⟨hsame rfl, rfl, rfl⟩
  | drop =>
    simp only [step, hm, Option.some.injEq] at h
    subst h
    cases hm'

/-- **A clean step that ends `run_loop` without an error** has shut the loop down. -/
theorem Moves.emptied (h : Moves m l m') (hcalm : m.Calm) (hs : m.el.Socketed) (hclean : m.Clean l)
    {res : IoResult Unit} (hphase : m'.phase = .exited res) (hok : runResult res = .ok ()) :
    m.phase = .exited res ∨ m'.el.Emptied ∧ m'.el.listeners = none := by
  have herr : ∀ e, res = .error e → e.kind = .interrupted := by
    rintro e rfl
    by_contra hne
    simp [runResult, hne] at hok
  rcases h.exited hphase with h | ⟨e, -, hne, hres, -⟩ | ⟨task, el₀, e, t, hst, hrun, hres, hlis⟩
  · exact Or.inl h
  · exact absurd (herr e hres) hne
  · right
    have hs₀ : el₀.Socketed := by
      obtain ⟨h', rfl, -⟩ := hst.withHandle
      exact hs
    have hdown : ∃ u, task.ShutsDown el₀ u := by
      by_contra hno
      obtain ⟨hasked, hwake⟩ := (hclean.others hst).resolve_left hno
      -- a tick fails only by a shutdown, so the error is what `run_loop` returned
      have hres : res = .error e := hres.resolve_right fun ⟨hstart, _⟩ => by
        cases hst with
        | first _ _ => exact hno ⟨_, .tick (onTick_error (Task.tick_error hrun)).1⟩
        | command hp _ _ => rw [hp] at hstart; cases hstart
        | io hp _ _ => rw [hp] at hstart; cases hstart
        | ordered hp _ _ => rw [hp] at hstart; cases hstart
        | accepted hp _ => rw [hp] at hstart; cases hstart
        | tick hp _ => rw [hp] at hstart; cases hstart
      rcases Task.failsBy hs₀ (hst.settled hcalm) hrun with hf | ⟨hcmd, he, -⟩
      · cases hf with
        | shutdown u v hu hc hsh he ht => exact hno ⟨u, hc⟩
        | polled u hu he ht =>
          subst ht
          exact hasked _ (Task.mem_asked hrun hu he) e rfl (herr e hres)
      · exact hwake hcmd e he (herr e hres)
    obtain ⟨u, hu⟩ := hdown
    obtain ⟨hrel, hacc⟩ := hclean.shutdown hst hu
    obtain ⟨v, t', hv, hrun', ht'⟩ := hu.run
    rw [hrun] at hrun'
    cases hrun'
    have hel : m'.el = t := hlis.resolve_right fun ⟨idx, ls, evs, _, hp, _⟩ => by
      rw [holdsListeners, hp] at hacc
      cases hacc
    have hempty := shutdown_empties hrel hv
    have hnone := shutdown_listeners hv
    rw [hel]
    rcases ht' with rfl | ⟨id, rfl⟩ <;> exact ⟨hempty, hnone⟩

/-- **A clean return means a completed shutdown**, in every run whose steps are clean. -/
theorem clean_return {el : EventLoop η κ} (hfresh : el.Fresh) {ls : List (Label η)}
    (hrun : run step (initial el) ls = some m) (hclean : Along step Clean (initial el) ls) (hret : m.returnsOk) :
    m.el.ShutDown := by
  let Good (m : Machine η κ) : Prop := m.Calm ∧ m.el.Counted ∧ m.el.Accounted ∧
    ∀ res, m.phase = .exited res → runResult res = .ok () → m.el.Emptied ∧ m.el.listeners = none
  have h0 : Good (initial el) :=
    ⟨initial_calm hfresh, hfresh.counted, fun before after ho => by simp [initial, hfresh.trace] at ho,
      fun res h => by cases h⟩
  obtain ⟨-, hcount, hacc, hexit⟩ : Good m := by
    refine run_invariant (P := Good) (fun s l s' hgood hcl hstep => ?_) h0 hclean hrun
    obtain ⟨hcalm, hcount, hacc, hexit⟩ := hgood
    have hm := step_moves hstep
    have hpath := hm.evolves hcalm
    refine ⟨hm.calm hcalm, counted_of_evolves hpath hcount,
      invariant_of_steps hpath (fun _ _ he ha => he.accounted ha) hacc, fun res hphase hok => ?_⟩
    rcases hm.emptied hcalm hcount.sound.socketed hcl hphase hok with hs | h
    · obtain ⟨-, hconn, hlis⟩ := exited_step hstep hs hphase
      obtain ⟨hempty, hnone⟩ := hexit res hs hok
      exact ⟨fun k => by rw [hconn]; exact hempty k, hlis.trans hnone⟩
    · exact h
  obtain ⟨res, hphase, hok⟩ := returnsOk_iff.mp hret
  obtain ⟨hempty, hnone⟩ := hexit res hphase hok
  exact hempty.shutDown hcount hacc hnone

/-! ## Two runs -/

/-- Without errors in store every step is clean, unless `accept_process` holds the listeners. -/
theorem clean_of_no_errors (hcalm : m.Calm) (hresults : m.el.poll.results = []) (hwakes : m.el.handle.wakes = [])
    (hphase : m.holdsListeners = false) (l : Label η) : m.Clean l := by
  have hstart : ∀ {task : Task} {el₀ : EventLoop η κ}, Starts m l task el₀ → el₀.poll.results = [] ∧
      el₀.handle.wakes = [] := by
    intro task el₀ hs
    obtain ⟨h', rfl, -, hw, -⟩ := hs.withHandle
    exact ⟨hresults, hw.trans hwakes⟩
  refine ⟨fun {task el₀ u} hs hu => ⟨?_, hphase⟩, fun {task el₀} hs => Or.inr ⟨?_, ?_⟩⟩
  · have hres := results_of_changes (hu.changes (hs.settled hcalm))
    rw [(hstart hs).1, List.suffix_nil] at hres
    simp [Released, hres]
  · simp [Task.asked, (hstart hs).1]
  · intro _ e he
    have hmem := mem_of_wake he
    rw [(hstart hs).2] at hmem
    cases hmem

/-- A connection comes and sends a byte, and a command shuts the loop down. -/
theorem clean_return_visit :
    ∃ m, run step (initial (doormanLoop .admits)) (visit.take 17) = some m ∧ m.returnsOk ∧ m.el.ShutDown := by
  have hrun : (run step (initial (doormanLoop .admits)) (visit.take 17)).any returnsOk = true := by decide +kernel
  have heasy : Along step (fun m _ => m.el.poll.results = [] ∧ m.el.handle.wakes = [] ∧ m.holdsListeners = false)
      (initial (doormanLoop .admits)) (visit.take 17) :=
    .of_check (b := fun m _ => m.el.poll.results.isEmpty && m.el.handle.wakes.isEmpty && !m.holdsListeners)
      (fun _ _ h => by simpa [and_assoc] using h) (by decide +kernel)
  have hfresh : (doormanLoop .admits).Fresh := new_fresh _ _ _ _ _ _ _
  have hclean : Along step Clean (initial (doormanLoop .admits)) (visit.take 17) :=
    heasy.upgrade (P := Calm) (fun s l s' hcalm _ hstep => (step_moves hstep).calm hcalm)
      (fun s l hcalm ⟨hr, hw, hp⟩ => clean_of_no_errors hcalm hr hw hp l) (initial_calm hfresh)
  obtain ⟨m, hm, hret⟩ := exists_of_any hrun
  exact ⟨m, hm, hret, clean_return hfresh hm hclean hret⟩

end Machine

/-- A handler that shuts the loop down when somebody comes. -/
structure Hermit where

instance : EventHandler Hermit RawCodec RawMsg where
  onOpen h _ := (⟨[], .shutdown⟩, h)
  onTraffic h _ := (⟨[], .none⟩, h)
  onClose h _ := (⟨[], .none⟩, h)
  onTick h _ := (⟨[], 0, .none⟩, h)

/-- A loop with such a handler and a listener to which somebody comes. -/
def hermitLoop : EventLoop Hermit RawCodec :=
  (EventLoop.new 0 ⟨64, 8, false⟩ ⟨⟩ [] [] (fun _ => 0) 0).listener
    [⟨.tcp "a", [.ok (⟨4, [], [], [], [], none⟩, .tcp "b")], some .readable⟩]

namespace Machine

open EventLoop Runs

/-- `on_open` asks for the shutdown while `accept_process` has the listeners; they are put back, still registered. -/
theorem unclean_return : ∃ m, hermitLoop.Fresh ∧
    run step (initial hermitLoop) [.advance, .advance,
      .poll [⟨LISTENER_TOKEN_START, true, false, false, false⟩], .advance, .advance] = some m ∧
      m.returnsOk ∧ ¬m.el.ShutDown := by
  have hrun : (run step (initial hermitLoop) [.advance, .advance,
      .poll [⟨LISTENER_TOKEN_START, true, false, false, false⟩], .advance, .advance]).any
      (fun m => m.returnsOk && m.el.listeners.any fun ls => ls.any fun l => l.interest.isSome)
        = true := by decide +kernel
  obtain ⟨m, hm, hat⟩ := exists_of_any hrun
  obtain ⟨hret, hlis⟩ := Bool.and_eq_true_iff.mp hat
  obtain ⟨ls, hls, hany⟩ := exists_of_any hlis
  obtain ⟨l, hl, hint⟩ := List.any_eq_true.mp hany
  refine ⟨m, ⟨rfl, rfl, rfl, rfl, rfl, rfl⟩, hm, hret, fun h => ?_⟩
  rw [h.listeners ls hls l hl] at hint
  cases hint

end Machine
end Rnet
