import Rnet.EventLoop.Records
import Rnet.EventLoop.CleanReturn

/-!
# What a callback that asks for a shutdown gets

`on_open`, `on_traffic` and `on_tick` that answer `Action::Shutdown` end `run_loop` in the same step: what is recorded
until then asks for nothing, and afterwards connections are only closed and dropped (`ShutsDown.records`). The answer of
`on_close` is not looked at. If it is `Action::Shutdown` only in a shutdown, every such answer is honoured
(`shutdown_honoured`); the answer of an `on_close` outside of one is lost (`shutdown_not_honoured`).
-/

namespace Rnet

open Programs Relation

variable {η κ Msg : Type}

namespace Obs

/-- A callback answered `Action::Shutdown`. -/
def Asks : Obs κ → Prop
  | .opens _ _ action | .traffic _ _ action | .closes _ _ action | .ticks _ _ action => action = .shutdown
  | .merged _ | .drops _ => False

instance : DecidablePred (Asks (κ := κ)) := fun obs => by
  cases obs <;> unfold Asks <;> infer_instance

/-- A call of `on_open`, `on_traffic` or `on_tick`. -/
def Serves : Obs κ → Prop
  | .opens _ _ _ | .traffic _ _ _ | .ticks _ _ _ => True
  | .merged _ | .closes _ _ _ | .drops _ => False

instance : DecidablePred (Serves (κ := κ)) := fun obs => by
  cases obs <;> unfold Serves <;> infer_instance

theorem Parting.not_serves {obs : Obs κ} (h : obs.Parting) : ¬obs.Serves := by
  cases obs <;> first | exact h.elim | exact id

/-- The callback does not ask for a shutdown, unless it is `on_close`. -/
def Plain (obs : Obs κ) : Prop := obs.Asks → ∃ before after, obs = .closes before after .shutdown

end Obs

/-- After the first callback that asks for a shutdown, connections are only closed and dropped. -/
def LastCall (trace : List (Obs κ)) : Prop :=
  ∃ quiet rest, trace = quiet ++ rest ∧ (∀ obs ∈ quiet, ¬obs.Asks) ∧ ∀ obs ∈ rest.tail, obs.Parting

namespace LastCall

variable {trace new : List (Obs κ)}

theorem of_quiet (h : ∀ obs ∈ trace, ¬obs.Asks) : LastCall trace := ⟨trace, [], (List.append_nil _).symm, h, by simp⟩

theorem append (h : LastCall trace) (hnew : ∀ obs ∈ new, obs.Parting) : LastCall (trace ++ new) := by
  obtain ⟨quiet, rest, rfl, hq, hr⟩ := h
  refine ⟨quiet, rest ++ new, List.append_assoc _ _ _, hq, fun obs hobs => ?_⟩
  cases rest with
  | nil => exact hnew obs (List.mem_of_mem_tail hobs)
  | cons o rest => exact (List.mem_append.mp hobs).elim (hr obs) (hnew obs)

/-- What follows a callback that asks for a shutdown. -/
theorem parting (h : LastCall trace) {pre post : List (Obs κ)} {obs : Obs κ} (htrace : trace = pre ++ obs :: post)
    (hask : obs.Asks) : ∀ o ∈ post, o.Parting := by
  obtain ⟨quiet, rest, rfl, hq, hr⟩ := h
  rcases List.append_eq_append_iff.mp htrace with ⟨mid, rfl, hrest⟩ | ⟨mid, hquiet, hrest⟩
  · intro o ho
    refine hr o ?_
    cases mid with
    | nil => rw [hrest]; exact ho
    | cons o' mid => rw [hrest]; exact List.mem_append_right _ (List.mem_cons_of_mem _ ho)
  · cases mid with
    | nil =>
      intro o ho
      refine hr o ?_
      rw [show rest = obs :: post from hrest.symm]
      exact ho
    | cons o' mid =>
      -- the callback itself would be among the quiet ones
      obtain ⟨rfl, -⟩ := List.cons.inj hrest
      exact absurd hask (hq obs (by rw [hquiet]; exact List.mem_append_right _ List.mem_cons_self))

end LastCall

namespace EventLoop

variable {el t u : EventLoop η κ} {key id maxBatch offered n : Nat} {status : IoStatus} {new : List (Obs κ)}

/-! ## Read passes -/

/-- **A read pass** that does not end in a shutdown asks for none. -/
theorem ReadsAll.quiet (h : ReadsAll id maxBatch offered n status new) (hst : status ≠ .shutdown) :
    ∀ obs ∈ new, ¬obs.Asks := by
  induction h with
  | yields n hn => simp
  | stops n hn status new hone =>
    cases hone with
    | nothing status _ => simp
    | stopped before after action bs hid hio hne hlen hact =>
      intro obs hobs
      rw [List.mem_singleton.mp hobs]
      rintro rfl
      exact hst (by simp)
  | goesOn n hn k status new rest hone hrest ih =>
    cases hone with
    | heard before after i bs hid hio hne hlen =>
      intro obs hobs
      rcases List.mem_append.mp hobs with hobs | hobs
      · rcases List.mem_pair.mp hobs with rfl | rfl
        · exact fun h => by cases h
        · exact fun h => h
      · exact ih hst obs hobs

/-- A read pass that ends in a shutdown was asked for it by its last callback. -/
theorem ReadsAll.last (h : ReadsAll id maxBatch offered n .shutdown new) :
    ∃ pre obs, new = pre ++ [obs] ∧ ∀ o ∈ pre, ¬o.Asks := by
  generalize hs : IoStatus.shutdown = status at h
  induction h with
  | yields n hn => cases hs
  | stops n hn status new hone =>
    cases hone with
    | nothing status hst => rcases hst with rfl | ⟨_, rfl⟩ <;> cases hs
    | stopped before after action bs hid hio hne hlen hact => exact ⟨[], _, rfl, by simp⟩
  | goesOn n hn k status new rest hone hrest ih =>
    obtain ⟨pre, obs, rfl, hq⟩ := ih hs
    refine ⟨new ++ pre, obs, (List.append_assoc _ _ _).symm, fun o ho => ?_⟩
    rcases List.mem_append.mp ho with ho | ho
    · cases hone with
      | heard before after i bs hid hio hne hlen =>
        rcases List.mem_pair.mp ho with rfl | rfl
        · exact fun h => by cases h
        · exact fun h => h
    · exact hq o ho

variable [Codec κ Msg] [EventHandler η κ Msg]

theorem processRead_plain (h : processRead key el = .ok status t) (hst : status ≠ .shutdown) :
    el.Records Obs.Plain t := by
  obtain ⟨ho, new, hnew, hall⟩ := processRead_records h
  refine ⟨ho, new, hnew, fun obs hobs hask => ?_⟩
  rcases hall with ⟨-, rfl⟩ | ⟨i, -, hall⟩
  · cases hobs
  · exact absurd hask (hall.quiet hst obs hobs)

theorem processRead_last (h : processRead key el = .ok .shutdown t) :
    ∃ pre obs, t.trace = el.trace ++ pre ++ [obs] ∧ ∀ o ∈ pre, ¬o.Asks := by
  obtain ⟨-, new, hnew, ⟨hst, -⟩ | ⟨i, -, hall⟩⟩ := processRead_records h
  · cases hst
  · obtain ⟨pre, obs, rfl, hq⟩ := hall.last
    exact ⟨pre, obs, by rw [hnew, List.append_assoc], hq⟩

theorem processRead_none (h : el.connections.get key = none) : processRead key el = .ok .completed el := by
  unfold processRead
  rw [Programs.get_bind, h]
  rfl

end EventLoop

open EventLoop

variable [Codec κ Msg] [EventHandler η κ Msg] {el t u : EventLoop η κ} {task : Task}

/-- **Until a shutdown begins**, at most one callback has asked for it, the last one. -/
theorem Task.ShutsDown.records (h : task.ShutsDown el u) :
    ∃ quiet rest, u.trace = el.trace ++ quiet ++ rest ∧ (∀ obs ∈ quiet, ¬obs.Asks) ∧ rest.length ≤ 1 := by
  have hread : ∀ {key : Nat} {t : EventLoop η κ}, t.trace = el.trace → processRead key t = .ok .shutdown u →
      ∃ quiet rest, u.trace = el.trace ++ quiet ++ rest ∧ (∀ obs ∈ quiet, ¬obs.Asks) ∧ rest.length ≤ 1 := by
    intro key t ht h
    obtain ⟨pre, obs, hu, hq⟩ := processRead_last h
    exact ⟨pre, [obs], by rw [hu, ht], hq, Nat.le_refl 1⟩
  cases h with
  | command => exact ⟨[], [], by simp, by simp, Nat.zero_le 1⟩
  | read h => exact hread rfl h
  | @io key ev t _ hup hev hwrite h =>
    by_cases hw : (ev.error || ev.writable) = true
    · rw [if_pos hw] at hwrite
      rcases writeSocket_silent hwrite with ht | hnone
      · exact hread ht h
      · rw [processRead_none hnone] at h
        cases h
    · rw [if_neg hw] at hwrite
      cases hwrite
      exact hread rfl h
  | @register task socket localAddr peerAddr htask hpoll hact =>
    exact ⟨[], [_], (congrArg (· ++ _) (List.append_nil _)).symm, by simp, Nat.le_refl 1⟩
  | tick hact =>
    have hops := tickOps_records (p := fun _ => False) (EventHandler.onTick el.handler el.occupants).1.ops
      { el with handler := (EventHandler.onTick el.handler el.occupants).2 }
    obtain ⟨-, new, hnew, hp⟩ := hops
    rw [List.eq_nil_iff_forall_not_mem.mpr hp] at hnew
    exact ⟨[], [.ticks el.connections el.ticked.connections _], congrArg (· ++ _) hnew, by simp, Nat.le_refl 1⟩

/-- **A shutdown** that the task comes to: after the callback that asked for it, connections are only closed and
dropped. -/
theorem Task.ShutsTo.lastCall (h : task.ShutsTo el t) (hel : ∀ obs ∈ el.trace, ¬obs.Asks) : LastCall t.trace := by
  obtain ⟨u, v, hu, hv, ht⟩ := h
  obtain ⟨quiet, rest, hrec, hq, hone⟩ := hu.records
  obtain ⟨-, new, hnew, hpart⟩ := shutdown_records hv
  have hlast : LastCall u.trace := by
    refine ⟨el.trace ++ quiet, rest, hrec, fun obs hobs => (List.mem_append.mp hobs).elim (hel obs) (hq obs), ?_⟩
    cases rest with
    | nil => simp
    | cons o rest =>
      rw [List.length_cons] at hone
      rw [List.tail_cons, List.length_eq_zero_iff.mp (Nat.le_zero.mp (Nat.le_of_succ_le_succ hone))]
      simp
  have hvlast : LastCall v.trace := hnew ▸ hlast.append hpart
  rcases ht with rfl | ⟨id, rfl⟩
  · exact hvlast
  · refine hvlast.append (fun obs hobs => ?_)
    rw [List.mem_singleton.mp hobs]
    trivial

/-- The trace only grows. -/
theorem prefix_of_changes (h : ReflTransGen Change el t) : el.trace <+: t.trace := by
  refine invariant_of_steps (P := fun t => el.trace <+: t.trace) h (fun u v hc hu => hu.trans ?_) (List.prefix_refl _)
  rcases hc with ⟨key, he⟩ | hr
  · exact he.prefix_trace
  · cases hr <;> exact List.prefix_append _ _

/-- What the task records. -/
def Task.recorded (task : Task) (el : EventLoop η κ) : List (Obs κ) := (final task.run el).trace.drop el.trace.length

theorem Task.recorded_eq {new : List (Obs κ)} (h : (final task.run el).trace = el.trace ++ new) :
    task.recorded el = new := by
  rw [recorded, h, List.drop_left]

theorem plain_allowed : Allowed (Obs.Plain (κ := κ)) where
  parting obs h := by
    cases obs with
    | closes before after action => exact fun ha => ⟨before, after, by rw [show action = .shutdown from ha]⟩
    | drops id => exact fun ha => ha.elim
    | opens _ _ _ | traffic _ _ _ | merged _ | ticks _ _ _ => exact h.elim
  opens _ _ _ hact ha := absurd ha hact
  ticks _ _ _ hact ha := absurd ha hact

theorem Task.plain (hs : el.Socketed) (hset : ∀ k, el.SettledAt k) :
    Tells Obs.Plain (task.ShutsTo el) task.run el :=
  Task.tells plain_allowed hs hset fun _ _ _ _ _ h hst => processRead_plain h hst

namespace Machine

open Runs

variable {m m' : Machine η κ} {l : Label η} {ls : List (Label η)}

/-- After a callback has asked for a shutdown, none is called but `on_close`, no connections are left and the loop has
returned. -/
def Honoured (m : Machine η κ) : Prop := ∀ pre obs post, m.el.trace = pre ++ obs :: post → obs.Asks →
  (∀ o ∈ post, ¬o.Serves) ∧ m.el.Emptied ∧ (m.returnsOk ∨ m.phase = .dropped)

/-- **`on_close` asks for a shutdown only in a shutdown**, and if a shutdown was asked for, the poller lets the
connections go. -/
structure Discreet (m : Machine η κ) (l : Label η) : Prop where
  closes : ∀ {task el₀}, Starts m l task el₀ → ∀ before after, .closes before after .shutdown ∈ task.recorded el₀ →
    ∃ u, task.ShutsDown el₀ u
  released : ∀ {task el₀ u}, Starts m l task el₀ → task.ShutsDown el₀ u → (∃ obs ∈ task.recorded el₀, obs.Asks) →
    u.Released

/-- The invariant of runs: the requests made so far have been honoured. -/
structure Obeys (m : Machine η κ) : Prop where
  calm : m.Calm
  sound : m.el.Sound
  last : LastCall m.el.trace
  ended : (∃ obs ∈ m.el.trace, obs.Asks) → m.el.Emptied ∧ (m.returnsOk ∨ m.phase = .dropped)

theorem Obeys.honoured (h : m.Obeys) : m.Honoured := by
  intro pre obs post htrace hask
  obtain ⟨hempty, hret⟩ := h.ended ⟨obs, by rw [htrace]; simp, hask⟩
  exact ⟨fun o ho => (h.last.parting htrace hask o ho).not_serves, hempty, hret⟩

/-- As long as the loop runs, nobody has asked. -/
theorem Obeys.quiet (h : m.Obeys) (hlive : m.phase.Live) : ∀ obs ∈ m.el.trace, ¬obs.Asks := by
  intro obs hobs hask
  rcases (h.ended ⟨obs, hobs, hask⟩).2 with hret | hdrop
  · obtain ⟨res, hphase, -⟩ := returnsOk_iff.mp hret
    rw [hphase] at hlive
    exact hlive
  · rw [hdrop] at hlive
    exact hlive

/-- A task that does not come to a shutdown asks for none. -/
theorem Discreet.quiet (h : m.Discreet l) {el₀ : EventLoop η κ} (hs : Starts m l task el₀)
    (hno : ¬∃ u, task.ShutsDown el₀ u) (hrec : el₀.Records Obs.Plain (final task.run el₀))
    (hel : ∀ obs ∈ el₀.trace, ¬obs.Asks) : ∀ obs ∈ (final task.run el₀).trace, ¬obs.Asks := by
  obtain ⟨-, new, hnew, hplain⟩ := hrec
  intro obs hobs hask
  rw [hnew] at hobs
  rcases List.mem_append.mp hobs with hobs | hobs
  · exact hel obs hobs hask
  · obtain ⟨before, after, rfl⟩ := hplain obs hobs hask
    exact hno (h.closes hs before after (by rw [Task.recorded_eq hnew]; exact hobs))

/-- **Every step keeps the invariant.** -/
theorem Obeys.step (h : m.Obeys) (hdis : m.Discreet l) (hstep : step m l = some m') : m'.Obeys := by
  have hm := step_moves hstep
  have hcalm := hm.calm h.calm
  have hsound := invariant_of_steps (hm.evolves h.calm) (fun _ _ he hs => he.sound hs) h.sound
  have hquiet : (∀ obs ∈ m'.el.trace, ¬obs.Asks) → m'.Obeys := fun hq =>
    ⟨hcalm, hsound, .of_quiet hq, fun hex => hex.elim fun obs hobs => absurd hobs.2 (hq obs hobs.1)⟩
  have hstart : ∀ {task : Task} {el₀ : EventLoop η κ}, Starts m l task el₀ → el₀.Socketed ∧ (∀ k, el₀.SettledAt k) ∧
      ∀ obs ∈ el₀.trace, ¬obs.Asks := by
    intro task el₀ hs
    have hq := h.quiet hs.live
    have hset := hs.settled h.calm
    obtain ⟨h', rfl, -⟩ := hs.withHandle
    exact ⟨h.sound.socketed, hset, hq⟩
  cases hm with
  | @idles l el' phase nextTick hel hphase =>
    rcases hphase with rfl | ⟨hlive, -⟩
    · refine ⟨hcalm, hsound, hel.trace.symm ▸ h.last, fun hask => ?_⟩
      obtain ⟨hempty, hret⟩ := h.ended (hel.trace ▸ hask)
      exact ⟨fun k => by rw [hel.connections]; exact hempty k, hret⟩
    · exact hquiet (hel.trace.symm ▸ h.quiet hlive)
  | pollFails he =>
    refine hquiet (h.quiet ?_)
    simp only [Machine.step] at hstep
    split at hstep
    · rename_i hphase
      rw [hphase]
      trivial
    · cases hstep
  | gets priority cmd _ => exact ⟨hcalm, hsound, h.last, h.ended⟩
  | mints n => exact ⟨hcalm, hsound, h.last, h.ended⟩
  | drops hphase =>
    have hdrops : ∀ obs ∈ (m.el.connections.keys.filterMap m.el.connections.get).map fun i => Obs.drops (κ := κ) i.id,
        obs.Parting := by
      intro obs hobs
      obtain ⟨i, -, rfl⟩ := List.mem_map.mp hobs
      trivial
    have heq : dropAll m.el = _ := recordAll_eq _ m.el
    refine ⟨hcalm, hsound, by rw [heq]; exact h.last.append hdrops, fun hex => ?_⟩
    obtain ⟨obs, hobs, hask⟩ := hex
    rw [heq] at hobs ⊢
    rcases List.mem_append.mp hobs with hobs | hobs
    · exact ⟨(h.ended ⟨obs, hobs, hask⟩).1, Or.inr rfl⟩
    · obtain ⟨i, -, rfl⟩ := List.mem_map.mp hobs
      exact hask.elim
  | @works _ task el₀ t el' phase nextTick hs hrun hel hlive =>
    obtain ⟨hsock, hset, hel₀⟩ := hstart hs
    have hfin : final task.run el₀ = t := final_of_ok hrun
    have hno : ¬∃ u, task.ShutsDown el₀ u := by
      rintro ⟨u, hu⟩
      obtain ⟨v, t', -, herr, -⟩ := hu.run
      cases hrun.symm.trans herr
    have hq := hdis.quiet hs hno (hfin ▸ (Task.plain hsock hset).ok hrun) hel₀
    exact hquiet (hel.trace.symm ▸ hfin ▸ hq)
  | @ends _ task el₀ t el' e res nextTick hs hrun hel hres hlisteners =>
    obtain ⟨hsock, hset, hel₀⟩ := hstart hs
    have hfin : final task.run el₀ = t := final_of_error hrun
    by_cases hdown : ∃ u, task.ShutsDown el₀ u
    · obtain ⟨u, hu⟩ := hdown
      obtain ⟨v, t', hv, herr, ht⟩ := hu.run
      cases hrun.symm.trans herr
      have hlast : LastCall t.trace := Task.ShutsTo.lastCall ⟨u, v, hu, hv, ht⟩ hel₀
      refine ⟨hcalm, hsound, hel.trace.symm ▸ hlast, fun hex => ⟨?_, Or.inl ?_⟩⟩
      · obtain ⟨obs, hobs, hask⟩ := hex
        -- the callback that asked was called in this step
        have hnew : ∃ obs ∈ task.recorded el₀, obs.Asks := by
          obtain ⟨new, hnew⟩ := prefix_of_changes ((Task.changes task hset).error hrun)
          rw [hel.trace, ← hnew] at hobs
          refine ⟨obs, ?_, hask⟩
          rw [Task.recorded_eq (hfin.symm ▸ hnew.symm)]
          exact (List.mem_append.mp hobs).resolve_left fun hobs => hel₀ obs hobs hask
        have hempty := shutdown_empties (hdis.released hs hu hnew) hv
        intro k
        rw [hel.connections]
        rcases ht with rfl | ⟨id, rfl⟩ <;> exact hempty k
      · refine returnsOk_iff.mpr ⟨res, rfl, ?_⟩
        rcases hres with rfl | ⟨-, rfl⟩ <;> rfl
    · have hplain : el₀.Records Obs.Plain t :=
        ((Task.plain hsock hset).error hrun).resolve_right fun hto => hdown (hto.imp fun _ h => h.choose_spec.1)
      have hq := hdis.quiet hs hdown (hfin.symm ▸ hplain) hel₀
      exact hquiet (hel.trace.symm ▸ hfin ▸ hq)

/-- **`Action::Shutdown` is honoured from every callback**, in every run in which `on_close` asks for a shutdown only in
a shutdown. -/
theorem shutdown_honoured {el : EventLoop η κ} (hfresh : el.Fresh) (hrun : run step (initial el) ls = some m)
    (hdis : Along step Discreet (initial el) ls) : m.Honoured := by
  have hquiet : ∀ obs ∈ (initial el).el.trace, ¬obs.Asks := fun obs hobs => by
    rw [show (initial el).el.trace = [] from hfresh.trace] at hobs
    cases hobs
  have h0 : (initial el).Obeys :=
    ⟨initial_calm hfresh, hfresh.sound, .of_quiet hquiet, fun hex =>
      hex.elim fun obs hobs => absurd hobs.2 (hquiet obs hobs.1)⟩
  exact (run_invariant (fun _ _ _ h hd hs => h.step hd hs) h0 hdis hrun).honoured

/-! ## Two runs -/

/-- The step is possible and calls no `on_close` that asks for a shutdown, and the poller has no errors in store. -/
def mild (m : Machine η κ) (l : Label η) : Bool :=
  m.el.poll.results.isEmpty &&
    match step m l with
    | none => false
    | some m' => (m'.el.trace.drop m.el.trace.length).all fun
      | .closes _ _ action => action != .shutdown
      | _ => true

theorem discreet_of_mild (hcalm : m.Calm) (h : m.mild l = true) : m.Discreet l := by
  unfold mild at h
  obtain ⟨hresults, h⟩ := Bool.and_eq_true_iff.mp h
  have hresults : m.el.poll.results = [] := List.isEmpty_iff.mp hresults
  cases hstep : step m l with
  | none => rw [hstep] at h; cases h
  | some m' =>
    rw [hstep] at h
    refine ⟨fun {task el₀} hs before after hrec => ?_, fun {task el₀ u} hs hu _ => ?_⟩
    · have htrace : m'.el.trace = (final task.run el₀).trace := by
        cases hs.finishes hstep with
        | goesOn t hrun hel hlive => rw [final_of_ok hrun, hel.trace]
        | returns e t hrun hel res hphase => rw [final_of_error hrun, hel.trace]
      obtain ⟨h', rfl, -⟩ := hs.withHandle
      have hall := List.all_eq_true.mp h (.closes before after .shutdown) (by rw [htrace]; exact hrec)
      cases hall
    · have hres := results_of_changes (hu.changes (hs.settled hcalm))
      obtain ⟨h', rfl, -⟩ := hs.withHandle
      rw [show (m.el.withHandle h').poll.results = [] from hresults, List.suffix_nil] at hres
      simp [Released, hres]

end Machine

/-- A handler that asks for a shutdown when data comes, or when a connection is closed. -/
inductive Resigner
  | inTraffic
  | inClose
  deriving DecidableEq

instance : EventHandler Resigner RawCodec RawMsg where
  onOpen h _ := (⟨[], .none⟩, h)
  onTraffic h _ := (⟨[], if h = .inTraffic then .shutdown else .none⟩, h)
  onClose h _ := (⟨[], if h = .inClose then .shutdown else .none⟩, h)
  onTick h _ := (⟨[], 0, .none⟩, h)

/-- A loop with such a handler. -/
def resignerLoop (h : Resigner) : EventLoop Resigner RawCodec := .new 0 ⟨64, 8, false⟩ h [] [] (fun _ => 0) 0

namespace Machine

open Runs

/-- A connection comes, and there is an event for it. -/
def arrival (ev : Event) : List (Label Resigner) :=
  [.accept ⟨4, [], [.data [1]], [], [], none⟩ (.tcp "a") (.tcp "b"), .advance, .advance, .poll [], .advance, .advance,
    .advance, .tick false, .advance, .poll [ev], .advance]

/-- `on_traffic` asks for a shutdown. -/
theorem shutdown_honoured_arrival :
    ∃ m, run step (initial (resignerLoop .inTraffic)) (arrival ⟨0, true, false, false, false⟩) = some m ∧
      (∃ obs ∈ m.el.trace, obs.Asks) ∧ m.Honoured := by
  have hrun : (run step (initial (resignerLoop .inTraffic)) (arrival ⟨0, true, false, false, false⟩)).any
      (fun m => m.el.trace.any fun obs => decide obs.Asks) = true := by decide +kernel
  have hmild : Along step (fun m l => m.mild l = true) (initial (resignerLoop .inTraffic))
      (arrival ⟨0, true, false, false, false⟩) := .of_check (fun _ _ => id) (by decide +kernel)
  have hfresh : (resignerLoop .inTraffic).Fresh := new_fresh _ _ _ _ _ _ _
  have hdis : Along step Discreet (initial (resignerLoop .inTraffic)) (arrival ⟨0, true, false, false, false⟩) :=
    hmild.upgrade (P := Calm) (fun s l s' hcalm _ hstep => (step_moves hstep).calm hcalm)
      (fun s l hcalm h => discreet_of_mild hcalm h) (initial_calm hfresh)
  obtain ⟨m, hm, hask⟩ := exists_of_any hrun
  obtain ⟨obs, hobs, hask⟩ := List.any_eq_true.mp hask
  exact ⟨m, hm, ⟨obs, hobs, of_decide_eq_true hask⟩, shutdown_honoured hfresh hm hdis⟩

/-- `on_close` asks for a shutdown when the peer hangs up: the loop goes on, and opens the next connection. -/
theorem shutdown_not_honoured :
    ∃ m, run step (initial (resignerLoop .inClose)) (arrival ⟨0, false, false, true, false⟩ ++
        [.accept ⟨5, [], [], [], [], none⟩ (.tcp "a") (.tcp "c"), .advance, .tick false, .advance, .poll [],
          .advance]) =
      some m ∧ m.phase.Live ∧ ¬m.Honoured := by
  obtain ⟨m, hm, hlive, hask⟩ : ∃ m, run step (initial (resignerLoop .inClose))
      (arrival ⟨0, false, false, true, false⟩ ++
        [.accept ⟨5, [], [], [], [], none⟩ (.tcp "a") (.tcp "c"), .advance, .tick false, .advance, .poll [],
          .advance]) =
      some m ∧ m.phase.Live ∧ ∃ obs ∈ m.el.trace, obs.Asks := by
    have hrun : (run step (initial (resignerLoop .inClose)) (arrival ⟨0, false, false, true, false⟩ ++
        [.accept ⟨5, [], [], [], [], none⟩ (.tcp "a") (.tcp "c"), .advance, .tick false, .advance, .poll [],
          .advance])).any
        (fun m => decide m.phase.Live && m.el.trace.any fun obs => decide obs.Asks) = true := by decide +kernel
    obtain ⟨m, hm, h⟩ := exists_of_any hrun
    obtain ⟨hlive, hask⟩ := Bool.and_eq_true_iff.mp h
    obtain ⟨obs, hobs, hask⟩ := List.any_eq_true.mp hask
    exact ⟨m, hm, of_decide_eq_true hlive, obs, hobs, of_decide_eq_true hask⟩
  obtain ⟨obs, hobs, hask⟩ := hask
  refine ⟨m, hm, hlive, fun hh => ?_⟩
  obtain ⟨pre, post, htrace⟩ := List.append_of_mem hobs
  rcases (hh pre obs post htrace hask).2.2 with hret | hdrop
  · obtain ⟨res, hphase, -⟩ := returnsOk_iff.mp hret
    rw [hphase] at hlive
    exact hlive
  · rw [hdrop] at hlive
    exact hlive

end Machine
end Rnet
