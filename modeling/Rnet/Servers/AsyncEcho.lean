import Rnet.Servers.Echo
import Rnet.Servers.Relay

/-!
# The server that echoes through the worker pool

The handler of `examples/async-echo-rnet.rs` writes nothing itself. It submits a closure to the worker of its loop, and
the closure sends what was read back to the loop as an `AsyncWrite`. There are as many workers as loops, so the worker
runs the closures of this loop alone, in the order in which they were submitted. A system here is the loop, the
channel of the worker and the closure it runs (`AsyncEcho`).

Nothing is lost on the way round once the pool is made: at any time, what a live connection has sent and queued, what
waits for it in the urgent queue, what the worker runs and what it has still to run is, in this order, what was received
since then (`async_echo`). What was received before is lost.
-/

namespace Rnet

open Programs Relation Connection

/-! ## The handler -/

/-- `MyHandler` of `async-echo-rnet.rs`, with the engine that `init` gives it. -/
inductive AsyncEchoHandler
  | mk

instance : EventHandler AsyncEchoHandler RawCodec RawMsg where
  onOpen h _ := (⟨[], .none⟩, h)
  onTraffic h _ := (⟨[.nextContiguous none], .none⟩, h)
  onClose h _ := (⟨[], .none⟩, h)
  onTick h _ := (⟨[], 0, .none⟩, h)

namespace AsyncEchoHandler

/-- What `on_traffic` takes. -/
def datas (c : Connection RawCodec) : List Bytes := (c.nextContiguous none).1.toList

/-- The closure that is submitted, by what it captures. -/
structure Closure where
  gfd : Gfd
  datas : Bytes
  deriving DecidableEq

/-- The closures that the calls of `on_traffic` submit. -/
def submitted : Obs RawCodec → List Closure
  | .traffic before _ _ => (datas before.conn).map fun bs => ⟨before.conn.gfd, bs⟩
  | .opens _ _ _ | .merged _ | .closes _ _ _ | .ticks _ _ _ | .drops _ => []

theorem performs {op : Op RawCodec RawMsg} (hop : Performs AsyncEchoHandler op) : op = .nextContiguous none := by
  cases hop with
  | onOpen hop | onClose hop | onTick hop => cases hop
  | onTraffic hop => exact List.mem_singleton.mp hop

/-- The callbacks write nothing. -/
theorem silent {own : Bytes} (h : Written AsyncEchoHandler own) : own = [] := by
  induction h with
  | nothing => rfl
  | more h hop c ih =>
    rw [ih, performs hop]
    rfl

theorem sends : SendsOnly AsyncEchoHandler fun _ _ => False := fun gfd cmd hop => by
  cases performs hop

/-- **All input is taken**, and nothing else is submitted. -/
theorem reacts : Reacts AsyncEchoHandler datas fun total rest _ _ ts => rest = [] ∧ ts.flatten = total where
  onOpen _ _ hc := ⟨hc, rfl⟩
  onTraffic := by
    rintro h c bs total rest last ts hio hne hunread ⟨rfl, rfl⟩
    have hpos := length_pos_of_ioBuffer hio hne
    have htake : (c.nextContiguous none).1 = some c.unread := by
      rw [(whole_of_pos hpos).nextContiguous, (agree_of_le hpos (Nat.le_refl _)).nextContiguous, List.take_length]
    have hall := c.nextContiguous_consumes none
    rw [htake] at hall
    have hdatas : datas c = [c.unread] := by rw [datas, htake]; rfl
    refine ⟨hall.all rfl, ?_⟩
    rw [hdatas, List.flatten_append, List.flatten_singleton, hunread, List.nil_append]
  onTick _ _ _ hop := by cases hop

/-- What a closure sends to the connection with descriptor `g`. -/
def Closure.dataFor (g : Gfd) (closure : Closure) : Bytes := if closure.gfd = g then closure.datas else []

/-- A closure sends what it captured back to the connection; nothing else is shared. -/
def work : Work RawCodec Closure Unit := ⟨submitted, fun _ _ => ⟨⟩, fun _ closure => [(closure.gfd, closure.datas)]⟩

end AsyncEchoHandler

open AsyncEchoHandler

abbrev AsyncEcho := Relay AsyncEchoHandler RawCodec Closure Unit

namespace AsyncEcho

open EventLoop Runs Machine Relay

/-- The data on the way round to the connection with descriptor `g`, what comes first in front. -/
def inFlight (g : Gfd) (s : AsyncEcho) : Bytes :=
  s.machine.el.handle.waitingFor g ++ s.toSend g (Closure.dataFor g)

/-- The data for that connection that `submit` dropped. -/
def lost (g : Gfd) (s : AsyncEcho) : Bytes := s.dropped.flatMap (Closure.dataFor g)

/-! ## The way round -/

variable {el : EventLoop AsyncEchoHandler RawCodec} {m m' : Machine AsyncEchoHandler RawCodec} {s s' : AsyncEcho}
  {k : Nat} {i j : Incarnation RawCodec}

theorem sends_to (g : Gfd) : SendsOnly AsyncEchoHandler fun gfd _ => gfd ≠ g := fun gfd cmd hop => by
  cases performs hop

/-- The descriptor was issued to a connection of the loop. -/
def Issued (m : Machine AsyncEchoHandler RawCodec) (g : Gfd) : Prop := ∃ id, (id, g) ∈ issued m.el.trace

/-- What a live connection has got, and what is on the way to it, is what was taken from it since the pool was made. -/
def Carried (s : AsyncEcho) (i : Incarnation RawCodec) : Prop :=
  ∃ before start got, .opens before start .none ∈ s.machine.el.trace ∧ start.id = i.id ∧
    (made datas s.machine.el.trace i.id).flatten = lost i.conn.gfd s ++ got ∧ (s.pool = false → got = []) ∧
    i.conn.outStream ++ inFlight i.conn.gfd s = start.conn.outStream ++ got

/-- What holds in every run. -/
structure Inv (el : EventLoop AsyncEchoHandler RawCodec) (s : AsyncEcho) : Prop where
  reaches : Reaches el s.machine
  queues : s.machine.el.Queues fun q => ∀ g ∈ q.cmd.addressee, Issued s.machine g
  closures : ∀ closure ∈ s.pending ++ s.dropped, Issued s.machine closure.gfd
  unsent : ∀ p ∈ s.unsent, Issued s.machine p.1
  carried : s.machine.phase.Live → s.machine.el.minted ≤ 2 ^ 32 → ∀ k i, s.machine.el.connections.get k = some i →
    k < 2 ^ 24 → Carried s i

/-- **The closures submitted for a connection** carry what was taken from it. -/
theorem submitted_dataFor (hf : Facts el m) (hm : m.el.minted ≤ 2 ^ 32) (hj : m.el.connections.get k = some j)
    {obs : List (Obs RawCodec)} (hobs : ∀ o ∈ obs, o ∈ m.el.trace) :
    (obs.flatMap submitted).flatMap (Closure.dataFor j.conn.gfd) = (made datas obs j.id).flatten := by
  have hlive := hf.numbered.live hj
  have hone : ∀ o ∈ m.el.trace,
      (submitted o).flatMap (Closure.dataFor j.conn.gfd) = (Obs.made datas j.id o).flatten := by
    intro o ho
    cases o with
    | traffic before after action =>
      have hbefore := hf.named _ ho _ rfl
      rw [submitted, List.flatMap_map, Obs.made]
      by_cases hid : before.id = j.id
      · have hg : before.conn.gfd = j.conn.gfd := hf.numbered.functional (hid ▸ hbefore) hlive
        rw [if_pos hid, hg]
        simp [Closure.dataFor, List.flatMap_def]
      · have hg : before.conn.gfd ≠ j.conn.gfd := fun hg => hid (hf.numbered.unique hm (hg ▸ hbefore) hlive)
        rw [if_neg hid]
        exact List.flatMap_eq_nil_iff.mpr fun bs _ => if_neg hg
    | _ => rfl
  induction obs with
  | nil => rfl
  | cons o obs ih =>
    rw [List.flatMap_cons, List.flatMap_append, hone o (hobs o List.mem_cons_self),
      ih fun o ho => hobs o (List.mem_cons_of_mem _ ho), made, made, List.flatMap_cons, List.flatten_append]

theorem Inv.facts (hfresh : el.Fresh) (h : Inv el s) : Facts el s.machine := h.reaches.facts hfresh

/-- As long as the loop runs, no data waits in the common queue. -/
theorem Inv.clear (hfresh : el.Fresh) (h : Inv el s) (hlive : s.machine.phase.Live) (g : Gfd) :
    s.machine.el.handle.Clear g := by
  obtain ⟨ls, hrun⟩ := h.reaches
  exact (Machine.run_clear (sends_to g) hfresh hrun hlive).2

/-- Nothing is on the way to a descriptor that was not issued. -/
theorem Inv.inFlight_none (h : Inv el s) {g : Gfd} (hg : ¬Issued s.machine g) : inFlight g s = [] := by
  have hnot : ∀ {g' : Gfd}, Issued s.machine g' → g' ≠ g := by
    rintro g' hg' rfl
    exact hg hg'
  rw [inFlight, toSend, List.append_eq_nil_iff, List.append_eq_nil_iff]
  refine ⟨List.flatMap_eq_nil_iff.mpr fun q hq => ?_, ?_, ?_⟩
  · have hissued := h.queues q (List.mem_append_left _ hq)
    cases hc : q.cmd with
    | asyncWrite gfd data => exact if_neg (hnot (hissued gfd (by rw [hc]; rfl)))
    | _ => rfl
  · exact sentTo_none fun p hp => hnot (h.unsent p hp)
  · exact List.flatMap_eq_nil_iff.mpr fun closure hclosure =>
      if_neg (hnot (h.closures closure (List.mem_append_left _ hclosure)))

/-- Nor was anything dropped that was to go there. -/
theorem Inv.lost_none (h : Inv el s) {g : Gfd} (hg : ¬Issued s.machine g) : lost g s = [] := by
  refine List.flatMap_eq_nil_iff.mpr fun closure hclosure => if_neg ?_
  rintro rfl
  exact hg (h.closures closure (List.mem_append_right _ hclosure))

/-- **The worker** takes a closure, or runs it: what it carries stays on the way. -/
theorem Inv.works {queue : List Closure} {working : Working Closure} (h : Inv el s)
    (hclosures : ∀ closure ∈ ({ s with queue := queue, working := working } : AsyncEcho).pending, closure ∈ s.pending)
    (hunsent : ∀ p ∈ ({ s with queue := queue, working := working } : AsyncEcho).unsent, Issued s.machine p.1)
    (hsame : ∀ g, toSend g (Closure.dataFor g) ({ s with queue := queue, working := working } : AsyncEcho) =
      s.toSend g (Closure.dataFor g)) : Inv el { s with queue := queue, working := working } := by
  refine ⟨h.reaches, h.queues, fun c hc => h.closures c ?_, hunsent, fun hlive hm k i hi hk => ?_⟩
  · rcases List.mem_append.mp hc with hc | hc
    · exact List.mem_append_left _ (hclosures c hc)
    · exact List.mem_append_right _ hc
  · have hcarried := h.carried hlive hm k i hi hk
    unfold Carried inFlight at hcarried ⊢
    rw [hsame]
    exact hcarried

/-- **The closure sends its command**: the data goes into the urgent queue. -/
theorem Inv.sends (hfresh : el.Fresh) {p : Gfd × Bytes} {rest : List (Gfd × Bytes)} (h : Inv el s)
    (hw : s.working = .sending (p :: rest)) (hstep : s.machine.step (.trigger (.asyncWrite p.1 p.2)) = some m') :
    Inv el { s with machine := m', working := .sending rest } := by
  have hunsent : ∀ p' ∈ p :: rest, Issued s.machine p'.1 := fun p' hp' =>
    h.unsent p' (by rw [Relay.unsent, hw]; exact hp')
  have hreaches := h.reaches.step hstep
  have hclear := h.clear hfresh
  cases hstep
  refine ⟨hreaches, ?_, fun c hc => h.closures c (by rw [pending, hw]; exact hc), fun p' hp' =>
    hunsent p' (List.mem_cons_of_mem _ hp'), fun hlive hm k i hi hk => ?_⟩
  · intro q hq
    have hgets := s.machine.el.handle.trigger_gets .high ⟨.asyncWrite p.1 p.2, none⟩
    rcases hgets.mem_queued.mp hq with hq | hq
    · exact h.queues q hq
    · rw [List.mem_singleton.mp hq]
      rintro g ⟨⟩
      exact hunsent p List.mem_cons_self
  · obtain ⟨before, start, got, hmem, hid, hmade, hgot, hout⟩ := h.carried hlive hm k i hi hk
    refine ⟨before, start, got, hmem, hid, hmade, hgot, ?_⟩
    obtain ⟨hwait, -⟩ := EventLoopHandle.trigger_waitingFor s.machine.el.handle .high ⟨.asyncWrite p.1 p.2, none⟩
      (fun hp => Command.dataFor_of_low hp) (hclear hlive i.conn.gfd)
    have hflight : inFlight i.conn.gfd { s with
        machine := s.machine.receive .high (.asyncWrite p.1 p.2), working := .sending rest } =
          inFlight i.conn.gfd s := by
      show (s.machine.el.handle.trigger _ _).2.waitingFor _ ++ _ = _
      rw [hwait, inFlight, toSend, toSend, pending, pending, Relay.unsent, Relay.unsent, hw, List.append_assoc]
      show _ ++ (_ ++ (sentTo i.conn.gfd rest ++ _)) = _ ++ (sentTo i.conn.gfd (p :: rest) ++ _)
      rw [sentTo_cons, List.append_assoc]
    exact hflight ▸ hout

/-- The loop and the callbacks send nothing to a connection. -/
theorem admits_issued : Admits AsyncEchoHandler fun q => ∀ g ∈ q.cmd.addressee, Issued m g where
  loop q _ ha g hg := by
    rw [ha] at hg
    cases hg
  sends idx g q hs := by
    have hbrings := sends.admits.sends idx g q hs
    intro g' hg'
    cases hc : q.cmd with
    | asyncWrite gfd data =>
      rw [hc] at hbrings
      exact hbrings.elim
    | _ =>
      rw [hc] at hg'
      cases hg'

/-- Descriptors stay issued. -/
theorem Issued.grows {g : Gfd} (hgrows : m.el.Grows m'.el) (h : Issued m g) : Issued m' g := by
  obtain ⟨id, hid⟩ := h
  obtain ⟨new, hnew, -⟩ := hgrows.issued
  exact ⟨id, hnew ▸ List.mem_append_left _ hid⟩

/-- The descriptor of a new connection was not issued before. -/
theorem not_issued (hgrows : m.el.Grows m'.el) (hf : Facts el m) (hf' : Facts el m') (hm : m'.el.minted ≤ 2 ^ 32)
    (hj : m'.el.connections.get k = some j) (hnew : m.el.minted ≤ j.id) : ¬Issued m j.conn.gfd := by
  rintro ⟨id, hid⟩
  obtain ⟨new, hissued, -⟩ := hgrows.issued
  have hid' : (id, j.conn.gfd) ∈ issued m'.el.trace := hissued ▸ List.mem_append_left _ hid
  have hsame := hf'.numbered.unique hm hid' (hf'.numbered.live hj)
  have hlt := (hf.numbered.issued _ hid).1
  omega

/-- Nothing was taken from a new connection before. -/
theorem made_of_new (hf : Facts el m) {id : Nat} (hnew : m.el.minted ≤ id) : made datas m.el.trace id = [] := by
  refine List.flatMap_eq_nil_iff.mpr fun o ho => ?_
  cases o with
  | traffic before after action =>
    have hlt := (hf.numbered.issued _ (hf.named _ ho _ rfl)).1
    refine if_neg fun hid => ?_
    rw [hid] at hlt
    omega
  | _ => rfl

/-- The closures that a step of the loop submits are for connections of the loop. -/
theorem issued_of_calls (hf' : Facts el m') {closure : Closure} (hclosure : closure ∈ s.calls work m') :
    Issued m' closure.gfd := by
  obtain ⟨o, ho, hclosure⟩ := List.mem_flatMap.mp hclosure
  cases o with
  | traffic before after action =>
    obtain ⟨bs, -, rfl⟩ := List.mem_map.mp hclosure
    exact ⟨before.id, hf'.named _ (List.mem_of_mem_drop ho) _ rfl⟩
  | _ => cases hclosure

section

variable {l : Label AsyncEchoHandler} {pool : Bool} {early late : List Closure}

/-- **What is taken in a step of the loop** is lost if the pool is not made yet, and on the way otherwise. -/
theorem Inv.carries (hfresh : el.Fresh) (hl : ∀ gfd data, l ≠ .trigger (.asyncWrite gfd data)) (h : Inv el s)
    (hstep : s.machine.step l = some m') (hsplit : s.calls work m' = early ++ late)
    (hpool : s.pool = true → pool = true ∧ early = []) (hno : pool = false → late = []) (hlive : m'.phase.Live)
    (hm : m'.el.minted ≤ 2 ^ 32) (hj : m'.el.connections.get k = some j) (hk : k < 2 ^ 24) :
    Carried ⟨m', pool, s.queue ++ late, s.dropped ++ early, s.working, ⟨⟩⟩ j := by
  have hf := h.facts hfresh
  have hf' := (h.reaches.step hstep).facts hfresh
  have hmoves := Machine.step_moves hstep
  have hlive₀ := hmoves.live hlive
  have hpath := hmoves.evolves hf.calm
  obtain ⟨-, hgrows⟩ := numbered_of_evolves hpath hf.numbered
  have hlabel : l.dataFor j.conn.gfd = [] := by
    cases l with
    | trigger cmd =>
      cases cmd with
      | asyncWrite gfd data => exact absurd rfl (hl gfd data)
      | _ => rfl
    | _ => rfl
  obtain ⟨obs, hobs⟩ := trace_of_evolves hpath
  have hcalls : obs.flatMap submitted = early ++ late := by
    rw [← hsplit, Relay.calls, ← hobs, List.drop_left]
    rfl
  have hnew := submitted_dataFor hf' hm hj fun o ho => hobs ▸ List.mem_append_right s.machine.el.trace ho
  rw [hcalls, List.flatMap_append] at hnew
  have hmade : made datas m'.el.trace j.id = made datas s.machine.el.trace j.id ++ made datas obs j.id := by
    rw [← hobs, made_append]
  obtain ⟨-, data, hdata, hout⟩ := Machine.step_arrives (sends_to j.conn.gfd) hstep hf.calm hf.numbered.sound
    (h.clear hfresh hlive₀ _) hlive
  rw [hlabel, List.append_nil] at hdata
  have hflight : data ++ inFlight j.conn.gfd ⟨m', pool, s.queue ++ late, s.dropped ++ early, s.working, ⟨⟩⟩ =
      inFlight j.conn.gfd s ++ late.flatMap (Closure.dataFor j.conn.gfd) := by
    rw [inFlight, inFlight, toSend_append, ← List.append_assoc, ← List.append_assoc, hdata]
  have hlate : pool = false → late.flatMap (Closure.dataFor j.conn.gfd) = [] := fun hp => by
    rw [hno hp]
    rfl
  unfold Carried
  rw [hmade, List.flatten_append, ← hnew, lost, List.flatMap_append]
  by_cases hold : j.id < s.machine.el.minted
  · obtain ⟨i, hi, hsame⟩ := old_of_evolves hpath hf.numbered hj hold
    obtain ⟨_, own, -, hwrote, hown⟩ := hout k i j hi hsame.gfd.symm hk hj hsame.id
    obtain ⟨before, start, got, hmem, hid, hgot, hnone, hcarried⟩ :=
      h.carried hlive₀ (Nat.le_trans hgrows.minted hm) k i hi hk
    rw [← hsame.id, ← hsame.gfd] at hgot
    -- what was got came after the pool was made, and then nothing is dropped any more
    have hboth : got ++ early.flatMap (Closure.dataFor j.conn.gfd) =
        early.flatMap (Closure.dataFor j.conn.gfd) ++ got := by
      cases hp : s.pool with
      | true => rw [(hpool hp).2, List.flatMap_nil, List.append_nil, List.nil_append]
      | false => rw [hnone hp, List.append_nil, List.nil_append]
    refine ⟨before, start, got ++ late.flatMap (Closure.dataFor j.conn.gfd), hobs ▸ List.mem_append_left _ hmem,
      hid.trans hsame.id.symm, ?_, fun hp => ?_, ?_⟩
    · rw [hgot, lost, List.append_assoc, List.append_assoc, ← List.append_assoc got, hboth, List.append_assoc]
    · have hp₀ : s.pool = false := Bool.eq_false_iff.mpr fun hs => absurd ((hpool hs).1.symm.trans hp) (by decide)
      rw [hnone hp₀, hlate hp, List.append_nil]
    · rw [hown, silent hwrote.written, List.nil_append, List.append_assoc, hflight, ← List.append_assoc, hsame.gfd,
        hcarried, List.append_assoc]
  · have hold := Nat.le_of_not_lt hold
    obtain ⟨before, hmem⟩ := Machine.step_opens hstep hf.calm hf.numbered.sound hlive hj hold
    have hunknown := not_issued hgrows hf hf' hm hj hold
    have hnone := h.inFlight_none hunknown
    have hdropped : s.dropped.flatMap (Closure.dataFor j.conn.gfd) = [] := h.lost_none hunknown
    have hwaits : s.machine.el.handle.waitingFor j.conn.gfd = [] := (List.append_eq_nil_iff.mp hnone).1
    rw [hwaits] at hdata
    rw [hnone, (List.append_eq_nil_iff.mp hdata).1, List.nil_append, List.nil_append] at hflight
    refine ⟨before, j, _, hmem, rfl, ?_, hlate, congrArg _ hflight⟩
    rw [hdropped, made_of_new hf hold, List.flatten_nil, List.nil_append, List.nil_append]

/-- **A step of the loop**, in which the first closures are dropped and the rest goes into the channel. -/
theorem Inv.loop (hfresh : el.Fresh) (hl : ∀ gfd data, l ≠ .trigger (.asyncWrite gfd data)) (h : Inv el s)
    (hstep : s.machine.step l = some m') (hsplit : s.calls work m' = early ++ late)
    (hpool : s.pool = true → pool = true ∧ early = []) (hno : pool = false → late = []) :
    Inv el ⟨m', pool, s.queue ++ late, s.dropped ++ early, s.working, ⟨⟩⟩ := by
  have hf := h.facts hfresh
  have hreaches := h.reaches.step hstep
  have hmoves := Machine.step_moves hstep
  obtain ⟨-, hgrows⟩ := numbered_of_evolves (hmoves.evolves hf.calm) hf.numbered
  have hnew : ∀ closure ∈ early ++ late, Issued m' closure.gfd := fun closure hc =>
    issued_of_calls (hreaches.facts hfresh) (hsplit ▸ hc)
  refine ⟨hreaches, ?_, fun c hc => ?_, fun p hp => (h.unsent p hp).grows hgrows, fun hlive hm k j hj hk =>
    h.carries hfresh hl hstep hsplit hpool hno hlive hm hj hk⟩
  · have hq := queues_of_moves admits_issued hmoves hf.calm (fun cmd hcmd => ?_) h.queues
    · exact fun q hmem g hg => (hq q hmem g hg).grows hgrows
    · subst hcmd
      cases cmd with
      | asyncWrite gfd data => exact absurd rfl (hl gfd data)
      | _ => exact fun g hg => by cases hg
  · rw [pending_append] at hc
    rcases List.mem_append.mp hc with hc | hc <;> rcases List.mem_append.mp hc with hc | hc
    · exact (h.closures c (List.mem_append_left _ hc)).grows hgrows
    · exact hnew c (List.mem_append_right _ hc)
    · exact (h.closures c (List.mem_append_right _ hc)).grows hgrows
    · exact hnew c (List.mem_append_left _ hc)

end

/-! ## Runs -/

/-- `send_command` finds the loop, since its descriptors name it. -/
theorem Inv.step (hfresh : el.Fresh) (hidx : el.handle.idx = el.loopId.toNat) {a : Relay.Act AsyncEchoHandler}
    (ha : ∀ gfd data, a.label ≠ some (.trigger (.asyncWrite gfd data))) (h : Inv el s)
    (hstep : Relay.step work s a = some s') : Inv el s' := by
  cases step_moves hstep with
  | loop hl hm' hsplit hpool hno =>
    exact h.loop hfresh (fun gfd data heq => ha gfd data (heq ▸ hl)) hm' hsplit hpool hno
  | @takes closure rest hw hq =>
    refine h.works (fun c hc => ?_) (List.forall_mem_nil _) fun g => ?_
    · rw [pending, hw, hq]
      exact hc
    · rw [toSend, toSend, pending, pending, Relay.unsent, Relay.unsent, hw, hq]
  | @runs closure ps hw hps =>
    have hclosure : closure ∈ s.pending := by
      rw [pending, hw]
      exact List.mem_cons_self
    obtain rfl : ps = [(closure.gfd, closure.datas)] := List.perm_singleton.mp hps
    refine h.works (fun c hc => ?_) (fun p hp => ?_) fun g => ?_
    · rw [pending, hw]
      exact List.mem_cons_of_mem _ hc
    · rw [List.mem_singleton.mp hp]
      exact h.closures closure (List.mem_append_left _ hclosure)
    · rw [toSend, toSend, pending, pending, Relay.unsent, Relay.unsent, hw]
      simp [sentTo, Closure.dataFor]
  | @sends p rest m' hw hsend =>
    have hf := h.facts hfresh
    obtain ⟨id, hid⟩ := h.unsent p (by rw [Relay.unsent, hw]; exact List.mem_cons_self)
    obtain ⟨-, fd, k, hg⟩ := hf.numbered.issued _ hid
    have hg : p.1 = .new id fd s.machine.el.loopId k := hg
    have hhere : p.1.eventLoopIndex = s.machine.el.handle.idx := by
      rw [hg, Gfd.eventLoopIndex_new, hf.loopId, hf.idx, hidx]
    rw [send_here hhere] at hsend
    exact h.sends hfresh hw hsend

/-- **The server echoes**, through the worker and back. In every run in which the `AsyncWrite`s come from the worker, as
long as the loop runs and its descriptors are different: for every live connection, what was sent and queued since it
was opened and what is on the way is what its socket has delivered since, but for what `submit` dropped before the pool
was made, which was delivered first. Nothing is unread. -/
theorem async_echo (hfresh : el.Fresh) (hidx : el.handle.idx = el.loopId.toNat) {pool : Bool}
    {acts : List (Relay.Act AsyncEchoHandler)}
    (hacts : ∀ a ∈ acts, ∀ gfd data, a.label ≠ some (.trigger (.asyncWrite gfd data)))
    (hrun : run (Relay.step work) (Relay.start el pool ⟨⟩) acts = some s) (hlive : s.machine.phase.Live)
    (hm : s.machine.el.minted ≤ 2 ^ 32) (hi : s.machine.el.connections.get k = some i) (hk : k < 2 ^ 24) :
    ∃ before start got, .opens before start .none ∈ s.machine.el.trace ∧ start.id = i.id ∧ i.conn.unread = [] ∧
      i.received = i.before ++ (lost i.conn.gfd s ++ got) ∧ (pool = true → lost i.conn.gfd s = []) ∧
      i.conn.sent ++ i.conn.queued.flatten ++ inFlight i.conn.gfd s = start.conn.outStream ++ got := by
  have hkeeps : ∀ (s : AsyncEcho) (a : Relay.Act AsyncEchoHandler) (s' : AsyncEcho), Inv el s →
      (∀ gfd data, a.label ≠ some (.trigger (.asyncWrite gfd data))) → Relay.step work s a = some s' → Inv el s' :=
    fun s a s' hs ha hstep => hs.step hfresh hidx ha hstep
  have hinv : Inv el s := by
    refine run_invariant hkeeps ?_ (Along.of_labels hacts) hrun
    refine ⟨⟨[], rfl⟩, fun q hq => ?_, fun c hc => (by cases hc), fun p hp => (by cases hp), fun _ _ k i hi => ?_⟩
    · simp [Relay.start, Machine.initial, EventLoopHandle.queued, hfresh.urgent, hfresh.common] at hq
    · simp [Relay.start, Machine.initial, hfresh.connections] at hi
  obtain ⟨ls, hrun'⟩ := hinv.reaches
  obtain ⟨delivered, hd, hunread, hmade⟩ := Machine.run_reacts reacts hfresh hrun' hlive hi
  obtain ⟨before, start, got, hmem, hid, hgot, -, hout⟩ := hinv.carried hlive hm k i hi hk
  refine ⟨before, start, got, hmem, hid, hunread, by rw [hd, ← hmade, hgot], fun hpool => ?_, hout⟩
  obtain ⟨-, hdropped⟩ := run_dropped hpool hrun
  rw [lost, hdropped]
  rfl

/-- A connection sends six bytes in three reads. The first is lost, since the pool is made while it is handled. The
others come back, and the socket takes two bytes, while the worker runs the closure of the last read. -/
def roundTrip : List (Relay.Act AsyncEchoHandler) :=
  [.loop (.accept ⟨4, [.took 2, .wouldBlock], [.data [9], .data [1, 2, 3], .data [4, 5]], [], [], none⟩
      (.tcp "a") (.tcp "b")),
    .loop .advance, .loop .advance, .loop (.poll []), .loop .advance, .loop .advance, .loop .advance,
    .loop (.tick false), .loop .advance, .loop (.poll [⟨0, true, false, false, false⟩]), .makesPool .advance 1,
    .takes, .runs [(.new 0 4 0 0, [1, 2, 3])], .sends, .takes, .loop .advance,
    .loop (.tick false), .loop .advance, .loop (.poll []), .loop .advance]

def echoLoop : EventLoop AsyncEchoHandler RawCodec := EventLoop.new 0 ⟨64, 8, false⟩ .mk [] [] (fun _ => 0) 0

theorem async_echo_roundTrip : ∃ s i before begun got,
    run (Relay.step work) (Relay.start echoLoop false ⟨⟩) roundTrip = some s ∧
    s.machine.el.connections.get 0 = some i ∧ i.conn.sent = [1, 2] ∧ i.conn.queued.flatten = [3] ∧
    inFlight i.conn.gfd s = [4, 5] ∧ lost i.conn.gfd s = [9] ∧ .opens before begun .none ∈ s.machine.el.trace ∧
    begun.id = i.id ∧ i.conn.unread = [] ∧ i.received = i.before ++ (lost i.conn.gfd s ++ got) ∧
    i.conn.sent ++ i.conn.queued.flatten ++ inFlight i.conn.gfd s = begun.conn.outStream ++ got := by
  have hend : (run (Relay.step work) (Relay.start echoLoop false ⟨⟩) roundTrip).any (fun s =>
      decide (s.machine.phase.Live ∧ s.machine.el.minted ≤ 2 ^ 32) && (s.machine.el.connections.get 0).any fun i =>
        decide (i.conn.sent = [1, 2] ∧ i.conn.queued.flatten = [3] ∧ inFlight i.conn.gfd s = [4, 5] ∧
          lost i.conn.gfd s = [9])) = true := by
    decide +kernel
  obtain ⟨s, hs, hat⟩ := exists_of_any hend
  obtain ⟨hfacts, hany⟩ := Bool.and_eq_true_iff.mp hat
  obtain ⟨hlive, hm⟩ := of_decide_eq_true hfacts
  obtain ⟨i, hi, hb⟩ := exists_of_any hany
  obtain ⟨hsent, hqueued, hflight, hlost⟩ := of_decide_eq_true hb
  have hno : ∀ a ∈ roundTrip, ∀ gfd data, a.label ≠ some (.trigger (.asyncWrite gfd data)) := by
    simp [roundTrip, Relay.Act.label]
  obtain ⟨before, begun, got, hmem, hid, hunread, hreceived, -, hout⟩ :=
    async_echo (new_fresh _ _ _ _ _ _ _) rfl hno hs hlive hm hi (by decide)
  exact ⟨s, i, before, begun, got, hs, hi, hsent, hqueued, hflight, hlost, hmem, hid, hunread, hreceived, hout⟩

end AsyncEcho

end Rnet
