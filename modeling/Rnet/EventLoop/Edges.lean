import Mathlib.Data.List.TakeWhile
import Rnet.EventLoop.PendingOutput
import Rnet.EventLoop.Readiness

/-!
# Unread input under edge-triggered polling

An edge-triggered poller delivers a readable event once. It has a new one for a socket with unread input when the
socket is registered or registered anew, and for every socket when input arrives (`EdgeTriggered`). Which sockets are
registered in a step the record of the poller tells (`Machine.armed`).

So whoever stops reading before the socket would block must leave something that goes on reading. A new connection is
registered (`Moves.comes`). An event ends with registering the connection anew, whatever flags it carries and wherever
its reading stops, unless the connection is closed (`step_armed`); a `Read` command that stops at the batch limit asks
for another `Read`, and one that does not stop there either leaves nothing unread or closes (`readSocket_reads`). So
whenever the loop is about to poll, unread input has an event or a `Read` waiting for it (`no_stranded_input`).

Here the answers listed for the reads of a socket are what has arrived, and a read behind them would block; what comes
later is a label of its own, and so is a regrouping of the bytes, so that reads may take any number of them.
-/

namespace Rnet

open Programs Relation

variable {η κ Msg : Type}

/-! ## What is unread -/

/-- Bytes, or the end of the stream. -/
def ReadAnswer.isInput : ReadAnswer → Bool
  | .data _ => true
  | .wouldBlock | .interrupted | .fatal _ => false

namespace Incarnation

/-- The answers to the reads still to come. -/
def reads (i : Incarnation κ) : List ReadAnswer := (i.conn.socket.map Socket.reads).getD []

/-- The socket has unread bytes or an unread end of the stream. -/
def Unread (i : Incarnation κ) : Prop := i.reads.any ReadAnswer.isInput

instance (i : Incarnation κ) : Decidable i.Unread := inferInstanceAs (Decidable (_ = _))

/-- Something happens to the socket of the connection. -/
def onSocket (i : Incarnation κ) (f : Socket → Socket) : Incarnation κ :=
  { i with conn := { i.conn with socket := i.conn.socket.map f } }

/-- The same incarnation, later: reads may have been answered. -/
structure Follows (i j : Incarnation κ) : Prop where
  id : j.id = i.id
  closed : j.conn.closed = i.conn.closed
  reads : j.reads <:+ i.reads

variable {i j k : Incarnation κ}

theorem Follows.refl (i : Incarnation κ) : i.Follows i := ⟨rfl, rfl, List.suffix_refl _⟩

theorem Follows.trans (h : i.Follows j) (h' : j.Follows k) : i.Follows k :=
  ⟨h'.id.trans h.id, h'.closed.trans h.closed, h'.reads.trans h.reads⟩

/-- What is unread later was unread before. -/
theorem Follows.unread (h : i.Follows j) (hj : j.Unread) : i.Unread := by
  obtain ⟨a, ha, hin⟩ := List.any_eq_true.mp hj
  exact List.any_eq_true.mpr ⟨a, h.reads.subset ha, hin⟩

theorem reads_of_socket {s : Socket} (hs : i.conn.socket = some s) : i.reads = s.reads := by
  rw [reads, hs]
  rfl

theorem reads_of_inputSide (h : j.conn.socket.map Socket.inputSide = i.conn.socket.map Socket.inputSide) :
    j.reads = i.reads := by
  have h' : j.conn.socket.map Socket.reads = i.conn.socket.map Socket.reads :=
    Socket.map_of_inputSide (fun x => x.2.1) h
  rw [reads, reads, h']

theorem reads_carryOver (i : Incarnation κ) :
    ({ i with conn := i.conn.carryOver } : Incarnation κ).reads = i.reads := by
  rw [reads, reads, i.conn.carryOver_carries.socket]

theorem Follows.ofStable (hid : j.id = i.id) (h : i.conn.Stable j.conn) : i.Follows j :=
  ⟨hid, h.closed, (reads_of_inputSide h.socket) ▸ List.suffix_refl _⟩

theorem answerRead_reads (s : Socket) (a : ReadAnswer) (n : Nat) : (s.answerRead a n).2.reads = s.reads.tail := by
  cases a <;> rfl

variable [Codec κ Msg]

theorem Step.follows (h : i.Step j) : i.Follows j := by
  cases h with
  | served hc =>
    cases hc with
    | interest s interest hs => exact ⟨rfl, rfl, by rw [reads_of_socket hs]; exact List.suffix_refl _⟩
    | processWrite maxBatch => exact .ofStable rfl (i.conn.processWrite_sameInput maxBatch).stable
    | write data => exact .ofStable rfl (i.conn.write_sameInput data).stable
  | @reads s hs a n =>
    refine ⟨rfl, rfl, ?_⟩
    rw [reads_of_socket hs, reads_of_socket (s := (s.answerRead a n).2) rfl, answerRead_reads]
    exact List.tail_suffix _
  | receives bs => exact ⟨rfl, rfl, List.suffix_refl _⟩
  | performs ops hd =>
    obtain ⟨hid, -, hst⟩ := Op.applyAll_stable ops i hd
    exact .ofStable hid hst
  | lastOutput graceful =>
    unfold EventLoop.lastOutput
    split
    · exact .ofStable rfl i.conn.flush_sameInput.stable
    · exact ⟨rfl, rfl, List.suffix_refl _⟩
  | carriesOver => exact ⟨rfl, i.conn.carryOver_carries.closed, (reads_carryOver i) ▸ List.suffix_refl _⟩

theorem follows_of_steps (h : ReflTransGen Step i j) : i.Follows j :=
  invariant_of_steps (P := fun j => i.Follows j) h (fun _ _ hs hi => hi.trans hs.follows) (.refl i)

end Incarnation

namespace EventLoop

variable [Codec κ Msg] [EventHandler η κ Msg] {el el' t : EventLoop η κ} {key k : Nat} {j : Incarnation κ}

theorem follows_of_effects (h : ReflTransGen AnyEffect el t) (hj : t.connections.get k = some j) :
    ∃ i, el.connections.get k = some i ∧ i.Follows j := by
  refine invariant_of_steps (P := fun t => ∀ j, t.connections.get k = some j →
    ∃ i, el.connections.get k = some i ∧ i.Follows j) h ?_ (fun j hj => ⟨j, hj, .refl j⟩) j hj
  rintro u v ⟨key, he⟩ hu j hj
  obtain ⟨j', hj', hsteps⟩ := he.steps hj
  obtain ⟨i, hi, hij⟩ := hu j' hj'
  exact ⟨i, hi, hij.trans (Incarnation.follows_of_steps hsteps)⟩

/-- A new connection is open. -/
theorem opening_closed (el : EventLoop η κ) (socket : Socket) (localAddr peerAddr : NetworkAddress) :
    (el.opening socket localAddr peerAddr).1.conn.closed = false := by
  refine (Op.applyAll_stable _ (el.incarnation socket localAddr peerAddr) _).2.2.closed.trans ?_
  unfold incarnation Connection.opened
  cases el.connectionPool.head? <;> rfl

/-! ## Reading to the end -/

/-- **One read** uses up one answer, and it blocks on a would-block only. -/
theorem readOnce_reads {a : ReadAnswer} {r : IoStatus ⊕ Nat} (h : readOnce key a el = .ok r t) :
    (∃ i j, el.connections.get key = some i ∧ t.connections.get key = some j ∧ j.reads = i.reads.tail) ∧
      (r = .inl .completed → a = .wouldBlock) := by
  obtain ⟨i, s, hi, hs, hread⟩ := readOnce_some h
  have hanswer : ∀ {bs : IoResult Bytes} {s' : Socket}, s.answerRead a el.offered = (bs, s') →
      s'.reads = i.reads.tail := fun hr => by
    rw [Incarnation.reads_of_socket hs, ← Incarnation.answerRead_reads s a el.offered, hr]
  have hbuf : ∀ b, (el.buffered b).connections.get key = some i := fun _ => hi
  have hheard : ∀ b s' bs, s'.reads = i.reads.tail → ((el.buffered b).hears key i s' bs).1.reads = i.reads.tail :=
    fun b s' bs hr =>
      (Incarnation.reads_of_inputSide (Op.applyAll_stable _ _ (el.buffered b).handle).2.2.socket).trans hr
  have hget : ∀ b s' bs, (((el.buffered b).hears key i s' bs).2.setIncarnation key
      ((el.buffered b).hears key i s' bs).1).connections.get key = some ((el.buffered b).hears key i s' bs).1 :=
    fun b s' bs => get_setIncarnation_self (get_setIncarnation_self (hbuf b) _) _
  cases hread with
  | fails e s' b hb hr =>
    refine ⟨⟨i, _, hi, get_setIncarnation_self (hbuf b) _, hanswer hr⟩, fun hc => ?_⟩
    cases a with
    | data bs => cases hr
    | wouldBlock => rfl
    | interrupted | fatal _ => cases hr; cases hc
  | ended s' b hb hr =>
    exact ⟨⟨i, _, hi, get_setIncarnation_self (hbuf b) _, hanswer hr⟩, fun hc => by cases hc⟩
  | goesOn bs s' b hb hr hne hact =>
    refine ⟨⟨i, _, hi, get_setIncarnation_self (hget b s' bs) _, ?_⟩, fun hc => by cases hc⟩
    rw [Incarnation.reads_carryOver, hheard b s' bs (hanswer hr)]
  | stopped bs s' b hb hr hne hact =>
    refine ⟨⟨i, _, hi, hget b s' bs, hheard b s' bs (hanswer hr)⟩, fun hc => ?_⟩
    split at hc <;> cases hc

/-- **A loop that reads until the socket would block** leaves nothing unread. -/
theorem readLoop_completed : ∀ (answers : List ReadAnswer) (bytesRead : Nat) (el : EventLoop η κ),
    (∀ i, el.connections.get key = some i → i.reads = answers) → .wouldBlock ∉ answers →
      readLoop key answers bytesRead el = .ok .completed t → t.connections.get key = some j → j.reads = []
  | [], bytesRead, el, hreads, hblock, h, hj => by
    unfold readLoop at h
    rw [Programs.get_bind] at h
    split at h
    · cases h
    · obtain ⟨r, u, hu, h⟩ := bind_ok.mp h
      obtain ⟨i, j', hi, hj', hread⟩ := (readOnce_reads hu).1
      obtain rfl : u = t := by cases r <;> cases h <;> rfl
      cases hj'.symm.trans hj
      rw [hread, hreads i hi]
      rfl
  | a :: answers, bytesRead, el, hreads, hblock, h, hj => by
    unfold readLoop at h
    rw [Programs.get_bind] at h
    split at h
    · cases h
    · obtain ⟨r, u, hu, h⟩ := bind_ok.mp h
      obtain ⟨⟨i, j', hi, hj', hread⟩, hcompleted⟩ := readOnce_reads hu
      cases r with
      | inl status =>
        cases h
        exact absurd (hcompleted rfl ▸ List.mem_cons_self) hblock
      | inr n =>
        refine readLoop_completed answers _ u (fun i' hi' => ?_) (fun hm => hblock (List.mem_cons_of_mem _ hm)) h hj
        cases hj'.symm.trans hi'
        rw [hread, hreads i hi]
        rfl

/-- **After a read** of a connection the socket has nothing unread, or another `Read` is asked for. -/
theorem readSocket_reads (hopen : ∀ i, el.connections.get key = some i → i.conn.closed = false ∧ .wouldBlock ∉ i.reads)
    (h : readSocket key el = .ok ⟨⟩ t) (hj : t.connections.get key = some j) :
    j.reads = [] ∨ ∃ q ∈ t.handle.queued, q.cmd = .read key := by
  unfold readSocket at h
  obtain ⟨status, u, hu, h⟩ := bind_ok.mp h
  cases status with
  | closed graceful => cases (closeConnection_ok h).symm.trans hj
  | «yield» =>
    cases h
    exact Or.inr ⟨⟨.read key, none⟩, (u.handle.trigger_gets .high ⟨.read key, none⟩).mem_queued.mpr
      (Or.inr (List.mem_singleton_self _)), rfl⟩
  | completed =>
    cases h
    unfold processRead at hu
    rw [Programs.get_bind] at hu
    cases hi : el.connections.get key with
    | none =>
      rw [hi] at hu
      cases hu
      cases hi.symm.trans hj
    | some i =>
      obtain ⟨hclosed, hblock⟩ := hopen i hi
      rw [hi] at hu
      simp only [hclosed, Bool.false_eq_true, if_false] at hu
      exact Or.inl (readLoop_completed _ 0 el (fun i' hi' => by cases hi.symm.trans hi'; rfl) hblock hu hj)
  | shutdown =>
    obtain ⟨_, _, _, h⟩ := bind_ok.mp h
    cases h

/-! ## What the poller registers -/

omit [Codec κ Msg] [EventHandler η κ Msg] in
/-- What was registered behind a prefix of the record is found behind every part of it. -/
theorem mem_drop_extend {xs ys : List Nat} {n : Nat} (h : xs <+: ys) (hk : k ∈ xs.drop n) : k ∈ ys.drop n := by
  obtain ⟨zs, rfl⟩ := h
  rw [List.drop_append]
  exact List.mem_append_left _ hk

/-- The record of the poller only grows. -/
theorem Effect.registered {serving : Prop} (h : Effect serving key el el') :
    el.poll.registered <+: el'.poll.registered := by
  cases h with
  | neutral h => exact h.registered
  | ticks op hd conns hop _ =>
    unfold tickOp
    split <;> exact List.prefix_refl _
  | _ => exact List.prefix_refl _

theorem registered_of_effects {serving : Prop} (h : ReflTransGen (Effect serving key) el t) :
    el.poll.registered <+: t.poll.registered :=
  invariant_of_steps (P := fun t => el.poll.registered <+: t.poll.registered) h
    (fun _ _ he ht => ht.trans he.registered)
    (List.prefix_refl _)

/-- **An event that leaves its connection live** has registered it anew. -/
theorem processIo_armed {ev : Event} (hset : el.SettledAt key) (h : processIo key ev el = .ok ⟨⟩ t)
    (hj : t.connections.get key = some j) : key ∈ t.poll.registered.drop el.poll.registered.length := by
  rcases processIo_ok h hset with hnone | ⟨u, hu, -, hpath⟩
  · cases hnone.symm.trans hj
  · rcases reregister_ok hu with ⟨hnone, rfl⟩ | ⟨i, s, hi, hs, rfl⟩
    · cases hnone.symm.trans hj
    · have hlen := (registered_of_effects hpath).length_le
      change key ∈ (u.poll.registered ++ [key]).drop el.poll.registered.length
      rw [List.drop_append_of_le_length hlen]
      exact List.mem_append_right _ (List.mem_singleton_self key)

/-- **A connection that enters the slab** has been registered. -/
theorem register_armed {socket : Socket} {localAddr peerAddr : NetworkAddress}
    (h : register socket localAddr peerAddr el = .ok ⟨⟩ t) (hj : t.connections.get el.connections.vacantKey = some j) :
    el.connections.vacantKey ∈ t.poll.registered.drop el.poll.registered.length := by
  rw [(register_entered h hj).2]
  change _ ∈ (el.poll.registered ++ [el.connections.vacantKey]).drop el.poll.registered.length
  rw [List.drop_left]
  exact List.mem_singleton_self _

/-- The token is that of a connection. -/
def Event.isIo (ev : Event) : Bool := decide (ev.token ≠ WAKE_TOKEN) && (isListenerToken ev.token).isNone

end EventLoop

/-! ## What a step leaves to do -/

namespace Machine

open EventLoop

variable [Codec κ Msg] [EventHandler η κ Msg] {m m' : Machine η κ} {l : Label η} {k : Nat} {j : Incarnation κ}

/-- A method that goes well goes on to the next phase. -/
theorem call_batch {n : Machine η κ} {p : LoopM η κ Unit} {next : Unit → Phase} (hlive : (n.call p next).phase.Live) :
    (n.call p next).phase.batch = (next ()).batch := by
  unfold call at hlive ⊢
  split
  · rfl
  · rename_i hp
    rw [hp] at hlive
    exact hlive.elim

theorem handleEvent_batch {ev : Event} {evs : List Event} (hlive : (m.handleEvent ev evs).phase.Live) :
    (m.handleEvent ev evs).phase.batch = evs := by
  revert hlive
  unfold handleEvent
  split
  · exact fun _ => rfl
  · split
    · split <;> exact fun _ => rfl
    · exact call_batch

theorem acceptOne_batch {idx : Nat} {ls : List Listener} {evs : List Event}
    (hlive : (m.acceptOne idx ls evs).phase.Live) : (m.acceptOne idx ls evs).phase.batch = evs := by
  revert hlive
  unfold acceptOne
  split
  · exact fun _ => rfl
  · split
    · exact fun _ => rfl
    · split
      · exact False.elim
      · split
        · exact fun _ => rfl
        · exact False.elim

/-- **As long as the loop runs**, an event of the batch is handled in the step or stays in the batch. -/
theorem step_batch (h : step m l = some m') (hlive : m'.phase.Live) {ev : Event} (hev : ev ∈ m.phase.batch) :
    ev ∈ m'.phase.batch ∨ (l = .advance ∧ m.nextEvent = some ev) := by
  cases l with
  | trigger _ | mint _ | handler _ | accept _ _ _ =>
    cases h
    exact Or.inl hev
  | poll evs | pollError e | tick due | drop =>
    unfold step at h
    cases hphase : m.phase <;> rw [hphase] at h hev <;> cases hev <;> cases h
  | advance =>
    have h : m.advance = some m' := h
    unfold advance at h
    cases hphase : m.phase with
    | draining left evs =>
      rw [hphase] at h hev
      cases left with
      | zero => cases h; exact Or.inl hev
      | succ left =>
        dsimp only at h
        split at h
        · cases h
          exact Or.inl hev
        · cases h
          exact Or.inl (call_batch hlive ▸ hev)
    | events evs =>
      rw [hphase] at h hev
      cases evs with
      | nil => cases hev
      | cons ev' evs =>
        cases h
        rcases List.mem_cons.mp hev with rfl | hev
        · exact Or.inr ⟨rfl, nextEvent_eq_some.mpr ⟨evs, hphase⟩⟩
        · exact Or.inl (by rwa [handleEvent_batch hlive])
    | accepting idx ls evs =>
      rw [hphase] at h hev
      cases h
      exact Or.inl (by rwa [acceptOne_batch hlive])
    | start | top | polling pending | ticking | exited res | dropped => rw [hphase] at hev; cases hev

theorem poll_batch {evs : List Event} (h : step m (.poll evs) = some m') : m'.phase.batch = evs := by
  unfold step at h
  cases hphase : m.phase with
  | polling pending =>
    rw [hphase] at h
    cases h
    cases pending <;> rfl
  | _ => rw [hphase] at h; cases h

/-- The keys whose sockets were registered or registered anew from one state to a later one. -/
def armed (m m' : Machine η κ) : List Nat := m'.el.poll.registered.drop m.el.poll.registered.length

/-- **As long as the loop runs**, a live connection was live before, or it was registered at the vacant key. -/
theorem Moves.comes (h : Moves m l m') (hcalm : m.Calm) (hlive : m'.phase.Live)
    (hj : m'.el.connections.get k = some j) : (∃ i, m.el.connections.get k = some i ∧ i.Follows j) ∨
      (k = m.el.connections.vacantKey ∧ k ∈ m.armed m' ∧ j.conn.closed = false) := by
  cases h with
  | idles hel hphase => exact Or.inl ⟨j, hel.connections ▸ hj, .refl j⟩
  | pollFails _ | drops _ | ends _ _ _ _ _ => exact hlive.elim
  | gets priority cmd _ => exact Or.inl ⟨j, hj, .refl j⟩
  | mints n => exact Or.inl ⟨j, hj, .refl j⟩
  | @works _ task el₀ t el' phase nextTick hs hrun hel _ =>
    obtain ⟨hconn, hpoll⟩ : el₀.connections = m.el.connections ∧ el₀.poll = m.el.poll := by
      obtain ⟨h', rfl, -⟩ := hs.withHandle
      exact ⟨rfl, rfl⟩
    rw [hel.connections] at hj
    rw [← hconn]
    rcases hs.effects hcalm with ⟨s, la, pa, rfl, -, rfl⟩ | hl
    · have hrun : register s la pa el₀ = .ok ⟨⟩ t := hrun
      by_cases hk : k = el₀.connections.vacantKey
      · rw [hk] at hj
        refine Or.inr ⟨hk, ?_, (register_entered hrun hj).1 ▸ opening_closed el₀.polled s la pa⟩
        rw [armed, hk, ← hpoll]
        exact mem_drop_extend hel.registered (register_armed hrun hj)
      · exact Or.inl ⟨j, (register_frame hrun hk).symm.trans hj, .refl j⟩
    · exact Or.inl (follows_of_effects (hl.ok hrun) hj)

/-- **The step that handles an event** registers the connection anew, if it is live afterwards. -/
theorem step_armed {ev : Event} (h : step m .advance = some m') (hnext : m.nextEvent = some ev) (hio : ev.isIo)
    (hcalm : m.Calm) (hlive : m'.phase.Live) (hj : m'.el.connections.get ev.token = some j) :
    ev.token ∈ m.armed m' := by
  obtain ⟨evs, hphase⟩ := nextEvent_eq_some.mp hnext
  have hset : m.el.SettledAt ev.token := hcalm (by rw [hphase]; trivial) ev.token
  obtain ⟨hwake, hlistener⟩ := Bool.and_eq_true_iff.mp hio
  have hcall : m.handleEvent ev evs = m.call (processIo ev.token ev) fun _ => .events evs := by
    unfold handleEvent
    rw [if_neg (of_decide_eq_true hwake), Option.isNone_iff_eq_none.mp hlistener]
  have h : m.advance = some m' := h
  unfold advance at h
  rw [hphase] at h
  simp only [hcall, call] at h
  cases hrun : processIo ev.token ev m.el with
  | ok a t =>
    rw [hrun] at h
    cases h
    exact processIo_armed hset hrun hj
  | error e t =>
    rw [hrun] at h
    cases h
    exact hlive.elim

end Machine

/-! ## The poller -/

namespace Socket

/-- What is listed behind a would-block has not arrived yet. -/
def present (s : Socket) : Socket := { s with reads := s.reads.takeWhile (· ≠ .wouldBlock) }

/-- Bytes, the end of the stream or errors arrive. -/
def arrive (answers : List ReadAnswer) (s : Socket) : Socket := { s with reads := s.reads ++ answers }

/-- The bytes that can be read before the end of the stream or an error, and what is behind them. -/
def leading : List ReadAnswer → Bytes × List ReadAnswer
  | .data (b :: bs) :: answers => (b :: bs ++ (leading answers).1, (leading answers).2)
  | answers => ([], answers)

/-- The reads will get the same bytes in other pieces. -/
def regroup (bss : List Bytes) (s : Socket) : Socket :=
  if bss.flatten = (leading s.reads).1 ∧ [] ∉ bss then { s with reads := bss.map .data ++ (leading s.reads).2 } else s

/-- The next read fails, with an error of the system or because it is interrupted. -/
def fail (code : Option Nat) (s : Socket) : Socket :=
  { s with reads := (match code with | none => .interrupted | some code => .fatal code) :: s.reads }

end Socket

/-- A loop under an edge-triggered poller. -/
structure EdgeTriggered (η κ : Type) where
  machine : Machine η κ
  /-- for each key, the incarnation whose socket has a readable event that is not delivered yet -/
  pending : Nat → Option Nat

inductive EdgeLabel (η : Type)
  | loop (l : Label η)
  /-- something arrives at the socket of the connection at a key -/
  | arrives (key : Nat) (answers : List ReadAnswer)
  | regroups (key : Nat) (bss : List Bytes)
  | fails (key : Nat) (code : Option Nat)
  /-- the poller reports the socket once more, for no reason -/
  | signals (key : Nat)

/-- The poll delivers an event for the connection at the key. -/
def Label.delivers : Label η → Nat → Bool
  | .poll evs, key => evs.any fun ev => ev.isIo && ev.token == key
  | _, _ => false

namespace EdgeTriggered

open EventLoop Runs

/-- The socket of the connection at a key changes. -/
def onSocket (s : EdgeTriggered η κ) (key : Nat) (f : Socket → Socket) : EdgeTriggered η κ :=
  match s.machine.el.connections.get key with
  | none => s
  | some i => { s with machine := { s.machine with el := s.machine.el.setIncarnation key (i.onSocket f) } }

/-- The poller has an event for every one of the keys whose connection has unread input. -/
def report (s : EdgeTriggered η κ) (keys : Nat → Bool) : EdgeTriggered η κ :=
  { s with pending := fun key =>
      match s.machine.el.connections.get key with
      | none => s.pending key
      | some i => if keys key ∧ i.Unread then some i.id else s.pending key }

variable [Codec κ Msg] [EventHandler η κ Msg]

/-- The poller delivers an event once. It has a new one for the sockets with unread input that the step has registered
or registered anew, and when input arrives. -/
def step (s : EdgeTriggered η κ) : EdgeLabel η → Option (EdgeTriggered η κ)
  | .loop l =>
    (Machine.step s.machine l).map fun machine =>
      let pending := fun key => if l.delivers key then none else s.pending key
      let s' : EdgeTriggered η κ := { machine, pending }
      (s'.onSocket s.machine.el.connections.vacantKey Socket.present).report (s.machine.armed machine).contains
  | .arrives key answers =>
    if .wouldBlock ∈ answers then none
    else some ((s.onSocket key (Socket.arrive answers)).report fun k => k == key && answers.any ReadAnswer.isInput)
  | .regroups key bss => some (s.onSocket key (Socket.regroup bss))
  | .fails key code => some (s.onSocket key (Socket.fail code))
  | .signals key => some (s.report (· == key))

omit [Codec κ Msg] [EventHandler η κ Msg] in
def initial (el : EventLoop η κ) : EdgeTriggered η κ := ⟨Machine.initial el, fun _ => none⟩

/-! ## What is left to do is never forgotten -/

/-- Something is left to do for the connection at the key: an event to be delivered, an event of the last poll, or a
`Read` in a queue. -/
def Awaits (s : EdgeTriggered η κ) (key : Nat) (i : Incarnation κ) : Prop :=
  s.pending key = some i.id ∨ (∃ ev ∈ s.machine.phase.batch, ev.isIo ∧ ev.token = key) ∨
    ∃ q ∈ s.machine.el.handle.queued, q.cmd = .read key

/-- The connection is open, what is listed for its reads is there, and unread input waits for something. -/
structure Attends (s : EdgeTriggered η κ) (key : Nat) (i : Incarnation κ) : Prop where
  closed : i.conn.closed = false
  present : .wouldBlock ∉ i.reads
  awaits : i.Unread → s.Awaits key i

structure Attended (s : EdgeTriggered η κ) : Prop where
  calm : s.machine.Calm
  live : s.machine.phase.Live → ∀ k i, s.machine.el.connections.get k = some i → s.Attends k i

omit [Codec κ Msg] [EventHandler η κ Msg]

variable {s : EdgeTriggered η κ} {key k : Nat} {i j : Incarnation κ} {f : Socket → Socket} {keys : Nat → Bool}

theorem report_pending (hi : s.machine.el.connections.get k = some i)
    (h : keys k = true ∧ i.Unread ∨ s.pending k = some i.id) : (s.report keys).pending k = some i.id := by
  simp only [report, hi]
  split
  · rfl
  · rename_i hno
    exact h.resolve_left hno

theorem report_false (s : EdgeTriggered η κ) : s.report (fun _ => false) = s := by
  unfold report
  congr 1
  funext k
  cases s.machine.el.connections.get k <;> simp

/-- A report takes nothing away. -/
theorem Awaits.report (hi : s.machine.el.connections.get k = some i) (h : s.Awaits k i) :
    (s.report keys).Awaits k i := h.imp_left fun hp => report_pending hi (Or.inr hp)

theorem Attended.report (h : s.Attended) : (s.report keys).Attended :=
  ⟨h.calm, fun hlive k i hi =>
    { h.live hlive k i hi with awaits := fun hu => ((h.live hlive k i hi).awaits hu).report hi }⟩

/-- Only the socket of one connection changes. -/
theorem onSocket_frame (s : EdgeTriggered η κ) (key : Nat) (f : Socket → Socket) :
    (s.onSocket key f).pending = s.pending ∧ (s.onSocket key f).machine.phase = s.machine.phase ∧
      (s.onSocket key f).machine.el.handle = s.machine.el.handle := by
  unfold onSocket
  split <;> exact ⟨rfl, rfl, rfl⟩

theorem get_onSocket (s : EdgeTriggered η κ) (key : Nat) (f : Socket → Socket) (k : Nat) :
    (s.onSocket key f).machine.el.connections.get k =
      if k = key then (s.machine.el.connections.get key).map (·.onSocket f) else s.machine.el.connections.get k := by
  unfold onSocket
  cases hi : s.machine.el.connections.get key with
  | none =>
    by_cases hk : k = key
    · rw [if_pos hk, hk]
      exact hi
    · rw [if_neg hk]
  | some i => exact get_setIncarnation hi _ k

theorem Awaits.onSocket (h : s.Awaits k i) (hid : j.id = i.id) : (s.onSocket key f).Awaits k j := by
  obtain ⟨hp, hphase, hhandle⟩ := onSocket_frame s key f
  unfold Awaits
  rw [hp, hphase, hhandle, hid]
  exact h

theorem calm_onSocket (h : s.machine.Calm) : (s.onSocket key f).machine.Calm := by
  intro hlive k j hj
  rw [(onSocket_frame s key f).2.1] at hlive
  rw [get_onSocket] at hj
  split at hj
  · obtain ⟨i, hi, rfl⟩ := Option.map_eq_some_iff.mp hj
    exact h hlive key i hi
  · exact h hlive k j hj

end EdgeTriggered

namespace Incarnation

variable {i : Incarnation κ} {f : Socket → Socket}

/-- What holds of the answers of every socket that is changed so holds of the answers of the connection. -/
theorem onSocket_reads {P : List ReadAnswer → List ReadAnswer → Prop} (hnil : P [] [])
    (h : ∀ t : Socket, P t.reads (f t).reads) (i : Incarnation κ) : P i.reads (i.onSocket f).reads := by
  unfold reads onSocket
  cases i.conn.socket with
  | none => exact hnil
  | some t => exact h t

end Incarnation

namespace Socket

theorem leading_spec : ∀ answers : List ReadAnswer, ∃ chunks : List Bytes,
    answers = chunks.map .data ++ (leading answers).2 ∧ chunks.flatten = (leading answers).1
  | [] => ⟨[], rfl, rfl⟩
  | .data [] :: answers => ⟨[], rfl, rfl⟩
  | .data (b :: bs) :: answers => by
    obtain ⟨chunks, heq, hbytes⟩ := leading_spec answers
    refine ⟨(b :: bs) :: chunks, ?_, ?_⟩
    · rw [leading, List.map_cons, List.cons_append, ← heq]
    · rw [leading, List.flatten_cons, hbytes]
  | .wouldBlock :: answers => ⟨[], rfl, rfl⟩
  | .interrupted :: answers => ⟨[], rfl, rfl⟩
  | .fatal code :: answers => ⟨[], rfl, rfl⟩

/-- Regrouped answers bring input if there was some. -/
theorem regroup_reads (bss : List Bytes) (s : Socket) :
    (.wouldBlock ∉ s.reads → .wouldBlock ∉ (s.regroup bss).reads) ∧
      ((s.regroup bss).reads.any ReadAnswer.isInput → s.reads.any ReadAnswer.isInput) := by
  unfold regroup
  split
  · rename_i hsame
    obtain ⟨chunks, heq, hbytes⟩ := leading_spec s.reads
    constructor
    · intro hno hmem
      rcases List.mem_append.mp hmem with hmem | hmem
      · simp at hmem
      · exact hno (heq ▸ List.mem_append_right _ hmem)
    · intro hany
      obtain ⟨a, ha, hin⟩ := List.any_eq_true.mp hany
      rcases List.mem_append.mp ha with ha | ha
      · cases chunks with
        | nil =>
          -- no bytes lead, so there are no pieces either
          cases bss with
          | nil => cases ha
          | cons bs bss =>
            have hnil : bs ++ bss.flatten = [] := hsame.1.trans hbytes.symm
            exact absurd ((List.append_eq_nil_iff.mp hnil).1 ▸ List.mem_cons_self) hsame.2
        | cons chunk chunks =>
          rw [heq]
          rfl
      · rw [heq, List.any_append, Bool.or_eq_true]
        exact Or.inr (List.any_eq_true.mpr ⟨a, ha, hin⟩)
  · exact ⟨id, id⟩

end Socket

namespace EdgeTriggered

open EventLoop Runs

variable {s s' : EdgeTriggered η κ} {key k : Nat} {i j : Incarnation κ} {f : Socket → Socket} {keys : Nat → Bool}

/-- A change that brings no would-block keeps the connection attended, if what it makes readable is reported. -/
theorem Attended.onSocket (h : s.Attended) (hpresent : ∀ t : Socket, .wouldBlock ∉ t.reads → .wouldBlock ∉ (f t).reads)
    (hunread : ∀ t : Socket, (f t).reads.any ReadAnswer.isInput → t.reads.any ReadAnswer.isInput ∨ keys key = true) :
    ((s.onSocket key f).report keys).Attended := by
  refine ⟨calm_onSocket h.calm, fun hrunning k j (hj : (s.onSocket key f).machine.el.connections.get k = some j) => ?_⟩
  have hlive : s.machine.phase.Live := (onSocket_frame s key f).2.1 ▸ hrunning
  have hget := hj
  rw [get_onSocket] at hget
  split at hget
  · rename_i hk
    subst hk
    obtain ⟨i, hi, rfl⟩ := Option.map_eq_some_iff.mp hget
    have ha := h.live hlive k i hi
    refine ⟨ha.closed, Incarnation.onSocket_reads (P := fun a b => .wouldBlock ∉ a → .wouldBlock ∉ b) id hpresent i
      ha.present, fun hu => ?_⟩
    have hor : i.Unread ∨ keys k = true := Incarnation.onSocket_reads
      (P := fun a b => b.any ReadAnswer.isInput → a.any ReadAnswer.isInput ∨ keys k = true) (by simp) hunread i hu
    rcases hor with hi' | hk
    · exact ((ha.awaits hi').onSocket rfl).report hj
    · exact Or.inl (report_pending hj (Or.inl ⟨hk, hu⟩))
  · have ha := h.live hlive k j hget
    exact { ha with awaits := fun hu => ((ha.awaits hu).onSocket rfl).report hj }

variable [Codec κ Msg] [EventHandler η κ Msg] {m m' : Machine η κ} {l : Label η}

/-- What was left to do for a connection that is live on, still has unread input and is not reported in the step. -/
theorem Awaits.step (h : s.Awaits k i) (hcalm : s.machine.Calm) (ha : s.Attends k i)
    (hi : s.machine.el.connections.get k = some i) (hstep : Machine.step s.machine l = some m) (hlive : m.phase.Live)
    (hj : m.el.connections.get k = some j) (hij : i.Follows j) (hu : j.Unread)
    (hkeys : k ∉ s.machine.armed m) :
    Awaits ⟨m, fun key => if l.delivers key then none else s.pending key⟩ k j := by
  rcases h with hp | ⟨ev, hev, hio, hk⟩ | ⟨q, hq, hcmd⟩
  · cases hd : l.delivers k with
    | false =>
      left
      simp only [hd, hij.id, hp]
      rfl
    | true =>
      cases l with
      | poll evs =>
        obtain ⟨ev, hev, hk⟩ := List.any_eq_true.mp hd
        obtain ⟨hio, hk⟩ := Bool.and_eq_true_iff.mp hk
        refine Or.inr (Or.inl ⟨ev, ?_, hio, eq_of_beq hk⟩)
        show ev ∈ m.phase.batch
        rwa [Machine.poll_batch hstep]
      | _ => cases hd
  · rcases Machine.step_batch hstep hlive hev with hev | ⟨rfl, hnext⟩
    · exact Or.inr (Or.inl ⟨ev, hev, hio, hk⟩)
    · subst hk
      exact absurd (Machine.step_armed hstep hnext hio hcalm hlive hj) hkeys
  · have hmoves := Machine.step_moves hstep
    rcases hmoves.waiting hcalm hq (by simp [hcmd]) hlive with hq | ⟨el₀, t, hs, hrun, hel⟩
    · exact Or.inr (Or.inr ⟨q, hq, hcmd⟩)
    · rw [hcmd] at hs hrun
      have hconn : el₀.connections = s.machine.el.connections := by
        obtain ⟨h', rfl, -⟩ := hs.withHandle
        rfl
      have hopen : ∀ i', el₀.connections.get k = some i' → i'.conn.closed = false ∧ .wouldBlock ∉ i'.reads := by
        intro i' hi'
        rw [hconn] at hi'
        cases hi.symm.trans hi'
        exact ⟨ha.closed, ha.present⟩
      rw [hel.connections] at hj
      rcases readSocket_reads hopen hrun hj with hnil | ⟨q, hq, hcmd⟩
      · rw [Incarnation.Unread, hnil] at hu
        cases hu
      · exact Or.inr (Or.inr ⟨q, hel.change.grown.queued q hq, hcmd⟩)

theorem Attended.loop (h : s.Attended) (hstep : s.step (.loop l) = some s') : s'.Attended := by
  obtain ⟨m, hm, rfl⟩ := Option.map_eq_some_iff.mp hstep
  have hmoves := Machine.step_moves hm
  let t : EdgeTriggered η κ := ⟨m, fun key => if l.delivers key then none else s.pending key⟩
  have hcalm : t.machine.Calm := hmoves.calm h.calm
  refine ⟨calm_onSocket hcalm, fun hrunning k j hj => ?_⟩
  have hlive : m.phase.Live := (onSocket_frame t _ _).2.1 ▸ hrunning
  have hj : (t.onSocket s.machine.el.connections.vacantKey Socket.present).machine.el.connections.get k = some j := hj
  have hget := hj
  rw [get_onSocket] at hget
  split at hget
  · -- the vacant key: the connection has been registered in this step
    rename_i hk
    obtain ⟨j₀, hj₀, rfl⟩ := Option.map_eq_some_iff.mp hget
    rcases hmoves.comes h.calm hlive hj₀ with ⟨i, hi, -⟩ | ⟨-, harmed, hclosed⟩
    · cases (Slab.get_vacantKey s.machine.el.connections).symm.trans hi
    · have hpresent : .wouldBlock ∉ (j₀.onSocket Socket.present).reads :=
        Incarnation.onSocket_reads (P := fun _ b => .wouldBlock ∉ b) (by simp)
          (fun t hmem => by simpa using List.mem_takeWhile_imp hmem) j₀
      refine ⟨hclosed, hpresent, fun hu => Or.inl (report_pending hj (Or.inl ⟨?_, hu⟩))⟩
      rw [hk]
      exact List.contains_iff_mem.mpr harmed
  · rename_i hk
    rcases hmoves.comes h.calm hlive hget with ⟨i, hi, hij⟩ | ⟨hvacant, -⟩
    · have ha := h.live (hmoves.live hlive) k i hi
      refine ⟨hij.closed.trans ha.closed, fun hmem => ha.present (hij.reads.subset hmem), fun hu => ?_⟩
      by_cases hkeys : k ∈ s.machine.armed m
      · exact Or.inl (report_pending hj (Or.inl ⟨List.contains_iff_mem.mpr hkeys, hu⟩))
      · have hawaits : t.Awaits k j := (ha.awaits (hij.unread hu)).step h.calm ha hi hm hlive hget hij hu hkeys
        exact (hawaits.onSocket rfl).report hj
    · exact absurd hvacant hk

theorem Attended.step (h : s.Attended) {l : EdgeLabel η} (hstep : s.step l = some s') : s'.Attended := by
  cases l with
  | loop l => exact h.loop hstep
  | arrives key answers =>
    simp only [EdgeTriggered.step] at hstep
    split at hstep
    · cases hstep
    · rename_i hno
      cases hstep
      refine h.onSocket (fun t ht hmem => (List.mem_append.mp hmem).elim ht hno) fun t hany => ?_
      rw [Socket.arrive, List.any_append, Bool.or_eq_true] at hany
      exact hany.imp_right fun ha => by simp [ha]
  | regroups key bss =>
    cases hstep
    have hr := Socket.regroup_reads bss
    rw [← report_false (s.onSocket key _)]
    exact h.onSocket (fun t => (hr t).1) fun t hany => Or.inl ((hr t).2 hany)
  | fails key code =>
    cases hstep
    rw [← report_false (s.onSocket key _)]
    refine h.onSocket (fun t ht hmem => ?_) fun t hany => Or.inl ?_
    · rcases List.mem_cons.mp hmem with hmem | hmem
      · cases code <;> cases hmem
      · exact ht hmem
    · simp only [Socket.fail, List.any_cons, Bool.or_eq_true] at hany
      exact hany.resolve_left (by cases code <;> simp [ReadAnswer.isInput])
  | signals key =>
    cases hstep
    exact h.report

/-- **No stranded input.** Whenever the loop is about to poll, every live connection with unread input has an event that
the poller has not delivered yet, or is named by a waiting `Read` command. -/
theorem no_stranded_input {el : EventLoop η κ} (hfresh : el.Fresh) {ls : List (EdgeLabel η)}
    (hrun : run step (initial el) ls = some s) {pending : Bool} (hphase : s.machine.phase = .polling pending)
    (hi : s.machine.el.connections.get k = some i) (hu : i.Unread) :
    s.pending k = some i.id ∨ ∃ q ∈ s.machine.el.handle.queued, q.cmd = .read k := by
  have h0 : (initial el).Attended := ⟨Machine.initial_calm hfresh, fun _ k i hi => by
    simp [initial, Machine.initial, hfresh.connections] at hi⟩
  have h : s.Attended := run_invariant' (fun _ _ _ h hstep => h.step hstep) h0 hrun
  have hlive : s.machine.phase.Live := by rw [hphase]; trivial
  rcases (h.live hlive k i hi).awaits hu with hp | ⟨ev, hev, -⟩ | hq
  · exact Or.inl hp
  · rw [hphase] at hev
    cases hev
  · exact Or.inr hq

/-! ## A run -/

/-- A connection comes, a byte arrives, and the poller delivers an event that says the socket is writable only. -/
def partialEvent : List (EdgeLabel Doorman) :=
  [.loop (.accept ⟨4, [], [], [], [], none⟩ (.tcp "a") (.tcp "b")), .loop .advance, .loop .advance, .loop (.poll []),
    .loop .advance, .loop .advance, .loop .advance, .loop (.tick false), .loop .advance, .arrives 0 [.data [1]],
    .loop (.poll [⟨0, false, true, false, false⟩]), .loop .advance, .loop .advance, .loop (.tick false), .loop .advance]

/-- The event has used up the edge, and the registration that ends it has made another one. -/
theorem no_stranded_input_partialEvent : ∃ s i pending, run step (initial (doormanLoop .admits)) partialEvent = some s ∧
    s.machine.phase = .polling pending ∧ s.machine.el.connections.get 0 = some i ∧ i.Unread ∧
      (s.pending 0 = some i.id ∨ ∃ q ∈ s.machine.el.handle.queued, q.cmd = .read 0) := by
  have hrun : (run step (initial (doormanLoop .admits)) partialEvent).any
      (fun s => s.machine.phase.polls && (s.machine.el.connections.get 0).any fun i => decide i.Unread) = true := by
    decide +kernel
  obtain ⟨s, hs, hat⟩ := exists_of_any hrun
  rw [Bool.and_eq_true] at hat
  obtain ⟨pending, hphase⟩ := Phase.polls_iff.mp hat.1
  obtain ⟨i, hi, hu⟩ := exists_of_any hat.2
  have hu := of_decide_eq_true hu
  exact ⟨s, i, pending, hs, hphase, hi, hu, no_stranded_input (new_fresh _ _ _ _ _ _ _) hs hphase hi hu⟩

end EdgeTriggered
end Rnet
