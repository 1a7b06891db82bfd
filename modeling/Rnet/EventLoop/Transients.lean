import Rnet.EventLoop.AsyncWrites
import Rnet.EventLoop.Consistency
import Rnet.EventLoop.Handed
import Rnet.EventLoop.LastOutput
import Rnet.EventLoop.Shares

/-!
# Transient results of a socket

A socket may answer a call with `WouldBlock` or `Interrupted`, which says nothing about the connection. All writes take
both as a reason to try again later. `process_read` takes `WouldBlock` as the end of the input for now, and
`Interrupted` as an error that closes the connection. So a connection whose socket gives only such answers, and bytes,
stays, and nothing it has received or accepted is lost, if and only if no read is interrupted
(`transient_results_keep`).

A read pass is followed from iteration to iteration (`readOnce_pass` to `readSocket_pass`). All else that the loop does
at the key of the connection only writes to it and registers it (`Serves`).
-/

namespace Rnet

open Programs Relation Connection

variable {η κ Msg : Type}

/-! ## Reading -/

/-- The handler answers `Action::None` in every callback whose answer the loop looks at. -/
structure Obliging (η : Type) {κ Msg : Type} [EventHandler η κ Msg] : Prop where
  onOpen : ∀ (h : η) (c : Connection κ), (EventHandler.onOpen h c).1.action = .none
  onTraffic : ∀ (h : η) (c : Connection κ), (EventHandler.onTraffic h c).1.action = .none
  onTick : ∀ (h : η) (conns : List (Nat × Connection κ)), (EventHandler.onTick h conns).1.action = .none

/-- The loop of `process_read` comes to an interrupted read: the socket does not block before it, and the batch is not
full. -/
def interrupts (maxBatch offered : Nat) : List ReadAnswer → Nat → Bool
  | [], _ => false
  | a :: answers, bytesRead =>
    if maxBatch ≤ bytesRead then false
    else
      match a with
      | .data bs => interrupts maxBatch offered answers (bytesRead + (bs.take offered).length)
      | .interrupted => true
      | .wouldBlock | .fatal _ => false

namespace Incarnation

/-- A read pass on the connection comes to an interrupted read. -/
def interrupted (options : Options) (i : Incarnation κ) : Bool :=
  !i.conn.closed && interrupts options.maxBatchSize options.readBufferCap i.reads 0

variable {i : Incarnation κ} {s s' : Socket} {bs : Bytes}

theorem received_of_socket (hs : i.conn.socket = some s) : i.received = s.received := by
  rw [received, hs]
  rfl

/-- The connection with the bytes of a read. -/
theorem passes_receive (hs : i.conn.socket = some s) (hset : i.conn.Settled) {a : ReadAnswer} {n : Nat}
    (ha : s.answerRead a n = (.ok bs, s')) :
    i.Passes bs [] { i with conn := { i.conn with socket := some s' }.receive bs } := by
  cases a with
  | data ds =>
    cases ha
    refine ⟨rfl, ?_, ?_, ?_⟩
    · rw [received_of_socket hs]
      rfl
    · have hun : i.conn.unread = i.conn.inBuffer.getD [] := by rw [Connection.unread, hset, List.append_nil]
      rw [hun]
      rfl
    · simp [Connection.outStream, Connection.sent, Connection.queued, Connection.receive, hs]
  | wouldBlock | interrupted | fatal _ => cases ha

theorem passes_carryOver (i : Incarnation κ) : i.Passes [] [] { i with conn := i.conn.carryOver } := by
  have hc := i.conn.carryOver_carries
  refine ⟨rfl, ?_, ?_, ?_⟩
  · simp only [received, hc.socket, List.append_nil]
  · simp only [hc.unread, List.append_nil]
  · simp only [Connection.outStream, Connection.sent, Connection.queued, hc.socket, hc.outBuffer, List.append_nil]

/-- An error of the socket that says nothing about the connection. -/
theorem passes_transient (hs : i.conn.socket = some s) {a : ReadAnswer} {n : Nat} {e : IoError}
    (ha : s.answerRead a n = (.error e, s')) : i.Passes [] [] { i with conn := { i.conn with socket := some s' } } := by
  have hsame : s'.received = s.received ∧ s'.taken = s.taken := by
    cases a <;> cases ha <;> exact ⟨rfl, rfl⟩
  refine ⟨rfl, ?_, (List.append_nil _).symm, ?_⟩
  · rw [received_of_socket hs, List.append_nil]
    exact hsame.1
  · simp [Connection.outStream, Connection.sent, Connection.queued, hs, hsame.2]

/-- What is still to come is a part of what was to come. -/
theorem Transient.later {j : Incarnation κ} (h : i.Transient) (hw : i.conn.Later j.conn)
    (hr : j.reads <:+ i.reads) : j.Transient where
  writes := by
    obtain ⟨s, hs, hh⟩ := h.writes
    rcases hw with hw | ⟨s₀, t, hs₀, ht, hl⟩
    · exact ⟨s, hw.trans hs, hh⟩
    · cases hs.symm.trans hs₀
      exact ⟨t, ht, hh.of_suffix hl.writes⟩
  reads a ha := h.reads a (hr.subset ha)

end Incarnation

namespace EventLoop

variable [Codec κ Msg] [EventHandler η κ Msg] {el t u : EventLoop η κ} {k : Nat} {i : Incarnation κ} {s : Socket}
  {a : ReadAnswer} {r : IoStatus ⊕ Nat}

/-- The socket after a read. -/
theorem later_answerRead (c : Connection κ) {n : Nat} (hs : c.socket = some s) {x : IoResult Bytes} {s' : Socket}
    (ha : s.answerRead a n = (x, s')) : c.Later { c with socket := some s' } := by
  refine Or.inr ⟨s, s', hs, rfl, ?_⟩
  cases a <;> cases ha <;> exact ⟨List.suffix_refl _, List.prefix_refl _, fun _ => rfl⟩

/-- **One read** of a transient socket spares the connection; an interrupted one asks for it to be closed. -/
theorem Reads.spares (hobl : Obliging η) (hi : el.connections.get k = some i) (hs : i.conn.socket = some s)
    (hset : i.conn.Settled) (ha : a.Healthy) (hoffered : 0 < el.offered) (h : Reads k el i s a r t)
    (hreads : ∀ j, t.connections.get k = some j → j.reads <:+ i.reads) :
    Spares k [] el t ∧ (a = .wouldBlock ∧ r = .inl .completed ∨ a = .interrupted ∧ r = .inl (.closed false) ∨
      ∃ bs, a = .data bs ∧ r = .inr (bs.take el.offered).length) := by
  have hbuf : ∀ b, (el.buffered b).connections.get k = some i := fun _ => hi
  cases h with
  | fails e s' b hb hr =>
    refine ⟨.trans (.of_eq rfl rfl) (.set (hbuf b) (Incarnation.passes_transient hs hr) fun htrans =>
      htrans.later (later_answerRead i.conn hs hr) (hreads _ (get_setIncarnation_self (hbuf b) _))), ?_⟩
    cases a with
    | data bs => cases hr
    | wouldBlock =>
      cases hr
      exact Or.inl ⟨rfl, rfl⟩
    | interrupted =>
      cases hr
      exact Or.inr (Or.inl ⟨rfl, rfl⟩)
    | fatal code => exact ha.elim
  | ended s' b hb hr =>
    cases a with
    | data bs =>
      simp only [Socket.answerRead, Prod.mk.injEq, Except.ok.injEq] at hr
      rcases List.take_eq_nil_iff.mp hr.1 with h0 | hnil
      · exact absurd h0 (Nat.ne_of_gt hoffered)
      · exact absurd hnil ha
    | wouldBlock | interrupted | fatal _ => cases hr
  | stopped bs s' b hb hr hne hact => exact absurd (hobl.onTraffic _ _) hact
  | goesOn bs s' b hb hr hne hact =>
    have hget : ((el.buffered b).hears k i s' bs).2.connections.get k = some _ := get_setIncarnation_self (hbuf b) _
    have hend := hreads _ (get_setIncarnation_self (get_setIncarnation_self hget _) _)
    refine ⟨fun i' hi' htrans => ?_, ?_⟩
    · cases hi.symm.trans hi'
      let j := ((el.buffered b).hears k i s' bs).1
      have hconn : j.conn = Op.performAll _ ({ i.conn with socket := some s' }.receive bs) := Op.applyAll_conn _ _ _
      have hlater : ({ i.conn with socket := some s' } : Connection κ).Later j.conn := by
        rw [hconn]
        exact performAll_later _ _
      have hid : j.id = i.id := (Op.applyAll_stable _ _ _).1
      have htrace : ((el.buffered b).hears k i s' bs).2.trace = el.trace ++
          [.traffic { i with conn := { i.conn with socket := some s' }.receive bs } j .none] := by
        rw [← hact]
        rfl
      refine ⟨_, [.inl (.traffic _ j .none), .inl (.merged { j with conn := j.conn.carryOver })],
        get_setIncarnation_self (get_setIncarnation_self hget _) _,
        htrans.later (((later_answerRead i.conn hs hr).trans hlater).trans
          (Or.inl j.conn.carryOver_carries.socket)) hend,
        ?_, rfl, .traffic bs _ (Incarnation.passes_receive hs hset hr) hid hconn
          (.merged (Incarnation.passes_carryOver j) (.rests (.refl _)))⟩
      show ((el.buffered b).hears k i s' bs).2.trace ++ [_] = _
      rw [htrace, List.append_assoc]
      rfl
    · cases a with
      | data ds =>
        cases hr
        exact Or.inr (Or.inr ⟨ds, rfl, rfl⟩)
      | wouldBlock | interrupted | fatal _ => cases hr

/-- The connection at `k` is `i`, ready for a read pass. -/
structure Reading (k : Nat) (i : Incarnation κ) (el : EventLoop η κ) : Prop where
  conn : el.connections.get k = some i
  transient : i.Transient
  settled : el.SettledAt k
  fits : el.Fits
  offers : 0 < el.options.readBufferCap

omit [Codec κ Msg] [EventHandler η κ Msg] in
theorem Reading.offered (h : Reading k i el) : el.offered = el.options.readBufferCap := by
  rw [offered_eq]
  exact Nat.max_eq_right h.fits

/-- **One iteration** of the loop of `process_read`. -/
theorem readOnce_pass (hobl : Obliging η) (h : Reading k i el) (ha : a.Healthy) :
    ∃ r t j, readOnce k a el = .ok r t ∧ Spares k [] el t ∧ Reading k j t ∧ j.reads = i.reads.tail ∧
      t.options = el.options ∧ (a = .wouldBlock ∧ r = .inl .completed ∨ a = .interrupted ∧ r = .inl (.closed false) ∨
        ∃ bs, a = .data bs ∧ r = .inr (bs.take el.options.readBufferCap).length) := by
  obtain ⟨s, hs, -⟩ := h.transient.writes
  obtain ⟨r, t, hrun, hread⟩ := readOnce_of_socket h.conn hs a
  obtain ⟨⟨i', j, hi', hj, htail⟩, -⟩ := readOnce_reads hrun
  cases h.conn.symm.trans hi'
  have hoffered : 0 < el.offered := by
    rw [h.offered]
    exact h.offers
  obtain ⟨hspares, hr⟩ := hread.spares hobl h.conn hs (h.settled i h.conn) ha hoffered fun j' hj' => by
    cases hj.symm.trans hj'
    exact htail ▸ List.tail_suffix _
  obtain ⟨j', es, hj', htrans, -⟩ := hspares i h.conn h.transient
  cases hj.symm.trans hj'
  have hout := hread.outcome h.conn hs h.settled
  have heffects : ReflTransGen (Effect False k) el t := by cases hout <;> assumption
  have hfits : t.options = el.options ∧ t.Fits := invariant_of_steps
    (P := fun t => t.options = el.options ∧ t.Fits) heffects
    (fun _ _ he ht => ⟨he.fits.1.trans ht.1, he.fits.2 ht.2⟩) ⟨rfl, h.fits⟩
  have hset : t.SettledAt k := by
    cases hout with
    | stops _ _ _ hset _ => exact hset
    | goesOn _ _ _ hset => exact hset
    | ends status _ _ hst => rcases hr with ⟨-, hr⟩ | ⟨-, hr⟩ | ⟨_, -, hr⟩ <;> cases hr <;> simp at hst
  refine ⟨r, t, j, hrun, hspares, ⟨hj, htrans, hset, hfits.2, hfits.1 ▸ h.offers⟩, htail, hfits.1, ?_⟩
  rw [← h.offered]
  exact hr

/-- **A read pass** spares the connection, and asks for it to be closed if it comes to an interrupted read. -/
theorem readLoop_pass (hobl : Obliging η) : ∀ (answers : List ReadAnswer) (bytesRead : Nat) (el : EventLoop η κ)
    (i : Incarnation κ), Reading k i el → i.reads = answers → ∃ status t,
      readLoop k answers bytesRead el = .ok status t ∧ Spares k [] el t ∧
        (if interrupts el.options.maxBatchSize el.options.readBufferCap answers bytesRead then status = .closed false
        else status = .completed ∨ status = .yield)
  | [], bytesRead, el, i, h, hreads => by
    unfold readLoop
    rw [Programs.get_bind]
    split
    · exact ⟨_, _, rfl, .refl el, Or.inr rfl⟩
    · obtain ⟨r, t, j, hrun, hspares, -, -, -, hr⟩ := readOnce_pass hobl h (a := .wouldBlock) trivial
      rcases hr with ⟨-, rfl⟩ | ⟨ha, -⟩ | ⟨_, ha, -⟩
      · exact ⟨_, t, by rw [bind_apply, hrun]; rfl, hspares, Or.inl rfl⟩
      · cases ha
      · cases ha
  | a :: answers, bytesRead, el, i, h, hreads => by
    unfold readLoop interrupts
    rw [Programs.get_bind]
    split
    · exact ⟨_, _, rfl, .refl el, Or.inr rfl⟩
    · have ha : a.Healthy := h.transient.reads a (hreads ▸ List.mem_cons_self)
      obtain ⟨r, t, j, hrun, hspares, hj, htail, hopts, hr⟩ := readOnce_pass hobl h ha
      rw [bind_apply, hrun]
      rcases hr with ⟨rfl, rfl⟩ | ⟨rfl, rfl⟩ | ⟨bs, rfl, rfl⟩
      · exact ⟨_, t, rfl, hspares, Or.inl rfl⟩
      · exact ⟨_, t, rfl, hspares, rfl⟩
      · have hrest : j.reads = answers := by rw [htail, hreads]; rfl
        obtain ⟨status, u, hu, hspares', hst⟩ := readLoop_pass hobl answers _ t j hj hrest
        rw [hopts] at hst
        exact ⟨status, u, hu, hspares.trans hspares', hst⟩

theorem readSocket_pass (hobl : Obliging η) (h : Reading k i el) (hrun : readSocket k el = .ok ⟨⟩ t) :
    if i.interrupted el.options then t.connections.get k = none else Spares k [] el t := by
  unfold readSocket processRead at hrun
  rw [bind_apply, Programs.get_bind, h.conn] at hrun
  unfold Incarnation.interrupted
  cases hclosed : i.conn.closed with
  | true =>
    simp only [hclosed, if_true] at hrun
    cases hrun
    exact .refl el
  | false =>
    obtain ⟨status, u, hu, hspares, hst⟩ := readLoop_pass hobl i.reads 0 el i h rfl
    simp only [hclosed, Bool.false_eq_true, if_false] at hrun
    rw [show (i.conn.socket.map Socket.reads).getD [] = i.reads from rfl, hu] at hrun
    simp only [Bool.not_false, Bool.true_and]
    split at hst
    · rename_i hint
      rw [if_pos hint]
      subst hst
      exact closeConnection_ok hrun
    · rename_i hint
      rw [if_neg hint]
      rcases hst with rfl | rfl <;> cases hrun
      · exact hspares
      · exact hspares.trans (.of_eq rfl rfl)

end EventLoop

/-! ## Writing and registering -/

namespace Connection

variable {c : Connection κ}

/-- A socket that has not failed makes no drain fail. -/
theorem drainLoop_healthy (limit : Option Nat) : ∀ (answers : List WriteAnswer) (sock : Socket) (out : List Bytes)
    (written : Nat), (∀ a ∈ answers, a.Healthy) → ∀ e, (drainLoop limit answers sock out written).stop ≠ .failed e := by
  intro answers
  induction answers with
  | nil =>
    intro sock out written _ e
    rw [drainLoop]
    split
    · simp
    · split <;> simp
  | cons a answers ih =>
    intro sock out written ha e
    have hrest : ∀ b ∈ answers, b.Healthy := fun b hb => ha b (List.mem_cons_of_mem _ hb)
    rw [drainLoop]
    split
    · simp
    split
    · simp
    simp only
    split
    · simp
    · exact ih _ _ _ hrest e
    · rename_i e' sock' hw
      have he := Socket.answerWrite_transient (ha a List.mem_cons_self) hw
      split
      · simp
      · rename_i hblock
        rw [if_pos (he.resolve_left hblock)]
        exact ih _ _ _ hrest e

/-- A write pass comes to a call that is answered `Ok(0)`, because it offers nothing. -/
def offersNothing (maxBatch : Nat) (c : Connection κ) : Bool :=
  c.socket.any fun s => (drain (some maxBatch) s c.queued).stop = .tookNothing

/-- A write pass on a socket that has not failed goes on to the end, or yields. -/
theorem Healthy.processWrite_status {maxBatch : Nat} (h : c.Healthy) (hno : c.offersNothing maxBatch = false) :
    (c.processWrite maxBatch).1 = .ok .completed ∨ (c.processWrite maxBatch).1 = .ok .yield := by
  by_cases hq : c.queued = []
  · rw [processWrite_nil hq]
    exact Or.inl rfl
  · obtain ⟨s, hs, hh⟩ := h
    rw [offersNothing, hs] at hno
    rw [processWrite_some hs hq]
    cases hstop : (drain (some maxBatch) s c.queued).stop with
    | drained | blocked => exact Or.inl rfl
    | batchFull => exact Or.inr rfl
    | tookNothing => exact absurd hstop (of_decide_eq_false hno)
    | failed e => exact absurd hstop (drainLoop_healthy _ _ _ _ _ hh e)

/-- A socket that has not failed makes no write fail. -/
theorem Healthy.write_accepts (h : c.Healthy) (data : Bytes) : ∃ n, (c.write data).1 = .ok n := by
  obtain ⟨s, hs, hh⟩ := h
  unfold write Connection.writeOrQueue
  dsimp only
  split
  · exact ⟨_, rfl⟩
  · simp only [hs]
    rcases hw : s.write data with ⟨⟨e⟩ | ⟨n⟩, s'⟩
    · have ha : (s.writes.headD .wouldBlock).Healthy := by
        cases hws : s.writes with
        | nil => trivial
        | cons a rest => exact hh a (hws ▸ List.mem_cons_self)
      have he : e.isTransient = true := by
        rcases Socket.answerWrite_transient ha hw with he | he <;> simp [IoError.isTransient, he]
      simp only [he, if_true]
      exact ⟨_, rfl⟩
    · exact ⟨_, rfl⟩

end Connection

namespace EventLoop

variable [Codec κ Msg] [EventHandler η κ Msg] {el t u : EventLoop η κ} {k : Nat} {i : Incarnation κ}

/-- The loop did nothing with the connection `i` at `k` but to write to it and to register it. -/
structure Serves (k : Nat) (i j : Incarnation κ) (data : Bytes) (el t : EventLoop η κ) : Prop where
  conn : t.connections.get k = some j
  trace : t.trace = el.trace
  passes : i.Passes [] data j
  transient : i.Transient → j.Transient
  reads : j.reads = i.reads
  closed : j.conn.closed = i.conn.closed
  settled : i.conn.Settled → j.conn.Settled
  options : t.options = el.options
  ioBuffer : t.ioBuffer = el.ioBuffer

namespace Serves

omit [Codec κ Msg] [EventHandler η κ Msg]

variable {j l : Incarnation κ} {data data' : Bytes}

theorem trans (h : Serves k i j data el t) (h' : Serves k j l data' t u) : Serves k i l (data ++ data') el u where
  conn := h'.conn
  trace := h'.trace.trans h.trace
  passes := h.passes.trans h'.passes
  transient := h'.transient ∘ h.transient
  reads := h'.reads.trans h.reads
  closed := h'.closed.trans h.closed
  settled := h'.settled ∘ h.settled
  options := h'.options.trans h.options
  ioBuffer := h'.ioBuffer.trans h.ioBuffer

/-- The output of the connection moves, or grows. -/
theorem output {c : Connection κ} (hi : el.connections.get k = some i) (h : i.conn.SameInput c)
    (hw : i.conn.Healthy → c.Healthy) (hout : c.outStream = i.conn.outStream ++ data) :
    Serves k i { i with conn := c } data el (el.setIncarnation k { i with conn := c }) where
  conn := get_setIncarnation_self hi _
  trace := rfl
  passes := by
    refine ⟨rfl, ?_, ?_, hout⟩
    · rw [Incarnation.received, Incarnation.received, List.append_nil]
      have hr : c.socket.map Socket.received = i.conn.socket.map Socket.received :=
        Socket.map_of_inputSide (fun x => x.2.2.1) h.socket
      rw [hr]
    · rw [List.append_nil]
      exact h.unread
  transient htrans := ⟨hw htrans.writes, by
    rw [Incarnation.reads_of_inputSide (i := i) h.socket]
    exact htrans.reads⟩
  reads := Incarnation.reads_of_inputSide h.socket
  closed := h.closed
  settled := h.stable.settled
  options := rfl
  ioBuffer := rfl

theorem reading (h : Serves k i j data el t) (hr : Reading k i el) : Reading k j t where
  conn := h.conn
  transient := h.transient hr.transient
  settled j' hj' := by
    cases h.conn.symm.trans hj'
    exact h.settled (hr.settled i hr.conn)
  fits := by
    rw [Fits, h.ioBuffer, h.options]
    exact hr.fits
  offers := h.options ▸ hr.offers

theorem interrupted (h : Serves k i j data el t) : j.interrupted t.options = i.interrupted el.options := by
  rw [Incarnation.interrupted, Incarnation.interrupted, h.reads, h.closed, h.options]

theorem spares [Codec κ Msg] [EventHandler η κ Msg] (h : Serves k i j [] el t) (hi : el.connections.get k = some i) :
    Spares k [] el t := by
  intro i' hi' htrans
  cases hi.symm.trans hi'
  exact ⟨j, [], h.conn, h.transient htrans, h.trace.trans (List.append_nil _).symm, rfl, .rests h.passes⟩

theorem spares_write [Codec κ Msg] [EventHandler η κ Msg] (h : Serves k i j data el t)
    (hi : el.connections.get k = some i) : Spares k [data] el t := by
  intro i' hi' htrans
  cases hi.symm.trans hi'
  exact ⟨j, [.inr data], h.conn, h.transient htrans, h.trace.trans (List.append_nil _).symm, rfl,
    .writes data h.passes (.rests (.refl j))⟩

end Serves

omit [Codec κ Msg] [EventHandler η κ Msg] in
theorem reregister_serves (hi : el.connections.get k = some i) (h : reregister k el = .ok ⟨⟩ t) :
    ∃ j, Serves k i j [] el t := by
  rcases reregister_ok h with ⟨hnone, -⟩ | ⟨i', s, hi', hs, rfl⟩
  · cases hnone.symm.trans hi
  · cases hi.symm.trans hi'
    have hpolled : (el.polled.registering k).connections.get k = some i := hi
    refine ⟨_, get_setIncarnation_self hpolled _, rfl, ⟨rfl, ?_, (List.append_nil _).symm, ?_⟩, fun htrans =>
      htrans.later (Or.inr ⟨s, _, hs, rfl, List.suffix_refl _, List.prefix_refl _, fun _ => rfl⟩) ?_, ?_, rfl, id, rfl,
      rfl⟩
    · rw [Incarnation.received_of_socket hs, List.append_nil]
      rfl
    · simp [Connection.outStream, Connection.sent, Connection.queued, hs]
    · rw [Incarnation.reads_of_socket hs]
      exact List.suffix_refl _
    · rw [Incarnation.reads_of_socket hs]
      rfl

theorem writeSocket_serves (h : Reading k i el) (hno : i.conn.offersNothing el.options.maxBatchSize = false)
    (hrun : writeSocket k el = .ok ⟨⟩ t) : ∃ j, Serves k i j [] el t := by
  unfold writeSocket at hrun
  obtain ⟨status, u, hu, hrun⟩ := bind_ok.mp hrun
  rcases processWrite_ok hu with ⟨hnone, -⟩ | ⟨i', hi', hstatus, rfl⟩
  · cases hnone.symm.trans h.conn
  · cases h.conn.symm.trans hi'
    have hserves := Serves.output h.conn (i.conn.processWrite_sameInput el.options.maxBatchSize)
      (fun hh => hh.processWrite _) ((i.conn.processWrite_stream _).trans (List.append_nil _).symm)
    rcases h.transient.writes.processWrite_status hno with hr | hr <;> cases hr.symm.trans hstatus
    · obtain ⟨j, hj⟩ := reregister_serves hserves.conn hrun
      exact ⟨j, hserves.trans hj⟩
    · cases hrun
      exact ⟨_, { hserves with }⟩

/-- The bytes a command hands to the connection at `k`. -/
def handed (k : Nat) (el : EventLoop η κ) : Command → Option Bytes
  | .asyncWrite gfd data =>
    if gfd.slabIndex = k ∧ gfd.eventLoopIndex = el.loopId.toNat ∧ (el.connections.get k).any (·.conn.gfd = gfd) then
      some data
    else none
  | _ => none

theorem asyncWrite_spares {gfd : Gfd} {data : Bytes} (h : Reading gfd.slabIndex i el)
    (hrun : asyncWrite gfd data el = .ok ⟨⟩ t) :
    Spares gfd.slabIndex (el.handed gfd.slabIndex (.asyncWrite gfd data)).toList el t := by
  unfold asyncWrite at hrun
  rw [get_bind] at hrun
  dsimp only at hrun
  by_cases hl : gfd.eventLoopIndex = el.loopId.toNat
  · rw [if_neg (not_not_intro hl), h.conn] at hrun
    simp only at hrun
    by_cases hg : i.conn.gfd = gfd
    · rw [if_neg (not_not_intro hg), set_bind] at hrun
      obtain ⟨n, hn⟩ := h.transient.writes.write_accepts data
      rw [hn] at hrun
      have hout := i.conn.write_stream data
      rw [hn] at hout
      have hserves := Serves.output h.conn (i.conn.write_sameInput data) (fun hh => hh.writeBytes data) hout
      obtain ⟨j, hj⟩ := reregister_serves hserves.conn hrun
      have hdata : el.handed gfd.slabIndex (.asyncWrite gfd data) = some data :=
        if_pos ⟨rfl, hl, by rw [h.conn]; exact decide_eq_true hg⟩
      rw [hdata]
      exact (List.append_nil data ▸ hserves.trans hj).spares_write h.conn
    · rw [if_pos hg] at hrun
      cases hrun
      have hdata : el.handed gfd.slabIndex (.asyncWrite gfd data) = none :=
        if_neg fun hall => hg (by simpa [h.conn] using hall.2.2)
      rw [hdata]
      exact .refl el
  · rw [if_pos hl] at hrun
    cases hrun
    have hdata : el.handed gfd.slabIndex (.asyncWrite gfd data) = none := if_neg fun hall => hl hall.2.1
    rw [hdata]
    exact .refl el

/-! ## Commands and events -/

theorem readLoop_obliging (hobl : Obliging η) : ∀ (answers : List ReadAnswer)
    (bytesRead : Nat) (el : EventLoop η κ), readLoop k answers bytesRead el ≠ .ok .shutdown t := by
  -- an iteration ends with a shutdown only if `on_traffic` asks for it
  have honce : ∀ {a : ReadAnswer} {el u : EventLoop η κ}, readOnce k a el ≠ .ok (.inl .shutdown) u := fun hu => by
    obtain ⟨i, s, -, -, hread⟩ := readOnce_some hu
    generalize hr : (Sum.inl .shutdown : IoStatus ⊕ Nat) = r at hread
    cases hread with
    | fails e s' b _ _ => split at hr <;> cases hr
    | ended | goesOn => cases hr
    | stopped bs s' b _ _ _ hact => exact hact (hobl.onTraffic _ _)
  intro answers
  induction answers with
  | nil =>
    intro bytesRead el h
    unfold readLoop at h
    rw [Programs.get_bind] at h
    split at h
    · cases h
    · obtain ⟨r, u, hu, h⟩ := bind_ok.mp h
      cases r with
      | inl status =>
        cases h
        exact honce hu
      | inr n => cases h
  | cons a answers ih =>
    intro bytesRead el h
    unfold readLoop at h
    rw [Programs.get_bind] at h
    split at h
    · cases h
    · obtain ⟨r, u, hu, h⟩ := bind_ok.mp h
      cases r with
      | inl status =>
        cases h
        exact honce hu
      | inr n => exact ih _ u h

/-- Nobody asks for a shutdown in `on_traffic`. -/
theorem processRead_obliging (hobl : Obliging η) : processRead k el ≠ .ok .shutdown t := by
  intro h
  unfold processRead at h
  rw [Programs.get_bind] at h
  cases hi : el.connections.get k with
  | none =>
    rw [hi] at h
    cases h
  | some i =>
    rw [hi] at h
    simp only at h
    split at h
    · cases h
    · exact readLoop_obliging hobl _ _ _ h

/-- The event says that the peer has closed or the socket has failed, and nothing else. -/
def Event.hangsUp (ev : Event) : Bool := (ev.error || ev.readClosed) && (!ev.readable && !ev.writable)

/-- The event has no other reason to close the connection at `k`. -/
def ordinaryEvent (k : Nat) (el : EventLoop η κ) (ev : Event) : Bool :=
  ev.token != k || !ev.hangsUp && !((ev.error || ev.writable) &&
    (el.connections.get k).any fun i => i.conn.offersNothing el.options.maxBatchSize)

omit [Codec κ Msg] [EventHandler η κ Msg] in
theorem ordinaryEvent_self {ev : Event} (hi : el.connections.get k = some i) (hord : el.ordinaryEvent k ev = true)
    (hk : ev.token = k) : ev.hangsUp = false ∧
      (ev.error || ev.writable → i.conn.offersNothing el.options.maxBatchSize = false) := by
  simp only [ordinaryEvent, hk, bne_self_eq_false, Bool.false_or, hi, Option.any_some, Bool.and_eq_true,
    Bool.not_eq_true'] at hord
  exact ⟨hord.1, fun hwrite => by simpa [hwrite] using hord.2⟩

/-- **An event** for a connection closes it if the read pass comes to an interrupted read. -/
theorem processIo_pass (hobl : Obliging η) (h : Reading k i el) {ev : Event} (hk : ev.token = k)
    (hord : el.ordinaryEvent k ev = true) (hrun : processIo k ev el = .ok ⟨⟩ t) :
    if (ev.error || ev.readable) && i.interrupted el.options then t.connections.get k = none
      else Spares k [] el t := by
  have hread : ∀ (u : EventLoop η κ) (j : Incarnation κ), Reading k j u →
      (if (ev.error || ev.readable) = true then readSocket k >>= fun _ => reregister k else reregister k) u = .ok ⟨⟩ t →
      if (ev.error || ev.readable) && j.interrupted u.options then t.connections.get k = none else Spares k [] u t := by
    intro u j hj hrun
    cases hr : ev.error || ev.readable with
    | false =>
      simp only [hr, Bool.false_eq_true, if_false] at hrun
      obtain ⟨l, hl⟩ := reregister_serves hj.conn hrun
      exact hl.spares hj.conn
    | true =>
      simp only [hr, if_true] at hrun
      obtain ⟨⟨⟩, v, hv, hrun⟩ := bind_ok.mp hrun
      have hpass := readSocket_pass hobl hj hv
      simp only [Bool.true_and]
      split
      · rename_i hint
        rw [if_pos hint] at hpass
        rcases reregister_ok hrun with ⟨-, rfl⟩ | ⟨i', _, hi', -⟩
        · exact hpass
        · cases hpass.symm.trans hi'
      · rename_i hint
        rw [if_neg hint] at hpass
        obtain ⟨l, _, hl, -⟩ := hpass j hj.conn hj.transient
        obtain ⟨l', hl'⟩ := reregister_serves hl hrun
        exact hpass.trans (hl'.spares hl)
  obtain ⟨hup, hno⟩ := ordinaryEvent_self h.conn hord hk
  unfold processIo at hrun
  rw [if_neg (by rw [Event.hangsUp] at hup; simp [hup])] at hrun
  dsimp only at hrun
  split at hrun
  · rename_i hwrite
    obtain ⟨⟨⟩, u, hu, hrun⟩ := bind_ok.mp hrun
    obtain ⟨j, hj⟩ := writeSocket_serves h (hno hwrite) hu
    have hrest := hread u j (hj.reading h) hrun
    rw [hj.interrupted] at hrest
    split
    · rename_i hint
      rwa [if_pos hint] at hrest
    · rename_i hint
      rw [if_neg hint] at hrest
      exact (hj.spares h.conn).trans hrest
  · exact hread el i h hrun

/-- What is known of the loop before each of its tasks. -/
structure Ready (el : EventLoop η κ) : Prop where
  sound : el.Sound
  settled : ∀ k, el.SettledAt k
  fits : el.Fits
  offers : 0 < el.options.readBufferCap

omit [Codec κ Msg] [EventHandler η κ Msg] in
theorem Ready.reading (h : el.Ready) (hi : el.connections.get k = some i) (htrans : i.Transient) : Reading k i el :=
  ⟨hi, htrans, h.settled k, h.fits, h.offers⟩

/-- The command has no other reason to close the connection at `k`. -/
def ordinaryCommand (k : Nat) (el : EventLoop η κ) : Command → Bool
  | .shutdown => false
  | .close key => key != k
  | .write key => key != k || !(el.connections.get k).any fun i => i.conn.offersNothing el.options.maxBatchSize
  | _ => true

/-- **A command** spares a connection unless it reads from it and comes to an interrupted read. -/
theorem handleCommand_spares (hobl : Obliging η) (h : el.Ready) (hi : el.connections.get k = some i)
    (htrans : i.Transient) {cmd : Command} (hord : el.ordinaryCommand k cmd = true)
    (hint : cmd = .read k → i.interrupted el.options = false) (hrun : handleCommand cmd el = .ok ⟨⟩ t) :
    Spares k (el.handed k cmd).toList el t := by
  have hreading := h.reading hi htrans
  cases cmd with
  | none =>
    cases hrun
    exact .refl el
  | asyncWrite gfd data =>
    by_cases hk : gfd.slabIndex = k
    · subst hk
      exact asyncWrite_spares hreading hrun
    · have hdata : el.handed k (.asyncWrite gfd data) = none := if_neg fun hall => hk hall.1
      rw [hdata]
      exact spares_of_effects ((asyncWrite_leads gfd data el).ok hrun) h.sound (Ne.symm hk)
  | register socket localAddr peerAddr => exact register_spares h.sound hrun
  | close key =>
    have hk : k ≠ key := Ne.symm (bne_iff_ne.mp hord)
    exact spares_of_effects ((closeConnection_leads key true el).ok hrun) h.sound hk
  | read key =>
    by_cases hk : key = k
    · subst hk
      have hpass := readSocket_pass hobl hreading hrun
      rw [hint rfl] at hpass
      exact hpass
    · exact spares_of_effects ((readSocket_leads (h.settled key)).ok hrun) h.sound (Ne.symm hk)
  | write key =>
    by_cases hk : key = k
    · subst hk
      obtain ⟨j, hj⟩ := writeSocket_serves hreading (by simpa [ordinaryCommand, hi] using hord) hrun
      exact hj.spares hi
    · exact spares_of_effects ((writeSocket_leads key el).ok hrun) h.sound (Ne.symm hk)
  | wake =>
    rw [wake_ok hrun]
    exact .of_eq rfl rfl
  | shutdown =>
    obtain ⟨_, _, _, hrun⟩ := bind_ok.mp hrun
    cases hrun

end EventLoop

/-! ## Runs -/

namespace Machine

open EventLoop Runs

variable {m m' : Machine η κ} {l : Label η} {ls : List (Label η)} {k : Nat} {i : Incarnation κ}

/-- The step calls `on_tick`. -/
def callsTick (m : Machine η κ) : Label η → Bool
  | .advance =>
    match m.phase with
    | .start => m.el.options.ticker
    | _ => false
  | .tick due => m.nextTick && due
  | _ => false

/-- The step has no other reason to close the connection at `k`, and does not call `on_tick`. -/
def ordinary (k : Nat) (m : Machine η κ) (l : Label η) : Bool :=
  !m.callsTick l &&
    match l with
    | .advance => m.nextCommand.all (m.el.ordinaryCommand k) && m.nextEvent.all (m.el.ordinaryEvent k)
    | .pollError e => e.kind = .interrupted
    | _ => true

/-- The step is a read pass on the connection at `k` that comes to an interrupted read. -/
def readInterrupted (k : Nat) (m : Machine η κ) : Label η → Bool
  | .advance =>
    (m.el.connections.get k).any (·.interrupted m.el.options) &&
      (m.nextCommand = some (.read k) ||
        m.nextEvent.any fun ev => ev.isIo && ev.token = k && (ev.error || ev.readable))
  | _ => false

/-- The bytes the step hands to the connection at `k`. -/
def handed (k : Nat) (m : Machine η κ) : Label η → Option Bytes
  | .advance => m.nextCommand.bind (m.el.handed k)
  | _ => none

/-- What is known of the loop before each of its steps. -/
structure Regular (m : Machine η κ) : Prop where
  calm : m.Calm
  sound : m.el.Sound
  fits : m.el.Fits
  offers : 0 < m.el.options.readBufferCap
  /-- the poller and the wakes do what they are asked -/
  results : ∀ r ∈ m.el.poll.results, r = .ok ()
  wakes : ∀ r ∈ m.el.handle.wakes, r = .ok ()

theorem Regular.ready (h : m.Regular) (hlive : m.phase.Live) : m.el.Ready := ⟨h.sound, h.calm hlive, h.fits, h.offers⟩

variable [Codec κ Msg] [EventHandler η κ Msg]

theorem Regular.step (h : m.Regular) (hstep : step m l = some m') : m'.Regular := by
  have hmoves := step_moves hstep
  have hpath := hmoves.evolves h.calm
  have hkept : m'.el.Sound ∧ m'.el.options = m.el.options ∧ m'.el.Fits :=
    invariant_of_steps (P := fun t => t.Sound ∧ t.options = m.el.options ∧ t.Fits) hpath
      (fun _ _ he ht => ⟨he.sound ht.1, he.fits.1.trans ht.2.1, he.fits.2 ht.2.2⟩) ⟨h.sound, rfl, h.fits⟩
  have hanswers := answers_of_evolves hpath
  exact ⟨hmoves.calm h.calm, hkept.1, hkept.2.2, hkept.2.1 ▸ h.offers,
    fun r hr => h.results r (hanswers.results.subset hr), fun r hr => h.wakes r (hanswers.wakes.subset hr)⟩

/-- A command that is handled while the loop goes on. -/
theorem advance_command_ok {cmd : Command} (hcmd : m.nextCommand = some cmd) (hstep : step m .advance = some m')
    (hlive : m'.phase.Live) : ∃ h, handleCommand cmd (m.el.withHandle h) = .ok ⟨⟩ m'.el := by
  obtain ⟨left, evs, q, h, -, -, rfl⟩ := advance_command hcmd hstep
  refine ⟨h, ?_⟩
  unfold call at hlive ⊢
  cases hr : handleCommand cmd (m.el.withHandle h) with
  | ok a t => rfl
  | error e t =>
    simp only [hr] at hlive
    exact hlive.elim

/-- **The loop runs on**: none of these steps makes `run_loop` return. -/
theorem step_lives (hobl : Obliging η) (h : m.Regular) (hlive : m.phase.Live) (hord : m.ordinary k l = true)
    (hstep : step m l = some m') : m'.phase.Live := by
  obtain ⟨-, hord⟩ := Bool.and_eq_true_iff.mp hord
  cases step_moves hstep with
  | idles _ hphase => exact hphase.elim (fun he => he ▸ hlive) fun hl => hl.2
  | pollFails he => exact absurd (of_decide_eq_true hord) he
  | gets _ _ _ | mints _ => exact hlive
  | drops hphase =>
    rw [hphase] at hlive
    exact hlive.elim
  | works _ _ _ hphase => exact hphase
  | @ends _ task el₀ t el' e res nextTick hs hrun _ _ _ =>
    obtain ⟨h', hel₀, -, hwakes, -⟩ := hs.withHandle
    have hsocketed : el₀.Socketed := hel₀ ▸ h.sound.socketed
    have hresults : ∀ r ∈ el₀.poll.results, r = .ok () := hel₀ ▸ h.results
    have hcmd : task ≠ .command .shutdown := by
      intro hcmd
      cases hs with
      | command hphase hq _ =>
        simp [nextCommand_draining hphase hq, Task.command.inj hcmd, ordinaryCommand] at hord
      | io _ _ _ | ordered _ _ _ | accepted _ _ | first _ _ | tick _ _ => cases hcmd
    rcases Task.failsBy hsocketed (hs.settled h.calm) hrun with hf | ⟨-, he, -⟩
    · cases hf with
      | shutdown u v _ hc _ _ _ =>
        cases hc with
        | command => exact absurd rfl hcmd
        | read hread => exact absurd hread (processRead_obliging hobl)
        | io _ _ _ hread => exact absurd hread (processRead_obliging hobl)
        | register _ _ hact => cases (hobl.onOpen _ _).symm.trans hact
        | tick hact => cases (hobl.onTick _ _).symm.trans hact
      | polled u hu he _ =>
        cases hresults _ ((results_of_changes hu).subset (List.mem_of_mem_head? he))
    · have hmem := mem_of_wake he
      rw [hel₀] at hmem
      cases h.wakes _ (hwakes ▸ hmem)

/-- **A step** spares a connection unless it comes to an interrupted read of it. -/
theorem step_spares (hobl : Obliging η) (h : m.Regular) (hi : m.el.connections.get k = some i) (htrans : i.Transient)
    (hord : m.ordinary k l = true) (hint : m.readInterrupted k l = false) (hstep : step m l = some m')
    (hlive : m'.phase.Live) : Spares k (m.handed k l).toList m.el m'.el := by
  obtain ⟨htick, hord⟩ := Bool.and_eq_true_iff.mp hord
  have hready := h.ready ((step_moves hstep).live hlive)
  by_cases hcmd : l = .advance ∧ ∃ cmd, m.nextCommand = some cmd
  · obtain ⟨rfl, cmd, hcmd⟩ := hcmd
    obtain ⟨h', hrun⟩ := advance_command_ok hcmd hstep hlive
    have hready' : (m.el.withHandle h').Ready :=
      ⟨⟨h.sound.gfd, h.sound.minted, h.sound.distinct⟩, hready.settled, h.fits, h.offers⟩
    simp only [hcmd, Option.all_some, Bool.and_eq_true] at hord
    have hspares := handleCommand_spares hobl hready' hi htrans hord.1 (fun hread => ?_) hrun
    · simp only [handed, hcmd, Option.bind_some]
      exact hspares
    · have hi' : i.interrupted m.el.options = false := by simpa [readInterrupted, hcmd, hread, hi] using hint
      exact hi'
  · have hdata : m.handed k l = none := by
      cases l with
      | advance =>
        rw [handed, Option.eq_none_iff_forall_ne_some.mpr fun cmd hc => hcmd ⟨rfl, cmd, hc⟩]
        rfl
      | _ => rfl
    rw [hdata]
    cases step_moves hstep with
    | idles hel _ => exact .of_eq (by rw [hel.connections]) hel.trace
    | pollFails _ | drops _ | ends _ _ _ _ _ => exact hlive.elim
    | gets priority cmd _ => exact .of_eq rfl rfl
    | mints n => exact .of_eq rfl rfl
    | @works _ task el₀ t el' phase nextTick hs hrun hel _ =>
      suffices hspares : Spares k [] m.el t from hspares.trans (.of_eq (by rw [hel.connections]) hel.trace)
      cases hs with
      | command hphase hq _ => exact absurd ⟨rfl, _, nextCommand_draining hphase hq⟩ hcmd
      | ordered hphase _ hq => exact absurd ⟨rfl, _, nextCommand_draining hphase hq⟩ hcmd
      | accepted hphase hreg => exact register_spares h.sound hrun
      | first hphase hticker => simp [callsTick, hphase, hticker] at htick
      | tick hphase hnext => simp [callsTick, hnext] at htick
      | @io ev evs hphase hwake hlistener =>
        by_cases hk : ev.token = k
        · subst hk
          have hev : m.nextEvent = some ev := nextEvent_eq_some.mpr ⟨evs, hphase⟩
          have hio : ev.isIo = true := by simp [Event.isIo, hwake, hlistener]
          simp only [hev, Option.all_some, Bool.and_eq_true] at hord
          have hno : ((ev.error || ev.readable) && i.interrupted m.el.options) = false := by
            have hnone : m.nextCommand = none := by simp [nextCommand, hphase]
            cases hr : i.interrupted m.el.options with
            | false => exact Bool.and_false _
            | true => simpa [readInterrupted, hnone, hev, hi, hio, hr] using hint
          have hpass := processIo_pass hobl (hready.reading hi htrans) rfl hord.2 hrun
          rwa [hno, if_neg (by simp)] at hpass
        · exact spares_of_effects ((processIo_leads ev (hready.settled _)).ok hrun) h.sound (Ne.symm hk)

/-- **An interrupted read** closes the connection. -/
theorem step_closes (hobl : Obliging η) (h : m.Regular) (hi : m.el.connections.get k = some i) (htrans : i.Transient)
    (hord : m.ordinary k l = true) (hint : m.readInterrupted k l = true) (hstep : step m l = some m')
    (hlive : m'.phase.Live) : m'.el.connections.get k = none := by
  have hready := h.ready ((step_moves hstep).live hlive)
  cases l with
  | advance =>
    simp only [readInterrupted, hi, Option.any_some, Bool.and_eq_true, Bool.or_eq_true, decide_eq_true_eq] at hint
    obtain ⟨hint, hcmd | hany⟩ := hint
    · obtain ⟨h', hrun⟩ := advance_command_ok hcmd hstep hlive
      have hreading : Reading k i (m.el.withHandle h') := ⟨hi, htrans, hready.settled k, h.fits, h.offers⟩
      have hpass := readSocket_pass hobl hreading hrun
      rwa [if_pos (show i.interrupted (m.el.withHandle h').options = true from hint)] at hpass
    · obtain ⟨ev, hev, htest⟩ := exists_of_any hany
      obtain ⟨evs, hphase⟩ := nextEvent_eq_some.mp hev
      simp only [Bool.and_eq_true, decide_eq_true_eq] at htest
      obtain ⟨⟨hio, rfl⟩, hread⟩ := htest
      obtain ⟨hwake, hlistener⟩ := Bool.and_eq_true_iff.mp hio
      have hs : Starts m .advance (.io ev.token ev) m.el :=
        .io hphase (of_decide_eq_true hwake) (Option.isNone_iff_eq_none.mp hlistener)
      cases hs.finishes hstep with
      | returns _ _ _ _ _ hexit =>
        rw [hexit] at hlive
        exact hlive.elim
      | goesOn t hrun hel _ =>
        simp only [ordinary, hev, Option.all_some, Bool.and_eq_true] at hord
        have hpass := processIo_pass hobl (hready.reading hi htrans) rfl hord.2.2 hrun
        rw [if_pos (by rw [hread, hint]; rfl)] at hpass
        rw [hel.connections]
        exact hpass
  | _ => cases hint

/-- **A run** without interrupted reads of the connection spares it. -/
theorem run_spares (hobl : Obliging η) : ∀ {ls : List (Label η)} {m : Machine η κ}, m.Regular → m.phase.Live →
    Along step (fun m l => m.ordinary k l = true) m ls → Along step (fun m l => m.readInterrupted k l = false) m ls →
      run step m ls = some m' →
        m'.Regular ∧ m'.phase.Live ∧ Spares k (outputs step (handed k) m ls) m.el m'.el
  | [], m, h, hlive, _, _, hrun => by
    cases hrun
    exact ⟨h, hlive, .refl _⟩
  | l :: ls, m, h, hlive, hord, hint, hrun => by
    obtain ⟨m₁, hstep, hrun⟩ := run_cons.mp hrun
    have hlive₁ := step_lives hobl h hlive hord.1 hstep
    obtain ⟨hreg, hlive', hrest⟩ :=
      run_spares hobl (h.step hstep) hlive₁ (hord.2 m₁ hstep) (hint.2 m₁ hstep) hrun
    refine ⟨hreg, hlive', ?_⟩
    rw [outputs_cons_some hstep]
    intro i hi htrans
    exact ((step_spares hobl h hi htrans hord.1 hint.1 hstep hlive₁).trans hrest) i hi htrans

/-- **Transient results of a socket cost no connection**, unless a read is interrupted: as long as no read pass comes to
an interrupted read, and only so long, the connection stays and nothing it has received or accepted is lost. -/
theorem transient_results_keep (hobl : Obliging η) {el : EventLoop η κ} (hfresh : el.Fresh) (hfits : el.Fits)
    (hcap : 0 < el.options.readBufferCap) {ks : List (Label η)} (hstart : run step (initial el) ks = some m)
    (hlive : m.phase.Live) (hpoll : ∀ r ∈ m.el.poll.results, r = .ok ()) (hwakes : ∀ r ∈ m.el.handle.wakes, r = .ok ())
    (hi : m.el.connections.get k = some i) (htrans : i.Transient) (hrun : run step m ls = some m')
    (hord : Along step (fun m l => m.ordinary k l = true) m ls) :
    Along step (fun m l => m.readInterrupted k l = false) m ls ↔
      ∀ ls₁ ls₂ t, ls = ls₁ ++ ls₂ → run step m ls₁ = some t → ∃ j es, t.el.connections.get k = some j ∧
        j.id = i.id ∧ t.el.trace = m.el.trace ++ es.filterMap Sum.getLeft? ∧
        es.filterMap Sum.getRight? = outputs step (handed k) m ls₁ ∧ Handed η i es j := by
  obtain ⟨⟨hsound, hopts, hfits'⟩, hcalm⟩ := run_evolves
    (P := fun t => t.Sound ∧ t.options = el.options ∧ t.Fits)
    (fun _ _ he ht => ⟨he.sound ht.1, he.fits.1.trans ht.2.1, he.fits.2 ht.2.2⟩) hfresh
    ⟨hfresh.sound, rfl, hfits⟩ hstart
  have hreg : m.Regular := ⟨hcalm, hsound, hfits', hopts ▸ hcap, hpoll, hwakes⟩
  constructor
  · rintro hint ls₁ ls₂ t rfl ht
    obtain ⟨-, -, hspares⟩ := run_spares hobl hreg hlive hord.of_append hint.of_append ht
    obtain ⟨j, es, hj, -, htrace, hdata, hhanded⟩ := hspares i hi htrans
    exact ⟨j, es, hj, hhanded.id, htrace, hdata, hhanded⟩
  · intro hkept
    by_contra hint
    obtain ⟨ls₁, l, ls₂, s₁, s₂, rfl, hs₁, halong, hno, hstep, -⟩ := exists_of_not_along hrun hint
    obtain ⟨hreg₁, hlive₁, hspares⟩ := run_spares hobl hreg hlive hord.of_append halong hs₁
    obtain ⟨j, -, hj, hjtrans, -⟩ := hspares i hi htrans
    have hl := (hord.of_run_append hs₁).1
    have hlive₂ := step_lives hobl hreg₁ hlive₁ hl hstep
    have hgone := step_closes hobl hreg₁ hj hjtrans hl (eq_true_of_ne_false hno) hstep hlive₂
    obtain ⟨j', -, hj', -⟩ := hkept (ls₁ ++ [l]) ls₂ s₂ (List.append_cons ls₁ l ls₂) (by
      rw [run_append hs₁, run_cons_some hstep, run_nil])
    cases hgone.symm.trans hj'

end Machine

/-! ## Two runs -/

/-- A handler that sends back what it gets. -/
structure Echo where

instance : EventHandler Echo RawCodec RawMsg where
  onOpen h _ := (⟨[], .none⟩, h)
  onTraffic h c := (⟨[.discard none, .write c.unread], .none⟩, h)
  onClose h _ := (⟨[], .none⟩, h)
  onTick h _ := (⟨[], 0, .none⟩, h)

theorem echo_obliging : Obliging Echo := ⟨fun _ _ => rfl, fun _ _ => rfl, fun _ _ => rfl⟩

/-- A loop with such a handler. -/
def echoLoop : EventLoop Echo RawCodec := .new 0 ⟨64, 8, false⟩ ⟨⟩ [] [] (fun _ => 0) 0

namespace Machine

open EventLoop Runs

/-- A connection comes whose socket will answer so. -/
def comes (writes : List WriteAnswer) (reads : List ReadAnswer) : List (Label Echo) :=
  [.accept ⟨4, writes, reads, [], [], none⟩ (.tcp "a") (.tcp "b"), .advance, .advance, .poll [], .advance]

/-- An `AsyncWrite`, and then an event that says that the socket is readable and writable. -/
def exchange : List (Label Echo) :=
  [.trigger (.asyncWrite (.new 0 4 0 0) [9]), .advance, .advance, .advance, .tick false, .advance,
    .poll [⟨0, true, true, false, false⟩], .advance]

/-- The first write would block, the second is interrupted, and the others take a byte each. -/
theorem transient_results_keep_exchange : ∃ m m' i j es, run step (initial echoLoop)
      (comes [.wouldBlock, .interrupted, .took 1, .took 1] [.data [1, 2], .wouldBlock]) = some m ∧
    m.el.connections.get 0 = some i ∧ i.Transient ∧ run step m exchange = some m' ∧ m'.el.connections.get 0 = some j ∧
    es.filterMap Sum.getRight? = [[9]] ∧ Handed Echo i es j := by
  have hrun : (run step (initial echoLoop)
      (comes [.wouldBlock, .interrupted, .took 1, .took 1] [.data [1, 2], .wouldBlock])).any (fun m =>
        decide m.phase.Live && m.el.poll.results.isEmpty && m.el.handle.wakes.isEmpty &&
          (m.el.connections.get 0).any (fun i => decide i.Transient) && (run step m exchange).isSome &&
          check step (fun m l => m.ordinary 0 l) m exchange &&
          check step (fun m l => !m.readInterrupted 0 l) m exchange &&
          decide (outputs step (handed 0) m exchange = [[9]])) = true := by decide +kernel
  obtain ⟨m, hm, hat⟩ := exists_of_any hrun
  simp only [Bool.and_eq_true, decide_eq_true_eq] at hat
  obtain ⟨⟨⟨⟨⟨⟨⟨hlive, hpoll⟩, hwakes⟩, hany⟩, hsome⟩, hord⟩, hint⟩, hdata⟩ := hat
  obtain ⟨i, hi, htrans⟩ := exists_of_any hany
  have htrans : i.Transient := of_decide_eq_true htrans
  obtain ⟨m', hm'⟩ := Option.isSome_iff_exists.mp hsome
  have hkeeps := (transient_results_keep (k := 0) echo_obliging (new_fresh _ _ _ _ _ _ _) (Nat.zero_le _) (by decide) hm
    hlive (by simp [List.isEmpty_iff.mp hpoll]) (by simp [List.isEmpty_iff.mp hwakes]) hi htrans hm'
    (.of_check (fun _ _ => id) hord)).mp (.of_check (fun _ _ h => by simpa using h) hint)
  obtain ⟨j, es, hj, -, -, hes, hhanded⟩ := hkeeps exchange [] m' (List.append_nil _).symm hm'
  exact ⟨m, m', i, j, es, hm, hi, htrans, hm', hj, hes.trans hdata, hhanded⟩

/-- The connection is readable. -/
def reading : List (Label Echo) :=
  [.advance, .advance, .tick false, .advance, .poll [⟨0, true, false, false, false⟩], .advance]

/-- The first read is interrupted: the connection is closed, and the data behind it is never read. -/
theorem interrupted_read_closes : ∃ m m' i, Obliging Echo ∧
    run step (initial echoLoop) (comes [] [.interrupted, .data [1], .wouldBlock]) = some m ∧
    m.el.connections.get 0 = some i ∧ i.Transient ∧ run step m reading = some m' ∧
    Along step (fun m l => m.ordinary 0 l = true) m reading ∧ m'.phase.Live ∧ m'.el.connections.get 0 = none := by
  have hrun : (run step (initial echoLoop) (comes [] [.interrupted, .data [1], .wouldBlock])).any (fun m =>
      (m.el.connections.get 0).any (fun i => decide i.Transient) && check step (fun m l => m.ordinary 0 l) m reading &&
        (run step m reading).any fun m' => decide m'.phase.Live && (m'.el.connections.get 0).isNone) = true := by
    decide +kernel
  obtain ⟨m, hm, hat⟩ := exists_of_any hrun
  simp only [Bool.and_eq_true] at hat
  obtain ⟨⟨hany, hord⟩, hend⟩ := hat
  obtain ⟨i, hi, htrans⟩ := exists_of_any hany
  obtain ⟨m', hm', hgone⟩ := exists_of_any hend
  obtain ⟨hlive, hgone⟩ := Bool.and_eq_true_iff.mp hgone
  exact ⟨m, m', i, echo_obliging, hm, hi, of_decide_eq_true htrans, hm', .of_check (fun _ _ => id) hord,
    of_decide_eq_true hlive, Option.isNone_iff_eq_none.mp hgone⟩

end Machine
end Rnet
