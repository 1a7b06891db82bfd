import Rnet.Connection.Drain
import Rnet.EventLoop.Edges
import Rnet.EventLoop.Records

/-!
# What is not lost

Between two callbacks on a connection the loop may read from it, write to it, register it and be handed data for it.
`Passes i bs data j` says what that may do to the connection: the bytes received are behind the unread input, and the
data is behind the output. `Handed` puts such passages together with the calls of `on_traffic`, by the records that the
loop makes and the data that `AsyncWrite` brings. `Spares` says it of the connection at a key: it is still there, and
what its socket still has to answer is harmless as before. What happens at other keys spares it (`spares_of_effects`,
`register_spares`).
-/

namespace Rnet

open Programs Relation

variable {η κ Msg : Type}

/-! ## The answers -/

/-- The answer to a read of a socket that has neither failed nor ended. -/
def ReadAnswer.Healthy : ReadAnswer → Prop
  | .data bs => bs ≠ []
  | .wouldBlock | .interrupted => True
  | .fatal _ => False

instance : DecidablePred ReadAnswer.Healthy := fun a => by
  cases a <;> unfold ReadAnswer.Healthy <;> infer_instance

instance : DecidablePred (Connection.Healthy (κ := κ)) := fun c =>
  decidable_of_iff (c.socket.any fun s => decide s.Healthy) (by
    rw [Option.any_eq_true]
    exact exists_congr fun s => and_congr_right fun _ => decide_eq_true_iff)

namespace Incarnation

/-- Every answer still to come is `Ok(n)` with a positive `n`, `WouldBlock` or `Interrupted`. -/
structure Transient (i : Incarnation κ) : Prop where
  writes : i.conn.Healthy
  reads : ∀ a ∈ i.reads, a.Healthy

instance : DecidablePred (Transient (κ := κ)) := fun i =>
  decidable_of_iff (i.conn.Healthy ∧ ∀ a ∈ i.reads, a.Healthy) ⟨fun h => ⟨h.1, h.2⟩, fun h => ⟨h.writes, h.reads⟩⟩

/-- The bytes the socket has delivered. -/
def received (i : Incarnation κ) : Bytes := (i.conn.socket.map Socket.received).getD []

/-! ## What is not lost -/

/-- From `i` to `j` the bytes `bs` were received and are unread, and `data` was added to the output. -/
structure Passes (i : Incarnation κ) (bs data : Bytes) (j : Incarnation κ) : Prop where
  id : j.id = i.id
  received : j.received = i.received ++ bs
  unread : j.conn.unread = i.conn.unread ++ bs
  output : j.conn.outStream = i.conn.outStream ++ data

end Incarnation

/-- It is about another connection. -/
def Obs.Elsewhere (num : Nat) : Obs κ → Prop
  | .opens before _ _ | .traffic before _ _ | .closes before _ _ => before.id ≠ num
  | .merged i => i.id ≠ num
  | .drops id => id ≠ num
  | .ticks _ _ _ => True

/-- **From `i` to `j` nothing is lost**: meanwhile the loop made records and was handed data by `AsyncWrite`. The
callbacks on the connection are calls of `on_traffic`. Each finds what the one before has left, followed by what was
received since, and leaves what its operations make of that. Each `AsyncWrite` adds its data to the output. -/
inductive Handed (η : Type) {κ Msg : Type} [Codec κ Msg] [EventHandler η κ Msg] :
    Incarnation κ → List (Obs κ ⊕ Bytes) → Incarnation κ → Prop
  | rests {i j : Incarnation κ} (h : i.Passes [] [] j) : Handed η i [] j
  | traffic {i before after j : Incarnation κ} {es : List (Obs κ ⊕ Bytes)} (bs : Bytes) (handler : η)
      (h : i.Passes bs [] before) (hid : after.id = before.id)
      (hafter : after.conn = Op.performAll (EventHandler.onTraffic handler before.conn).1.ops before.conn)
      (hrest : Handed η after es j) : Handed η i (.inl (.traffic before after .none) :: es) j
  | merged {i i' j : Incarnation κ} {es : List (Obs κ ⊕ Bytes)} (h : i.Passes [] [] i') (hrest : Handed η i' es j) :
      Handed η i (.inl (.merged i') :: es) j
  | writes {i i' j : Incarnation κ} {es : List (Obs κ ⊕ Bytes)} (data : Bytes) (h : i.Passes [] data i')
      (hrest : Handed η i' es j) : Handed η i (.inr data :: es) j
  | other {i j : Incarnation κ} {o : Obs κ} {es : List (Obs κ ⊕ Bytes)} (ho : o.Elsewhere i.id)
      (hrest : Handed η i es j) : Handed η i (.inl o :: es) j

namespace Incarnation.Passes

variable {i j l : Incarnation κ} {bs cs data data' : Bytes}

theorem refl (i : Incarnation κ) : i.Passes [] [] i :=
  ⟨rfl, (List.append_nil _).symm, (List.append_nil _).symm, (List.append_nil _).symm⟩

theorem trans (h : i.Passes bs data j) (h' : j.Passes cs data' l) : i.Passes (bs ++ cs) (data ++ data') l where
  id := h'.id.trans h.id
  received := by rw [h'.received, h.received, List.append_assoc]
  unread := by rw [h'.unread, h.unread, List.append_assoc]
  output := by rw [h'.output, h.output, List.append_assoc]

variable [Codec κ Msg] [EventHandler η κ Msg] {es : List (Obs κ ⊕ Bytes)}

theorem handed (h : i.Passes [] [] j) (hj : Handed η j es l) : Handed η i es l := by
  induction hj generalizing i with
  | rests h' => exact .rests (h.trans h')
  | traffic bs handler h' hid hafter hrest _ => exact .traffic bs handler (h.trans h') hid hafter hrest
  | merged h' hrest _ => exact .merged (h.trans h') hrest
  | writes data h' hrest _ => exact .writes data (h.trans h') hrest
  | other ho _ ih => exact .other (h.id ▸ ho) (ih h)

end Incarnation.Passes

namespace Handed

variable [Codec κ Msg] [EventHandler η κ Msg] {i j l : Incarnation κ} {es es' : List (Obs κ ⊕ Bytes)}

theorem append (h : Handed η i es j) (h' : Handed η j es' l) : Handed η i (es ++ es') l := by
  induction h with
  | rests h => exact h.handed h'
  | traffic bs handler h hid hafter _ ih => exact .traffic bs handler h hid hafter (ih h')
  | merged h _ ih => exact .merged h (ih h')
  | writes data h _ ih => exact .writes data h (ih h')
  | other ho _ ih => exact .other ho (ih h')

theorem others (i : Incarnation κ) : ∀ {obs : List (Obs κ)}, (∀ o ∈ obs, o.Elsewhere i.id) →
    Handed η i (obs.map .inl) i
  | [], _ => .rests (.refl i)
  | _ :: _, h => .other (h _ List.mem_cons_self) (others i fun o ho => h o (List.mem_cons_of_mem _ ho))

/-- It is the same connection. -/
theorem id (h : Handed η i es j) : j.id = i.id := by
  induction h with
  | rests h => exact h.id
  | traffic _ _ h hid _ _ ih => exact ih.trans (hid.trans h.id)
  | merged h _ ih => exact ih.trans h.id
  | writes _ h _ ih => exact ih.trans h.id
  | other _ _ ih => exact ih

end Handed

namespace EventLoop

variable [Codec κ Msg] [EventHandler η κ Msg] {el t u : EventLoop η κ} {k key : Nat} {data data' : List Bytes}

/-- The connection at `k` is still there, and nothing of it is lost. Meanwhile it was handed `data` by `AsyncWrite`. -/
def Spares (k : Nat) (data : List Bytes) (el t : EventLoop η κ) : Prop :=
  ∀ i, el.connections.get k = some i → i.Transient → ∃ j es, t.connections.get k = some j ∧ j.Transient ∧
    t.trace = el.trace ++ es.filterMap Sum.getLeft? ∧ es.filterMap Sum.getRight? = data ∧ Handed η i es j

namespace Spares

theorem of_eq (hc : t.connections.get k = el.connections.get k) (ht : t.trace = el.trace) : Spares k [] el t :=
  fun i hi htrans => ⟨i, [], hc.trans hi, htrans, ht.trans (List.append_nil _).symm, rfl, .rests (.refl i)⟩

theorem refl (el : EventLoop η κ) : Spares k [] el el := of_eq rfl rfl

theorem trans (h : Spares k data el t) (h' : Spares k data' t u) : Spares k (data ++ data') el u := by
  intro i hi htrans
  obtain ⟨j, es, hj, hjtrans, ht, hdata, hij⟩ := h i hi htrans
  obtain ⟨l, es', hl, hltrans, hu, hdata', hjl⟩ := h' j hj hjtrans
  refine ⟨l, es ++ es', hl, hltrans, ?_, ?_, hij.append hjl⟩
  · rw [hu, ht, List.append_assoc, List.filterMap_append]
  · rw [List.filterMap_append, hdata, hdata']

/-- Other connections are written about. -/
theorem of_others {obs : List (Obs κ)} (hc : t.connections.get k = el.connections.get k)
    (ht : t.trace = el.trace ++ obs) (hobs : ∀ i, el.connections.get k = some i → ∀ o ∈ obs, o.Elsewhere i.id) :
    Spares k [] el t := by
  refine fun i hi htrans => ⟨i, obs.map .inl, hc.trans hi, htrans, ?_, ?_, .others i (hobs i hi)⟩
  · rw [ht, List.filterMap_map]
    exact congrArg _ (List.filterMap_some.symm)
  · rw [List.filterMap_map]
    exact List.filterMap_eq_nil_iff.mpr fun _ _ => rfl

variable {i j : Incarnation κ}

/-- Something happens to the connection without a record. -/
theorem set (hi : el.connections.get k = some i) (hpass : i.Passes [] [] j) (htrans : i.Transient → j.Transient) :
    Spares k [] el (el.setIncarnation k j) := by
  intro i' hi' hi'trans
  cases hi.symm.trans hi'
  exact ⟨j, [], get_setIncarnation_self hi j, htrans hi'trans, (List.append_nil _).symm, rfl, .rests hpass⟩

end Spares

/-! ## Other connections -/

/-- What an effect records is about the connection it is an effect on. -/
theorem Effect.elsewhere {serving : Prop} (h : Effect serving key el t) (num : Nat)
    (hnum : ∀ i, el.connections.get key = some i → i.id ≠ num) :
    ∃ obs, t.trace = el.trace ++ obs ∧ ∀ o ∈ obs, o.Elsewhere num := by
  have hheard : ∀ (i : Incarnation κ) (s : Socket) (bs : Bytes), (el.hears key i s bs).1.id = i.id := fun i s bs =>
    (Op.applyAll_stable _ _ el.handle).1
  have hnil : ∀ o ∈ ([] : List (Obs κ)), o.Elsewhere num := List.forall_mem_nil _
  cases h with
  | neutral h => exact ⟨[], by rw [h.trace, List.append_nil], hnil⟩
  | push priority cmd _ => exact ⟨[], (List.append_nil _).symm, hnil⟩
  | serves i c hi hc _ => exact ⟨[], (List.append_nil _).symm, hnil⟩
  | readsNothing i s a n hi hs ha => exact ⟨[], (List.append_nil _).symm, hnil⟩
  | traffic i s a n s' bs hi hs ha hne hset hact =>
    obtain ⟨before, after, htrace, hid, -⟩ := el.hears_trace key i s' bs
    have hheard := hheard i s' bs
    generalize el.hears key i s' bs = r at htrace hheard ⊢
    refine ⟨[.traffic before after (el.heard i s' bs), .merged { r.1 with conn := r.1.conn.carryOver }], ?_,
      fun o ho => ?_⟩
    · show r.2.trace ++ [_] = _
      rw [htrace, List.append_assoc]
      rfl
    · rcases List.mem_pair.mp ho with rfl | rfl
      · exact fun heq => hnum i hi (hid.symm.trans heq)
      · exact fun heq => hnum i hi (hheard.symm.trans heq)
  | lastTraffic i s a n s' bs hi hs ha hne hset hact =>
    obtain ⟨before, after, htrace, hid, -⟩ := el.hears_trace key i s' bs
    refine ⟨_, htrace, fun o ho => ?_⟩
    rw [List.mem_singleton.mp ho]
    exact fun heq => hnum i hi (hid.symm.trans heq)
  | closes i graceful hi _ =>
    refine ⟨_, el.gone_trace key i graceful, fun o ho => ?_⟩
    rcases List.mem_pair.mp ho with rfl | rfl <;> exact hnum i hi
  | failsToClose i graceful e hi he _ =>
    refine ⟨_, el.closed_trace key i graceful, fun o ho => ?_⟩
    rw [List.mem_singleton.mp ho]
    exact hnum i hi
  | ticks op hd conns hop _ =>
    refine ⟨[], ?_, hnil⟩
    unfold tickOp
    split <;> exact (List.append_nil _).symm
  | recordsTick before after action _ =>
    refine ⟨_, rfl, fun o ho => ?_⟩
    rw [List.mem_singleton.mp ho]
    trivial

/-- **What happens at another key** spares the connection. -/
theorem Effect.spares {serving : Prop} (h : Effect serving key el t) (hs : el.Sound) (hk : k ≠ key) :
    Spares k [] el t := by
  cases hi : el.connections.get k with
  | none =>
    intro i hi'
    cases hi.symm.trans hi'
  | some i =>
    obtain ⟨obs, ht, hobs⟩ := h.elsewhere i.id fun i' hi' heq => hk (hs.distinct hi hi' heq.symm)
    refine .of_others (h.frame hk) ht fun i' hi' => ?_
    cases hi.symm.trans hi'
    exact hobs

theorem spares_of_effects {serving : Prop} (h : ReflTransGen (Effect serving key) el t) (hs : el.Sound) (hk : k ≠ key) :
    Spares k [] el t := by
  have hboth : t.Sound ∧ Spares k [] el t := invariant_of_steps (P := fun t => t.Sound ∧ Spares k [] el t) h
    (fun _ _ he ht => ⟨he.sound ht.1, ht.2.trans (he.spares ht.1 hk)⟩) ⟨hs, .refl el⟩
  exact hboth.2

/-- What a registration records is about a connection that was not there. -/
theorem register_elsewhere {socket : Socket} {localAddr peerAddr : NetworkAddress} (hs : el.Sound)
    (h : register socket localAddr peerAddr el = .ok ⟨⟩ t) : ∃ obs, t.trace = el.trace ++ obs ∧
      ∀ k i, el.connections.get k = some i → ∀ o ∈ obs, o.Elsewhere i.id := by
  have hnew : (el.polled.opening socket localAddr peerAddr).1.id = el.minted :=
    (opening_same el.polled socket localAddr peerAddr).id
  have hid : ∀ k i, el.connections.get k = some i → el.minted ≠ i.id := fun k i hi => Nat.ne_of_gt (hs.minted hi)
  rcases register_cases socket localAddr peerAddr el with ⟨e, h', -⟩ | ⟨-, h'⟩ | ⟨-, h'⟩ | ⟨-, u, hu, h'⟩ <;>
    rw [h'] at h <;> cases h
  · refine ⟨_, rfl, fun k i hi o ho => ?_⟩
    rw [List.mem_singleton.mp ho]
    exact hid k i hi
  · refine ⟨_, List.append_assoc _ _ _, fun k i hi o ho => ?_⟩
    rcases List.mem_pair.mp ho with rfl | rfl
    · exact hid k i hi
    · exact fun heq => hid k i hi (hnew.symm.trans heq)

theorem register_spares {socket : Socket} {localAddr peerAddr : NetworkAddress} (hs : el.Sound)
    (h : register socket localAddr peerAddr el = .ok ⟨⟩ t) : Spares k [] el t := by
  by_cases hk : k = el.connections.vacantKey
  · intro i hi
    rw [hk, Slab.get_vacantKey] at hi
    cases hi
  · obtain ⟨obs, ht, hobs⟩ := register_elsewhere hs h
    exact .of_others (register_frame h hk) ht (hobs k)

end EventLoop

end Rnet
