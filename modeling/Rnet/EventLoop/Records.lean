import Rnet.EventLoop.Shutdown

/-!
# What the methods of the loop record

A method adds observations to the trace (`Records`). Only a read pass hands input to the handler: its observations are
`ReadsAll`, one or two for each read that brings something. All other methods record that connections were closed and
dropped, `register` besides what `on_open` answered and a tick what `on_tick` answered. `Tells` follows the shape of the
program: what is recorded has a property, unless the method has failed by a shutdown that was asked for.
-/

namespace Rnet

open Programs Relation

variable {η κ Msg : Type}

/-- A connection was closed or dropped. -/
def Obs.Parting : Obs κ → Prop
  | .closes _ _ _ | .drops _ => True
  | _ => False

namespace EventLoop

variable {el t u : EventLoop η κ} {key : Nat} {p q : Obs κ → Prop}

/-- The trace got observations with a property, and the options are the same. -/
structure Records (p : Obs κ → Prop) (el t : EventLoop η κ) : Prop where
  options : t.options = el.options
  trace : ∃ new, t.trace = el.trace ++ new ∧ ∀ obs ∈ new, p obs

namespace Records

theorem silent (ho : t.options = el.options) (ht : t.trace = el.trace) : el.Records p t :=
  ⟨ho, [], by rw [ht, List.append_nil], by simp⟩

theorem refl (el : EventLoop η κ) : el.Records p el := silent rfl rfl

theorem one {obs : Obs κ} (ho : t.options = el.options) (ht : t.trace = el.trace ++ [obs]) (hobs : p obs) :
    el.Records p t := ⟨ho, [obs], ht, fun o h => by rwa [List.mem_singleton.mp h]⟩

theorem trans (h : el.Records p t) (h' : t.Records p u) : el.Records p u := by
  obtain ⟨ho, new, ht, hp⟩ := h
  obtain ⟨ho', new', ht', hp'⟩ := h'
  refine ⟨ho'.trans ho, new ++ new', by rw [ht', ht, List.append_assoc], fun obs hobs => ?_⟩
  exact (List.mem_append.mp hobs).elim (hp obs) (hp' obs)

theorem mono (h : el.Records p t) (hpq : ∀ obs, p obs → q obs) : el.Records q t :=
  ⟨h.options, h.trace.imp fun _ ⟨ht, hp⟩ => ⟨ht, fun obs hobs => hpq obs (hp obs hobs)⟩⟩

end Records

/-- What a method records has a property; if it fails, it may also have come to a state `C`. -/
structure Tells {α : Type} (p : Obs κ → Prop) (C : EventLoop η κ → Prop) (m : LoopM η κ α) (el : EventLoop η κ) :
    Prop where
  ok : ∀ {a t}, m el = .ok a t → el.Records p t
  error : ∀ {e t}, m el = .error e t → el.Records p t ∨ C t

namespace Tells

variable {α β : Type} {C : EventLoop η κ → Prop} {m : LoopM η κ α} {f : α → LoopM η κ β} {e : IoError}

theorem of_ok {a : α} (h : m el = .ok a t) (ht : el.Records p t) : Tells p C m el where
  ok h' := by
    cases h.symm.trans h'
    exact ht
  error h' := by cases h.symm.trans h'

theorem of_error (h : m el = .error e t) (ht : el.Records p t ∨ C t) : Tells p C m el where
  ok h' := by cases h.symm.trans h'
  error h' := by
    cases h.symm.trans h'
    exact ht

theorem pure (a : α) : Tells p C (Pure.pure a : LoopM η κ α) el := of_ok rfl (.refl el)

theorem throw : Tells p C (MonadExcept.throw e : LoopM η κ α) el := of_error rfl (Or.inl (.refl el))

theorem after (ht : el.Records p t) (h : Tells p C m t) (heq : n el = m t) : Tells (α := α) p C n el where
  ok h' := ht.trans (h.ok (heq.symm.trans h'))
  error h' := (h.error (heq.symm.trans h')).imp_left ht.trans

theorem get_bind {f : EventLoop η κ → LoopM η κ β} (h : Tells p C (f el) el) : Tells p C (get >>= f) el :=
  ⟨fun h' => h.ok h', fun h' => h.error h'⟩

theorem set_bind {f : PUnit → LoopM η κ β} (ht : el.Records p t) (h : Tells p C (f ⟨⟩) t) :
    Tells p C (set t >>= f) el :=
  .after ht h rfl

theorem bind (hm : Tells p C m el) (hf : ∀ a t, m el = .ok a t → Tells p C (f a) t) : Tells p C (m >>= f) el where
  ok h := by
    obtain ⟨a, t, hmt, hft⟩ := bind_ok.mp h
    exact (hm.ok hmt).trans ((hf a t hmt).ok hft)
  error h := by
    rw [bind_apply] at h
    cases hmt : m el with
    | ok a t =>
      rw [hmt] at h
      exact ((hf a t hmt).error h).imp_left (hm.ok hmt).trans
    | error e t =>
      rw [hmt] at h
      cases h
      exact hm.error hmt

/-- However the method ends. -/
theorem final (h : Tells p (fun _ => False) m el) : el.Records p (Programs.final m el) := by
  cases hr : m el with
  | ok a t => exact final_of_ok hr ▸ h.ok hr
  | error e t => exact final_of_error hr ▸ (h.error hr).resolve_right id

end Tells

/-! ## Closing and writing -/

section Parting

variable {C : EventLoop η κ → Prop}

theorem pollResult_tells (el : EventLoop η κ) : Tells p C pollResult el := by
  rcases pollResult_cases el with h | ⟨e, h, -⟩
  · exact .of_ok h (.silent rfl rfl)
  · exact .of_error h (Or.inl (.silent rfl rfl))

theorem trigger_tells (cmd : Command) (el : EventLoop η κ) : Tells p C (trigger cmd) el := .of_ok rfl (.silent rfl rfl)

theorem reregister_tells (key : Nat) (el : EventLoop η κ) : Tells p C (reregister key) el := by
  unfold reregister
  refine .get_bind ?_
  cases el.connections.get key with
  | none => exact .pure _
  | some i =>
    simp only
    cases i.conn.socket with
    | none => exact .throw
    | some s => exact .bind (pollResult_tells el) fun _ t _ => .of_ok rfl (.silent rfl rfl)

variable [Codec κ Msg] [EventHandler η κ Msg]

/-- **Closing** records that `on_close` was called, and a drop. -/
theorem closeConnection_tells (hp : ∀ obs, Obs.Parting obs → p obs) (key : Nat) (graceful : Bool) (el : EventLoop η κ) :
    Tells p C (closeConnection key graceful) el := by
  cases hi : el.connections.get key with
  | none => exact .of_ok (closeConnection_none hi graceful) (.refl el)
  | some i =>
    have hclosed : el.Records p (el.closed key i graceful) := .one rfl rfl (hp _ trivial)
    have hgone : el.Records p ((el.closed key i graceful).recycle key (el.closing i graceful).1) :=
      hclosed.trans (.one rfl rfl (hp _ trivial))
    rcases closeConnection_cases hi graceful with ⟨t, h, rfl | rfl⟩ | ⟨e, h, -⟩
    · exact .of_ok h hgone
    · exact .of_ok h (hgone.trans (.silent rfl rfl))
    · exact .of_error h (Or.inl (hclosed.trans (.silent rfl rfl)))

theorem closeAll_records : ∀ (keys : List Nat) (el : EventLoop η κ), closeAll keys el = .ok ⟨⟩ t →
    el.Records Obs.Parting t
  | [], el, h => by
    cases h
    exact .refl _
  | key :: keys, el, h => by
    have hc : el.Records Obs.Parting (final (closeConnection key true) el) :=
      (closeConnection_tells (fun _ => id) key true el).final
    exact hc.trans (closeAll_records keys _ (closeAll_cons key keys el ▸ h))

/-- **A shutdown** records closes and drops. -/
theorem shutdown_records (h : shutdown el = .ok ⟨⟩ t) : el.Records Obs.Parting t := by
  rw [shutdown_eq] at h
  have hall := closeAll_records _ _ h
  exact ⟨hall.options, hall.trace⟩

/-- What is thrown at the end comes with a shutdown. -/
theorem shutdown_tells {α : Type} {e : IoError} (hc : ∀ v, shutdown el = .ok ⟨⟩ v → C v) :
    Tells p C (shutdown >>= fun _ => (throw e : LoopM η κ α)) el := by
  obtain ⟨v, hv⟩ := shutdown_ok el
  exact .of_error (by rw [bind_apply, hv]; rfl) (Or.inr (hc v hv))

omit [EventHandler η κ Msg] in
theorem processWrite_tells (key : Nat) (el : EventLoop η κ) :
    Tells p C (processWrite (η := η) (κ := κ) key) el := by
  unfold processWrite
  refine .get_bind ?_
  cases el.connections.get key with
  | none => exact .pure _
  | some i =>
    refine .set_bind (.silent rfl rfl) ?_
    split
    · exact .pure _
    · exact .throw

theorem writeSocket_tells (hp : ∀ obs, Obs.Parting obs → p obs) (key : Nat) (el : EventLoop η κ) :
    Tells p C (writeSocket key) el := by
  unfold writeSocket
  refine .bind (processWrite_tells key el) fun status t _ => ?_
  cases status with
  | closed graceful => exact closeConnection_tells hp key graceful t
  | «yield» => exact trigger_tells _ t
  | completed => exact reregister_tells key t
  | shutdown => exact trigger_tells _ t

/-- The connection is still there, and nothing was recorded; or it is gone. -/
theorem writeSocket_silent (h : writeSocket key el = .ok ⟨⟩ t) :
    t.trace = el.trace ∨ t.connections.get key = none := by
  have hnone : ∀ {u v : EventLoop η κ}, u.Records (fun _ => False) v → v.trace = u.trace := by
    rintro u v ⟨-, new, hv, hp⟩
    rw [hv, List.eq_nil_iff_forall_not_mem.mpr hp, List.append_nil]
  unfold writeSocket at h
  obtain ⟨status, u, hu, h⟩ := bind_ok.mp h
  have hw := hnone ((processWrite_tells (C := fun _ => False) key el).ok hu)
  cases status with
  | closed graceful => exact Or.inr (closeConnection_ok h)
  | «yield» => exact Or.inl ((hnone ((trigger_tells (C := fun _ => False) _ u).ok h)).trans hw)
  | completed => exact Or.inl ((hnone ((reregister_tells (C := fun _ => False) key u).ok h)).trans hw)
  | shutdown => exact Or.inl ((hnone ((trigger_tells (C := fun _ => False) _ u).ok h)).trans hw)

theorem asyncWrite_tells (hp : ∀ obs, Obs.Parting obs → p obs) (gfd : Gfd) (data : Bytes) (el : EventLoop η κ) :
    Tells p C (asyncWrite gfd data) el := by
  unfold asyncWrite
  refine .get_bind ?_
  dsimp only
  split
  · exact .pure _
  · cases el.connections.get gfd.slabIndex with
    | none => exact .pure _
    | some i =>
      simp only
      split
      · exact .pure _
      · refine .set_bind (.silent rfl rfl) ?_
        split
        · exact closeConnection_tells hp _ false _
        · exact reregister_tells _ _

omit [Codec κ Msg] [EventHandler η κ Msg] in
theorem wake_tells (el : EventLoop η κ) : Tells p C (wake (η := η) (κ := κ)) el := by
  unfold wake
  refine .get_bind (.set_bind (.silent rfl rfl) ?_)
  split
  · exact .pure _
  · exact .throw

end Parting

/-! ## Reading -/

/-- What an iteration of the loop of `process_read` records for the connection with a number, with a buffer of so many
bytes. -/
inductive ReadsOne (id offered : Nat) : IoStatus ⊕ Nat → List (Obs κ) → Prop
  | nothing (status : IoStatus) (hst : status = .completed ∨ ∃ graceful, status = .closed graceful) :
      ReadsOne id offered (.inl status) []
  | heard (before after i : Incarnation κ) (bs : Bytes) (hid : before.id = id) (hio : before.conn.ioBuffer = some bs)
      (hne : bs ≠ []) (hlen : bs.length ≤ offered) :
      ReadsOne id offered (.inr bs.length) [.traffic before after .none, .merged i]
  | stopped (before after : Incarnation κ) (action : Action) (bs : Bytes) (hid : before.id = id)
      (hio : before.conn.ioBuffer = some bs) (hne : bs ≠ []) (hlen : bs.length ≤ offered) (hact : action ≠ .none) :
      ReadsOne id offered (.inl (if action = .close then .closed true else .shutdown)) [.traffic before after action]

/-- What the loop of `process_read` records, when so many bytes have been read. -/
inductive ReadsAll (id maxBatch offered : Nat) : Nat → IoStatus → List (Obs κ) → Prop
  | yields (n : Nat) (hn : maxBatch ≤ n) : ReadsAll id maxBatch offered n .yield []
  | stops (n : Nat) (hn : n < maxBatch) (status : IoStatus) (new : List (Obs κ))
      (hone : ReadsOne id offered (.inl status) new) : ReadsAll id maxBatch offered n status new
  | goesOn (n : Nat) (hn : n < maxBatch) (k : Nat) (status : IoStatus) (new rest : List (Obs κ))
      (hone : ReadsOne id offered (.inr k) new) (hrest : ReadsAll id maxBatch offered (n + k) status rest) :
      ReadsAll id maxBatch offered n status (new ++ rest)

section Reading

variable [Codec κ Msg] [EventHandler η κ Msg] {i : Incarnation κ} {s : Socket} {a : ReadAnswer} {r : IoStatus ⊕ Nat}

omit [Codec κ Msg] [EventHandler η κ Msg] in
theorem answerRead_length {n : Nat} {bs : Bytes} {s' : Socket} (h : s.answerRead a n = (.ok bs, s')) :
    bs.length ≤ n := by
  cases a with
  | data ds =>
    cases h
    exact List.length_take_le _ _
  | wouldBlock | interrupted | fatal _ => cases h

omit [Codec κ Msg] [EventHandler η κ Msg] in
/-- A loop with another buffer, but no longer one. -/
theorem offered_le {b : BytesMut} (hb : b.len ≤ el.offered) (hbuf : t.ioBuffer = b) (ho : t.options = el.options) :
    t.offered ≤ el.offered := by
  rw [offered_eq t, hbuf, ho]
  refine Nat.max_le.mpr ⟨hb, ?_⟩
  rw [offered_eq]
  exact Nat.le_max_right _ _

/-- The bytes that `on_traffic` is called with. -/
theorem hears_trace (key : Nat) (i : Incarnation κ) (s : Socket) (bs : Bytes) :
    ∃ before after, (el.hears key i s bs).2.trace = el.trace ++ [.traffic before after (el.heard i s bs)] ∧
      before.id = i.id ∧ before.conn.ioBuffer = some bs := ⟨_, _, rfl, rfl, rfl⟩

/-- An iteration keeps the number of the connection and the options, and offers no more from then on. -/
structure Continues (key id : Nat) (el t : EventLoop η κ) : Prop where
  options : t.options = el.options
  offered : t.offered ≤ el.offered
  live : ∃ j, t.connections.get key = some j ∧ j.id = id

theorem Reads.records (hi : el.connections.get key = some i) (h : Reads key el i s a r t) :
    Continues key i.id el t ∧ ∃ new, t.trace = el.trace ++ new ∧ ReadsOne i.id el.offered r new := by
  have hbuf : ∀ b, (el.buffered b).connections.get key = some i := fun _ => hi
  have hget : ∀ b s' bs, (((el.buffered b).hears key i s' bs).2.setIncarnation key
      ((el.buffered b).hears key i s' bs).1).connections.get key = some ((el.buffered b).hears key i s' bs).1 :=
    fun b s' bs => get_setIncarnation_self (get_setIncarnation_self (hbuf b) _) _
  have hid : ∀ b s' bs, ((el.buffered b).hears key i s' bs).1.id = i.id := fun b s' bs =>
    (Op.applyAll_stable _ _ (el.buffered b).handle).1
  cases h with
  | fails e s' b hb hr =>
    refine ⟨⟨rfl, offered_le hb rfl rfl, _, get_setIncarnation_self (hbuf b) _, rfl⟩, [], by simp [buffered,
      setIncarnation], .nothing _ ?_⟩
    split
    · exact Or.inl rfl
    · exact Or.inr ⟨false, rfl⟩
  | ended s' b hb hr =>
    exact ⟨⟨rfl, offered_le hb rfl rfl, _, get_setIncarnation_self (hbuf b) _, rfl⟩, [], by simp [buffered,
      setIncarnation], .nothing _ (Or.inr ⟨true, rfl⟩)⟩
  | goesOn bs s' b hb hr hne hact =>
    obtain ⟨before, after, htrace, hid', hio⟩ := (el.buffered b).hears_trace key i s' bs
    have hget := hget b s' bs
    have hid := hid b s' bs
    have hbuf : ((el.buffered b).hears key i s' bs).2.ioBuffer = b := rfl
    have ho : ((el.buffered b).hears key i s' bs).2.options = el.options := rfl
    generalize (el.buffered b).hears key i s' bs = r at htrace hget hid hbuf ho
    refine ⟨⟨ho, offered_le hb hbuf ho, _, get_setIncarnation_self hget _, hid⟩, _, ?_,
      .heard before after { r.1 with conn := r.1.conn.carryOver } bs hid' hio hne (answerRead_length hr)⟩
    show r.2.trace ++ [_] = _
    rw [htrace, hact, List.append_assoc]
    rfl
  | stopped bs s' b hb hr hne hact =>
    obtain ⟨before, after, htrace, hid', hio⟩ := (el.buffered b).hears_trace key i s' bs
    exact ⟨⟨rfl, offered_le hb rfl rfl, _, hget b s' bs, hid b s' bs⟩, _, htrace,
      .stopped before after _ bs hid' hio hne (answerRead_length hr) hact⟩

theorem ReadsOne.mono {id n m : Nat} {r : IoStatus ⊕ Nat} {new : List (Obs κ)} (h : ReadsOne id n r new) (hnm : n ≤ m) :
    ReadsOne id m r new := by
  cases h with
  | nothing status hst => exact .nothing status hst
  | heard before after i bs hid hio hne hlen => exact .heard before after i bs hid hio hne (hlen.trans hnm)
  | stopped before after action bs hid hio hne hlen hact =>
    exact .stopped before after action bs hid hio hne (hlen.trans hnm) hact

theorem ReadsAll.mono {id maxBatch n m k : Nat} {status : IoStatus} {new : List (Obs κ)}
    (h : ReadsAll id maxBatch n k status new) (hnm : n ≤ m) : ReadsAll id maxBatch m k status new := by
  induction h with
  | yields k hk => exact .yields k hk
  | stops k hk status new hone => exact .stops k hk status new (hone.mono hnm)
  | goesOn k hk l status new rest hone _ ih => exact .goesOn k hk l status new rest (hone.mono hnm) ih

/-- **The loop of `process_read`**. -/
theorem readLoop_records : ∀ (answers : List ReadAnswer) (n : Nat) (el : EventLoop η κ) {status : IoStatus}
    {t : EventLoop η κ} {id : Nat}, (∀ i, el.connections.get key = some i → i.id = id) →
      readLoop key answers n el = .ok status t → t.options = el.options ∧ ∃ new, t.trace = el.trace ++ new ∧
        ReadsAll id el.options.maxBatchSize el.offered n status new
  | [], n, el, status, t, id, hid, h => by
    unfold readLoop at h
    rw [Programs.get_bind] at h
    split at h
    · rename_i hn
      cases h
      exact ⟨rfl, [], (List.append_nil _).symm, .yields n hn⟩
    · rename_i hn
      obtain ⟨r, u, hu, h⟩ := bind_ok.mp h
      obtain ⟨i, s, hi, hs, hreads⟩ := readOnce_some hu
      obtain ⟨hc, new, hnew, hone⟩ := hreads.records hi
      rw [hid i hi] at hone
      cases r with
      | inl status =>
        cases h
        exact ⟨hc.options, new, hnew, .stops n (Nat.lt_of_not_le hn) _ new hone⟩
      | inr k =>
        -- a read that would block brings nothing
        cases hreads with
        | goesOn bs s' b hb hr => cases hr
  | a :: answers, n, el, status, t, id, hid, h => by
    unfold readLoop at h
    rw [Programs.get_bind] at h
    split at h
    · rename_i hn
      cases h
      exact ⟨rfl, [], (List.append_nil _).symm, .yields n hn⟩
    · rename_i hn
      obtain ⟨r, u, hu, h⟩ := bind_ok.mp h
      obtain ⟨i, s, hi, hs, hreads⟩ := readOnce_some hu
      obtain ⟨hc, new, hnew, hone⟩ := hreads.records hi
      rw [hid i hi] at hc hone
      cases r with
      | inl status =>
        cases h
        exact ⟨hc.options, new, hnew, .stops n (Nat.lt_of_not_le hn) _ new hone⟩
      | inr k =>
        have hid' : ∀ j, u.connections.get key = some j → j.id = id := fun j hj => by
          obtain ⟨j', hj', h'⟩ := hc.live
          cases hj'.symm.trans hj
          exact h'
        obtain ⟨ho, rest, hrest, hall⟩ := readLoop_records answers (n + k) u hid' h
        refine ⟨ho.trans hc.options, new ++ rest, by rw [hrest, hnew, List.append_assoc], ?_⟩
        rw [hc.options] at hall
        exact .goesOn n (Nat.lt_of_not_le hn) k _ new rest hone (hall.mono hc.offered)

/-- **A read pass**. -/
theorem processRead_records {status : IoStatus} (h : processRead key el = .ok status t) :
    t.options = el.options ∧ ∃ new, t.trace = el.trace ++ new ∧
      (status = .completed ∧ new = [] ∨ ∃ i, el.connections.get key = some i ∧
        ReadsAll i.id el.options.maxBatchSize el.offered 0 status new) := by
  unfold processRead at h
  rw [Programs.get_bind] at h
  cases hi : el.connections.get key with
  | none =>
    rw [hi] at h
    cases h
    exact ⟨rfl, [], (List.append_nil _).symm, Or.inl ⟨rfl, rfl⟩⟩
  | some i =>
    rw [hi] at h
    dsimp only at h
    split at h
    · cases h
      exact ⟨rfl, [], (List.append_nil _).symm, Or.inl ⟨rfl, rfl⟩⟩
    · have hid : ∀ j, el.connections.get key = some j → j.id = i.id := fun j hj => by
        cases hi.symm.trans hj
        rfl
      obtain ⟨ho, new, hnew, hall⟩ := readLoop_records _ 0 el hid h
      exact ⟨ho, new, hnew, Or.inr ⟨i, rfl, hall⟩⟩

end Reading
end EventLoop

/-! ## How much was read -/

/-- The bytes of the connection with a number that were handed to `on_traffic`. -/
def Obs.bytesRead (num : Nat) : Obs κ → Nat
  | .traffic before _ _ => if before.id = num then (before.conn.ioBuffer.getD []).length else 0
  | _ => 0

namespace EventLoop

variable {el t : EventLoop η κ} {num maxBatch offered n : Nat} {status : IoStatus} {new : List (Obs κ)}

/-- The bytes read from a connection so far. -/
def bytesRead (el : EventLoop η κ) (num : Nat) : Nat := (el.trace.map (Obs.bytesRead num)).sum

theorem bytesRead_append (h : t.trace = el.trace ++ new) :
    t.bytesRead num = el.bytesRead num + (new.map (Obs.bytesRead num)).sum := by
  rw [bytesRead, h, List.map_append, List.sum_append, bytesRead]

theorem bytesRead_of_records (h : el.Records (fun obs => obs.bytesRead num = 0) t) :
    t.bytesRead num = el.bytesRead num := by
  obtain ⟨-, new, hnew, hp⟩ := h
  have hzero : (new.map (Obs.bytesRead num)).sum = 0 := by
    rw [List.map_congr_left hp]
    simp
  rw [bytesRead_append hnew, hzero, Nat.add_zero]

theorem ReadsOne.bytes {r : IoStatus ⊕ Nat} (h : ReadsOne num offered r new) :
    (new.map (Obs.bytesRead num)).sum ≤ offered ∧ (∀ k, r = .inr k → (new.map (Obs.bytesRead num)).sum = k) ∧
      ∀ num', num' ≠ num → ∀ obs ∈ new, obs.bytesRead num' = 0 := by
  cases h with
  | nothing status hst => exact ⟨Nat.zero_le _, fun k hk => (by cases hk), by simp⟩
  | heard before after i bs hid hio hne hlen =>
    have hsum : ([.traffic before after .none, .merged i].map (Obs.bytesRead num)).sum = bs.length := by
      simp [Obs.bytesRead, hid, hio]
    refine ⟨hsum.trans_le hlen, fun k hk => by rw [hsum]; exact Sum.inr.inj hk, fun num' hne' obs hobs => ?_⟩
    rcases List.mem_pair.mp hobs with rfl | rfl
    · simp [Obs.bytesRead, hid, hne'.symm]
    · rfl
  | stopped before after action bs hid hio hne hlen hact =>
    have hsum : ([.traffic before after action].map (Obs.bytesRead num)).sum = bs.length := by
      simp [Obs.bytesRead, hid, hio]
    refine ⟨hsum.trans_le hlen, fun k hk => (by cases hk), fun num' hne' obs hobs => ?_⟩
    rw [List.mem_singleton.mp hobs]
    simp [Obs.bytesRead, hid, hne'.symm]

/-- **What a read pass reads**: a full batch if it yields, always less than a batch and a buffer, and nothing of other
connections. -/
theorem ReadsAll.bytes (h : ReadsAll num maxBatch offered n status new) :
    (status = .yield → maxBatch ≤ n + (new.map (Obs.bytesRead num)).sum) ∧
      (n < maxBatch + offered → n + (new.map (Obs.bytesRead num)).sum < maxBatch + offered) ∧
      ∀ num', num' ≠ num → ∀ obs ∈ new, obs.bytesRead num' = 0 := by
  induction h with
  | yields n hn => exact ⟨fun _ => hn, id, by simp⟩
  | stops n hn status new hone =>
    obtain ⟨hle, -, hothers⟩ := hone.bytes
    refine ⟨fun hst => ?_, fun _ => Nat.add_lt_add_of_lt_of_le hn hle, hothers⟩
    cases hone with
    | nothing status hst' => rcases hst' with rfl | ⟨_, rfl⟩ <;> cases hst
    | stopped before after action bs _ _ _ _ _ => split at hst <;> cases hst
  | goesOn n hn k status new rest hone hrest ih =>
    obtain ⟨hle, hk, hothers⟩ := hone.bytes
    obtain ⟨hyield, hbound, hothers'⟩ := ih
    have hk := hk k rfl
    rw [List.map_append, List.sum_append, hk, ← Nat.add_assoc]
    refine ⟨hyield, fun _ => hbound (Nat.add_lt_add_of_lt_of_le hn (hk ▸ hle)), fun num' hne obs hobs => ?_⟩
    exact (List.mem_append.mp hobs).elim (hothers num' hne obs) (hothers' num' hne obs)

end EventLoop

/-! ## The tasks -/

section Tasks

open EventLoop

variable [Codec κ Msg] [EventHandler η κ Msg] {el t : EventLoop η κ} {p : Obs κ → Prop} {key : Nat}

/-- The task starts a read pass on the connection at a key, in a state. -/
inductive Task.ReadsAt (el : EventLoop η κ) : Task → Nat → EventLoop η κ → Prop
  | read (key : Nat) : ReadsAt el (.command (.read key)) key el
  | io (key : Nat) {ev : Event} {t : EventLoop η κ}
      (hup : ((ev.error || ev.readClosed) && (!ev.readable && !ev.writable)) = false) (hev : ev.error || ev.readable)
      (hwrite : (if ev.error || ev.writable then writeSocket key else pure ()) el = .ok ⟨⟩ t) :
      ReadsAt el (.io key ev) key t

/-- The task comes to a shutdown, which leads to `t`. -/
def Task.ShutsTo (task : Task) (el t : EventLoop η κ) : Prop :=
  ∃ u v, task.ShutsDown el u ∧ shutdown u = .ok ⟨⟩ v ∧ (t = v ∨ ∃ id, t = v.record (.drops id))

/-- What may be recorded besides the callbacks of a read pass. -/
structure Allowed (p : Obs κ → Prop) : Prop where
  parting : ∀ obs, Obs.Parting obs → p obs
  opens : ∀ before after action, action ≠ .shutdown → p (.opens before after action)
  ticks : ∀ before after action, action ≠ .shutdown → p (.ticks before after action)

namespace EventLoop

variable {C : EventLoop η κ → Prop}

theorem readSocket_tells (hp : ∀ obs, Obs.Parting obs → p obs) (hs : el.Socketed) (hset : el.SettledAt key)
    (hread : ∀ status u, processRead key el = .ok status u → status ≠ .shutdown → el.Records p u)
    (hc : ∀ u v, processRead key el = .ok .shutdown u → shutdown u = .ok ⟨⟩ v → C v) :
    Tells p C (readSocket key) el := by
  obtain ⟨status, u, hu, -⟩ := processRead_ok hs hset
  by_cases hst : status = .shutdown
  · subst hst
    obtain ⟨v, hv⟩ := shutdown_ok u
    have hthrow : readSocket key el = .error .eventLoopShutdown v := by
      unfold readSocket
      rw [bind_apply, hu]
      show (shutdown >>= fun _ => (throw .eventLoopShutdown : LoopM η κ Unit)) u = _
      rw [bind_apply, hv]
      rfl
    exact .of_error hthrow (Or.inr (hc u v hu hv))
  · unfold readSocket
    refine .bind (.of_ok hu (hread status u hu hst)) fun status' u' hu' => ?_
    cases hu.symm.trans hu'
    cases status with
    | closed graceful => exact closeConnection_tells hp key graceful u
    | «yield» => exact trigger_tells _ u
    | completed => exact .pure _
    | shutdown => exact absurd rfl hst

theorem register_tells (hp : Allowed p) {socket : Socket} {localAddr peerAddr : NetworkAddress} {task : Task}
    (htask : task = .register socket localAddr peerAddr ∨ task = .command (.register socket localAddr peerAddr)) :
    Tells p (task.ShutsTo el) (register socket localAddr peerAddr) el := by
  have hpolled : el.Records p el.polled := .silent rfl rfl
  have hopen : el.polled.openAction socket localAddr peerAddr ≠ .shutdown →
      el.Records p (el.polled.opening socket localAddr peerAddr).2 := fun hact =>
    hpolled.trans (.one rfl rfl (hp.opens _ _ _ hact))
  rcases pollResult_cases el with hpoll | ⟨e, hpoll, -⟩
  · rcases register_opens socket localAddr peerAddr hpoll with ⟨hact, h⟩ | ⟨hact, h⟩ | ⟨hact, v, hv, h⟩
    · exact .of_ok h ((hopen (by simp [hact])).trans (.silent rfl rfl))
    · exact .of_ok h ((hopen (by simp [hact])).trans (.one rfl rfl (hp.parting _ trivial)))
    · exact .of_error h (Or.inr ⟨_, v, .register htask hpoll hact, hv, Or.inr ⟨_, rfl⟩⟩)
  · have h : register socket localAddr peerAddr el = .error e el.polled := by
      unfold register
      rw [Programs.get_bind, bind_apply, hpoll]
    exact .of_error h (Or.inl hpolled)

omit [EventHandler η κ Msg] in
/-- The operations of a tick record nothing. -/
theorem tickOps_records (ops : List (Nat × Op κ Msg)) : ∀ el : EventLoop η κ, el.Records p (ops.foldl tickOp el) := by
  induction ops with
  | nil => exact fun el => .refl el
  | cons op ops ih =>
    intro el
    refine .trans (t := el.tickOp op) ?_ (ih _)
    unfold tickOp
    split <;> exact .silent rfl rfl

theorem ticked_records (hact : p (.ticks el.connections el.ticked.connections
    (EventHandler.onTick el.handler el.occupants).1.action)) : el.Records p el.ticked := by
  have hops : el.Records p ((EventHandler.onTick el.handler el.occupants).1.ops.foldl tickOp
      { el with handler := (EventHandler.onTick el.handler el.occupants).2 }) := by
    have h := tickOps_records (p := p) (EventHandler.onTick el.handler el.occupants).1.ops
      { el with handler := (EventHandler.onTick el.handler el.occupants).2 }
    exact ⟨h.options, h.trace⟩
  exact hops.trans (.one rfl rfl hact)

theorem onTick_tells (hp : Allowed p) : Tells p (Task.tick.ShutsTo el) (onTick (η := η) (κ := κ)) el := by
  by_cases hact : (EventHandler.onTick el.handler el.occupants).1.action = .shutdown
  · obtain ⟨v, hv⟩ := shutdown_ok el.ticked
    refine .of_error (e := .eventLoopShutdown) (t := v) ?_ (Or.inr ⟨_, v, .tick hact, hv, Or.inl rfl⟩)
    rw [onTick_eq, if_pos hact, bind_apply, hv]
    rfl
  · have hok : onTick (η := η) (κ := κ) el = .ok (EventHandler.onTick el.handler el.occupants).1.delay el.ticked := by
      rw [onTick_eq, if_neg hact]
      rfl
    exact .of_ok hok (ticked_records (hp.ticks _ _ _ hact))

end EventLoop

namespace Task

/-- **What a task records**: what is allowed, and what its read pass records; unless it comes to a shutdown. -/
theorem tells (hp : Allowed p) {task : Task} (hs : el.Socketed) (hset : ∀ k, el.SettledAt k)
    (hread : ∀ key u, task.ReadsAt el key u → ∀ status v, processRead key u = .ok status v → status ≠ .shutdown →
      u.Records p v) : Tells p (task.ShutsTo el) task.run el := by
  cases task with
  | command cmd =>
    show Tells p _ (handleCommand cmd) el
    unfold handleCommand
    cases cmd with
    | none => exact .pure _
    | asyncWrite gfd data => exact asyncWrite_tells hp.parting gfd data el
    | register socket localAddr peerAddr => exact register_tells hp (Or.inr rfl)
    | close key => exact closeConnection_tells hp.parting key true el
    | read key =>
      exact readSocket_tells hp.parting hs (hset key) (hread key el (.read key)) fun u v hu hv =>
        ⟨u, v, .read hu, hv, Or.inl rfl⟩
    | write key => exact writeSocket_tells hp.parting key el
    | wake => exact wake_tells el
    | shutdown => exact shutdown_tells fun v hv => ⟨el, v, .command, hv, Or.inl rfl⟩
  | io key ev =>
    show Tells p _ (processIo key ev) el
    unfold processIo
    split
    · exact closeConnection_tells hp.parting key false el
    · rename_i hup
      have hrest : ∀ u : EventLoop η κ, u.Socketed → u.SettledAt key →
          (if ev.error || ev.writable then writeSocket key else pure ()) el = .ok ⟨⟩ u →
          Tells p ((Task.io key ev).ShutsTo el)
            (if (ev.error || ev.readable) = true then readSocket key >>= fun _ => reregister key
              else reregister key) u := by
        intro u hu hset hw
        split
        · rename_i hev
          refine .bind (readSocket_tells hp.parting hu hset (hread key u (.io key (eq_false_of_ne_true hup) hev hw)) ?_)
            fun _ v _ => reregister_tells key v
          exact fun v w hv hw' => ⟨v, w, .io (eq_false_of_ne_true hup) hev hw hv, hw', Or.inl rfl⟩
        · exact reregister_tells key u
      dsimp only
      split
      · rename_i hev
        refine .bind (writeSocket_tells hp.parting key el) fun _ u hu => ?_
        have hus := hs.keeps (keeps_of_effects (effects_any ((writeSocket_leads key el).ok hu)))
        exact hrest u hus (writeSocket_settled (hset key) hu) (by rw [if_pos hev]; exact hu)
      · rename_i hev
        exact hrest el hs (hset key) (by rw [if_neg hev]; rfl)
  | register socket localAddr peerAddr => exact register_tells hp (Or.inl rfl)
  | tick => exact .bind (onTick_tells hp) fun _ _ _ => .pure _

end Task
end Tasks
end Rnet
