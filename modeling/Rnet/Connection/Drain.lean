import Rnet.Connection.Outbound
import Rnet.Lib.Runs

/-!
# Drains that keep a healthy connection

On a healthy socket (it never fails and takes at least one byte of a non-empty offer) `flush` and `process_write` give
the connection up exactly when a `write_vectored` call offers nothing, that is when the chunks at the front of
`out_buffer` are all empty.

* From a firm queue no drain does so (`Healthy.survives`); from any other queue some healthy socket makes `flush` and
  `process_write` give up (`flush_gives_up`, `processWrite_gives_up`).
* What a run of calls has handed over by then (`Call.payload`) bounds the queue from both sides: however the socket
  answered, the queue is firm if all of it put together is (`perform_firmer`), and a socket that puts every write off
  leaves just that in the queue (`exists_putOff`).

So the calls keep every healthy connection exactly when what they handed over is firm before each drain
(`drains_survive`). An empty payload written while output is queued breaks it (`empty_payload_closes`).
-/

namespace Rnet

open Chunks Runs

/-! ## Healthy sockets -/

/-- The answer of a socket that never fails and takes something of a non-empty offer. -/
def WriteAnswer.Healthy : WriteAnswer → Prop
  | .took n => 0 < n
  | .wouldBlock | .interrupted => True
  | .fatal _ => False

instance : DecidablePred WriteAnswer.Healthy := fun a => by
  cases a <;> unfold WriteAnswer.Healthy <;> infer_instance

def Socket.Healthy (s : Socket) : Prop := ∀ a ∈ s.writes, a.Healthy

instance : DecidablePred Socket.Healthy := fun s => inferInstanceAs (Decidable (∀ a ∈ s.writes, a.Healthy))

namespace Socket

theorem answerWrite_writes (s : Socket) (a : WriteAnswer) (bs : Bytes) :
    (s.answerWrite a bs).2.writes = s.writes.tail := by
  cases a <;> rfl

/-- A healthy socket takes a byte of a non-empty offer. -/
theorem answerWrite_pos {s s' : Socket} {a : WriteAnswer} {bs : Bytes} {n : Nat} (ha : a.Healthy)
    (hbs : 0 < bs.length) (h : s.answerWrite a bs = (.ok n, s')) : 0 < n := by
  cases a with
  | took m =>
    simp only [answerWrite, Prod.mk.injEq, Except.ok.injEq] at h
    obtain ⟨rfl, -⟩ := h
    exact Nat.lt_min.mpr ⟨ha, hbs⟩
  | wouldBlock => simp [answerWrite] at h
  | interrupted => simp [answerWrite] at h
  | fatal code => simp [answerWrite] at h

/-- A healthy socket only ever puts a write off. -/
theorem answerWrite_transient {s s' : Socket} {a : WriteAnswer} {bs : Bytes} {e : IoError} (ha : a.Healthy)
    (h : s.answerWrite a bs = (.error e, s')) : e.kind = .wouldBlock ∨ e.kind = .interrupted := by
  cases a with
  | took m => simp [answerWrite] at h
  | wouldBlock => simp only [answerWrite, Prod.mk.injEq, Except.error.injEq] at h; exact Or.inl (by rw [← h.1]; rfl)
  | interrupted => simp only [answerWrite, Prod.mk.injEq, Except.error.injEq] at h; exact Or.inr (by rw [← h.1]; rfl)
  | fatal code => cases ha

theorem Healthy.of_suffix {s t : Socket} (hs : s.Healthy) (h : t.writes <:+ s.writes) : t.Healthy := fun a ha =>
  hs a (h.subset ha)

/-- The socket after it put one more write off. -/
def delayed (s : Socket) : Socket := { s with writes := .wouldBlock :: s.writes }

theorem Healthy.delayed {s : Socket} (hs : s.Healthy) : s.delayed.Healthy := by
  intro a ha
  rcases List.mem_cons.mp ha with rfl | ha
  · trivial
  · exact hs a ha

end Socket

namespace Connection

variable {κ Msg : Type}

/-! ## Drains of a firm queue -/

/-- **On a healthy socket a firm queue is drained without an empty offer.** -/
theorem drainLoop_offers (limit : Option Nat) :
    ∀ (answers : List WriteAnswer) (sock : Socket) (out : List Bytes) (written : Nat),
      (∀ a ∈ answers, a.Healthy) → Firm IO_MAX out →
      (∀ n ∈ (drainLoop limit answers sock out written).offers, 0 < n) ∧
      (drainLoop limit answers sock out written).stop ∈ [DrainStop.drained, .batchFull, .blocked] := by
  intro answers
  induction answers with
  | nil =>
    intro sock out written _ hout
    rw [drainLoop]
    split
    · exact ⟨by simp, by simp⟩
    · rename_i hne
      split
      · exact ⟨by simp, by simp⟩
      · exact ⟨by simpa using hout.take_flatten_pos hne, by simp⟩
  | cons a answers ih =>
    intro sock out written hans hout
    have ha : a.Healthy := hans a List.mem_cons_self
    have hans' : ∀ b ∈ answers, b.Healthy := fun b hb => hans b (List.mem_cons_of_mem _ hb)
    rw [drainLoop]
    split
    · exact ⟨by simp, by simp⟩
    rename_i hne
    have hpos : 0 < (out.take IO_MAX).flatten.length := hout.take_flatten_pos hne
    split
    · exact ⟨by simp, by simp⟩
    simp only
    split
    · rename_i sock' h
      exact absurd (Socket.answerWrite_pos ha hpos h) (Nat.lt_irrefl 0)
    · rename_i n sock' _ h
      obtain ⟨h1, h2⟩ := ih sock' (advance n out) (written + n) hans' (hout.advance (by decide) n)
      exact ⟨List.forall_mem_cons.mpr ⟨hpos, h1⟩, h2⟩
    · rename_i e sock' h
      have he := Socket.answerWrite_transient ha h
      split
      · exact ⟨by simpa using hpos, by simp⟩
      · rename_i hw
        rw [if_pos (he.resolve_left hw)]
        obtain ⟨h1, h2⟩ := ih sock' out written hans' hout
        exact ⟨List.forall_mem_cons.mpr ⟨hpos, h1⟩, h2⟩

/-- A drain only uses up answers, and leaves a queue that is firm if the queue was. -/
theorem drainLoop_keeps (limit : Option Nat) :
    ∀ (answers : List WriteAnswer) (sock : Socket) (out : List Bytes) (written : Nat), sock.writes = answers →
      (drainLoop limit answers sock out written).sock.writes <:+ answers ∧
      Firmer IO_MAX (drainLoop limit answers sock out written).out out := by
  intro answers
  induction answers with
  | nil =>
    intro sock out written hs
    rw [drainLoop]
    split
    · exact ⟨by simp [hs], Firmer.refl out⟩
    · split <;> exact ⟨by simp [hs], Firmer.refl out⟩
  | cons a answers ih =>
    intro sock out written hs
    have htail : ∀ {r : IoResult Nat} {sock' : Socket},
        sock.answerWrite a (out.take IO_MAX).flatten = (r, sock') → sock'.writes = answers := by
      intro r sock' h
      have := sock.answerWrite_writes a (out.take IO_MAX).flatten
      rw [h, hs] at this
      exact this
    rw [drainLoop]
    split
    · exact ⟨by simp [hs], Firmer.refl out⟩
    split
    · exact ⟨by simp [hs], Firmer.refl out⟩
    simp only
    split
    · rename_i sock' h
      exact ⟨by simp [htail h], Firmer.refl out⟩
    · rename_i n sock' _ h
      obtain ⟨h1, h2⟩ := ih sock' (advance n out) (written + n) (htail h)
      exact ⟨h1.trans (List.suffix_cons a answers), h2.trans (firmer_advance (by decide) n out)⟩
    · rename_i e sock' h
      split
      · exact ⟨by simp [htail h], Firmer.refl out⟩
      · split
        · obtain ⟨h1, h2⟩ := ih sock' out written (htail h)
          exact ⟨h1.trans (List.suffix_cons a answers), h2⟩
        · exact ⟨by simp [htail h], Firmer.refl out⟩

/-- **A socket that takes one byte at a time is given up on a queue that is not firm.** -/
theorem drainLoop_gives_up {limit : Option Nat} :
    ∀ (n : Nat) (sock : Socket) (out : List Bytes) (written : Nat), out.flatten.length = n → ¬Firm IO_MAX out →
      (∀ m ∈ limit, written + n < m) →
      (drainLoop limit (List.replicate (n + 1) (.took 1)) sock out written).stop = .tookNothing
  | n, sock, out, written, hlen, hout, hlim => by
    have hne : out ≠ [] := by
      rintro rfl
      exact hout (Solid.nil.firm (by decide))
    have hlim' : ¬limit.any (· ≤ written) = true := by
      cases limit with
      | none => simp
      | some m => have := hlim m rfl; simp; omega
    rw [List.replicate_succ, drainLoop, if_neg hne, if_neg hlim']
    simp only [Socket.answerWrite]
    by_cases hbatch : (out.take IO_MAX).flatten = []
    · simp [hbatch]
    · have hpos : 0 < (out.take IO_MAX).flatten.length := List.length_pos_iff.mpr hbatch
      have hone : min 1 (out.take IO_MAX).flatten.length = 1 := by omega
      have hadv : (advance 1 out).flatten.length = n - 1 := by rw [flatten_advance, List.length_drop, hlen]
      have hn : 0 < n := by
        have := (prefix_flatten_take IO_MAX out).length_le
        omega
      obtain ⟨m, rfl⟩ : ∃ m, n = m + 1 := ⟨n - 1, by omega⟩
      simp only [hone]
      exact drainLoop_gives_up m _ _ _ hadv (not_firm_advance_one hout hbatch) (fun k hk => by
        have := hlim k hk; omega)

/-- The socket that takes one byte at a time. -/
def oneByOne (fd : Int) (n : Nat) : Socket := ⟨fd, List.replicate n (.took 1), [], [], [], none⟩

theorem oneByOne_healthy (fd : Int) (n : Nat) : (oneByOne fd n).Healthy := fun a ha => by
  rw [List.eq_of_mem_replicate ha]
  exact Nat.one_pos

/-- A queue that is not firm makes `flush` give some healthy socket up. -/
theorem flush_gives_up {c : Connection κ} {out : List Bytes} (ho : c.outBuffer = some out) (hout : ¬Firm IO_MAX out) :
    ∃ s : Socket, s.Healthy ∧
      ({ c with socket := some s } : Connection κ).flush.1 = .error ⟨.writeZero, "connection closed"⟩ := by
  refine ⟨oneByOne c.gfd.fd (out.flatten.length + 1), oneByOne_healthy _ _, ?_⟩
  have h : (drain none (oneByOne c.gfd.fd (out.flatten.length + 1)) out).stop = .tookNothing :=
    drainLoop_gives_up _ _ out 0 rfl hout (by simp)
  rw [flush_some (c := { c with socket := _ }) rfl ho, h]
  rfl

/-- A queue that is not firm makes `process_write` give some healthy socket up, when the batch reaches its end. -/
theorem processWrite_gives_up {c : Connection κ} (hout : ¬Firm IO_MAX c.queued) {maxBatch : Nat}
    (hmax : c.queued.flatten.length < maxBatch) :
    ∃ s : Socket, s.Healthy ∧ (processWrite maxBatch { c with socket := some s }).1 = .ok (.closed false) := by
  refine ⟨oneByOne c.gfd.fd (c.queued.flatten.length + 1), oneByOne_healthy _ _, ?_⟩
  have h : (drain (some maxBatch) (oneByOne c.gfd.fd (c.queued.flatten.length + 1)) c.queued).stop = .tookNothing :=
    drainLoop_gives_up _ _ c.queued 0 rfl hout (fun m hm => by cases hm; omega)
  have hne : c.queued ≠ [] := fun h0 => hout (h0 ▸ Solid.nil.firm (by decide))
  rw [processWrite_some (c := { c with socket := _ }) rfl hne]
  change (Except.ok (drain _ _ c.queued).stop.status : IoResult IoStatus) = _
  rw [h]
  rfl

/-! ## Calls on a healthy connection -/

/-- The connection is open on a healthy socket. -/
def Healthy (c : Connection κ) : Prop := ∃ s, c.socket = some s ∧ s.Healthy

theorem Healthy.drained {c : Connection κ} {s : Socket} (h : s.Healthy) (limit : Option Nat) (out : List Bytes) :
    (c.drained (drain limit s out)).Healthy :=
  ⟨_, rfl, h.of_suffix (drainLoop_keeps limit s.writes s out 0 rfl).1⟩

theorem Healthy.writeOrQueue {c : Connection κ} (h : c.Healthy) {call : Socket → IoResult Nat × Socket}
    {bufs : List Bytes} {rest : Nat → List Bytes} (hcall : ∀ s, call s = s.write bufs.flatten) :
    (c.writeOrQueue call bufs rest).2.Healthy := by
  obtain ⟨s, hs, hh⟩ := h
  have hw : (s.write bufs.flatten).2.Healthy := hh.of_suffix (by
    unfold Socket.write
    rw [s.answerWrite_writes]
    exact List.tail_suffix _)
  unfold Connection.writeOrQueue
  split
  · exact ⟨s, hs, hh⟩
  · simp only [hs, hcall]
    rcases he : s.write bufs.flatten with ⟨⟨e⟩ | ⟨n⟩, s'⟩
    · rw [he] at hw
      simp only
      split <;> exact ⟨s', rfl, hw⟩
    · rw [he] at hw
      simp only
      split <;> exact ⟨s', rfl, hw⟩

theorem Healthy.writeBytes {c : Connection κ} (h : c.Healthy) (buf : Bytes) : (c.writeBytes buf).2.Healthy :=
  h.writeOrQueue (by simp)

theorem Healthy.writeVectored {c : Connection κ} (h : c.Healthy) (bufs : List Bytes) :
    (c.writeVectored bufs).2.Healthy := by
  unfold Connection.writeVectored
  split
  · exact h
  · exact h.writeOrQueue (fun _ => rfl)

/-- `write_vectored_bytes` and `write_vectored` are the same function of the payloads. -/
theorem writeVectoredBytes_eq (c : Connection κ) (bufs : List Bytes) :
    c.writeVectoredBytes bufs = c.writeVectored bufs := by
  unfold writeVectoredBytes Connection.writeVectored
  rw [show (fun n => unsentBytes n bufs) = fun n => unsent n bufs from funext fun n => unsentBytes_eq n bufs]

theorem Healthy.send [Codec κ Msg] {c : Connection κ} (h : c.Healthy) (msg : Msg) : (c.send msg).2.Healthy := by
  unfold Connection.send
  cases hc : c.codec with
  | none => exact h
  | some codec =>
    rcases henc : Codec.encode codec msg [] with ⟨⟨e⟩ | ⟨u⟩, codec', buf⟩
    · simp only [henc]
      exact h
    · simp only [henc]
      exact Healthy.writeBytes (c := { c with codec := some codec' }) h buf

theorem Healthy.flush {c : Connection κ} (h : c.Healthy) : c.flush.2.Healthy := by
  obtain ⟨s, hs, hh⟩ := h
  cases ho : c.outBuffer with
  | none => rw [flush_none hs ho]; exact ⟨s, hs, hh⟩
  | some out => rw [flush_some hs ho]; exact Healthy.drained hh none out

theorem Healthy.processWrite {c : Connection κ} (h : c.Healthy) (maxBatch : Nat) :
    (c.processWrite maxBatch).2.Healthy := by
  by_cases hq : c.queued = []
  · rw [processWrite_nil hq]; exact h
  · obtain ⟨s, hs, hh⟩ := h
    rw [processWrite_some hs hq]
    exact Healthy.drained hh _ _

/-- Every call leaves the connection open and healthy. -/
theorem Healthy.perform [Codec κ Msg] {c : Connection κ} (h : c.Healthy) (maxBatch : Nat) (call : Call κ Msg) :
    (call.perform maxBatch c).2.Healthy := by
  cases call with
  | setCodec codec => exact h
  | write buf => exact h.writeBytes buf
  | writeBytes buf => exact h.writeBytes buf
  | writeVectored bufs => exact h.writeVectored bufs
  | writeVectoredBytes bufs => simp only [Call.perform, writeVectoredBytes_eq]; exact h.writeVectored bufs
  | send msg => exact h.send msg
  | flush => exact h.flush
  | processWrite => exact h.processWrite maxBatch

/-- The sizes of the `write_vectored` calls a drain of the queue issues. -/
def drainOffers (limit : Option Nat) (c : Connection κ) : List Nat :=
  match c.socket with
  | some s => (drain limit s c.queued).offers
  | none => []

/-- A drain does not give the connection up and offers at least one byte in each call. -/
def Call.Survives (maxBatch : Nat) (c : Connection κ) : Call κ Msg → Prop
  | .flush => (∀ e, c.flush.1 = .error e → e.kind ≠ .writeZero) ∧ ∀ n ∈ c.drainOffers none, 0 < n
  | .processWrite =>
    (∀ graceful, (c.processWrite maxBatch).1 ≠ .ok (.closed graceful)) ∧
      ∀ n ∈ c.drainOffers (some maxBatch), 0 < n
  | _ => True

/-- The calls that drain the queue. -/
def Call.drains : Call κ Msg → Prop
  | .flush | .processWrite => True
  | _ => False

/-- **A drain of a firm queue keeps a healthy connection.** -/
theorem Healthy.survives {c : Connection κ} (h : c.Healthy) {maxBatch : Nat} {call : Call κ Msg}
    (hfirm : call.drains → Firm IO_MAX c.queued) : call.Survives maxBatch c := by
  obtain ⟨s, hs, hh⟩ := h
  have hdrain : Firm IO_MAX c.queued → ∀ limit, (∀ n ∈ c.drainOffers limit, 0 < n) ∧
      (drain limit s c.queued).stop ∈ [DrainStop.drained, .batchFull, .blocked] := fun hq limit => by
    simpa only [drainOffers, hs, drain] using drainLoop_offers limit s.writes s c.queued 0 hh hq
  cases call with
  | flush =>
    obtain ⟨hoff, hstop⟩ := hdrain (hfirm trivial) none
    refine ⟨fun e he => ?_, hoff⟩
    cases ho : c.outBuffer with
    | none => rw [flush_none hs ho] at he; cases he
    | some out =>
      obtain rfl : c.queued = out := by simp [queued, ho]
      rw [flush_some hs ho] at he
      cases hd : (drain none s c.queued).stop <;> simp [hd, DrainStop.flushed] at he hstop
      rw [← he]
      simp
  | processWrite =>
    obtain ⟨hoff, hstop⟩ := hdrain (hfirm trivial) (some maxBatch)
    refine ⟨fun graceful he => ?_, hoff⟩
    by_cases hq : c.queued = []
    · rw [processWrite_nil hq] at he; cases he
    · rw [processWrite_some hs hq] at he
      cases hd : (drain (some maxBatch) s c.queued).stop <;> simp [hd, DrainStop.status] at he hstop
  | _ => trivial

/-! ## What the calls hand over -/

/-- The bytes `send` writes for a message: none without a codec or when it refuses the message. -/
def encoding [Codec κ Msg] (codec : Option κ) (msg : Msg) : Option Bytes :=
  match codec with
  | none => none
  | some codec =>
    match Codec.encode codec msg [] with
    | (.ok _, _, buf) => some buf
    | (.error _, _, _) => none

/-- The buffers a call hands to the socket or to the queue: `write_vectored` returns early when there is no byte. -/
def Call.payload [Codec κ Msg] (codec : Option κ) : Call κ Msg → List Bytes
  | .write buf | .writeBytes buf => [buf]
  | .writeVectored bufs | .writeVectoredBytes bufs => if bufs.flatten.length = 0 then [] else bufs
  | .send msg => (encoding codec msg).toList
  | .setCodec _ | .flush | .processWrite => []

/-- The codec a call leaves. -/
def Call.codecAfter [Codec κ Msg] (codec : Option κ) : Call κ Msg → Option κ
  | .setCodec codec' => some codec'
  | .send msg => codec.map fun codec => (Codec.encode codec msg []).2.1
  | _ => codec

/-- Before every drain of the calls, the chunks and what the calls before it handed over are a firm queue. -/
def FirmPayloads [Codec κ Msg] (codec : Option κ) (chunks : List Bytes) : List (Call κ Msg) → Prop
  | [] => True
  | call :: calls =>
    (call.drains → Firm IO_MAX chunks) ∧ FirmPayloads (call.codecAfter codec) (chunks ++ call.payload codec) calls

/-- Buffers that are not empty are firm, whatever the calls. -/
theorem FirmPayloads.of_solid [Codec κ Msg] {codec : Option κ} {chunks : List Bytes} {calls : List (Call κ Msg)}
    (hchunks : Solid chunks) (hcalls : ∀ call ∈ calls, ∀ codec : Option κ, Solid (call.payload codec)) :
    FirmPayloads codec chunks calls := by
  induction calls generalizing codec chunks with
  | nil => trivial
  | cons call calls ih =>
    have hcall := hcalls call List.mem_cons_self codec
    exact ⟨fun _ => hchunks.firm (by decide),
      ih (hchunks.append hcall) fun d hd => hcalls d (List.mem_cons_of_mem _ hd)⟩

theorem writeOrQueue_codec (c : Connection κ) {call : Socket → IoResult Nat × Socket} {bufs : List Bytes}
    {rest : Nat → List Bytes} : (c.writeOrQueue call bufs rest).2.codec = c.codec := by
  unfold writeOrQueue
  dsimp only
  split
  · rfl
  · cases c.socket with
    | none => rfl
    | some s =>
      simp only
      split <;> split <;> rfl

/-- What is queued is firm if what was queued and the buffers are. -/
theorem writeOrQueue_firmer (c : Connection κ) {call : Socket → IoResult Nat × Socket} {bufs : List Bytes}
    {rest : Nat → List Bytes} (hrest : ∀ n, n < bufs.flatten.length → Firmer IO_MAX (rest n) bufs) :
    Firmer IO_MAX (c.writeOrQueue call bufs rest).2.queued (c.queued ++ bufs) := by
  unfold writeOrQueue
  split
  · exact Firmer.refl _
  · rename_i hq
    have hq : c.queued = [] := not_not.mp hq
    rw [hq, List.nil_append]
    have hnil : ∀ c' : Connection κ, c'.outBuffer = c.outBuffer → Firmer IO_MAX c'.queued bufs := by
      intro c' hc'
      rw [queued, hc', show c.outBuffer.getD [] = [] from hq]
      exact Firmer.nil bufs
    have henq : ∀ {c' : Connection κ} {b : List Bytes}, c'.outBuffer = c.outBuffer → Firmer IO_MAX b bufs →
        Firmer IO_MAX (c'.enqueue b).queued bufs := by
      intro c' b hc' hb
      rw [show (c'.enqueue b).queued = c'.queued ++ b from rfl, queued, hc',
        show c.outBuffer.getD [] = [] from hq]
      exact hb
    cases c.socket with
    | none => exact hnil c rfl
    | some s =>
      simp only
      rcases call s with ⟨⟨e⟩ | ⟨n⟩, s'⟩
      · simp only
        split
        · exact henq rfl (Firmer.refl bufs)
        · exact hnil _ rfl
      · simp only
        split
        · rename_i hlt
          exact henq rfl (hrest n hlt)
        · exact hnil _ rfl

theorem writeBytes_firmer (c : Connection κ) (buf : Bytes) :
    Firmer IO_MAX (c.writeBytes buf).2.queued (c.queued ++ [buf]) := by
  refine c.writeOrQueue_firmer fun n hn => ?_
  rw [List.flatten_singleton] at hn
  exact Firmer.cut (by decide) hn (Firmer.refl [])

theorem writeVectored_firmer (c : Connection κ) (bufs : List Bytes) :
    Firmer IO_MAX (c.writeVectored bufs).2.queued
      (c.queued ++ if bufs.flatten.length = 0 then [] else bufs) := by
  unfold writeVectored
  split
  · rw [List.append_nil]
    exact Firmer.refl _
  · exact c.writeOrQueue_firmer fun n _ => firmer_unsent (by decide) n bufs

theorem send_codec [Codec κ Msg] (c : Connection κ) (msg : Msg) :
    (c.send msg).2.codec = c.codec.map fun codec => (Codec.encode codec msg []).2.1 := by
  unfold send
  cases hc : c.codec with
  | none => exact hc
  | some codec =>
    rcases henc : Codec.encode codec msg [] with ⟨⟨e⟩ | ⟨u⟩, codec', buf⟩
    · simp [henc]
    · simp only [henc, Option.map_some]
      exact writeOrQueue_codec { c with codec := some codec' }

theorem send_firmer [Codec κ Msg] (c : Connection κ) (msg : Msg) :
    Firmer IO_MAX (c.send msg).2.queued (c.queued ++ (encoding c.codec msg).toList) := by
  unfold send encoding
  cases hc : c.codec with
  | none => simpa using Firmer.refl c.queued
  | some codec =>
    rcases henc : Codec.encode codec msg [] with ⟨⟨e⟩ | ⟨u⟩, codec', buf⟩
    · simp only [henc, Option.toList_none, List.append_nil]
      exact Firmer.refl c.queued
    · simp only [henc]
      exact writeBytes_firmer { c with codec := some codec' } buf

theorem flush_codec (c : Connection κ) : c.flush.2.codec = c.codec := by
  cases hs : c.socket with
  | none => simp [flush, hs]
  | some s =>
    cases ho : c.outBuffer with
    | none => rw [flush_none hs ho]
    | some out => rw [flush_some hs ho]; rfl

theorem processWrite_codec (maxBatch : Nat) (c : Connection κ) : (c.processWrite maxBatch).2.codec = c.codec := by
  unfold processWrite
  split
  · rfl
  · cases c.socket <;> rfl

/-- What a call does to the codec. -/
theorem perform_codec [Codec κ Msg] (maxBatch : Nat) (call : Call κ Msg) (c : Connection κ) :
    (call.perform maxBatch c).2.codec = call.codecAfter c.codec := by
  cases call with
  | setCodec codec => rfl
  | write buf => exact c.writeOrQueue_codec
  | writeBytes buf => exact c.writeOrQueue_codec
  | writeVectored bufs =>
    simp only [Call.perform, Call.codecAfter, writeVectored]
    split
    · rfl
    · exact c.writeOrQueue_codec
  | writeVectoredBytes bufs =>
    simp only [Call.perform, Call.codecAfter, writeVectoredBytes]
    split
    · rfl
    · exact c.writeOrQueue_codec
  | send msg => exact c.send_codec msg
  | flush => exact c.flush_codec
  | processWrite => exact c.processWrite_codec maxBatch

theorem drained_firmer (c : Connection κ) (limit : Option Nat) (s : Socket) :
    Firmer IO_MAX (c.drained (drain limit s c.queued)).queued c.queued :=
  (drainLoop_keeps limit s.writes s c.queued 0 rfl).2

/-- **However the socket answers**, the queue after a call is firm if what was queued and what the call handed over
are, whatever chunks follow. -/
theorem perform_firmer [Codec κ Msg] (maxBatch : Nat) (call : Call κ Msg) (c : Connection κ) :
    Firmer IO_MAX (call.perform maxBatch c).2.queued (c.queued ++ call.payload c.codec) := by
  cases call with
  | setCodec codec =>
    rw [Call.payload, List.append_nil]
    exact Firmer.refl c.queued
  | write buf => exact c.writeBytes_firmer buf
  | writeBytes buf => exact c.writeBytes_firmer buf
  | writeVectored bufs => exact c.writeVectored_firmer bufs
  | writeVectoredBytes bufs =>
    simp only [Call.perform, writeVectoredBytes_eq]
    exact c.writeVectored_firmer bufs
  | send msg => exact c.send_firmer msg
  | flush =>
    simp only [Call.perform, Call.payload, List.append_nil]
    cases hs : c.socket with
    | none => simpa [flush, hs] using Firmer.refl c.queued
    | some s =>
      cases ho : c.outBuffer with
      | none => rw [flush_none hs ho]; exact Firmer.refl c.queued
      | some out =>
        obtain rfl : c.queued = out := by simp [queued, ho]
        rw [flush_some hs ho]
        exact c.drained_firmer none s
  | processWrite =>
    simp only [Call.perform, Call.payload, List.append_nil]
    by_cases hq : c.queued = []
    · rw [processWrite_nil hq]; exact Firmer.refl c.queued
    · cases hs : c.socket with
      | none => simpa [processWrite, hs, hq] using Firmer.refl c.queued
      | some s =>
        rw [processWrite_some hs hq]
        exact c.drained_firmer _ s

/-! ## Runs of calls -/

/-- One call as a step of the connection. -/
def callStep [Codec κ Msg] (maxBatch : Nat) (c : Connection κ) (call : Call κ Msg) : Option (Connection κ) :=
  some (call.perform maxBatch c).2

/-- **No drain gives a healthy connection up** while what was handed over is firm before each of them. -/
theorem Healthy.run_survives [Codec κ Msg] {maxBatch : Nat} {calls : List (Call κ Msg)} {chunks : List Bytes}
    {c : Connection κ} (h : c.Healthy) (hc : Firmer IO_MAX c.queued chunks)
    (hfirm : FirmPayloads c.codec chunks calls) :
    Along (callStep maxBatch) (fun c call => call.Survives maxBatch c) c calls := by
  induction calls generalizing c chunks with
  | nil => trivial
  | cons call calls ih =>
    obtain ⟨hdrain, hrest⟩ := hfirm
    refine ⟨h.survives fun hd => hc.firm (hdrain hd), fun c' hstep => ?_⟩
    cases hstep
    refine ih (h.perform maxBatch call) ?_ (by rwa [perform_codec])
    exact (perform_firmer maxBatch call c).trans (hc.append _)

/-- The connection after a call whose bytes all wait. -/
def Call.putOff [Codec κ Msg] (call : Call κ Msg) (c : Connection κ) : Connection κ :=
  { c with
    codec := call.codecAfter c.codec
    outBuffer := if call.payload c.codec = [] then c.outBuffer else some (c.queued ++ call.payload c.codec) }

theorem putOff_queued [Codec κ Msg] (call : Call κ Msg) (c : Connection κ) :
    (call.putOff c).queued = c.queued ++ call.payload c.codec := by
  simp only [queued, Call.putOff]
  split
  · rename_i h
    rw [h, List.append_nil]
  · rfl

/-- A write to a socket that puts it off queues its buffers. -/
theorem writeOrQueue_putOff (c : Connection κ) {call : Socket → IoResult Nat × Socket} {bufs : List Bytes}
    {rest : Nat → List Bytes} (hcall : ∀ s, call s = s.write bufs.flatten) (s : Socket) :
    ∃ s' ∈ [s, s.delayed], (({ c with socket := some s' } : Connection κ).writeOrQueue call bufs rest).2 =
      { c.enqueue bufs with socket := some s } := by
  by_cases hq : c.queued = []
  · refine ⟨s.delayed, by simp, ?_⟩
    have hq' : ({ c with socket := some s.delayed } : Connection κ).queued = [] := hq
    have hw : s.delayed.write bufs.flatten = (.error .wouldBlock, s) := rfl
    simp only [writeOrQueue, hq', hcall, hw]
    rfl
  · refine ⟨s, by simp, ?_⟩
    have hq' : ({ c with socket := some s } : Connection κ).queued ≠ [] := hq
    rw [writeOrQueue, if_pos hq']
    rfl

/-- A drain that is put off leaves the queue. -/
theorem drain_putOff (limit : Option Nat) (out : List Bytes) (s : Socket) :
    ∃ s' ∈ [s, s.delayed], (drain limit s' out).sock = s ∧ (drain limit s' out).out = out := by
  by_cases hout : out = []
  · refine ⟨s, by simp, ?_⟩
    rw [drain, drainLoop.eq_def]
    simp only [if_pos hout, and_self]
  by_cases hlim : limit.any (· ≤ 0) = true
  · refine ⟨s, by simp, ?_⟩
    rw [drain, drainLoop.eq_def]
    simp only [if_neg hout, if_pos hlim, and_self]
  · refine ⟨s.delayed, by simp, ?_⟩
    rw [drain, Socket.delayed, drainLoop, if_neg hout, if_neg hlim]
    exact ⟨rfl, rfl⟩

theorem writeBytes_putOff (c : Connection κ) (buf : Bytes) (s : Socket) :
    ∃ s' ∈ [s, s.delayed], (({ c with socket := some s' } : Connection κ).writeBytes buf).2 =
      { c.enqueue [buf] with socket := some s } := c.writeOrQueue_putOff (by simp) s

theorem writeVectored_putOff (c : Connection κ) (bufs : List Bytes) (s : Socket) :
    ∃ s' ∈ [s, s.delayed], (({ c with socket := some s' } : Connection κ).writeVectored bufs).2 =
      { c with
        socket := some s
        outBuffer := if (if bufs.flatten.length = 0 then [] else bufs) = [] then c.outBuffer
          else some (c.queued ++ if bufs.flatten.length = 0 then [] else bufs) } := by
  by_cases h0 : bufs.flatten.length = 0
  · refine ⟨s, by simp, ?_⟩
    simp only [writeVectored, if_pos h0, if_true]
  · obtain ⟨s', hs', h⟩ : ∃ s' ∈ [s, s.delayed], (({ c with socket := some s' } : Connection κ).writeOrQueue
        (·.writeVectored bufs) bufs (unsent · bufs)).2 = { c.enqueue bufs with socket := some s } :=
      c.writeOrQueue_putOff (fun _ => rfl) s
    have hne : bufs ≠ [] := fun hnil => h0 (by rw [hnil]; rfl)
    refine ⟨s', hs', ?_⟩
    simp only [writeVectored, if_neg h0, if_neg hne]
    exact h

theorem send_putOff [Codec κ Msg] (c : Connection κ) (msg : Msg) (s : Socket) :
    ∃ s' ∈ [s, s.delayed], (({ c with socket := some s' } : Connection κ).send msg).2 =
      { (Call.send msg).putOff c with socket := some s } := by
  rcases Option.eq_none_or_eq_some c.codec with hc | ⟨codec, hc⟩
  · refine ⟨s, by simp, ?_⟩
    simp only [Call.putOff, Call.payload, Call.codecAfter, send, encoding, hc, Option.toList_none, if_true,
      Option.map_none]
  · rcases henc : Codec.encode codec msg [] with ⟨⟨e⟩ | ⟨u⟩, codec', buf⟩
    · refine ⟨s, by simp, ?_⟩
      simp only [Call.putOff, Call.payload, Call.codecAfter, send, encoding, hc, henc, Option.toList_none, if_true,
        Option.map_some]
    · obtain ⟨s', hs', h⟩ := writeBytes_putOff { c with codec := some codec' } buf s
      refine ⟨s', hs', ?_⟩
      simp only [Call.putOff, Call.payload, Call.codecAfter, send, encoding, hc, henc, Option.toList_some,
        if_neg (List.cons_ne_nil buf []), Option.map_some]
      exact h

theorem flush_putOff (c : Connection κ) (s : Socket) :
    ∃ s' ∈ [s, s.delayed], ({ c with socket := some s' } : Connection κ).flush.2 = { c with socket := some s } := by
  rcases Option.eq_none_or_eq_some c.outBuffer with ho | ⟨out, ho⟩
  · refine ⟨s, by simp, ?_⟩
    rw [flush_none (c := { c with socket := some s }) rfl ho]
  · obtain ⟨s', hs', hsock, hout⟩ := drain_putOff none out s
    refine ⟨s', hs', ?_⟩
    rw [flush_some (c := { c with socket := some s' }) rfl ho]
    simp only [drained, hsock, hout, ho]

theorem processWrite_putOff (maxBatch : Nat) (c : Connection κ) (s : Socket) :
    ∃ s' ∈ [s, s.delayed], (({ c with socket := some s' } : Connection κ).processWrite maxBatch).2 =
      { c with socket := some s } := by
  by_cases hq : c.queued = []
  · refine ⟨s, by simp, ?_⟩
    rw [processWrite_nil (c := { c with socket := some s }) hq]
  · obtain ⟨s', hs', hsock, hout⟩ := drain_putOff (some maxBatch) c.queued s
    have ho : c.outBuffer = some c.queued := by
      rcases Option.eq_none_or_eq_some c.outBuffer with h | ⟨out, h⟩
      · exact absurd (by rw [queued, h]; rfl) hq
      · rw [queued, h]; rfl
    refine ⟨s', hs', ?_⟩
    rw [processWrite_some (c := { c with socket := some s' }) rfl hq]
    change ({ c with socket := some s' } : Connection κ).drained (drain (some maxBatch) s' c.queued) = _
    simp only [drained, hsock, hout, ho]

/-- **The socket can put any call off**: whatever it answers later, one more `WouldBlock` before it at most leaves all
that the call hands over in the queue. -/
theorem exists_putOff [Codec κ Msg] (maxBatch : Nat) (call : Call κ Msg) (c : Connection κ) (s : Socket) :
    ∃ s' ∈ [s, s.delayed], (call.perform maxBatch { c with socket := some s' }).2 =
      { call.putOff c with socket := some s } := by
  cases call with
  | setCodec codec => exact ⟨s, by simp, rfl⟩
  | write buf => exact c.writeBytes_putOff buf s
  | writeBytes buf => exact c.writeBytes_putOff buf s
  | writeVectored bufs => exact c.writeVectored_putOff bufs s
  | writeVectoredBytes bufs =>
    simp only [Call.perform, writeVectoredBytes_eq]
    exact c.writeVectored_putOff bufs s
  | send msg => exact c.send_putOff msg s
  | flush => exact c.flush_putOff s
  | processWrite => exact c.processWrite_putOff maxBatch s

/-- Calls that keep every healthy connection handed over firm payloads: before a drain of anything else, the socket may
have put everything off so far and take one byte at a time from here on. -/
theorem firmPayloads_of_survives [Codec κ Msg] {calls : List (Call κ Msg)} {c : Connection κ}
    (h : ∀ (s : Socket) (maxBatch : Nat), s.Healthy →
      Along (callStep maxBatch) (fun c call => call.Survives maxBatch c) { c with socket := some s } calls) :
    FirmPayloads c.codec c.queued calls := by
  induction calls generalizing c with
  | nil => trivial
  | cons call calls ih =>
    constructor
    · intro hd
      by_contra hfirm
      cases call with
      | flush =>
        cases ho : c.outBuffer with
        | none => exact hfirm (by rw [queued, ho]; exact Solid.nil.firm (by decide))
        | some out =>
          have hq : c.queued = out := by simp [queued, ho]
          obtain ⟨s, hs, he⟩ := flush_gives_up ho (hq ▸ hfirm)
          exact (h s 0 hs).1.1 _ he rfl
      | processWrite =>
        obtain ⟨s, hs, he⟩ := processWrite_gives_up hfirm (Nat.lt_succ_self _)
        exact (h s _ hs).1.1 false he
      | _ => exact hd
    · have hcodec : (call.putOff c).codec = call.codecAfter c.codec := rfl
      rw [← hcodec, ← putOff_queued]
      refine ih fun s maxBatch hs => ?_
      obtain ⟨s', hs', he⟩ := exists_putOff maxBatch call c s
      have hs' : s'.Healthy := by
        rcases List.mem_pair.mp hs' with rfl | rfl
        · exact hs
        · exact hs.delayed
      have hrest := (h s' maxBatch hs').2 _ rfl
      rwa [he] at hrest

/-- **When output queueing keeps a healthy connection.** Calls on a connection keep it whatever healthy socket it has
and whatever the batch limit, exactly when before each drain what was queued at the start and what the calls handed
over since is firm: it does not end in an empty buffer and holds no `IO_MAX` empty ones in a row. -/
theorem drains_survive [Codec κ Msg] (c : Connection κ) (calls : List (Call κ Msg)) :
    (∀ (s : Socket) (maxBatch : Nat), s.Healthy →
      Along (callStep maxBatch) (fun c call => call.Survives maxBatch c) { c with socket := some s } calls) ↔
      FirmPayloads c.codec c.queued calls := by
  constructor
  · intro h
    exact firmPayloads_of_survives h
  · intro hfirm s maxBatch hs
    exact Healthy.run_survives ⟨s, rfl, hs⟩ (Firmer.refl _) hfirm

/-- An empty payload written while a byte is queued: the drain that follows sends the byte, offers nothing and gives
the healthy connection up; so does `flush`. -/
theorem empty_payload_closes :
    let socket : Socket := ⟨3, [.wouldBlock, .took 1, .took 1], [], [], [], none⟩
    let c := ((opened (κ := RawCodec) none (Gfd.new 0 3 0 0) socket (.tcp "a") (.tcp "b")).runCalls 1024
      [.write [1], .write []]).2
    socket.Healthy ∧ (c.processWrite 1024).1 = .ok (.closed false) ∧ c.drainOffers (some 1024) = [1, 0] ∧
      c.flush.1 = .error ⟨.writeZero, "connection closed"⟩ := by
  decide

end Connection
end Rnet
