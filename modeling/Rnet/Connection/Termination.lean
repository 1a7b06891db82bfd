import Rnet.Connection.Drain
import Rnet.Lib.Loops
import Mathlib.Data.Set.Card

/-!
# The drain loops return

`drainLoop` goes by the answers the socket still has to give, so it returns by definition. Here the socket answers from
an endless script, and the loops of `process_write` and `flush` run as they stand. With finitely many `Interrupted` they
return (`drains_return`): every call takes a byte, is interrupted or is the last one. Empty chunks cost nothing, since a
call that is offered no byte is answered `Ok(0)`, which ends the loop. On a script that ends with `WouldBlock` they do
what `drainLoop` does (`loop_drainLoop`).

The inner loop, which takes the written bytes off the queue, makes one iteration for each chunk at most (`pop_loop`), so
an iteration of the outer loop runs it to its end (`popWritten`).
-/

namespace Rnet

open Chunks Loops Connection

/-! ## The inner loop -/

/-- One iteration of `while written > 0`, on `written` and the queue. -/
def popBody : Nat × List Bytes → (Nat × List Bytes) ⊕ (Nat × List Bytes)
  | (0, out) => .inl (0, out)
  | (written + 1, []) => .inl (written + 1, [])
  | (written + 1, front :: out) =>
    if front.length ≤ written + 1 then .inr (written + 1 - front.length, out)
    else .inr (0, front.drop (written + 1) :: out)

/-- The inner loop takes `written` bytes off the queue, or all there are. -/
theorem pop_loop (out : List Bytes) : ∀ written,
    loop popBody (out.length + 1) (written, out) = some (written - out.flatten.length, advance written out) := by
  induction out with
  | nil =>
    intro written
    cases written <;> exact loop_leaves (by simp [popBody])
  | cons front out ih =>
    intro written
    cases written with
    | zero => exact loop_leaves (by simp [popBody])
    | succ written =>
      rw [advance, List.flatten_cons, List.length_append]
      split
      · rename_i hle
        rw [loop_goes_on (by rw [popBody, if_pos hle]), List.length_cons, ih, Nat.sub_sub]
      · rename_i hlt
        have hzero : written + 1 - (front.length + out.flatten.length) = 0 := by omega
        rw [loop_goes_on (by rw [popBody, if_neg hlt]), hzero]
        exact loop_leaves rfl

/-- With no more bytes than are queued, it stops with `written` at 0. -/
theorem pop_exact {out : List Bytes} {n : Nat} (hn : n ≤ out.flatten.length) :
    ∃ rest, loop popBody (out.length + 1) (n, out) = some (0, rest) ∧ rest.flatten = out.flatten.drop n :=
  ⟨advance n out, by rw [pop_loop, Nat.sub_eq_zero_of_le hn], flatten_advance n out⟩

/-- `out_buffer` after the inner loop. -/
def popWritten (written : Nat) (out : List Bytes) : List Bytes :=
  ((loop popBody (out.length + 1) (written, out)).map Prod.snd).getD out

@[simp] theorem popWritten_eq (written : Nat) (out : List Bytes) : popWritten written out = advance written out := by
  rw [popWritten, pop_loop]
  rfl

/-! ## The outer loop -/

/-- What the socket answers to the `write_vectored` calls, one after the other. -/
abbrev Script := Nat → WriteAnswer

/-- The calls from the `k`-th on that are interrupted. -/
def Script.interruptedFrom (script : Script) (k : Nat) : Set Nat := {i | k ≤ i ∧ script i = .interrupted}

/-- So many they are. -/
noncomputable def Script.interrupts (script : Script) (k : Nat) : Nat := (script.interruptedFrom k).ncard

/-- Where the loop stands before an iteration. -/
structure Draining where
  sock : Socket
  out : List Bytes
  /-- `bytes_written` -/
  written : Nat
  /-- so many `write_vectored` calls so far -/
  calls : Nat

/-- One iteration of the loop of `process_write`, or without a limit of `flush`. -/
def drainBody (limit : Option Nat) (script : Script) (d : Draining) : (DrainStop × Draining) ⊕ Draining :=
  if d.out = [] then .inl (.drained, d)
  else if limit.any (· ≤ d.written) then .inl (.batchFull, d)
  else
    match d.sock.answerWrite (script d.calls) (d.out.take IO_MAX).flatten with
    | (.ok 0, sock) => .inl (.tookNothing, { d with sock, calls := d.calls + 1 })
    | (.ok (n + 1), sock) => .inr ⟨sock, popWritten (n + 1) d.out, d.written + (n + 1), d.calls + 1⟩
    | (.error e, sock) =>
      if e.kind = .wouldBlock then .inl (.blocked, { d with sock, calls := d.calls + 1 })
      else if e.kind = .interrupted then .inr { d with sock, calls := d.calls + 1 }
      else .inl (.failed e, { d with sock, calls := d.calls + 1 })

namespace Connection

variable {κ : Type}

/-- `flush` on a socket with this script; with the number of `write_vectored` calls. -/
def flushOn (script : Script) (fuel : Nat) (c : Connection κ) : Option (IoResult Unit × Connection κ × Nat) :=
  match c.outBuffer, c.socket with
  | _, none => some (.error .unwrapNone, c, 0)
  | none, some s =>
    let (res, s) := s.flush
    some (res, { c with socket := some s }, 0)
  | some out, some s =>
    (loop (drainBody none script) fuel ⟨s, out, 0, 0⟩).map fun (stop, d) =>
      let c := { c with socket := some d.sock, outBuffer := some d.out }
      match stop.flushed with
      | .error e => (.error e, c, d.calls)
      | .ok () =>
        let (res, s) := d.sock.flush
        (res, { c with socket := some s }, d.calls)

/-- `process_write` on a socket with this script. -/
def processWriteOn (maxBatch : Nat) (script : Script) (fuel : Nat) (c : Connection κ) :
    Option (IoResult IoStatus × Connection κ × Nat) :=
  if c.queued = [] then some (.ok .completed, c, 0)
  else
    match c.socket with
    | none => some (.error .unwrapNone, c, 0)
    | some s =>
      (loop (drainBody (some maxBatch) script) fuel ⟨s, c.queued, 0, 0⟩).map fun (stop, d) =>
        (.ok stop.status, { c with socket := some d.sock, outBuffer := some d.out }, d.calls)

end Connection

/-! ## The measure -/

variable {limit : Option Nat} {script : Script} {d d' : Draining} {stop : DrainStop}

/-- The bytes still queued and the interruptions still to come. -/
noncomputable def Draining.left (script : Script) (d : Draining) : Nat :=
  d.out.flatten.length + script.interrupts d.calls

theorem Script.interruptedFrom_finite (hfin : {i | script i = .interrupted}.Finite) (k : Nat) :
    (script.interruptedFrom k).Finite := hfin.subset fun _ hi => hi.2

theorem Script.interruptedFrom_succ (script : Script) (k : Nat) :
    script.interruptedFrom (k + 1) ⊆ script.interruptedFrom k := fun _ hi => ⟨Nat.le_of_succ_le hi.1, hi.2⟩

theorem Script.interrupts_succ_le (hfin : {i | script i = .interrupted}.Finite) (k : Nat) :
    script.interrupts (k + 1) ≤ script.interrupts k :=
  Set.ncard_le_ncard (script.interruptedFrom_succ k) (Script.interruptedFrom_finite hfin k)

/-- An interruption is one less to come. -/
theorem Script.interrupts_of_interrupted (hfin : {i | script i = .interrupted}.Finite) {k : Nat}
    (hk : script k = .interrupted) : script.interrupts (k + 1) < script.interrupts k := by
  refine Set.ncard_lt_ncard ?_ (Script.interruptedFrom_finite hfin k)
  have hnot : k ∉ script.interruptedFrom (k + 1) := fun h => Nat.not_succ_le_self k h.1
  exact (Set.ssubset_iff_of_subset (script.interruptedFrom_succ k)).mpr ⟨k, ⟨Nat.le_refl k, hk⟩, hnot⟩

/-- Which answer a transient error comes from. -/
theorem transient_of_answerWrite {s s' : Socket} {a : WriteAnswer} {bs : Bytes} {e : IoError}
    (h : s.answerWrite a bs = (.error e, s')) :
    (e.kind = .wouldBlock → a = .wouldBlock) ∧ (e.kind = .interrupted → a = .interrupted) := by
  cases a with
  | took n => simp [Socket.answerWrite] at h
  | wouldBlock | interrupted | fatal code =>
    simp only [Socket.answerWrite, Prod.mk.injEq, Except.error.injEq] at h
    rw [← h.1]
    constructor <;> intro he <;> first | rfl | cases he

/-- **An iteration that goes on** is one call, and takes a byte or is interrupted. -/
theorem drainBody_inr (hfin : {i | script i = .interrupted}.Finite) (h : drainBody limit script d = .inr d') :
    d'.calls = d.calls + 1 ∧ d'.left script < d.left script := by
  unfold drainBody at h
  split at h
  · cases h
  split at h
  · cases h
  split at h
  · cases h
  · rename_i n sock hans
    cases h
    refine ⟨rfl, ?_⟩
    have htook : n + 1 ≤ ((d.out.take IO_MAX).flatten).length := (Socket.answerWrite_ok hans).1
    have hqueued := (prefix_flatten_take IO_MAX d.out).length_le
    have hscript := Script.interrupts_succ_le hfin d.calls
    simp only [Draining.left, popWritten_eq, flatten_advance, List.length_drop]
    omega
  · rename_i e sock hans
    split at h
    · cases h
    split at h
    · rename_i hint
      cases h
      have hscript := Script.interrupts_of_interrupted hfin ((transient_of_answerWrite hans).2 hint)
      exact ⟨rfl, Nat.add_lt_add_left hscript _⟩
    · cases h

/-- An iteration that leaves the loop makes one call at most. -/
theorem drainBody_inl (h : drainBody limit script d = .inl (stop, d')) : d'.calls ≤ d.calls + 1 := by
  unfold drainBody at h
  split at h
  · cases h
    exact Nat.le_succ _
  split at h
  · cases h
    exact Nat.le_succ _
  split at h
  · cases h
    exact Nat.le_refl _
  · cases h
  · split at h
    · cases h
      exact Nat.le_refl _
    split at h
    · cases h
    · cases h
      exact Nat.le_refl _

/-- What the socket has taken, then what is queued. -/
def Draining.stream (d : Draining) : Bytes := d.sock.taken ++ d.out.flatten

/-- An iteration moves the bytes that a call took from the queue to the socket, and no others. -/
theorem drainBody_inr_stream (h : drainBody limit script d = .inr d') : d'.stream = d.stream := by
  unfold drainBody at h
  split at h
  · cases h
  split at h
  · cases h
  split at h
  · cases h
  · rename_i n sock hans
    cases h
    obtain ⟨hle, htaken⟩ := Socket.answerWrite_ok hans
    have hoffered : d.out.flatten.take (n + 1) = (d.out.take IO_MAX).flatten.take (n + 1) := by
      obtain ⟨rest, hrest⟩ := prefix_flatten_take IO_MAX d.out
      rw [← hrest, List.take_append_of_le_length hle]
    simp only [Draining.stream, popWritten_eq, flatten_advance, htaken, ← hoffered, List.append_assoc,
      List.take_append_drop]
  · rename_i e sock hans
    split at h
    · cases h
    split at h
    · cases h
      simp only [Draining.stream, Socket.answerWrite_error hans]
    · cases h

/-- Why the loop was left, if it was not given up: the queue is empty, the limit reached or the last call blocked. -/
def Draining.Ends (limit : Option Nat) (script : Script) (d : Draining) : DrainStop → Prop
  | .drained => d.out = []
  | .batchFull => limit.any (· ≤ d.written) = true
  | .blocked => ∃ k, d.calls = k + 1 ∧ script k = .wouldBlock
  | .tookNothing | .failed _ => True

theorem drainBody_inl_stream (h : drainBody limit script d = .inl (stop, d')) :
    d'.stream = d.stream ∧ d'.Ends limit script stop := by
  unfold drainBody at h
  split at h
  · rename_i hout
    cases h
    exact ⟨rfl, hout⟩
  split at h
  · rename_i hlimit
    cases h
    exact ⟨rfl, hlimit⟩
  split at h
  · rename_i sock hans
    cases h
    have htaken : sock.taken = d.sock.taken := by simpa using (Socket.answerWrite_ok hans).2
    exact ⟨by simp only [Draining.stream, htaken], trivial⟩
  · cases h
  · rename_i e sock hans
    have htaken := Socket.answerWrite_error hans
    split at h
    · rename_i hblock
      cases h
      exact ⟨by simp only [Draining.stream, htaken], d.calls, rfl, (transient_of_answerWrite hans).1 hblock⟩
    split at h
    · cases h
    · cases h
      exact ⟨by simp only [Draining.stream, htaken], trivial⟩

/-- The loop returns, after as many calls as there are bytes and interruptions, and one more at most, and what is off
the queue the socket has taken. -/
theorem drain_returns (limit : Option Nat) (hfin : {i | script i = .interrupted}.Finite) (s : Socket)
    (out : List Bytes) : ∃ stop d, loop (drainBody limit script)
        (out.flatten.length + {i | script i = .interrupted}.ncard + 1) ⟨s, out, 0, 0⟩ = some (stop, d) ∧
      d.calls ≤ out.flatten.length + {i | script i = .interrupted}.ncard + 1 ∧
      d.stream = s.taken ++ out.flatten ∧ d.Ends limit script stop := by
  have hleft : Draining.left script ⟨s, out, 0, 0⟩ = out.flatten.length + {i | script i = .interrupted}.ncard := by
    simp [Draining.left, Script.interrupts, Script.interruptedFrom]
  obtain ⟨⟨stop, d⟩, hloop⟩ := exists_loop (Draining.left script) (fun _ _ h => (drainBody_inr hfin h).2) ⟨s, out, 0, 0⟩
  rw [← hleft]
  refine ⟨stop, d, hloop, ?_⟩
  -- the calls made and the measure together do not grow, and no byte is lost
  refine loop_invariant
    (I := fun e => e.calls + e.left script ≤ Draining.left script ⟨s, out, 0, 0⟩ ∧ e.stream = s.taken ++ out.flatten)
    (Q := fun r => r.2.calls ≤ Draining.left script ⟨s, out, 0, 0⟩ + 1 ∧ r.2.stream = s.taken ++ out.flatten ∧
      r.2.Ends limit script r.1)
    (fun e e' hI hb => ?_) (fun e r hI hb => ?_) ⟨Nat.le_of_eq (Nat.zero_add _), rfl⟩ hloop
  · have := drainBody_inr hfin hb
    exact ⟨by omega, (drainBody_inr_stream hb).trans hI.2⟩
  · have := drainBody_inl hb
    obtain ⟨hstream, hends⟩ := drainBody_inl_stream hb
    exact ⟨by omega, hstream.trans hI.2, hends⟩

/-- **The drain loops return and account exactly**: `process_write` and `flush` after as many `write_vectored` calls as
there are pending bytes and interruptions, and one more at most, whatever the chunks, the limit and the script. What
they took off the queue the socket has; if `flush` succeeds nothing is left, and if `process_write` completes nothing is
left or its last call blocked. The inner loop takes exactly the bytes written off the queue. -/
theorem drains_return {κ : Type} (c : Connection κ) (maxBatch : Nat) (hfin : {i | script i = .interrupted}.Finite) :
    (∃ res c' calls, c.processWriteOn maxBatch script
        (c.queued.flatten.length + {i | script i = .interrupted}.ncard + 1) = some (res, c', calls) ∧
      calls ≤ c.queued.flatten.length + {i | script i = .interrupted}.ncard + 1 ∧ c'.outStream = c.outStream ∧
      (res = .ok .completed → c'.queued = [] ∨ ∃ k, calls = k + 1 ∧ script k = .wouldBlock)) ∧
    (∃ res c' calls, c.flushOn script
        (c.queued.flatten.length + {i | script i = .interrupted}.ncard + 1) = some (res, c', calls) ∧
      calls ≤ c.queued.flatten.length + {i | script i = .interrupted}.ncard + 1 ∧ c'.outStream = c.outStream ∧
      (res = .ok () → c'.queued = [])) ∧
    ∀ (out : List Bytes) n, n ≤ (out.take IO_MAX).flatten.length →
      ∃ rest, loop popBody (out.length + 1) (n, out) = some (0, rest) ∧ rest.flatten = out.flatten.drop n := by
  refine ⟨?_, ?_, fun out n hn => pop_exact (hn.trans (prefix_flatten_take IO_MAX out).length_le)⟩
  · unfold Connection.processWriteOn
    split
    · rename_i hqueued
      exact ⟨_, _, _, rfl, Nat.zero_le _, rfl, fun _ => .inl hqueued⟩
    split
    · exact ⟨_, _, _, rfl, Nat.zero_le _, rfl, fun h => (by cases h)⟩
    · rename_i s hs
      obtain ⟨stop, d, hloop, hcalls, hstream, hends⟩ := drain_returns (some maxBatch) hfin s c.queued
      rw [hloop]
      refine ⟨_, _, _, rfl, hcalls, ?_, fun h => ?_⟩
      · rw [Connection.outStream, Connection.outStream, Connection.sent, Connection.sent, hs]
        exact hstream
      · cases stop with
        | drained => exact .inl hends
        | blocked => exact .inr hends
        | _ => cases h
  · unfold Connection.flushOn
    split
    · exact ⟨_, _, _, rfl, Nat.zero_le _, rfl, fun h => (by cases h)⟩
    · rename_i s hout hs
      refine ⟨_, _, _, rfl, Nat.zero_le _, ?_, fun _ => by simp [Connection.queued, hout]⟩
      simp [Connection.outStream, Connection.sent, Connection.queued, hs]
    · rename_i out s hout hs
      have hqueued : c.queued = out := by simp [Connection.queued, hout]
      obtain ⟨stop, d, hloop, hcalls, hstream, hends⟩ := drain_returns none hfin s out
      have hkept : d.sock.taken ++ d.out.flatten = c.outStream := by
        rw [Connection.outStream, hqueued, Connection.sent, hs]
        exact hstream
      rw [hqueued, hloop]
      simp only [Option.map_some]
      split
      · exact ⟨_, _, _, rfl, hcalls, hkept, fun h => (by cases h)⟩
      · rename_i hstop
        refine ⟨_, _, _, rfl, hcalls, hkept, fun _ => ?_⟩
        -- `flush` has no limit to reach
        cases stop with
        | drained => exact hends
        | batchFull => cases hends
        | _ => cases hstop

/-- Two bytes, an empty chunk and a byte, on a socket that is interrupted and then takes two bytes a call. -/
theorem drains_return_three :
    let script : Script := fun i => if i = 0 then .interrupted else .took 2
    let c : Connection RawCodec :=
      { Connection.new (Gfd.new 0 3 0 0) ⟨3, [], [], [], [], none⟩ (.tcp "a") (.tcp "b") with
        outBuffer := some [[1, 2], [], [3]] }
    (∃ res c' calls, c.processWriteOn 1024 script (c.queued.flatten.length +
        {i | script i = .interrupted}.ncard + 1) = some (res, c', calls) ∧
      calls ≤ c.queued.flatten.length + {i | script i = .interrupted}.ncard + 1 ∧ c'.outStream = c.outStream ∧
      (res = .ok .completed → c'.queued = [] ∨ ∃ k, calls = k + 1 ∧ script k = .wouldBlock)) ∧
    (∃ res c' calls, c.flushOn script (c.queued.flatten.length + {i | script i = .interrupted}.ncard + 1) =
        some (res, c', calls) ∧
      calls ≤ c.queued.flatten.length + {i | script i = .interrupted}.ncard + 1 ∧ c'.outStream = c.outStream ∧
      (res = .ok () → c'.queued = [])) ∧
    ∀ (out : List Bytes) n, n ≤ (out.take IO_MAX).flatten.length →
      ∃ rest, loop popBody (out.length + 1) (n, out) = some (0, rest) ∧ rest.flatten = out.flatten.drop n := by
  intro script c
  have hfin : {i | script i = .interrupted}.Finite := by
    refine (Set.finite_singleton 0).subset fun i hi => ?_
    by_contra h0
    have htook : script i = .took 2 := if_neg h0
    exact absurd (htook.symm.trans hi) (by decide)
  exact drains_return c 1024 hfin

/-! ## The loop by the answers -/

/-- **The loop is `drainLoop`**, on a script that gives the socket's answers and then `WouldBlock`. -/
theorem loop_drainLoop (limit : Option Nat) (fuel : Nat) :
    ∀ (d : Draining) (answers : List WriteAnswer), d.sock.writes = answers →
      (∀ i, script (d.calls + i) = answers.getD i .wouldBlock) →
      loop (drainBody limit script) fuel d = some (stop, d') →
      ∃ offers, drainLoop limit answers d.sock d.out d.written = ⟨stop, d'.sock, d'.out, offers⟩ ∧
        d'.calls = d.calls + offers.length := by
  induction fuel with
  | zero =>
    intro d answers _ _ h
    cases h
  | succ fuel ih =>
    intro d answers hwrites hscript h
    have h0 : script d.calls = answers.getD 0 .wouldBlock := hscript 0
    rw [drainLoop]
    by_cases hout : d.out = []
    · rw [loop_leaves (by rw [drainBody, if_pos hout])] at h
      cases h
      rw [if_pos hout]
      exact ⟨[], rfl, rfl⟩
    by_cases hlimit : limit.any (· ≤ d.written) = true
    · rw [loop_leaves (by rw [drainBody, if_neg hout, if_pos hlimit])] at h
      cases h
      rw [if_neg hout, if_pos hlimit]
      exact ⟨[], rfl, rfl⟩
    rw [loop, drainBody, if_neg hout, if_neg hlimit] at h
    rw [if_neg hout, if_neg hlimit]
    cases answers with
    | nil =>
      -- past the last answer a call blocks
      have htail : d.sock.writes.tail = d.sock.writes := by rw [hwrites, List.tail_nil]
      simp only [h0, List.getD_nil, Socket.answerWrite, htail, IoError.wouldBlock, if_true] at h
      cases h
      exact ⟨_, rfl, rfl⟩
    | cons a answers =>
      have hnext : ∀ i, script (d.calls + 1 + i) = answers.getD i .wouldBlock := fun i => by
        rw [Nat.add_assoc, Nat.add_comm 1 i, hscript, List.getD_cons_succ]
      have htail := Socket.answerWrite_writes d.sock a (d.out.take IO_MAX).flatten
      rw [hwrites, List.tail_cons] at htail
      rw [h0, List.getD_cons_zero] at h
      rcases hans : d.sock.answerWrite a (d.out.take IO_MAX).flatten with ⟨e | n | n, sock⟩ <;>
        simp only [hans] at h htail ⊢
      · by_cases hblock : e.kind = .wouldBlock
        · simp only [if_pos hblock] at h ⊢
          cases h
          exact ⟨_, rfl, rfl⟩
        by_cases hint : e.kind = .interrupted
        · simp only [if_neg hblock, if_pos hint] at h ⊢
          obtain ⟨offers, hr, hcalls⟩ := ih { d with sock, calls := d.calls + 1 } answers htail hnext h
          rw [hr]
          exact ⟨_, rfl, hcalls.trans (Nat.add_right_comm ..)⟩
        · simp only [if_neg hblock, if_neg hint] at h ⊢
          cases h
          exact ⟨_, rfl, rfl⟩
      · cases h
        exact ⟨_, rfl, rfl⟩
      · obtain ⟨offers, hr, hcalls⟩ :=
          ih ⟨sock, popWritten (n + 1) d.out, d.written + (n + 1), d.calls + 1⟩ answers htail hnext h
        simp only [popWritten_eq] at hr
        rw [hr]
        exact ⟨_, rfl, hcalls.trans (Nat.add_right_comm ..)⟩

/-- `flush` and `process_write` on the script of the socket's answers are those of the model. -/
theorem flushOn_eq {κ : Type} {c c' : Connection κ} {s : Socket} (hs : c.socket = some s) {fuel calls : Nat}
    {res : IoResult Unit} (h : c.flushOn (s.writes.getD · .wouldBlock) fuel = some (res, c', calls)) :
    c.flush = (res, c') := by
  cases hout : c.outBuffer with
  | none =>
    simp only [Connection.flushOn, hs, hout, Option.some.injEq, Prod.mk.injEq] at h
    simp only [Connection.flush, hs, hout, ← h.1, ← h.2.1]
  | some out =>
    simp only [Connection.flushOn, hs, hout] at h
    obtain ⟨⟨stop, d⟩, hloop, hres⟩ := Option.map_eq_some_iff.mp h
    obtain ⟨offers, hr, -⟩ := loop_drainLoop none fuel ⟨s, out, 0, 0⟩ s.writes rfl
      (fun i => by rw [Nat.zero_add]) hloop
    simp only at hr
    simp only [Connection.flush, hs, hout, drain, hr]
    split at hres <;> rename_i hstop <;> cases hres <;> rw [hstop]

theorem processWriteOn_eq {κ : Type} {c c' : Connection κ} {s : Socket} (hs : c.socket = some s)
    {maxBatch fuel calls : Nat} {res : IoResult IoStatus}
    (h : c.processWriteOn maxBatch (s.writes.getD · .wouldBlock) fuel = some (res, c', calls)) :
    c.processWrite maxBatch = (res, c') := by
  by_cases hq : c.queued = []
  · simp only [Connection.processWriteOn, if_pos hq, Option.some.injEq, Prod.mk.injEq] at h
    rw [processWrite_nil hq, h.1, h.2.1]
  · simp only [Connection.processWriteOn, if_neg hq, hs] at h
    obtain ⟨⟨stop, d⟩, hloop, hres⟩ := Option.map_eq_some_iff.mp h
    obtain ⟨offers, hr, -⟩ := loop_drainLoop (some maxBatch) fuel ⟨s, c.queued, 0, 0⟩ s.writes rfl
      (fun i => by rw [Nat.zero_add]) hloop
    simp only at hr
    rw [processWrite_some hs hq, drain, hr]
    cases hres
    rfl

end Rnet
