import Rnet.EventLoop.Shares
import Rnet.Lib.Buffers

/-!
# The shared read buffer

All connections of a loop read into one buffer. An iteration of `process_read` makes room, sets the length, offers the
buffer to the socket, and splits off what was read; the next iteration, on this connection or another one, finds what
is left. `readIteration` is that with any buffer that keeps the contract of `BytesMut`, together with the operations
that need a condition (`BufferOp`). The buffer never gets longer than `read_buffer_cap`, so each iteration starts over
with that length. What it does depends on the reads alone (`Listed`), and every operation is valid
(`read_buffer_valid`).

`BytesMut` keeps the contract. `readOnce` does to it what `readIteration` says (`readOnce_ioBuffer`), and in a run of
the main loop every read that may come next is valid (`run_reads_valid`).
-/

namespace Rnet

open Buffers Programs Relation

/-! ## An iteration of `process_read` -/

/-- An operation with a condition. -/
inductive BufferOp
  /-- `set_len(n)`, with that capacity -/
  | setLen (n capacity : Nat)
  /-- a read that is offered so many bytes, on this socket with this answer -/
  | read (offered : Nat) (s : Socket) (a : ReadAnswer)
  /-- `split_to(n)`, with that length -/
  | splitTo (n len : Nat)

/-- The memory is there, a read is offered `cap` bytes and answers `Ok(0)` at the end of the stream only, and
`split_to` does not panic. -/
def BufferOp.Valid (cap : Nat) : BufferOp → Prop
  | .setLen n capacity => n ≤ capacity
  | .read offered s a => offered = cap ∧ ((s.answerRead a offered).1 = .ok [] → a = .data [])
  | .splitTo n len => n ≤ len

section

variable {β : Type} [Buffer UInt8 β]

/-- One iteration, on a connection with the socket `s` and a read answered `a`. -/
def readIteration (cap : Nat) (b : β) (s : Socket) (a : ReadAnswer) : List BufferOp × β :=
  let b := ensure b cap
  let sets := if len b < cap then [BufferOp.setLen cap (capacity b)] else []
  let b := stretch b cap
  match (s.answerRead a (len b)).1 with
  | .error _ => (sets ++ [.read (len b) s a], b)
  | .ok bs =>
    if bs = [] then (sets ++ [.read (len b) s a], b)
    else
      let filled := fill b bs
      (sets ++ [.read (len b) s a, .splitTo bs.length (len filled)], splitTo filled bs.length)

/-- Iterations that share the buffer. -/
def readIterations (cap : Nat) : β → List (Socket × ReadAnswer) → List BufferOp × β
  | b, [] => ([], b)
  | b, (s, a) :: reads =>
    let (ops, b) := readIteration cap b s a
    let (more, b) := readIterations cap b reads
    (ops ++ more, b)

theorem answerRead_length {s : Socket} {a : ReadAnswer} {n : Nat} {bs : Bytes} (h : (s.answerRead a n).1 = .ok bs) :
    bs.length ≤ n := by
  cases a with
  | data xs =>
    simp only [Socket.answerRead, Except.ok.injEq] at h
    rw [← h]
    exact List.length_take_le n xs
  | wouldBlock | interrupted | fatal code => simp [Socket.answerRead] at h

/-- A read that is offered memory answers `Ok(0)` at the end of the stream. -/
theorem ended_of_answerRead {s : Socket} {a : ReadAnswer} {n : Nat} (hn : 0 < n)
    (h : (s.answerRead a n).1 = .ok []) : a = .data [] := by
  cases a with
  | data xs =>
    simp only [Socket.answerRead, Except.ok.injEq, List.take_eq_nil_iff] at h
    rw [h.resolve_left (Nat.pos_iff_ne_zero.mp hn)]
  | wouldBlock | interrupted | fatal code => simp [Socket.answerRead] at h

/-- So many bytes the read gives. -/
def gave (cap : Nat) (s : Socket) (a : ReadAnswer) : Nat :=
  match (s.answerRead a cap).1 with
  | .ok bs => bs.length
  | .error _ => 0

theorem gave_le (cap : Nat) (s : Socket) (a : ReadAnswer) : gave cap s a ≤ cap := by
  unfold gave
  split
  · rename_i bs hres
    exact answerRead_length hres
  · exact Nat.zero_le _

/-- The operations of iterations with these reads: each sets the length if the buffer is short, reads, and splits off
what it read, which makes the buffer short. -/
inductive Listed (cap : Nat) : Bool → List (Socket × ReadAnswer) → List BufferOp → Prop
  | done {short : Bool} : Listed cap short [] []
  | iteration {short : Bool} {s : Socket} {a : ReadAnswer} {reads : List (Socket × ReadAnswer)} {ops : List BufferOp}
      (capacity len : Nat) :
      Listed cap (decide (0 < gave cap s a)) reads ops →
      Listed cap short ((s, a) :: reads)
        ((if short then [.setLen cap capacity] else []) ++ .read cap s a ::
          ((if 0 < gave cap s a then [.splitTo (gave cap s a) len] else []) ++ ops))

variable [LawfulBuffer UInt8 β] {cap : Nat} {b : β}

/-- **What an iteration does** to a buffer that is not longer than `read_buffer_cap`. -/
theorem readIteration_eq (hb : len b ≤ cap) (s : Socket) (a : ReadAnswer) :
    (readIteration cap b s a).1 = (if len b < cap then [.setLen cap (capacity (ensure b cap))] else []) ++
      .read cap s a :: (if 0 < gave cap s a then [.splitTo (gave cap s a) cap] else []) ∧
    len (readIteration cap b s a).2 = cap - gave cap s a := by
  have hlen : len (stretch (ensure b cap) cap) = cap := by
    rw [len_stretch (le_capacity_ensure b cap), len_ensure]
    exact Nat.max_eq_right hb
  unfold readIteration gave
  simp only [hlen, len_ensure]
  split
  · rename_i e hres
    rw [hres]
    exact ⟨by simp, hlen⟩
  · rename_i bs hres
    rw [hres]
    have hbs : bs.length ≤ len (stretch (ensure b cap) cap) := by
      rw [hlen]
      exact answerRead_length hres
    have hfilled : len (fill (stretch (ensure b cap) cap) bs) = cap := (len_fill _ bs hbs).trans hlen
    split
    · rename_i hnil
      rw [hnil]
      exact ⟨by simp, hlen⟩
    · rename_i hne
      constructor
      · rw [hfilled, if_pos (List.length_pos_iff.mpr hne)]
      · rw [len_splitTo _ _ (by omega), hfilled]

/-- **An iteration is valid**, and leaves a buffer that is not longer than `read_buffer_cap`. -/
theorem readIteration_valid (hcap : 0 < cap) (hb : len b ≤ cap) (s : Socket) (a : ReadAnswer) :
    (∀ op ∈ (readIteration cap b s a).1, op.Valid cap) ∧ len (readIteration cap b s a).2 ≤ cap := by
  obtain ⟨hops, hlen⟩ := readIteration_eq hb s a
  refine ⟨fun op hop => ?_, by omega⟩
  rw [hops, List.mem_append, List.mem_cons] at hop
  rcases hop with hset | rfl | hsplit
  · split at hset
    · obtain rfl := List.mem_singleton.mp hset
      exact le_capacity_ensure b cap
    · cases hset
  · exact ⟨rfl, ended_of_answerRead hcap⟩
  · split at hsplit
    · obtain rfl := List.mem_singleton.mp hsplit
      exact gave_le cap s a
    · cases hsplit

/-- Iterations are valid from any buffer that is not too long, and list their reads and what goes with them. -/
theorem readIterations_valid (hcap : 0 < cap) (reads : List (Socket × ReadAnswer)) : ∀ {b : β}, len b ≤ cap →
    Listed cap (decide (len b < cap)) reads (readIterations cap b reads).1 ∧
      ∀ op ∈ (readIterations cap b reads).1, op.Valid cap := by
  induction reads with
  | nil =>
    intro b _
    exact ⟨.done, fun op hop => (by cases hop)⟩
  | cons r reads ih =>
    intro b hb
    obtain ⟨hops, hlen⟩ := readIteration_eq hb r.1 r.2
    obtain ⟨hvalid, hkept⟩ := readIteration_valid hcap hb r.1 r.2
    obtain ⟨hlisted, hrest⟩ := ih hkept
    refine ⟨?_, List.forall_mem_append.mpr ⟨hvalid, hrest⟩⟩
    have hshort : len (readIteration cap b r.1 r.2).2 < cap ↔ 0 < gave cap r.1 r.2 := by
      have := gave_le cap r.1 r.2
      omega
    rw [decide_eq_decide.mpr hshort] at hlisted
    have hiter : Listed cap (decide (len b < cap)) (r :: reads) _ := .iteration (capacity (ensure b cap)) cap hlisted
    simp only [readIterations, hops, List.append_assoc, List.cons_append]
    simpa only [decide_eq_true_eq] using hiter

/-- **The read buffer is always validly sized**: with any buffer that keeps the contract, whatever the connections and
the answers, each iteration sets the length where the buffer is short, reads, and splits off what it read; every
`set_len` stays within the capacity, every read is offered exactly `read_buffer_cap` bytes and answers `Ok(0)` only at
the end of its stream, and no `split_to` panics. -/
theorem read_buffer_valid (hcap : 0 < cap) (reads : List (Socket × ReadAnswer)) :
    Listed cap true reads (readIterations cap (withCapacity cap : β) reads).1 ∧
      ∀ op ∈ (readIterations cap (withCapacity cap : β) reads).1, op.Valid cap := by
  have hnew : len (withCapacity cap : β) = 0 := len_withCapacity cap
  have h := readIterations_valid hcap reads (b := (withCapacity cap : β)) (by omega)
  rwa [decide_eq_true (by omega)] at h

end

/-! ## `BytesMut` -/

instance : Buffer UInt8 BytesMut where
  withCapacity n := ⟨[], List.replicate n 0, fun _ => 0⟩
  len := BytesMut.len
  capacity := BytesMut.capacity
  reserve := BytesMut.reserve
  setLen := BytesMut.setLen
  fill := BytesMut.fill
  splitTo b n := (b.splitTo n).2

instance : LawfulBuffer UInt8 BytesMut where
  len_withCapacity _ := rfl
  le_capacity_withCapacity n := by simp [capacity, withCapacity, BytesMut.capacity]
  len_reserve _ _ := rfl
  le_capacity_reserve b n := by
    simp only [len, capacity, reserve, BytesMut.len, BytesMut.capacity, BytesMut.reserve, List.length_append,
      List.length_map, List.length_range]
    omega
  len_setLen b n h := by
    simp only [len, setLen, capacity, BytesMut.len, BytesMut.capacity, BytesMut.setLen, List.length_take,
      List.length_append] at h ⊢
    omega
  capacity_setLen b n h := by
    simp only [setLen, capacity, BytesMut.capacity, BytesMut.setLen, List.length_take, List.length_drop,
      List.length_append] at h ⊢
    omega
  len_fill b xs h := by
    simp only [len, fill, BytesMut.len, BytesMut.fill, List.length_append, List.length_drop] at h ⊢
    omega
  capacity_fill b xs h := by
    simp only [len, capacity, fill, BytesMut.len, BytesMut.capacity, BytesMut.fill, List.length_append,
      List.length_drop] at h ⊢
    omega
  len_splitTo b n _ := by simp [len, splitTo, BytesMut.len, BytesMut.splitTo]
  capacity_splitTo b n h := by
    simp only [len, capacity, splitTo, BytesMut.len, BytesMut.capacity, BytesMut.splitTo, List.length_drop] at h ⊢
    omega

/-- Two connections: one is put off, the other reads three bytes and then the end. -/
theorem read_buffer_valid_two :
    let s : Socket := ⟨3, [], [], [], [], none⟩
    let t : Socket := ⟨4, [], [], [], [], none⟩
    let reads := [(s, .wouldBlock), (t, .data [1, 2, 3]), (t, .data [])]
    Listed 4 true reads (readIterations 4 (withCapacity 4 : BytesMut) reads).1 ∧
      ∀ op ∈ (readIterations 4 (withCapacity 4 : BytesMut) reads).1, op.Valid 4 :=
  read_buffer_valid (by decide) _

/-! ## The main loop -/

variable {η κ Msg : Type} [Codec κ Msg] [EventHandler η κ Msg]

namespace EventLoop

/-- What an iteration leaves of `BytesMut`. -/
theorem readIteration_bytesMut (cap : Nat) (b : BytesMut) (s : Socket) (a : ReadAnswer) :
    (readIteration cap b s a).2 = match (s.answerRead a (b.prepare cap).len).1 with
      | .error _ => b.prepare cap
      | .ok bs => if bs = [] then b.prepare cap else (((b.prepare cap).fill bs).splitTo bs.length).2 := by
  have hp : stretch (ensure b cap) cap = b.prepare cap := rfl
  have hl : len (b.prepare cap) = (b.prepare cap).len := rfl
  unfold readIteration
  simp only [hp, hl]
  cases (s.answerRead a (b.prepare cap).len).1 with
  | error e => rfl
  | ok bs =>
    simp only
    split <;> rfl

/-- **`readOnce` is an iteration** on the buffer of the loop. -/
theorem readOnce_ioBuffer {el : EventLoop η κ} {key : Nat} {i : Incarnation κ} {s : Socket}
    (hi : el.connections.get key = some i) (hs : i.conn.socket = some s) (a : ReadAnswer) :
    ∃ r t, readOnce key a el = .ok r t ∧
      t.ioBuffer = (readIteration el.options.readBufferCap el.ioBuffer s a).2 := by
  rw [readIteration_bytesMut]
  unfold readOnce
  simp only [get_bind, hi, hs]
  generalize el.ioBuffer.prepare el.options.readBufferCap = b
  rcases s.answerRead a b.len with ⟨⟨e⟩ | ⟨bs⟩, s'⟩
  · exact ⟨_, _, rfl, rfl⟩
  · simp only
    split
    · exact ⟨_, _, rfl, rfl⟩
    · -- `on_traffic` does not touch the buffer
      generalize ((b.fill bs).splitTo bs.length).1 = read
      generalize ((b.fill bs).splitTo bs.length).2 = b'
      let i₁ : Incarnation κ := { i with conn := { i.conn with socket := some s' }.receive read }
      obtain ⟨act, t, hon, hbuf, j, hj⟩ : ∃ act t, onTraffic key i₁ ({ el with ioBuffer := b' }.setIncarnation key i₁) =
          .ok act t ∧ t.ioBuffer = b' ∧ ∃ j, t.connections.get key = some j := by
        have h₁ : ({ el with ioBuffer := b' }.setIncarnation key i₁).connections.get key = some i₁ :=
          get_setIncarnation_self hi i₁
        exact ⟨_, _, rfl, rfl, _, get_setIncarnation_self h₁ _⟩
      rw [set_bind, bind_apply, hon]
      cases act with
      | none =>
        simp only [get_bind, hj, modify_bind]
        exact ⟨_, _, rfl, hbuf⟩
      | close | shutdown => exact ⟨_, _, rfl, hbuf⟩

end EventLoop

namespace Machine

open EventLoop Runs

/-- **Every read of a run is valid**: of a loop that was just made, in every state of its main loop and at every point
of the next step. -/
theorem run_reads_valid {loopId : UInt8} {options : Options} {h : η} {results wakes : List (IoResult Unit)}
    {heap : Nat → UInt8} {minted : Nat} {listeners : List Listener} (hcap : 0 < options.readBufferCap)
    {ls : List (Label η)} {m : Machine η κ}
    (hrun : run step (initial ((EventLoop.new loopId options h results wakes heap minted).listener listeners)) ls =
      some m)
    {el : EventLoop η κ} (hpath : ReflTransGen Evolves m.el el) (s : Socket) (a : ReadAnswer) :
    ∀ op ∈ (readIteration options.readBufferCap el.ioBuffer s a).1, op.Valid options.readBufferCap := by
  have hfresh : ((EventLoop.new loopId options h results wakes heap minted).listener listeners :
      EventLoop η κ).Fresh := ⟨rfl, rfl, rfl, rfl, rfl, rfl⟩
  have hkept : ∀ t t' : EventLoop η κ, Evolves t t' → t.options = options ∧ t.Fits → t'.options = options ∧ t'.Fits :=
    fun _ _ he ht => ⟨he.fits.1.trans ht.1, he.fits.2 ht.2⟩
  have hm := (run_evolves hkept hfresh ⟨rfl, Nat.zero_le _⟩ hrun).1
  obtain ⟨ho, hfits⟩ := invariant_of_steps hpath hkept hm
  rw [Fits, ho] at hfits
  exact (readIteration_valid hcap hfits s a).1

end Machine

end Rnet
