import Rnet.Connection.Accessors
import Rnet.Lib.Lines
import Rnet.Lib.Loops
import Rnet.Servers.Serving

/-!
# The chat room

The handler of `examples/chat-room.rs`. `on_traffic` looks for a newline in the unread input, takes what it ends and
submits it to the worker pool, until there is no newline. The input is bounded, so the loop ends (`serve_returns`), and
what it submits are the lines of the input (`serve_cuts`).

From this and the rule for servers: at any time in any run, the messages submitted for a live connection are the
lines of what its socket has delivered, each once and in order, however the bytes were split over the reads
(`chat_lines`). The rest without a newline is the unread input. Both follow from the bytes alone
(`lines_of_delivered`).
-/

namespace Rnet

open Connection Lines Loops

/-- `ChatRoomHandler`; the engine, which only the submitted closures use, and what is printed are left out. -/
structure ChatRoomHandler where
  /-- the clients of each event loop -/
  clients : List (List Gfd)
  deriving DecidableEq, Repr

namespace ChatRoomHandler

/-- `b'\n'` -/
def newline : UInt8 := 10

def isNewline (b : UInt8) : Bool := b == newline

def heartbeat : Bytes := "Server heartbeat\n".toList.map fun ch => UInt8.ofNat ch.toNat

/-- What the loop of `on_traffic` has done so far: the connection, the operations on it and the messages submitted. -/
structure Served where
  conn : Connection RawCodec
  ops : List (Op RawCodec RawMsg)
  submitted : List Bytes

/-- One iteration. -/
def serveBody (s : Served) : Served ⊕ Served :=
  let ops := s.ops ++ [.peek none]
  match (s.conn.peek none).bind (·.findIdx? isNewline) with
  | none => .inl { s with ops := ops }
  | some pos =>
    let (data, conn) := s.conn.nextContiguous (some (pos + 1))
    .inr ⟨conn, ops ++ [.nextContiguous (some (pos + 1))], s.submitted ++ data.toList⟩

/-- The loop, which has an iteration for each unread byte and one more. -/
def serve (c : Connection RawCodec) : Option Served := loop serveBody (c.unread.length + 1) ⟨c, [], []⟩

def ops (c : Connection RawCodec) : List (Op RawCodec RawMsg) := ((serve c).map Served.ops).getD []

/-- The messages that `on_traffic` submits when it is called on `c`. -/
def messages (c : Connection RawCodec) : List Bytes := ((serve c).map Served.submitted).getD []

/-- `insert` into the set of the loop that owns the connection. -/
def join (h : ChatRoomHandler) (gfd : Gfd) : ChatRoomHandler :=
  { h with clients := h.clients.modify gfd.eventLoopIndex fun gfds => if gfd ∈ gfds then gfds else gfds ++ [gfd] }

/-- `remove` from it. -/
def leave (h : ChatRoomHandler) (gfd : Gfd) : ChatRoomHandler :=
  { h with clients := h.clients.modify gfd.eventLoopIndex fun gfds => gfds.erase gfd }

instance : EventHandler ChatRoomHandler RawCodec RawMsg where
  onOpen h c := (⟨[], .none⟩, h.join c.gfd)
  onTraffic h c := (⟨ops c, .none⟩, h)
  onClose h c := (⟨[.close], .none⟩, h.leave c.gfd)
  onTick h conns := (⟨conns.map fun c => (c.1, .writeBytes heartbeat), 5, .none⟩, h)

/-! ## One call of `on_traffic` -/

variable {c : Connection RawCodec} {s s' : Served} {data : Bytes}

/-- `peek` shows the unread input. -/
theorem peek_none_eq (c : Connection RawCodec) : (c.peek none).getD [] = c.unread := by
  rcases Nat.eq_zero_or_pos c.unread.length with h0 | hpos
  · have hnil : c.unread = [] := List.length_eq_zero_iff.mp h0
    have hlen : c.inBufLen + c.ioBufLen = 0 := by rw [← length_unread, h0]
    have hin : c.inBufLen = 0 := by omega
    have htake : c.peek none = c.ioBuffer.map (·.take (c.inBufLen + c.ioBufLen)) := if_pos hin
    rw [hnil, htake, hlen]
    cases c.ioBuffer <;> rfl
  · rw [(whole_of_pos hpos).peek, (agree_of_le hpos (Nat.le_refl _)).peek, List.take_length, Option.getD_some]

/-- Where the first newline of the unread input is. -/
theorem find_newline (c : Connection RawCodec) :
    (c.peek none).bind (·.findIdx? isNewline) = c.unread.findIdx? isNewline := by
  rw [← peek_none_eq c]
  cases c.peek none <;> rfl

/-- An iteration finds no newline, or takes the first line of the input and submits it. -/
theorem serveBody_cases (s : Served) :
    (s.conn.unread.findIdx? isNewline = none ∧ serveBody s = .inl { s with ops := s.ops ++ [.peek none] }) ∨
      ∃ pos, s.conn.unread.findIdx? isNewline = some pos ∧
        serveBody s = .inr ⟨(s.conn.nextContiguous (some (pos + 1))).2,
          s.ops ++ [.peek none, .nextContiguous (some (pos + 1))],
          s.submitted ++ [s.conn.unread.take (pos + 1)]⟩ ∧
        (s.conn.nextContiguous (some (pos + 1))).2.unread = s.conn.unread.drop (pos + 1) := by
  unfold serveBody
  rw [find_newline]
  cases hpos : s.conn.unread.findIdx? isNewline with
  | none => exact Or.inl ⟨rfl, rfl⟩
  | some pos =>
    have hagree := agree_of_le (c := s.conn) (Nat.succ_pos pos) (line_of_findIdx? hpos).1
    refine Or.inr ⟨pos, rfl, ?_, hagree.nextContiguous_rest⟩
    have hdata : s.conn.nextContiguous (some (pos + 1)) =
        (some (s.conn.unread.take (pos + 1)), (s.conn.nextContiguous (some (pos + 1))).2) :=
      Prod.ext hagree.nextContiguous rfl
    dsimp only
    rw [hdata, List.append_assoc]
    rfl

/-- **The loop of `on_traffic` ends.** -/
theorem serve_returns (c : Connection RawCodec) : ∃ r, serve c = some r := by
  refine exists_loop (fun s : Served => s.conn.unread.length) (fun s s' h => ?_) ⟨c, [], []⟩
  rcases serveBody_cases s with ⟨-, hb⟩ | ⟨pos, hpos, hb, hrest⟩
  · rw [hb] at h
    cases h
  · rw [hb] at h
    cases h
    have hlt := (line_of_findIdx? hpos).1
    show (s.conn.nextContiguous (some (pos + 1))).2.unread.length < s.conn.unread.length
    rw [hrest, List.length_drop]
    omega

/-- What holds of the loop: the operations make the connection, and what was submitted are the first lines. -/
structure Serving (c : Connection RawCodec) (s : Served) : Prop where
  conn : Op.performAll s.ops c = s.conn
  eq : c.unread = s.submitted.flatten ++ s.conn.unread
  lines : ∀ m ∈ s.submitted, Line isNewline m

theorem Serving.step (h : Serving c s) (hb : serveBody s = .inr s') : Serving c s' := by
  rcases serveBody_cases s with ⟨-, hb'⟩ | ⟨pos, hpos, hb', hrest⟩
  · rw [hb'] at hb
    cases hb
  · rw [hb'] at hb
    cases hb
    constructor
    · rw [Op.performAll, List.foldl_append]
      show Op.performAll [.peek none, .nextContiguous (some (pos + 1))] (Op.performAll s.ops c) = _
      rw [h.conn]
      rfl
    · show c.unread = (s.submitted ++ [s.conn.unread.take (pos + 1)]).flatten ++ _
      rw [hrest, List.flatten_append, List.append_assoc, List.flatten_singleton, List.take_append_drop]
      exact h.eq
    · intro m hm
      rcases List.mem_append.mp hm with hm | hm
      · exact h.lines m hm
      · rw [List.mem_singleton.mp hm]
        exact (line_of_findIdx? hpos).2

/-- **What one call submits are the lines of the input.** -/
theorem serve_cuts (c : Connection RawCodec) :
    Cut isNewline c.unread (messages c) (Op.performAll (ops c) c).unread := by
  obtain ⟨r, hr⟩ := serve_returns c
  have hend : Serving c r ∧ ∀ z ∈ r.conn.unread, isNewline z = false := by
    refine loop_invariant (I := Serving c) (Q := fun r => Serving c r ∧ ∀ z ∈ r.conn.unread, isNewline z = false)
      (fun s s' hs hb => hs.step hb) (fun s r hs hb => ?_) ⟨rfl, rfl, List.forall_mem_nil _⟩ hr
    rcases serveBody_cases s with ⟨hnone, hb'⟩ | ⟨pos, -, hb', -⟩
    · rw [hb'] at hb
      cases hb
      refine ⟨⟨?_, hs.eq, hs.lines⟩, fun z hz => List.findIdx?_eq_none_iff.mp hnone z hz⟩
      rw [Op.performAll, List.foldl_append]
      exact hs.conn
    · rw [hb'] at hb
      cases hb
  obtain ⟨hs, hrest⟩ := hend
  have hmessages : messages c = r.submitted := by simp [messages, hr]
  have hops : ops c = r.ops := by simp [ops, hr]
  rw [hmessages, hops, hs.conn]
  exact ⟨hs.eq, hs.lines, hrest⟩

/-! ## All connections -/

/-- The messages submitted for a connection are the lines of what it has received. -/
theorem reacts : Reacts ChatRoomHandler messages fun total rest _ _ msgs => Cut isNewline total msgs rest where
  onOpen _ c hc := by
    show Cut isNewline [] [] c.unread
    rw [hc]
    exact .nil (List.forall_mem_nil _)
  onTraffic _ c bs total rest _ msgs _ _ hunread hcut := hcut.append (hunread ▸ serve_cuts c)
  onTick _ _ op hop := by
    obtain ⟨_, _, rfl⟩ := List.mem_map.mp hop
    exact ⟨_, rfl⟩

end ChatRoomHandler

namespace Machine

open ChatRoomHandler EventLoop Runs

/-- **Every line is submitted once.** In every run, as long as the loop runs, the messages submitted for a live
connection are the lines of what its socket has delivered since it was opened, and the rest is unread. -/
theorem chat_lines {el : EventLoop ChatRoomHandler RawCodec} (hfresh : el.Fresh) {ls : List (Label ChatRoomHandler)}
    {m : Machine ChatRoomHandler RawCodec} (hrun : run step (initial el) ls = some m) (hlive : m.phase.Live) {k : Nat}
    {i : Incarnation RawCodec} (hi : m.el.connections.get k = some i) :
    ∃ delivered, i.received = i.before ++ delivered ∧
      Cut isNewline delivered (made messages m.el.trace i.id) i.conn.unread :=
  run_reacts reacts hfresh hrun hlive hi

/-- **It does not matter how the bytes come in**: for connections of any two runs that were delivered the same bytes,
the same messages were submitted, and the same bytes are unread. -/
theorem lines_of_delivered {el el' : EventLoop ChatRoomHandler RawCodec} (hfresh : el.Fresh) (hfresh' : el'.Fresh)
    {ls ls' : List (Label ChatRoomHandler)} {m m' : Machine ChatRoomHandler RawCodec}
    (hrun : run step (initial el) ls = some m) (hrun' : run step (initial el') ls' = some m') (hlive : m.phase.Live)
    (hlive' : m'.phase.Live) {k k' : Nat} {i i' : Incarnation RawCodec} (hi : m.el.connections.get k = some i)
    (hi' : m'.el.connections.get k' = some i') {delivered : Bytes} (hd : i.received = i.before ++ delivered)
    (hd' : i'.received = i'.before ++ delivered) :
    made messages m.el.trace i.id = made messages m'.el.trace i'.id ∧ i.conn.unread = i'.conn.unread := by
  obtain ⟨bs, hbs, hcut⟩ := run_reacts reacts hfresh hrun hlive hi
  obtain ⟨bs', hbs', hcut'⟩ := run_reacts reacts hfresh' hrun' hlive' hi'
  obtain rfl := List.append_cancel_left (hbs.symm.trans hd)
  obtain rfl := List.append_cancel_left (hbs'.symm.trans hd')
  exact hcut.unique hcut'

/-- A client that sends `ab⏎c⏎d` in three reads, none of which ends with a line. -/
def chats : List (Label ChatRoomHandler) :=
  [.accept ⟨4, [], [.data [97], .data [98, 10, 99], .data [10, 100]], [], [], none⟩ (.tcp "a") (.tcp "b"),
    .advance, .advance, .poll [], .advance, .advance, .advance, .tick false, .advance,
    .poll [⟨0, true, false, false, false⟩], .advance]

theorem chat_lines_chats : ∃ m i delivered,
    run step (initial (new 0 ⟨64, 8, false⟩ ⟨[[]]⟩ [] [] (fun _ => 0) 0)) chats = some m ∧
    m.el.connections.get 0 = some i ∧ made messages m.el.trace i.id = [[97, 98, 10], [99, 10]] ∧
    i.received = i.before ++ delivered ∧
    Cut isNewline delivered (made messages m.el.trace i.id) i.conn.unread := by
  have hend : (run step (initial (new 0 ⟨64, 8, false⟩ ⟨[[]]⟩ [] [] (fun _ => 0) 0)) chats).any (fun m =>
      decide m.phase.Live && (m.el.connections.get 0).any fun i =>
        decide (made messages m.el.trace i.id = [[97, 98, 10], [99, 10]])) = true := by
    decide +kernel
  obtain ⟨m, hm, hat⟩ := exists_of_any hend
  obtain ⟨hlive, hany⟩ := Bool.and_eq_true_iff.mp hat
  obtain ⟨i, hi, hsub⟩ := exists_of_any hany
  obtain ⟨delivered, hd, hcut⟩ := chat_lines (new_fresh _ _ _ _ _ _ _) hm (of_decide_eq_true hlive) hi
  exact ⟨m, i, delivered, hm, hi, of_decide_eq_true hsub, hd, hcut⟩

end Machine
end Rnet
