import Rnet.Connection.Accessors
import Rnet.Servers.Serving

/-!
# The echo servers

The handlers of `examples/unix-echo.rs` and `examples/echo-rnet.rs`. The one takes the unread input as one chunk and
writes it, the other takes it as it lies in the buffers and writes the chunks at once; both ignore what the write
answers. So both are `Echoes`: all unread input is taken, and it is what the call answers.

From this and the rule for servers: at any time in any run, what a live connection has sent and queued since it was
opened is a subsequence of what it has received, and all of it, in order, if its socket fails no write (`echo_server`).
Nothing waits unread between two reads.
-/

namespace Rnet

open Connection

/-! ## Taking all -/

namespace Connection

variable {κ : Type} {c c₁ c₂ : Connection κ}

theorem length_pos_of_ioBuffer {bs : Bytes} (hio : c.ioBuffer = some bs) (hne : bs ≠ []) : 0 < c.unread.length := by
  rw [unread, hio, List.length_append, Option.getD_some]
  have := List.length_pos_iff.mpr hne
  omega

/-- What takes everything leaves nothing. -/
theorem Consumes.all {bs : Bytes} (h : Consumes c bs c₁) (hbs : bs = c.unread) : c₁.unread = [] := by
  have hlen := congrArg List.length h.unread
  rw [← hbs, List.length_append] at hlen
  exact List.length_eq_zero_iff.mp (by omega)

/-- The input is taken and written back. -/
def Echoed (c c₂ : Connection κ) : Prop := c₂.unread = [] ∧ c.Writes [c.unread] c₂

theorem echoed_of_consumes (hall : Consumes c c.unread c₁) (hin : c₂.unread = c₁.unread) {α : Type} {res : IoResult α}
    (hout : c₂.outStream = c₁.outStream ++ accepted res c.unread) (hok : c₁.Reliable → ∃ a, res = .ok a) :
    c.Echoed c₂ := by
  have hwrites : c₂.outStream = c.outStream ++ accepted res c.unread := by rw [hout, hall.outStream]
  exact ⟨hin.trans (hall.all rfl), .of_accepted hwrites fun hc => hok (hc.later (Or.inl hall.socket))⟩

end Connection

/-- The handler of an echo server. -/
structure Echoes (η : Type) {κ Msg : Type} [Codec κ Msg] [EventHandler η κ Msg] : Prop where
  onOpen : ∀ (h : η) (c : Connection κ), (EventHandler.onOpen h c).1 = ⟨[], .none⟩
  onTraffic : ∀ (h : η) (c : Connection κ) (bs : Bytes), c.ioBuffer = some bs → bs ≠ [] →
    c.Echoed (Op.performAll (EventHandler.onTraffic h c).1.ops c)
  onTick : ∀ (h : η) (conns : List (Nat × Connection κ)), (EventHandler.onTick h conns).1.ops = []
  sends : SendsOnly η fun _ _ => False

/-! ## `unix-echo.rs` -/

/-- `UnixEchoHandler`; what its callbacks print is left out. -/
inductive UnixEchoHandler
  | mk

/-- The operations of `on_traffic`. -/
def UnixEchoHandler.ops (c : Connection RawCodec) : List (Op RawCodec RawMsg) :=
  match (c.nextContiguous none).1 with
  | some data => [.nextContiguous none, .writeBytes data]
  | none => [.nextContiguous none]

instance : EventHandler UnixEchoHandler RawCodec RawMsg where
  onOpen h _ := (⟨[], .none⟩, h)
  onTraffic h c := (⟨UnixEchoHandler.ops c, .none⟩, h)
  onClose h _ := (⟨[], .none⟩, h)
  onTick h _ := (⟨[], 0, .none⟩, h)

theorem UnixEchoHandler.mem_ops {c : Connection RawCodec} {op : Op RawCodec RawMsg} (hop : op ∈ ops c) :
    op = .nextContiguous none ∨ ∃ data, op = .writeBytes data := by
  unfold ops at hop
  cases hn : (c.nextContiguous none).1 with
  | none =>
    rw [hn] at hop
    exact Or.inl (List.mem_singleton.mp hop)
  | some data =>
    rw [hn] at hop
    exact (List.mem_pair.mp hop).imp_right fun h => ⟨data, h⟩

theorem UnixEchoHandler.performs {op : Op RawCodec RawMsg} (hop : Performs UnixEchoHandler op) :
    op = .nextContiguous none ∨ ∃ data, op = .writeBytes data := by
  cases hop with
  | onOpen hop | onClose hop | onTick hop => cases hop
  | onTraffic hop => exact mem_ops hop

theorem unixEcho_echoes : Echoes UnixEchoHandler where
  onOpen _ _ := rfl
  onTraffic _ c bs hio hne := by
    have hpos := length_pos_of_ioBuffer hio hne
    have htake : (c.nextContiguous none).1 = some c.unread := by
      rw [(whole_of_pos hpos).nextContiguous, (agree_of_le hpos (Nat.le_refl _)).nextContiguous, List.take_length]
    have hall := c.nextContiguous_consumes none
    rw [htake] at hall
    have hops : UnixEchoHandler.ops c = [.nextContiguous none, .writeBytes c.unread] := by
      unfold UnixEchoHandler.ops
      rw [htake]
    show c.Echoed (Op.performAll (UnixEchoHandler.ops c) c)
    rw [hops]
    exact echoed_of_consumes hall (writeBytes_sameInput _ _).unread (writeBytes_stream _ _) fun hrel =>
      hrel.writeOrQueue (by simp)
  onTick _ _ := rfl
  sends gfd cmd hop := by
    rcases UnixEchoHandler.performs hop with h | ⟨data, h⟩ <;> cases h

/-! ## `echo-rnet.rs` -/

/-- `MyHandler` of `echo-rnet.rs`; it never uses the engine it is given. -/
inductive EchoHandler
  | mk

/-- The operations of `on_traffic`. -/
def EchoHandler.ops (c : Connection RawCodec) : List (Op RawCodec RawMsg) :=
  match (c.nextVectored none).1 with
  | some data => [.nextVectored none, .writeVectoredBytes data]
  | none => [.nextVectored none]

instance : EventHandler EchoHandler RawCodec RawMsg where
  onOpen h _ := (⟨[], .none⟩, h)
  onTraffic h c := (⟨EchoHandler.ops c, .none⟩, h)
  onClose h _ := (⟨[], .none⟩, h)
  onTick h _ := (⟨[], 0, .none⟩, h)

theorem EchoHandler.performs {op : Op RawCodec RawMsg} (hop : Performs EchoHandler op) :
    op = .nextVectored none ∨ ∃ data, op = .writeVectoredBytes data := by
  cases hop with
  | onOpen hop | onClose hop | onTick hop => cases hop
  | @onTraffic _ c _ hop =>
    have hop : op ∈ ops c := hop
    unfold ops at hop
    cases hn : (c.nextVectored none).1 with
    | none =>
      rw [hn] at hop
      exact Or.inl (List.mem_singleton.mp hop)
    | some data =>
      rw [hn] at hop
      exact (List.mem_pair.mp hop).imp_right fun h => ⟨data, h⟩

theorem echo_echoes : Echoes EchoHandler where
  onOpen _ _ := rfl
  onTraffic _ c bs hio hne := by
    have hpos := length_pos_of_ioBuffer hio hne
    obtain ⟨chunks, htake, hflat⟩ := (agree_of_le hpos (Nat.le_refl c.unread.length)).nextVectored
    rw [← (whole_of_pos hpos).nextVectored] at htake
    rw [List.take_length] at hflat
    have hall := c.nextVectored_consumes none
    rw [htake, Option.getD_some, hflat] at hall
    have hops : EchoHandler.ops c = [.nextVectored none, .writeVectoredBytes chunks] := by
      unfold EchoHandler.ops
      rw [htake]
    have hout := writeVectoredBytes_stream (c.nextVectored none).2 chunks
    rw [hflat] at hout
    show c.Echoed (Op.performAll (EchoHandler.ops c) c)
    rw [hops]
    refine echoed_of_consumes hall (writeVectoredBytes_sameInput _ _).unread hout fun hrel => ?_
    unfold writeVectoredBytes
    split
    · exact ⟨0, rfl⟩
    · exact hrel.writeOrQueue fun _ => rfl
  onTick _ _ := rfl
  sends gfd cmd hop := by
    rcases EchoHandler.performs hop with h | ⟨data, h⟩ <;> cases h

/-! ## All connections of an echo server -/

section

variable {η κ Msg : Type} [Codec κ Msg] [EventHandler η κ Msg]

/-- Everything received is taken, and it is what is written. -/
theorem echoes_answers (hecho : Echoes η) :
    Answers η (fun c : Connection κ => [c.unread]) fun total rest _ _ ts => rest = [] ∧ ts.flatten = total where
  reacts := {
    onOpen := fun h c hc => by
      rw [hecho.onOpen]
      exact ⟨hc, rfl⟩
    onTraffic := by
      rintro h c bs total rest last ts hio hne hunread ⟨rfl, rfl⟩
      refine ⟨(hecho.onTraffic h c bs hio hne).1, ?_⟩
      rw [List.flatten_append, List.flatten_singleton, hunread, List.nil_append]
    onTick := fun h conns op hop => by
      rw [hecho.onTick] at hop
      cases hop }
  onTraffic h c bs _ _ _ _ hio hne _ _ := (hecho.onTraffic h c bs hio hne).2
  onTick := hecho.onTick
  sends := hecho.sends

end

namespace Machine

open EventLoop Runs

/-- **Echo servers echo.** In every run without `AsyncWrite`s from other threads, as long as the loop runs, every live
connection has nothing unread, and what it has sent and queued since it was opened is a subsequence of what its socket
has delivered since, and all of it if its socket fails no write. -/
theorem echo_server {η κ Msg : Type} [Codec κ Msg] [EventHandler η κ Msg] (hecho : Echoes η) {el : EventLoop η κ}
    (hfresh : el.Fresh) {ls : List (Label η)} (hls : ∀ gfd data, .trigger (.asyncWrite gfd data) ∉ ls) {m : Machine η κ}
    (hrun : run step (initial el) ls = some m) (hlive : m.phase.Live) {k : Nat} {i : Incarnation κ}
    (hi : m.el.connections.get k = some i) :
    ∃ before start delivered out, .opens before start .none ∈ m.el.trace ∧ start.id = i.id ∧ i.conn.unread = [] ∧
      i.received = i.before ++ delivered ∧ i.conn.sent ++ i.conn.queued.flatten = start.conn.outStream ++ out ∧
      out.Sublist delivered ∧ (start.conn.Reliable → out = delivered) := by
  obtain ⟨⟨delivered, hd, hunread, hmade⟩, before, start, hmem, hid, ⟨out, hout, hsub, hall⟩, -⟩ :=
    run_answers (echoes_answers hecho) hfresh hls hrun hlive hi
  rw [hmade] at hsub hall
  exact ⟨before, start, delivered, out, hmem, hid, hunread, hd, hout, hsub, hall⟩

/-- A connection that sends five bytes in two reads; its socket takes two bytes and then no more. -/
def echoes : List (Label EchoHandler) :=
  [.accept ⟨4, [.took 2, .wouldBlock], [.data [1, 2, 3], .data [4, 5]], [], [], none⟩ (.tcp "a") (.tcp "b"),
    .advance, .advance, .poll [], .advance, .advance, .advance, .tick false, .advance,
    .poll [⟨0, true, false, false, false⟩], .advance]

theorem echo_server_echoes : ∃ m i before start delivered out,
    run step (initial (new 0 ⟨64, 8, false⟩ EchoHandler.mk [] [] (fun _ => 0) 0)) echoes = some m ∧
    m.el.connections.get 0 = some i ∧ i.conn.sent = [1, 2] ∧ .opens before start .none ∈ m.el.trace ∧
    start.id = i.id ∧ i.conn.unread = [] ∧ i.received = i.before ++ delivered ∧
    i.conn.sent ++ i.conn.queued.flatten = start.conn.outStream ++ out ∧ out.Sublist delivered ∧
    (start.conn.Reliable → out = delivered) := by
  have hend : (run step (initial (new 0 ⟨64, 8, false⟩ EchoHandler.mk [] [] (fun _ => 0) 0)) echoes).any (fun m =>
      decide m.phase.Live && (m.el.connections.get 0).any fun i => decide (i.conn.sent = [1, 2])) = true := by
    decide +kernel
  obtain ⟨m, hm, hat⟩ := exists_of_any hend
  obtain ⟨hlive, hany⟩ := Bool.and_eq_true_iff.mp hat
  obtain ⟨i, hi, hsent⟩ := exists_of_any hany
  have hno : ∀ gfd data, .trigger (.asyncWrite gfd data) ∉ echoes := by simp [echoes]
  obtain ⟨before, start, delivered, out, h⟩ := echo_server echo_echoes (new_fresh _ _ _ _ _ _ _) hno hm
    (of_decide_eq_true hlive) hi
  exact ⟨m, i, before, start, delivered, out, hm, hi, of_decide_eq_true hsent, h⟩

end Machine
end Rnet
