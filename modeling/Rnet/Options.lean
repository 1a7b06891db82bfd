import Rnet.EventLoop.Records
import Rnet.Lib.PowersOfTwo

/-!
# Options and their builder

`options.rs`, on a machine of 64 bits. `OptionsBuilder.build` puts the setters' values over the base options and rounds
the three sizes up to powers of two. `next_power_of_two` wraps to 0 above 2^63; so the sizes are what they should be if
and only if none of the three requests is larger (`normal_iff`).
-/

namespace Rnet.Setup

inductive LoadBalancing
  | roundRobin
  | leastConnections
  | sourceAddrHash
  deriving DecidableEq, Repr

inductive Level
  | debug
  | info
  | warn
  | error
  | fatal
  deriving DecidableEq, Repr

inductive TcpSocketOpt
  | noDelay
  | delay
  deriving DecidableEq, Repr

/-- A `Duration`, in nanoseconds. -/
abbrev Duration := Nat

def DEFAULT_BUFFER_SIZE : UInt64 := 1024

def MAX_STREAM_BUFFER_CAP : UInt64 := 64 * 1024

structure Options where
  lb : LoadBalancing
  reuseAddr : Bool
  reusePort : Bool
  bindToDevice : String
  numEventLoop : UInt64
  readBufferCap : UInt64
  writeBufferCap : UInt64
  lockOsThread : Bool
  ticker : Bool
  tcpKeepalive : Option Duration
  tcpKeepInterval : Option Duration
  tcpKeepCount : Option UInt32
  tcpNoDelay : TcpSocketOpt
  socketRecvBuffer : UInt64
  socketSendBuffer : UInt64
  maxBatchSize : UInt64
  logPath : Option String
  logLevel : Level

/-- `Options::default` -/
def Options.default : Options where
  lb := .roundRobin
  reuseAddr := false
  reusePort := false
  bindToDevice := ""
  numEventLoop := 0
  readBufferCap := MAX_STREAM_BUFFER_CAP
  writeBufferCap := MAX_STREAM_BUFFER_CAP
  lockOsThread := false
  ticker := false
  tcpKeepalive := none
  tcpKeepInterval := none
  tcpKeepCount := none
  tcpNoDelay := .noDelay
  socketRecvBuffer := 0
  socketSendBuffer := 0
  maxBatchSize := 0
  logPath := none
  logLevel := .info

/-- The options the event loops read. -/
def Options.forLoop (o : Options) : Rnet.Options := ⟨o.maxBatchSize.toNat, o.readBufferCap.toNat, o.ticker⟩

/-- The builder; a setter fills its own field, and `with_options` fills `baseOptions`. -/
structure OptionsBuilder where
  baseOptions : Option Options := none
  lb : Option LoadBalancing := none
  reuseAddr : Option Bool := none
  reusePort : Option Bool := none
  bindToDevice : Option String := none
  numEventLoop : Option UInt64 := none
  readBufferCap : Option UInt64 := none
  writeBufferCap : Option UInt64 := none
  lockOsThread : Option Bool := none
  ticker : Option Bool := none
  tcpKeepalive : Option Duration := none
  tcpKeepInterval : Option Duration := none
  tcpKeepCount : Option UInt32 := none
  tcpNoDelay : Option TcpSocketOpt := none
  socketRecvBuffer : Option UInt64 := none
  socketSendBuffer : Option UInt64 := none
  edgeTriggeredIoChunk : Option UInt64 := none
  logPath : Option String := none
  logLevel : Option Level := none

/-- `usize::next_power_of_two` in release mode: the result is wrapped to 0 if it does not fit. -/
def nextPowerOfTwo (n : UInt64) : UInt64 := .ofNat (PowersOfTwo.ceil n.toNat)

def ceilToPowerOfTwo (n : UInt64) : UInt64 := if n ≤ 2 then 2 else nextPowerOfTwo n

def normalizeBufferSize (size : UInt64) : UInt64 :=
  if size ≤ 0 then MAX_STREAM_BUFFER_CAP
  else if size ≤ DEFAULT_BUFFER_SIZE then DEFAULT_BUFFER_SIZE
  else ceilToPowerOfTwo size

namespace OptionsBuilder

/-- `OptionsBuilder::new` -/
def new : OptionsBuilder := {}

def withOptions (b : OptionsBuilder) (options : Options) : OptionsBuilder := { b with baseOptions := some options }

/-- The first part of `build`: the base options, under the values that were set. -/
def requested (b : OptionsBuilder) : Options :=
  let opts := b.baseOptions.getD .default
  { lb := b.lb.getD opts.lb
    reuseAddr := b.reuseAddr.getD opts.reuseAddr
    reusePort := b.reusePort.getD opts.reusePort
    bindToDevice := b.bindToDevice.getD opts.bindToDevice
    numEventLoop := b.numEventLoop.getD opts.numEventLoop
    readBufferCap := b.readBufferCap.getD opts.readBufferCap
    writeBufferCap := b.writeBufferCap.getD opts.writeBufferCap
    lockOsThread := b.lockOsThread.getD opts.lockOsThread
    ticker := b.ticker.getD opts.ticker
    tcpKeepalive := b.tcpKeepalive.or opts.tcpKeepalive
    tcpKeepInterval := b.tcpKeepInterval.or opts.tcpKeepInterval
    tcpKeepCount := b.tcpKeepCount.or opts.tcpKeepCount
    tcpNoDelay := b.tcpNoDelay.getD opts.tcpNoDelay
    socketRecvBuffer := b.socketRecvBuffer.getD opts.socketRecvBuffer
    socketSendBuffer := b.socketSendBuffer.getD opts.socketSendBuffer
    maxBatchSize := b.edgeTriggeredIoChunk.getD opts.maxBatchSize
    logPath := b.logPath.or opts.logPath
    logLevel := b.logLevel.getD opts.logLevel }

def build (b : OptionsBuilder) : Options :=
  let opts := b.requested
  { opts with
    maxBatchSize := if 0 < opts.maxBatchSize then ceilToPowerOfTwo opts.maxBatchSize else 1 <<< (20 : UInt64)
    readBufferCap := normalizeBufferSize opts.readBufferCap
    writeBufferCap := normalizeBufferSize opts.writeBufferCap }

end OptionsBuilder

/-! ## Rounding -/

theorem nextPowerOfTwo_toNat {n : UInt64} (h : n.toNat ≤ 2 ^ 63) :
    (nextPowerOfTwo n).toNat = PowersOfTwo.ceil n.toNat := by
  have hc := PowersOfTwo.ceil_le_pow h
  rw [nextPowerOfTwo, UInt64.toNat_ofNat', Nat.mod_eq_of_lt (by omega)]

theorem nextPowerOfTwo_wraps {n : UInt64} (h : 2 ^ 63 < n.toNat) : nextPowerOfTwo n = 0 := by
  have hc : PowersOfTwo.ceil n.toNat = 2 ^ 64 := PowersOfTwo.ceil_eq_pow h (Nat.le_of_lt n.toNat_lt)
  rw [nextPowerOfTwo, hc]
  rfl

/-- A function that rounds sizes up: to the least power of two that is not below the size and not below `least`; the
size 0 stands for a default, and above 2^63 the result is 0. -/
structure Rounding (least default : UInt64) (f : UInt64 → UInt64) : Prop where
  zero : f 0 = default
  fits : ∀ n : UInt64, n ≠ 0 → n.toNat ≤ 2 ^ 63 → (f n).toNat = PowersOfTwo.ceil (max least.toNat n.toNat)
  wraps : ∀ n : UInt64, 2 ^ 63 < n.toNat → f n = 0

theorem toNat_pos_of_ne_zero {n : UInt64} (h : n ≠ 0) : 0 < n.toNat :=
  Nat.pos_of_ne_zero fun h0 => h (UInt64.toNat.inj h0)

theorem ceilToPowerOfTwo_toNat {n : UInt64} (h : n.toNat ≤ 2 ^ 63) :
    (ceilToPowerOfTwo n).toNat = PowersOfTwo.ceil (max 2 n.toNat) := by
  unfold ceilToPowerOfTwo
  split
  · rename_i hle
    have hle : n.toNat ≤ 2 := UInt64.le_iff_toNat_le.mp hle
    rw [Nat.max_eq_left hle, PowersOfTwo.ceil_of_isPowerOfTwo ⟨1, rfl⟩]
    rfl
  · rename_i hle
    have hlt : 2 < n.toNat := Nat.lt_of_not_le fun h => hle (UInt64.le_iff_toNat_le.mpr h)
    rw [nextPowerOfTwo_toNat h, Nat.max_eq_right (Nat.le_of_lt hlt)]

theorem ceilToPowerOfTwo_wraps {n : UInt64} (h : 2 ^ 63 < n.toNat) : ceilToPowerOfTwo n = 0 := by
  unfold ceilToPowerOfTwo
  rw [if_neg, nextPowerOfTwo_wraps h]
  rw [UInt64.le_iff_toNat_le, Nat.not_le]
  exact Nat.lt_trans (by decide) h

/-- The batch size, as `build` rounds it. -/
theorem batch_rounding : Rounding 2 (1 <<< (20 : UInt64))
    fun n => if 0 < n then ceilToPowerOfTwo n else 1 <<< (20 : UInt64) where
  zero := rfl
  fits n h0 h := by
    have hpos : 0 < n := UInt64.lt_iff_toNat_lt.mpr (toNat_pos_of_ne_zero h0)
    rw [if_pos hpos, ceilToPowerOfTwo_toNat h]
    rfl
  wraps n h := by
    have hpos : 0 < n := UInt64.lt_iff_toNat_lt.mpr (Nat.lt_of_le_of_lt (Nat.zero_le _) h)
    rw [if_pos hpos, ceilToPowerOfTwo_wraps h]

theorem buffer_rounding : Rounding DEFAULT_BUFFER_SIZE MAX_STREAM_BUFFER_CAP normalizeBufferSize where
  zero := rfl
  fits n h0 h := by
    have hpos : ¬n ≤ 0 := by
      rw [UInt64.le_iff_toNat_le, Nat.not_le]
      exact toNat_pos_of_ne_zero h0
    unfold normalizeBufferSize
    rw [if_neg hpos]
    split
    · rename_i hle
      rw [Nat.max_eq_left (UInt64.le_iff_toNat_le.mp hle)]
      exact (PowersOfTwo.ceil_of_isPowerOfTwo ⟨10, rfl⟩).symm
    · rename_i hle
      rw [UInt64.le_iff_toNat_le, Nat.not_le] at hle
      have h2 : 2 ≤ n.toNat := Nat.le_trans (by decide) (Nat.le_of_lt hle)
      rw [ceilToPowerOfTwo_toNat h, Nat.max_eq_right h2, Nat.max_eq_right (Nat.le_of_lt hle)]
  wraps n h := by
    unfold normalizeBufferSize
    rw [if_neg, if_neg, ceilToPowerOfTwo_wraps h]
    · rw [UInt64.le_iff_toNat_le, Nat.not_le]
      exact Nat.lt_trans (by decide) h
    · rw [UInt64.le_iff_toNat_le, Nat.not_le]
      exact Nat.lt_of_le_of_lt (Nat.zero_le _) h

/-- `got` is what a request should be rounded to. -/
structure Rounds (least request got : UInt64) : Prop where
  isPowerOfTwo : got.toNat.isPowerOfTwo
  least_le : least ≤ got
  isLeast : request ≠ 0 → request.toNat ≤ 2 ^ 63 →
    IsLeast {m : Nat | m.isPowerOfTwo ∧ least.toNat ≤ m ∧ request.toNat ≤ m} got.toNat

theorem Rounds.pos {least request got : UInt64} (h : Rounds least request got) : 0 < got.toNat :=
  Nat.pos_of_isPowerOfTwo h.isPowerOfTwo

namespace Rounding

variable {least default n : UInt64} {f : UInt64 → UInt64}

/-- **Rounding works** up to 2^63, and not above. -/
theorem rounds_iff (h : Rounding least default f) (hpow : default.toNat.isPowerOfTwo) (hle : least ≤ default)
    (hpos : 0 < least.toNat) : Rounds least n (f n) ↔ n.toNat ≤ 2 ^ 63 := by
  constructor
  · intro hr
    by_contra hn
    have hzero := hr.least_le
    rw [h.wraps n (Nat.lt_of_not_le hn), UInt64.le_iff_toNat_le] at hzero
    exact absurd (Nat.lt_of_lt_of_le hpos hzero) (Nat.lt_irrefl 0)
  · intro hn
    by_cases h0 : n = 0
    · subst h0
      rw [h.zero]
      exact ⟨hpow, hle, fun hne => absurd rfl hne⟩
    · have hleast := PowersOfTwo.isLeast_ceil_max least.toNat n.toNat
      rw [← h.fits n h0 hn] at hleast
      exact ⟨hleast.1.1, UInt64.le_iff_toNat_le.mpr hleast.1.2.1, fun _ _ => hleast⟩

/-- What was rounded stays as it is. -/
theorem again (h : Rounding least default f) (hdefault : f default = default) (hpos : 0 < least.toNat)
    (hn : n.toNat ≤ 2 ^ 63) (hl : least.toNat ≤ 2 ^ 63) : f (f n) = f n := by
  by_cases h0 : n = 0
  · subst h0
    rw [h.zero, hdefault]
  · have hfn := h.fits n h0 hn
    have hmax := PowersOfTwo.le_ceil (max least.toNat n.toNat)
    have hle : least.toNat ≤ (f n).toNat := hfn ▸ (Nat.le_max_left _ _).trans hmax
    have hne : f n ≠ 0 := fun hz => by
      rw [hz] at hle
      exact absurd (Nat.lt_of_lt_of_le hpos hle) (Nat.lt_irrefl 0)
    have hbound : (f n).toNat ≤ 2 ^ 63 := hfn ▸ PowersOfTwo.ceil_le_pow (Nat.max_le.mpr ⟨hl, hn⟩)
    refine UInt64.toNat.inj ?_
    rw [h.fits (f n) hne hbound, Nat.max_eq_right hle, hfn]
    exact PowersOfTwo.ceil_of_isPowerOfTwo (PowersOfTwo.isPowerOfTwo_ceil _)

end Rounding

/-! ## What is built -/

namespace OptionsBuilder

open EventLoop

/-- The three sizes asked for can be rounded up to a `usize`. -/
structure Representable (b : OptionsBuilder) : Prop where
  read : b.requested.readBufferCap.toNat ≤ 2 ^ 63
  write : b.requested.writeBufferCap.toNat ≤ 2 ^ 63
  batch : b.requested.maxBatchSize.toNat ≤ 2 ^ 63

/-- **What `build` promises**: sizes that are rounded, the same options when built again, and what that means to
`process_read`. -/
structure Normal (b : OptionsBuilder) : Prop where
  read : Rounds DEFAULT_BUFFER_SIZE b.requested.readBufferCap b.build.readBufferCap
  write : Rounds DEFAULT_BUFFER_SIZE b.requested.writeBufferCap b.build.writeBufferCap
  batch : Rounds 2 b.requested.maxBatchSize b.build.maxBatchSize
  again : (new.withOptions b.build).build = b.build
  /-- no read gets an empty buffer -/
  offers : ∀ {η κ : Type} (el : EventLoop η κ), el.options = b.build.forLoop → 0 < el.offered
  /-- no read pass yields before it has read something -/
  yields : ∀ {η κ Msg : Type} [Codec κ Msg] [EventHandler η κ Msg] (el t : EventLoop η κ) (key : Nat),
    el.options = b.build.forLoop → processRead key el = .ok .yield t →
      ∃ i, el.connections.get key = some i ∧ el.bytesRead i.id < t.bytesRead i.id

theorem build_again {b : OptionsBuilder} (h : b.Representable) : (new.withOptions b.build).build = b.build := by
  have hread := buffer_rounding.again (by decide) (by decide) h.read (by decide)
  have hwrite := buffer_rounding.again (by decide) (by decide) h.write (by decide)
  have hbatch := batch_rounding.again (by decide) (by decide) h.batch (by decide)
  show ({ b.build with
    maxBatchSize := if 0 < b.build.maxBatchSize then ceilToPowerOfTwo b.build.maxBatchSize else 1 <<< (20 : UInt64)
    readBufferCap := normalizeBufferSize b.build.readBufferCap
    writeBufferCap := normalizeBufferSize b.build.writeBufferCap } : Options) = b.build
  unfold build
  dsimp only at hbatch ⊢
  rw [hread, hwrite, hbatch]

/-- With a batch size above 0, a read pass that yields has read something. -/
theorem yields_of_pos {η κ Msg : Type} [Codec κ Msg] [EventHandler η κ Msg] {el t : EventLoop η κ} {key : Nat}
    (hpos : 0 < el.options.maxBatchSize) (h : processRead key el = .ok .yield t) :
    ∃ i, el.connections.get key = some i ∧ el.bytesRead i.id < t.bytesRead i.id := by
  obtain ⟨-, new, hnew, ⟨hst, -⟩ | ⟨i, hi, hall⟩⟩ := processRead_records h
  · cases hst
  · have hbatch := hall.bytes.1 rfl
    exact ⟨i, hi, by rw [bytesRead_append hnew]; omega⟩

/-- **Sizes are normalised**, the least possible, and stay so when built again, if and only if none of the three
requests is above 2^63. -/
theorem normal_iff (b : OptionsBuilder) : b.Normal ↔ b.Representable := by
  have hread := buffer_rounding.rounds_iff (n := b.requested.readBufferCap) ⟨16, rfl⟩ (by decide) (by decide)
  have hwrite := buffer_rounding.rounds_iff (n := b.requested.writeBufferCap) ⟨16, rfl⟩ (by decide) (by decide)
  have hbatch := batch_rounding.rounds_iff (n := b.requested.maxBatchSize) ⟨20, rfl⟩ (by decide) (by decide)
  constructor
  · exact fun h => ⟨hread.mp h.read, hwrite.mp h.write, hbatch.mp h.batch⟩
  · intro h
    have hcap : 0 < b.build.readBufferCap.toNat := Rounds.pos (hread.mpr h.read)
    have hmax : 0 < b.build.maxBatchSize.toNat := Rounds.pos (hbatch.mpr h.batch)
    refine ⟨hread.mpr h.read, hwrite.mpr h.write, hbatch.mpr h.batch, build_again h, fun el hel => ?_,
      fun el t key hel hrun => yields_of_pos (by rw [hel]; exact hmax) hrun⟩
    rw [offered_eq, hel]
    exact Nat.lt_of_lt_of_le hcap (Nat.le_max_right _ _)

example : ({ readBufferCap := some 4097, edgeTriggeredIoChunk := some 100 } : OptionsBuilder).build.forLoop =
    ⟨128, 8192, false⟩ := by decide

/-- A builder that is asked for a buffer of 2^63 + 1 bytes. -/
def oversized : OptionsBuilder := { readBufferCap := some 9223372036854775809 }

/-- It gives a buffer of no bytes. -/
theorem oversized_not_normal : oversized.build.readBufferCap = 0 ∧ ¬oversized.Normal := by
  have hreq : 2 ^ 63 < oversized.requested.readBufferCap.toNat := by decide
  have hzero : oversized.build.readBufferCap = 0 := buffer_rounding.wraps oversized.requested.readBufferCap hreq
  refine ⟨hzero, fun h => ?_⟩
  have hpos := Rounds.pos h.read
  rw [hzero] at hpos
  exact absurd hpos (by decide)

end OptionsBuilder

end Rnet.Setup
