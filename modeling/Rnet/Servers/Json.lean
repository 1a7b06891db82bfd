import Rnet.Connection.Framing
import Rnet.Lib.BigEndian
import Rnet.Lib.Loops
import Rnet.Servers.Serving

/-!
# The JSON server

The codec and the handler of `examples/json-codec.rs`. A frame is the length of a JSON text in four bytes and the text.
`decode` takes the first frame, whether its text can be read or not (`decode_cases`), and `encode` cuts the length to 32
bits, so a value survives both exactly when its text is shorter than `2^32` bytes (`frame_survives_iff`). Values encoded
one after the other into one buffer are decoded again (`json_round_trip`).

`on_traffic` sends back every value that it decodes, and stops at a frame that cannot be read (`serve_frames`). So at
any time in any run, what was received is a sequence of frames followed by the unread input, and what was sent are the
answers to these frames, in order, each once (`json_server`).

`serde_json` is outside the repository: `from_slice` and `to_vec` are parameters.
-/

namespace Rnet

open BigEndian Connection Loops

/-- The functions of `serde_json`. -/
class SerdeJson (Value : Type) where
  fromSlice : Bytes → Except String Value
  toVec : Value → Except String Bytes

inductive JsonCodec (Value : Type)
  | mk
  deriving DecidableEq, Repr

/-- The messages `JsonCodec` tells apart: a `serde_json::Value` and everything else. -/
inductive JsonMsg (Value : Type)
  | value (val : Value)
  | foreign
  deriving DecidableEq, Repr

namespace JsonCodec

def HEAD_SIZE : Nat := 4

variable (Value : Type) [SerdeJson Value]

/-- The answer, and the source buffer afterwards. -/
def decode (src : Bytes) : IoResult (Option (JsonMsg Value)) × Bytes :=
  if src.length < HEAD_SIZE then (.ok none, src)
  else
    let len := ofBytes (src.take HEAD_SIZE)
    if src.length < HEAD_SIZE + len then (.ok none, src)
    else
      let src := src.drop HEAD_SIZE
      match SerdeJson.fromSlice (src.take len) with
      | .error e => (.error ⟨.other, e⟩, src.drop len)
      | .ok val => (.ok (some (.value val)), src.drop len)

variable {Value}

/-- `put_u32` writes the last four bytes of the length. -/
def frame (body : Bytes) : Bytes := toBytes HEAD_SIZE body.length ++ body

/-- The answer, and the destination buffer afterwards. -/
def encode (msg : JsonMsg Value) (dst : Bytes) : IoResult Unit × Bytes :=
  match msg with
  | .foreign => (.error ⟨.other, "JsonCodec expects serde_json::Value"⟩, dst)
  | .value val =>
    match SerdeJson.toVec val with
    | .error e => (.error ⟨.other, e⟩, dst)
    | .ok body => (.ok (), dst ++ frame body)

instance : Codec (JsonCodec Value) (JsonMsg Value) where
  decode k src := ((decode Value src).1, k, (decode Value src).2)
  encode k msg dst := ((encode msg dst).1, k, (encode msg dst).2)

/-! ## Frames -/

variable {body rest src : Bytes} {val : Value}

omit [SerdeJson Value] in
theorem length_frame (body : Bytes) : (frame body).length = HEAD_SIZE + body.length := by
  rw [frame, List.length_append, length_toBytes]

omit [SerdeJson Value] in
/-- The header is the length, cut to 32 bits. -/
theorem header_frame (body rest : Bytes) : ofBytes ((frame body ++ rest).take HEAD_SIZE) = body.length % 2 ^ 32 := by
  rw [frame, List.append_assoc, List.take_left' (length_toBytes _ _), ofBytes_toBytes]
  rfl

/-- What `decode` answers on a frame with the text `body`. -/
def decodeText (Value : Type) [SerdeJson Value] (body : Bytes) : IoResult (Option (JsonMsg Value)) :=
  match SerdeJson.fromSlice body with
  | .error e => .error ⟨.other, e⟩
  | .ok val => .ok (some (.value val))

/-- The bytes of a frame come off, whatever its text. -/
theorem decode_whole {len : Nat} (hlen : len = ofBytes (src.take HEAD_SIZE)) (h : HEAD_SIZE + len ≤ src.length) :
    decode Value src = (decodeText Value ((src.drop HEAD_SIZE).take len), (src.drop HEAD_SIZE).drop len) := by
  subst hlen
  have hhead : ¬src.length < HEAD_SIZE := by omega
  have hwhole : ¬src.length < HEAD_SIZE + ofBytes (src.take HEAD_SIZE) := by omega
  unfold decode decodeText
  rw [if_neg hhead, if_neg hwhole]
  dsimp only
  split <;> rfl

theorem decode_frame (h : body.length < 2 ^ 32) :
    decode Value (frame body ++ rest) = (decodeText Value body, rest) := by
  have hlen : ofBytes ((frame body ++ rest).take HEAD_SIZE) = body.length := by
    rw [header_frame, Nat.mod_eq_of_lt h]
  have hdrop : (frame body ++ rest).drop HEAD_SIZE = body ++ rest := by
    rw [frame, List.append_assoc, List.drop_left' (length_toBytes _ _)]
  have hle : HEAD_SIZE + body.length ≤ (frame body ++ rest).length := by
    rw [List.length_append, length_frame]
    omega
  rw [decode_whole hlen.symm hle, hdrop, List.take_left, List.drop_left]

/-- **`decode` takes the first frame**, or there is none yet. -/
theorem decode_cases (Value : Type) [SerdeJson Value] (src : Bytes) :
    (decode Value src = (.ok none, src) ∧
      ∀ body rest : Bytes, body.length < 2 ^ 32 → src ≠ frame body ++ rest) ∨
    ∃ body rest, body.length < 2 ^ 32 ∧ src = frame body ++ rest ∧
      decode Value src = (decodeText Value body, rest) := by
  by_cases h : HEAD_SIZE + ofBytes (src.take HEAD_SIZE) ≤ src.length
  · have hhead : (src.take HEAD_SIZE).length = HEAD_SIZE := by
      rw [List.length_take]
      omega
    have hbody : ((src.drop HEAD_SIZE).take (ofBytes (src.take HEAD_SIZE))).length = ofBytes (src.take HEAD_SIZE) := by
      rw [List.length_take, List.length_drop]
      omega
    refine Or.inr ⟨(src.drop HEAD_SIZE).take (ofBytes (src.take HEAD_SIZE)), _, ?_, ?_, decode_whole rfl h⟩
    · have hlt := ofBytes_lt (src.take HEAD_SIZE)
      rw [hhead] at hlt
      rw [hbody]
      exact hlt
    · have hbytes := toBytes_ofBytes (src.take HEAD_SIZE)
      rw [hhead] at hbytes
      rw [frame, hbody, hbytes, List.append_assoc, List.take_append_drop, List.take_append_drop]
  · refine Or.inl ⟨?_, fun body rest hlt heq => h ?_⟩
    · unfold decode
      by_cases hhead : src.length < HEAD_SIZE
      · rw [if_pos hhead]
      · rw [if_neg hhead, if_pos (by omega)]
    · rw [heq, header_frame, Nat.mod_eq_of_lt hlt, List.length_append, length_frame]
      omega

/-! ## Encoding and decoding -/

/-- `body` is the text of `val`. -/
structure Text (val : Value) (body : Bytes) : Prop where
  toVec : SerdeJson.toVec val = .ok body
  fromSlice : SerdeJson.fromSlice body = .ok val

theorem Text.encode (h : Text val body) (dst : Bytes) : encode (.value val) dst = (.ok (), dst ++ frame body) := by
  simp only [JsonCodec.encode, h.toVec]

theorem Text.decodeText (h : Text val body) : decodeText Value body = .ok (some (.value val)) := by
  unfold JsonCodec.decodeText
  rw [h.fromSlice]

/-- **A value survives exactly if its text is shorter than `2^32` bytes.** Else the header is too small, and bytes of
the text are left over. -/
theorem frame_survives_iff (h : Text val body) :
    decode Value (encode (.value val) []).2 = (.ok (some (.value val)), []) ↔ body.length < 2 ^ 32 := by
  rw [h.encode, List.nil_append]
  constructor
  · intro hd
    by_contra hlong
    have hheader : ofBytes ((frame body).take HEAD_SIZE) = body.length % 2 ^ 32 := by
      rw [← header_frame body [], List.append_nil]
    have hshort : body.length % 2 ^ 32 < body.length := by omega
    rw [decode_whole hheader.symm (by rw [length_frame]; omega)] at hd
    have hlen := congrArg (fun r => r.2.length) hd
    simp only [List.length_drop, length_frame, List.length_nil] at hlen
    omega
  · intro hlt
    have hd : decode Value (frame body ++ []) = _ := decode_frame hlt
    rw [List.append_nil, h.decodeText] at hd
    exact hd

/-- Values encoded one after the other into one buffer. -/
def encodeAll (vals : List Value) (dst : Bytes) : Bytes := vals.foldl (fun dst val => (encode (.value val) dst).2) dst

theorem decodes_encodeAll {vals : List Value} (h : ∀ val ∈ vals, ∃ body, Text val body ∧ body.length < 2 ^ 32) :
    ∃ bs, (∀ dst, encodeAll vals dst = dst ++ bs) ∧
      Decodes (JsonCodec.mk : JsonCodec Value) bs (vals.map .value) [] := by
  induction vals with
  | nil => exact ⟨[], fun dst => (List.append_nil _).symm, .done rfl⟩
  | cons val vals ih =>
    obtain ⟨bs, hbs, hd⟩ := ih fun v hv => h v (List.mem_cons_of_mem _ hv)
    obtain ⟨body, htext, hlt⟩ := h val List.mem_cons_self
    have hfirst : Codec.decode (JsonCodec.mk : JsonCodec Value) (frame body ++ bs) =
        (.ok (some (.value val)), JsonCodec.mk, bs) := by
      show ((decode Value (frame body ++ bs)).1, JsonCodec.mk, (decode Value (frame body ++ bs)).2) = _
      rw [decode_frame hlt, htext.decodeText]
    refine ⟨frame body ++ bs, fun dst => ?_, .next hfirst hd⟩
    show encodeAll vals (encode (.value val) dst).2 = _
    rw [htext.encode, hbs, List.append_assoc]

/-- **The round trip.** Values whose texts are shorter than `2^32` bytes, encoded into one buffer, are decoded again,
and nothing is left over; a longer one is not decoded again. -/
theorem json_round_trip (vals : List Value) (h : ∀ val ∈ vals, ∃ body, Text val body) :
    ((∀ val ∈ vals, ∀ body, Text val body → body.length < 2 ^ 32) →
      Decodes (JsonCodec.mk : JsonCodec Value) (encodeAll vals []) (vals.map .value) []) ∧
    ∀ val ∈ vals, ∀ body, Text val body →
      (decode Value (encode (.value val) []).2 = (.ok (some (.value val)), []) ↔ body.length < 2 ^ 32) := by
  refine ⟨fun hlt => ?_, fun val _ body htext => frame_survives_iff htext⟩
  obtain ⟨bs, hbs, hd⟩ := decodes_encodeAll fun val hval => by
    obtain ⟨body, htext⟩ := h val hval
    exact ⟨body, htext, hlt val hval body htext⟩
  rw [hbs, List.nil_append]
  exact hd

/-- The texts of the two truth values: `true` and `false`. -/
def literal : Bool → Bytes
  | true => [116, 114, 117, 101]
  | false => [102, 97, 108, 115, 101]

instance : SerdeJson Bool where
  fromSlice body :=
    if body = literal true then .ok true
    else if body = literal false then .ok false
    else .error "expected value at line 1 column 1"
  toVec val := .ok (literal val)

theorem text_literal (val : Bool) : Text val (literal val) := by
  cases val <;> exact ⟨rfl, rfl⟩

theorem json_round_trip_two :
    Decodes (JsonCodec.mk : JsonCodec Bool) (encodeAll [true, false] []) [.value true, .value false] [] ∧
      (decode Bool (encode (.value true) []).2 = (.ok (some (.value true)), []) ↔ (literal true).length < 2 ^ 32) := by
  have htext : ∀ val ∈ [true, false], ∃ body, Text val body := fun val _ => ⟨_, text_literal val⟩
  have hshort : ∀ val ∈ [true, false], ∀ body, Text val body → body.length < 2 ^ 32 := by
    intro val _ body h
    obtain rfl : literal val = body := Except.ok.inj h.toVec
    cases val <;> decide
  have h := json_round_trip [true, false] htext
  exact ⟨h.1 hshort, h.2 true List.mem_cons_self _ (text_literal true)⟩

end JsonCodec

open JsonCodec

/-! ## The handler -/

inductive JsonHandler (Value : Type)
  | mk

namespace JsonHandler

variable {Value : Type} [SerdeJson Value]

/-- What the loop of `on_traffic` has done so far. -/
structure Served (Value : Type) where
  conn : Connection (JsonCodec Value)
  ops : List (Op (JsonCodec Value) (JsonMsg Value))

/-- One iteration; a failed `send` is only reported. -/
def serveBody (s : Served Value) : Served Value ⊕ Served Value :=
  let (res, conn) := s.conn.nextMessage
  let ops := s.ops ++ [.nextMessage]
  match res with
  | .ok (some (.value val)) => .inr ⟨(conn.send (.value val)).2, ops ++ [.send (.value val)]⟩
  | .ok (some .foreign) => .inr ⟨conn, ops⟩
  | .ok none | .error _ => .inl ⟨conn, ops⟩

/-- The loop, which has an iteration for each byte of `in_buffer` and one more. -/
def serve (c : Connection (JsonCodec Value)) : Option (Served Value) := loop serveBody (c.inBufLen + 1) ⟨c, []⟩

def ops (c : Connection (JsonCodec Value)) : List (Op (JsonCodec Value) (JsonMsg Value)) :=
  ((serve c).map Served.ops).getD []

instance : EventHandler (JsonHandler Value) (JsonCodec Value) (JsonMsg Value) where
  onOpen h _ := (⟨[.setCodec (some .mk)], .none⟩, h)
  onTraffic h c := (⟨ops c, .none⟩, h)
  onClose h _ := (⟨[], .none⟩, h)
  onTick h _ := (⟨[], 0, .none⟩, h)

/-! ## One call of `on_traffic` -/

/-- What is sent back for a frame with the text `body`. -/
def reply (Value : Type) [SerdeJson Value] (body : Bytes) : Bytes :=
  match (SerdeJson.fromSlice body : Except String Value) with
  | .error _ => []
  | .ok val => (encode (.value val) []).2

/-- What an operation of `on_traffic` writes, if its write does not fail. -/
def answer : Op (JsonCodec Value) (JsonMsg Value) → Option Bytes
  | .send msg => some (encode msg []).2
  | _ => none

/-- What a call writes. -/
def answers (c : Connection (JsonCodec Value)) : List Bytes := (ops c).filterMap answer

variable {c : Connection (JsonCodec Value)} {s s' : Served Value}

/-- No frame is whole. -/
def Incomplete (src : Bytes) : Prop := ∀ body rest : Bytes, body.length < 2 ^ 32 → src ≠ frame body ++ rest

/-- The text of a frame can be read. -/
def Readable (Value : Type) [SerdeJson Value] (body : Bytes) : Prop :=
  ∃ val : Value, SerdeJson.fromSlice body = .ok val

/-- `next_message` takes a frame off `in_buffer`, if there is one. -/
theorem nextMessage_cases (hc : c.codec = some .mk) :
    c.nextMessage = (.ok none, c) ∧ Incomplete (c.inBuffer.getD []) ∨
      ∃ body rest, body.length < 2 ^ 32 ∧ c.inBuffer = some (frame body ++ rest) ∧
        c.nextMessage = (decodeText Value body, c.withIn rest) := by
  cases hin : c.inBuffer with
  | none =>
    refine Or.inl ⟨?_, fun body rest _ heq => ?_⟩
    · unfold Connection.nextMessage
      rw [hc, hin]
    · have hlen := congrArg List.length heq
      rw [List.length_append, length_frame, HEAD_SIZE, Option.getD_none, List.length_nil] at hlen
      omega
  | some b =>
    rcases decode_cases Value b with ⟨hd, hstop⟩ | ⟨body, rest, hlt, rfl, hd⟩
    · have hsame : c.withIn b = c := by
        cases c
        cases hin
        rfl
      have hfirst : Codec.decode (JsonCodec.mk : JsonCodec Value) b = (.ok none, JsonCodec.mk, b) := by
        show ((decode Value b).1, JsonCodec.mk, (decode Value b).2) = _
        rw [hd]
      refine Or.inl ⟨?_, hstop⟩
      rw [nextMessage_some hc hin hfirst, hsame]
    · have hfirst : Codec.decode (JsonCodec.mk : JsonCodec Value) (frame body ++ rest) =
          (decodeText Value body, JsonCodec.mk, rest) := by
        show ((decode Value (frame body ++ rest)).1, JsonCodec.mk, (decode Value (frame body ++ rest)).2) = _
        rw [hd]
      exact Or.inr ⟨body, rest, hlt, rfl, nextMessage_some hc hin hfirst⟩

theorem encode_cases (msg : JsonMsg Value) :
    (∃ e, encode msg [] = (.error e, [])) ∨ ∃ buf, encode msg [] = (.ok (), buf) := by
  cases msg with
  | foreign => exact Or.inl ⟨_, rfl⟩
  | value val =>
    unfold encode
    dsimp only
    cases SerdeJson.toVec val with
    | error e => exact Or.inl ⟨_, rfl⟩
    | ok body => exact Or.inr ⟨_, rfl⟩

/-- One answer. -/
theorem send_writes (hc : c.codec = some .mk) (msg : JsonMsg Value) :
    (c.send msg).2.codec = some .mk ∧ c.Writes [(encode msg []).2] (c.send msg).2 := by
  have hself : { c with codec := some (JsonCodec.mk : JsonCodec Value) } = c := by
    cases c
    cases hc
    rfl
  rcases encode_cases msg with ⟨e, he⟩ | ⟨buf, he⟩
  · have hsend : c.send msg = (.error e, c) := by
      unfold Connection.send
      rw [hc]
      simp only [Codec.encode, he, hself]
    rw [hsend, he]
    exact ⟨hc, [], (List.append_nil _).symm, List.nil_sublist _, fun _ => rfl⟩
  · have hsend : c.send msg = ((c.writeBytes buf).1.map fun _ => (), (c.writeBytes buf).2) := by
      unfold Connection.send
      rw [hc]
      simp only [Codec.encode, he, hself]
    rw [hsend, he]
    refine ⟨(writeOrQueue_codec c).trans hc, .of_accepted (writeBytes_stream c buf) fun hrel => ?_⟩
    exact hrel.writeOrQueue fun s => by simp

/-- An iteration finds no frame in `in_buffer`, or one that cannot be read, or it sends back the value of one. -/
inductive Iterates (s : Served Value) : Served Value ⊕ Served Value → Prop
  | ends (hstop : Incomplete (s.conn.inBuffer.getD [])) (hnext : s.conn.nextMessage.2 = s.conn) :
      Iterates s (.inl ⟨s.conn, s.ops ++ [.nextMessage]⟩)
  | stumbles (body rest : Bytes) (hlt : body.length < 2 ^ 32) (hin : s.conn.inBuffer = some (frame body ++ rest))
      (hnext : s.conn.nextMessage.2 = s.conn.withIn rest) (hreply : reply Value body = [])
      (hbad : ¬Readable Value body) :
      Iterates s (.inl ⟨s.conn.withIn rest, s.ops ++ [.nextMessage]⟩)
  | sends (body rest : Bytes) (val : Value) (hlt : body.length < 2 ^ 32)
      (hin : s.conn.inBuffer = some (frame body ++ rest)) (hnext : s.conn.nextMessage.2 = s.conn.withIn rest)
      (hreply : reply Value body = (encode (.value val) []).2) (hgood : Readable Value body) :
      Iterates s (.inr ⟨((s.conn.withIn rest).send (.value val)).2, s.ops ++ [.nextMessage, .send (.value val)]⟩)

theorem serveBody_iterates (hc : s.conn.codec = some .mk) : Iterates s (serveBody s) := by
  unfold serveBody
  rcases nextMessage_cases hc with ⟨hn, hstop⟩ | ⟨body, rest, hlt, hin, hn⟩
  · have hends := Iterates.ends hstop (congrArg Prod.snd hn)
    rw [hn]
    exact hends
  · have hnext := congrArg Prod.snd hn
    rw [hn]
    cases hr : (SerdeJson.fromSlice body : Except String Value) with
    | error e =>
      have hbad : ¬Readable Value body := by
        rintro ⟨val, hval⟩
        rw [hr] at hval
        cases hval
      simp only [decodeText, hr]
      exact .stumbles body rest hlt hin hnext (by simp [reply, hr]) hbad
    | ok val =>
      simp only [decodeText, hr, List.append_assoc]
      exact .sends body rest val hlt hin hnext (by simp [reply, hr]) ⟨val, hr⟩

/-- Without a codec there are no messages. -/
theorem serveBody_none (hc : s.conn.codec = none) : serveBody s = .inl ⟨s.conn, s.ops ++ [.nextMessage]⟩ := by
  have hn : s.conn.nextMessage = (.ok none, s.conn) := by
    unfold Connection.nextMessage
    rw [hc]
  unfold serveBody
  rw [hn]

theorem codec_of_inr (h : serveBody s = .inr s') : s.conn.codec = some .mk := by
  cases hc : s.conn.codec with
  | some k => rfl
  | none =>
    rw [serveBody_none hc] at h
    cases h

/-- **The loop of `on_traffic` ends.** -/
theorem serve_returns (c : Connection (JsonCodec Value)) : ∃ r, serve c = some r := by
  refine exists_loop (fun s : Served Value => s.conn.inBufLen) (fun s s' h => ?_) ⟨c, []⟩
  have hit := serveBody_iterates (codec_of_inr h)
  rw [h] at hit
  cases hit with
  | sends body rest val hlt hin =>
    have hsame := (send_sameInput (s.conn.withIn rest) (JsonMsg.value val)).inBuffer
    show ((((s.conn.withIn rest).send (JsonMsg.value val)).2.inBuffer).map List.length).getD 0 <
      ((s.conn.inBuffer).map List.length).getD 0
    rw [hsame, hin]
    show rest.length < (frame body ++ rest).length
    rw [List.length_append, length_frame, HEAD_SIZE]
    omega

/-- What holds of the loop: the operations make the connection, the frames with the texts `bodies` were taken off the
front of `in_buffer`, and they were answered. -/
structure Serving (c : Connection (JsonCodec Value)) (bodies : List Bytes) (s : Served Value) : Prop where
  conn : Op.performAll s.ops c = s.conn
  codec : s.conn.codec = some .mk
  ioBuffer : s.conn.ioBuffer = c.ioBuffer
  short : ∀ body ∈ bodies, body.length < 2 ^ 32
  frames : c.inBuffer.getD [] = (bodies.map frame).flatten ++ s.conn.inBuffer.getD []
  answered : (s.ops.filterMap answer).flatten = (bodies.map (reply Value)).flatten
  writes : c.Writes (s.ops.filterMap answer) s.conn

variable {bodies : List Bytes} {body rest : Bytes} {val : Value}

theorem Serving.start (hc : c.codec = some .mk) : Serving c [] ⟨c, []⟩ :=
  ⟨rfl, hc, rfl, List.forall_mem_nil _, rfl, rfl, .none rfl⟩

theorem Serving.perform (h : Serving c bodies s) (ops : List (Op (JsonCodec Value) (JsonMsg Value))) :
    Op.performAll (s.ops ++ ops) c = Op.performAll ops s.conn := by
  rw [Op.performAll, List.foldl_append]
  exact congrArg (Op.performAll ops) h.conn

/-- The last call of `next_message`. -/
theorem Serving.ends (h : Serving c bodies s) (hnext : s.conn.nextMessage.2 = s.conn) :
    Serving c bodies ⟨s.conn, s.ops ++ [.nextMessage]⟩ where
  conn := (h.perform _).trans hnext
  codec := h.codec
  ioBuffer := h.ioBuffer
  short := h.short
  frames := h.frames
  answered := by
    rw [List.filterMap_append, List.flatten_append, h.answered]
    exact List.append_nil _
  writes := by
    rw [List.filterMap_append]
    exact (List.append_nil (s.ops.filterMap answer)).symm ▸ h.writes

/-- A frame comes off. -/
theorem Serving.takes (h : Serving c bodies s) (hlt : body.length < 2 ^ 32)
    (hin : s.conn.inBuffer = some (frame body ++ rest)) :
    (∀ b ∈ bodies ++ [body], b.length < 2 ^ 32) ∧
      c.inBuffer.getD [] = ((bodies ++ [body]).map frame).flatten ++ rest := by
  constructor
  · intro b hb
    rcases List.mem_append.mp hb with hb | hb
    · exact h.short b hb
    · rw [List.mem_singleton.mp hb]
      exact hlt
  · rw [h.frames, hin]
    simp

theorem Serving.stumbles (h : Serving c bodies s) (hlt : body.length < 2 ^ 32)
    (hin : s.conn.inBuffer = some (frame body ++ rest)) (hnext : s.conn.nextMessage.2 = s.conn.withIn rest)
    (hreply : reply Value body = []) :
    Serving c (bodies ++ [body]) ⟨s.conn.withIn rest, s.ops ++ [.nextMessage]⟩ where
  conn := (h.perform _).trans hnext
  codec := h.codec
  ioBuffer := h.ioBuffer
  short := (h.takes hlt hin).1
  frames := (h.takes hlt hin).2
  answered := by
    rw [List.filterMap_append, List.flatten_append, h.answered, List.map_append, List.flatten_append,
      List.map_singleton, hreply]
    rfl
  writes := by
    rw [List.filterMap_append]
    exact (List.append_nil (s.ops.filterMap answer)).symm ▸ h.writes.congr rfl

theorem Serving.sends (h : Serving c bodies s) (hlt : body.length < 2 ^ 32)
    (hin : s.conn.inBuffer = some (frame body ++ rest)) (hnext : s.conn.nextMessage.2 = s.conn.withIn rest)
    (hreply : reply Value body = (encode (.value val) []).2) :
    Serving c (bodies ++ [body])
      ⟨((s.conn.withIn rest).send (.value val)).2, s.ops ++ [.nextMessage, .send (.value val)]⟩ := by
  have hsame := send_sameInput (s.conn.withIn rest) (JsonMsg.value val)
  have hsent := send_writes (c := s.conn.withIn rest) h.codec (.value val)
  have hconn : Op.performAll (s.ops ++ [.nextMessage, .send (.value val)]) c =
      ((s.conn.withIn rest).send (.value val)).2 := by
    rw [h.perform, ← hnext]
    rfl
  have hnew : (s.ops ++ [Op.nextMessage, Op.send (JsonMsg.value val)]).filterMap answer =
      s.ops.filterMap answer ++ [(encode (JsonMsg.value val) []).2] := by
    rw [List.filterMap_append]
    rfl
  refine ⟨hconn, hsent.1, hsame.ioBuffer.trans h.ioBuffer, (h.takes hlt hin).1, ?_, ?_, ?_⟩
  · rw [hsame.inBuffer]
    exact (h.takes hlt hin).2
  · rw [hnew, List.flatten_append, h.answered, List.map_append, List.flatten_append, List.map_singleton, hreply]
  · rw [hnew]
    have hlater : c.Later s.conn := h.conn ▸ performAll_later s.ops c
    have hrel : c.Reliable → (s.conn.withIn rest).Reliable := fun hc => (hc.later hlater).later (Or.inl rfl)
    exact (h.writes.congr rfl).trans hrel hsent.2

/-- **One call of `on_traffic`** answers the frames of `in_buffer`, up to the first that cannot be read. -/
theorem serve_frames (hc : c.codec = some .mk) :
    ∃ bodies, Serving c bodies ⟨Op.performAll (ops c) c, ops c⟩ ∧
      ((∀ body ∈ bodies, Readable Value body) → Incomplete ((Op.performAll (ops c) c).inBuffer.getD [])) := by
  obtain ⟨r, hr⟩ := serve_returns c
  have hend : ∃ bodies, Serving c bodies r ∧
      ((∀ body ∈ bodies, Readable Value body) → Incomplete (r.conn.inBuffer.getD [])) := by
    refine loop_invariant (I := fun s => ∃ bodies, Serving c bodies s)
      (Q := fun r => ∃ bodies, Serving c bodies r ∧
        ((∀ body ∈ bodies, Readable Value body) → Incomplete (r.conn.inBuffer.getD []))) ?_ ?_ ⟨[], .start hc⟩ hr
    · rintro s s' ⟨bodies, hs⟩ hb
      have hit := serveBody_iterates hs.codec
      rw [hb] at hit
      cases hit with
      | sends body rest val hlt hin hnext hreply => exact ⟨_, hs.sends hlt hin hnext hreply⟩
    · rintro s r ⟨bodies, hs⟩ hb
      have hit := serveBody_iterates hs.codec
      rw [hb] at hit
      cases hit with
      | ends hstop hnext => exact ⟨bodies, hs.ends hnext, fun _ => hstop⟩
      | stumbles body rest hlt hin hnext hreply hbad =>
        refine ⟨_, hs.stumbles hlt hin hnext hreply, fun hall => absurd (hall body ?_) hbad⟩
        exact List.mem_append_right _ (List.mem_singleton_self _)
  have hops : ops c = r.ops := by simp [ops, hr]
  obtain ⟨bodies, hs, hstop⟩ := hend
  rw [hops, hs.conn]
  exact ⟨bodies, hs, hstop⟩

/-- A callback decodes and sends messages, and sets the codec. -/
theorem performs {op : Op (JsonCodec Value) (JsonMsg Value)} (hop : Performs (JsonHandler Value) op) :
    op = .setCodec (some .mk) ∨ op = .nextMessage ∨ ∃ msg, op = .send msg := by
  cases hop with
  | onOpen hop => exact Or.inl (List.mem_singleton.mp hop)
  | onClose hop | onTick hop => cases hop
  | @onTraffic _ c _ hop =>
    obtain ⟨r, hr⟩ := serve_returns c
    have hall : ∀ op ∈ r.ops, op = .nextMessage ∨ ∃ msg, op = .send msg := by
      refine loop_invariant (I := fun s => ∀ op ∈ s.ops, op = .nextMessage ∨ ∃ msg, op = .send msg)
        (Q := fun r => ∀ op ∈ r.ops, op = .nextMessage ∨ ∃ msg, op = .send msg) ?_ ?_ (List.forall_mem_nil _) hr
      · intro s s' hs hb op hop
        have hit := serveBody_iterates (codec_of_inr hb)
        rw [hb] at hit
        cases hit with
        | sends body rest val =>
          rcases List.mem_append.mp hop with hop | hop
          · exact hs op hop
          · exact (List.mem_pair.mp hop).imp_right fun h => ⟨_, h⟩
      · intro s r hs hb op hop
        have hlast : r.ops = s.ops ++ [.nextMessage] := by
          cases hc : s.conn.codec with
          | none =>
            rw [serveBody_none hc] at hb
            cases hb
            rfl
          | some k =>
            have hit := serveBody_iterates (s := s) hc
            rw [hb] at hit
            cases hit <;> rfl
        rw [hlast] at hop
        exact (List.mem_append.mp hop).elim (hs op) fun h => Or.inl (List.mem_singleton.mp h)
    have hops : ops c = r.ops := by simp [ops, hr]
    exact Or.inr (hall op (hops ▸ hop))

/-! ## All connections -/

/-- What was received are frames that were answered, and the unread input. It starts with no frame that was whole before
the last read, if all texts can be read. -/
def Framed (Value : Type) [SerdeJson Value] (total rest last : Bytes) (codec : Option (JsonCodec Value))
    (answers : List Bytes) : Prop :=
  codec = some .mk ∧ ∃ (bodies : List Bytes) (inb : Bytes), (∀ body ∈ bodies, body.length < 2 ^ 32) ∧
    total = (bodies.map frame).flatten ++ rest ∧ rest = inb ++ last ∧
    answers.flatten = (bodies.map (reply Value)).flatten ∧ ((∀ body ∈ bodies, Readable Value body) → Incomplete inb)

theorem framed_call {bs total rest last : Bytes} {ts : List Bytes} (hio : c.ioBuffer = some bs)
    (hunread : c.unread = rest ++ bs) (h : Framed Value total rest last c.codec ts) :
    Framed Value (total ++ bs) (Op.performAll (ops c) c).unread bs (Op.performAll (ops c) c).codec (ts ++ answers c) ∧
      c.Writes (answers c) (Op.performAll (ops c) c) := by
  obtain ⟨hcodec, bodies, inb, hshort, rfl, -, hanswers, -⟩ := h
  obtain ⟨new, hs, hstop⟩ := serve_frames hcodec
  have hin : c.inBuffer.getD [] = rest := by
    rw [Connection.unread, hio, Option.getD_some] at hunread
    exact List.append_cancel_right hunread
  have hrest : (Op.performAll (ops c) c).unread = (Op.performAll (ops c) c).inBuffer.getD [] ++ bs := by
    rw [Connection.unread, hs.ioBuffer, hio, Option.getD_some]
  have hframes := hs.frames
  rw [hin] at hframes
  refine ⟨⟨hs.codec, bodies ++ new, _, fun body hbody => ?_, ?_, hrest, ?_, fun hall => hstop fun body hbody => ?_⟩,
    hs.writes⟩
  · exact (List.mem_append.mp hbody).elim (hshort body) (hs.short body)
  · rw [hrest, List.map_append, List.flatten_append, hframes]
    simp only [List.append_assoc]
  · rw [List.flatten_append, hanswers, List.map_append, List.flatten_append]
    exact congrArg _ hs.answered
  · exact hall body (List.mem_append_right _ hbody)

theorem jsonHandler_answers : Answers (JsonHandler Value) answers (Framed Value) where
  reacts := {
    onOpen := fun h c hc => by
      show Framed Value [] c.unread [] (some .mk) []
      rw [hc]
      refine ⟨rfl, [], [], List.forall_mem_nil _, rfl, rfl, rfl, fun _ body rest _ heq => ?_⟩
      have hlen := congrArg List.length heq
      rw [List.length_append, length_frame, HEAD_SIZE, List.length_nil] at hlen
      omega
    onTraffic := fun h c bs total rest last ts hio hne hunread hq => (framed_call hio hunread hq).1
    onTick := fun h conns op hop => by cases hop }
  onTraffic h c bs total rest last ts hio _ hunread hq := (framed_call hio hunread hq).2
  onTick _ _ := rfl
  sends gfd cmd hop := by
    rcases performs hop with h | h | ⟨msg, h⟩ <;> cases h

end JsonHandler

namespace Machine

open EventLoop JsonHandler Runs

/-- **The JSON server answers every frame once and in order.** In every run without `AsyncWrite`s from other threads, as
long as the loop runs, what a live connection has received is a sequence of frames and the unread input; what it has
sent and queued since it was opened is a subsequence of the answers to these frames, and all of them if its socket fails
no write. If all texts can be read, no frame that was whole before the last read is unread. -/
theorem json_server {Value : Type} [SerdeJson Value] {el : EventLoop (JsonHandler Value) (JsonCodec Value)}
    (hfresh : el.Fresh) {ls : List (Label (JsonHandler Value))} (hls : ∀ gfd data, .trigger (.asyncWrite gfd data) ∉ ls)
    {m : Machine (JsonHandler Value) (JsonCodec Value)} (hrun : run step (initial el) ls = some m)
    (hlive : m.phase.Live) {k : Nat} {i : Incarnation (JsonCodec Value)} (hi : m.el.connections.get k = some i) :
    ∃ (before start : Incarnation (JsonCodec Value)) (bodies : List Bytes) (inb out : Bytes),
      .opens before start .none ∈ m.el.trace ∧ start.id = i.id ∧ (∀ body ∈ bodies, body.length < 2 ^ 32) ∧
      i.received = i.before ++ ((bodies.map frame).flatten ++ i.conn.unread) ∧
      i.conn.unread = inb ++ lastRead m.el.trace i.id ∧
      ((∀ body ∈ bodies, Readable Value body) → Incomplete inb) ∧
      i.conn.sent ++ i.conn.queued.flatten = start.conn.outStream ++ out ∧
      out.Sublist (bodies.map (reply Value)).flatten ∧
      (start.conn.Reliable → out = (bodies.map (reply Value)).flatten) := by
  obtain ⟨⟨delivered, hd, -, bodies, inb, hshort, rfl, hunread, hanswers, hstop⟩, before, start, hmem, hid,
    ⟨out, hout, hsub, hall⟩, -⟩ := run_answers jsonHandler_answers hfresh hls hrun hlive hi
  rw [hanswers] at hsub hall
  exact ⟨before, start, bodies, inb, out, hmem, hid, hshort, hd, hunread, hstop, hout, hsub, hall⟩

/-- A client that sends two requests; the answer to the first comes with the second. -/
def requests : List (Label (JsonHandler Bool)) :=
  [.accept ⟨4, [.took 3, .wouldBlock], [.data (frame (literal true)), .data (frame (literal false))], [], [], none⟩
      (.tcp "a") (.tcp "b"),
    .advance, .advance, .poll [], .advance, .advance, .advance, .tick false, .advance,
    .poll [⟨0, true, false, false, false⟩], .advance]

theorem json_server_requests : ∃ (m : Machine (JsonHandler Bool) (JsonCodec Bool))
    (i before start : Incarnation (JsonCodec Bool)) (bodies : List Bytes) (inb out : Bytes),
    run step (initial (new 0 ⟨64, 32, false⟩ (JsonHandler.mk : JsonHandler Bool) [] [] (fun _ => 0) 0)) requests =
        some m ∧
      m.el.connections.get 0 = some i ∧ i.conn.sent ++ i.conn.queued.flatten = frame (literal true) ∧
      .opens before start .none ∈ m.el.trace ∧ start.id = i.id ∧ (∀ body ∈ bodies, body.length < 2 ^ 32) ∧
      i.received = i.before ++ ((bodies.map frame).flatten ++ i.conn.unread) ∧
      i.conn.unread = inb ++ lastRead m.el.trace i.id ∧
      ((∀ body ∈ bodies, Readable Bool body) → Incomplete inb) ∧
      i.conn.sent ++ i.conn.queued.flatten = start.conn.outStream ++ out ∧
      out.Sublist (bodies.map (reply Bool)).flatten ∧
      (start.conn.Reliable → out = (bodies.map (reply Bool)).flatten) := by
  have hend : (run step (initial (new 0 ⟨64, 32, false⟩ (JsonHandler.mk : JsonHandler Bool) [] [] (fun _ => 0) 0))
      requests).any (fun m => decide m.phase.Live && (m.el.connections.get 0).any fun i =>
        decide (i.conn.sent ++ i.conn.queued.flatten = frame (literal true))) = true := by
    decide +kernel
  obtain ⟨m, hm, hat⟩ := exists_of_any hend
  obtain ⟨hlive, hany⟩ := Bool.and_eq_true_iff.mp hat
  obtain ⟨i, hi, hsent⟩ := exists_of_any hany
  have hno : ∀ gfd data, .trigger (.asyncWrite gfd data) ∉ requests := by simp [requests]
  obtain ⟨before, start, bodies, inb, out, h⟩ :=
    json_server (new_fresh _ _ _ _ _ _ _) hno hm (of_decide_eq_true hlive) hi
  exact ⟨m, i, before, start, bodies, inb, out, hm, hi, of_decide_eq_true hsent, h⟩

end Machine
end Rnet
