import Rnet.Socket

/-!
# Codecs

The trait `Codec` of `codec.rs` over a type `κ` of codec values (the values a `Box<dyn Codec>` can hold) and a type
`Msg` of messages (`Box<dyn Any + Send>`). Both methods take the codec and the buffer by mutable reference, so they
return them.
-/

namespace Rnet

class Codec (κ : Type) (Msg : outParam Type) where
  /-- the answer, the codec and the source buffer afterwards -/
  decode : κ → Bytes → IoResult (Option Msg) × κ × Bytes
  /-- the answer, the codec and the destination buffer afterwards -/
  encode : κ → Msg → Bytes → IoResult Unit × κ × Bytes

/-- The messages `RawCodec` tells apart: a `BytesMut` and everything else. -/
inductive RawMsg
  | bytesMut (bs : Bytes)
  | foreign
  deriving DecidableEq, Repr

inductive RawCodec
  | mk
  deriving DecidableEq, Repr

instance : Codec RawCodec RawMsg where
  decode r src := if src = [] then (.ok none, r, src) else (.ok (some (.bytesMut src)), r, [])
  encode r msg dst :=
    match msg with
    | .bytesMut bs => (.ok (), r, dst ++ bs)
    | .foreign => (.error ⟨.other, "RawCodec expects BytesMut message"⟩, r, dst)

end Rnet
