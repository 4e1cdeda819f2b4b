import Rmote.Wire.Flags

/-!
# The frame codec

Each direction of a connection has one zlib stream. `FrameCompressor.encode`
continues it with the body of a frame and ends with a sync flush, unless the
caller forbids it or the sample of the body is too dense, and
`FrameDecompressor.decode` inflates exactly the marked bodies in the order they
arrive.

zlib itself is a parameter. `Zlib` holds the two objects of a direction and the
documented behaviour that the codec relies on: what one object compresses and
flushes, the other gives back in the same order, the flush ends with its four
marker bytes, and a body grows by no more than the block overhead.
-/

namespace Rmote

/-- The four bytes that zlib writes for a sync flush. -/
def syncTail : Bytes := [0x00, 0x00, 0xff, 0xff]

/-- What one call of `decompress(body, max_length)` leaves behind. -/
structure Inflated where
  payload : Bytes
  unconsumedTail : Bytes
  unusedData : Bytes
  eof : Bool
  deriving DecidableEq, Repr

/-- The room that `receive` grants to a compressed body above `limit`. -/
def compressedLimit (limit : ℕ) : ℕ := limit + (limit >>> 12 + limit >>> 14 + 32)

/-- The compression and decompression objects of one direction. -/
structure Zlib where
  Deflate : Type
  Inflate : Type
  /-- `compressobj(level)`. -/
  deflate : Deflate
  /-- `decompressobj()`. -/
  inflate : Inflate
  /-- `compress(payload) + flush(Z_SYNC_FLUSH)`. -/
  compress : Deflate → Bytes → Bytes × Deflate
  /-- `decompress(body, max_length)`; an error carries the text of `zlib.error`. -/
  decompress : Inflate → Bytes → ℕ → Except String Inflated × Inflate
  /-- The two objects have seen the same bodies. -/
  Paired : Deflate → Inflate → Prop
  paired_init : Paired deflate inflate
  flushed : ∀ d payload, syncTail <:+ (compress d payload).1
  bounded : ∀ d payload limit, payload.length ≤ limit →
    (compress d payload).1.length ≤ compressedLimit limit
  inverse : ∀ d i payload limit, Paired d i → payload.length ≤ limit →
    ∃ i', decompress i (compress d payload).1 (limit + 1) =
        (.ok ⟨payload, [], [], false⟩, i') ∧
      Paired (compress d payload).2 i'

/-- Objects that keep the bytes and only add the flush mark. -/
def Zlib.plain : Zlib where
  Deflate := Unit
  Inflate := Unit
  deflate := ()
  inflate := ()
  compress _ payload := (payload ++ syncTail, ())
  decompress _ body _ := (.ok ⟨body.take (body.length - syncTail.length), [], [], false⟩, ())
  Paired _ _ := True
  paired_init := trivial
  flushed _ payload := List.suffix_append payload syncTail
  bounded _ payload limit h := by
    simp only [List.length_append, syncTail, List.length_cons, List.length_nil, compressedLimit]
    omega
  inverse _ _ payload _ _ _ := ⟨(), by simp, trivial⟩

variable (Z : Zlib)

/-- Compress frame bodies with one dictionary that serves the direction. -/
structure FrameCompressor where
  codec : Z.Deflate
  sample : ℕ
  values : ℕ

namespace FrameCompressor

variable {Z}

/-- A short sample uses too many byte values to shrink. -/
def dense (c : FrameCompressor Z) (payload : Bytes) : Bool :=
  c.values < (payload.take c.sample).dedup.length

/-- The body to write, whether the dictionary now holds it, and the compressor
after it. -/
def encode (c : FrameCompressor Z) (payload : Bytes) (allowed : Bool) :
    Bytes × Bool × FrameCompressor Z :=
  if !allowed || c.dense payload then
    (payload, false, c)
  else
    let (body, codec) := Z.compress c.codec payload
    (body, true, { c with codec := codec })

end FrameCompressor

/-- The two refusals of `FrameDecompressor.decode`, and an error of zlib. -/
inductive InflateError where
  | noFlushBoundary
  | broken
  | zlib (text : String)
  deriving DecidableEq, Repr

/-- The text of the exception. -/
def InflateError.message : InflateError → String
  | noFlushBoundary => "Compressed frame does not end at a flush boundary"
  | broken => "Compressed frame is broken or above the frame limit"
  | zlib text => text

/-- Inflate the marked bodies of one direction, in the order they arrive. -/
structure FrameDecompressor where
  codec : Z.Inflate
  limit : ℕ

namespace FrameDecompressor

variable {Z}

/-- Inflate one marked body. -/
def decode (d : FrameDecompressor Z) (body : Bytes) :
    Except InflateError Bytes × FrameDecompressor Z :=
  if ¬ syncTail <:+ body then
    (.error .noFlushBoundary, d)
  else
    match Z.decompress d.codec body (d.limit + 1) with
    | (.error text, codec) => (.error (.zlib text), { d with codec := codec })
    | (.ok out, codec) =>
        if d.limit < out.payload.length ∨ out.unconsumedTail ≠ [] ∨ out.unusedData ≠ [] ∨
            out.eof = true then
          (.error .broken, { d with codec := codec })
        else
          (.ok out.payload, { d with codec := codec })

/-- A decompressor that follows a compressor gives back the body and follows it
further. -/
theorem decode_compress {c : Z.Deflate} {d : FrameDecompressor Z} {payload : Bytes}
    (hpair : Z.Paired c d.codec) (hlen : payload.length ≤ d.limit) :
    ∃ codec, d.decode (Z.compress c payload).1 = (.ok payload, { d with codec := codec }) ∧
      Z.Paired (Z.compress c payload).2 codec := by
  obtain ⟨codec, hdec, hnext⟩ := Z.inverse c d.codec payload d.limit hpair hlen
  refine ⟨codec, ?_, hnext⟩
  have htail := Z.flushed c payload
  simp [decode, htail, hdec, Nat.not_lt.mpr hlen]

end FrameDecompressor

end Rmote
