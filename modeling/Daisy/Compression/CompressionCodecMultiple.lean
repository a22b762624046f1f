import Daisy.Compression.CompressionCodecDelta

/-!
# `Multiple`

`Compression/CompressionCodecMultiple.cpp`: a chain of codecs applied one
after the other. `doCompressData` writes the number of codecs as one byte, the
method byte of each, and what the last codec returns of what the one before it
returned, each stage into a buffer of the codec's `getCompressedReserveSize`.
`doDecompressData` reads the count and the method bytes and walks them from the
last: it re-creates each codec from its method byte alone by
`CompressionCodecFactory::get`, reads the size the stage's header declares,
checks that of the first stage against the size of the whole block, and has the
codec's `decompress` write that many bytes.

## The model

The chain is a list of codecs over one process state `σ`, which each stage's
`getCompressedReserveSize` and `compress` pass on. The factory is a parameter
`get`, from a method byte to the codec it creates or its "Unknown codec family
code"; the codec modules' `make`s are what it registers. A stage that writes
past the buffer it was given, returns more bytes than it wrote, or decodes to
another number of bytes than its header declares leaves the buffers undefined
(`.undefined`), as does a block shorter than the methods it announces or a
stage shorter than a header. `getAdditionalSizeAtTheEndOfBuffer` is `0` for
every codec modelled here (only `LZ4` has more), so the buffers are resized to
exactly the sizes.

## What is proved

* `decompressStages_compressStages`: the decoder walking the method bytes back
  undoes the encoder's chain, one stage at a time, for every chain of codecs
  that round-trip through `get`.
* `decompress_compress`: a chain of 1 to 255 such codecs decodes every block it
  encodes to its source.
* `decompress_compress_count_wraps`: a chain whose length is a multiple of 256
  writes the count byte `0`, and its own decoder rejects every block it
  encodes; 256 one-byte `Delta`s, each of which round-trips, encode every
  source.
-/

namespace Daisy.Compression.CompressionCodecMultiple

open Daisy.IO Daisy.Library

variable {σ : Type}

/-- `getMaxCompressedDataSize(uncompressed_size)`: the reserve of each codec of
the chain over the one before it, after the count and the method bytes. -/
def getMaxCompressedDataSize (codecs : List (Codec σ)) (uncompressedSize : UInt32) (s : σ) : UInt32 × σ :=
  let (compressedSize, s) :=
    codecs.foldl (fun (size, s) codec => codec.getCompressedReserveSize size s) (uncompressedSize, s)
  (1 + codecs.length.toUInt32 + compressedSize, s)

/-- The loop of `doCompressData` over `codecs`, from the bytes
`uncompressed_buf` holds: what it holds after the last stage. -/
def compressStages : List (Codec σ) → List UInt8 → σ → Except CodecError (List UInt8) × σ
  | [], buf, s => (.ok buf, s)
  | codec :: codecs, buf, s =>
    let (reserveSize, s) := codec.getCompressedReserveSize buf.length.toUInt32 s
    match codec.compress buf s with
    | (.error e, s) => (.error e, s)
    | (.ok (written, sizeCompressed), s) =>
      -- `compressed_buf` holds `reserveSize` bytes; the next stage reads `size_compressed` of them
      if reserveSize.toNat < written.length ∨ written.length < sizeCompressed.toNat then (.error .undefined, s)
      else compressStages codecs (written.take sizeCompressed.toNat) s

/-- `doCompressData(source, source_size, dest)`: the count of codecs as one
byte, their method bytes, and what the chain makes of the source; it returns
`1 + codecs.size() + source_size`. -/
def doCompressData (codecs : List (Codec σ)) (source : List UInt8) (s : σ) :
    Except CodecError (List UInt8 × UInt32) × σ :=
  let (r, s) := compressStages codecs source s
  (r.map fun data => (codecs.length.toUInt8 :: codecs.map (·.methodByte) ++ data,
    1 + codecs.length.toUInt32 + data.length.toUInt32), s)

/-- The loop of `doDecompressData` over the method bytes from the last, from
the bytes `compressed_buf` holds: what it holds after the first. -/
def decompressStages (get : UInt8 → Except CodecError (Codec σ)) (decompressedSize : UInt32) :
    List UInt8 → List UInt8 → Except CodecError (List UInt8)
  | [], buf => pure buf
  | compressionMethod :: methods, buf => do
    let codec ← get compressionMethod
    -- `readDecompressedBlockSize` reads past a buffer shorter than a header
    if buf.length < headerSize.toNat then throw .undefined
    let uncompressedSize := readDecompressedBlockSize buf
    if methods = [] ∧ uncompressedSize ≠ decompressedSize then
      throw (.wrongFinalDecompressedSize uncompressedSize decompressedSize)
    let (_, dest) ← codec.decompress buf
    -- `uncompressed_buf` holds `uncompressed_size` bytes
    if dest.length ≠ uncompressedSize.toNat then throw .undefined
    decompressStages get decompressedSize methods dest

/-- `doDecompressData(source, source_size, dest, decompressed_size)`. -/
def doDecompressData (get : UInt8 → Except CodecError (Codec σ)) (source : List UInt8) (decompressedSize : UInt32) :
    Except CodecError (List UInt8) := do
  if source.length < 1 ∨ source.headD 0 = 0 then throw .wrongCompressionMethodsList
  let compressionMethodsSize := (source.headD 0).toNat
  -- `compressed_buf` is copied from `&source[compression_methods_size + 1]` to the end
  if source.length < compressionMethodsSize + 1 then throw .undefined
  decompressStages get decompressedSize ((source.drop 1).take compressionMethodsSize).reverse
    (source.drop (compressionMethodsSize + 1))

/-- `CompressionCodecMultiple(codecs)`, whose decoder re-creates codecs by `get`. -/
def make (get : UInt8 → Except CodecError (Codec σ)) (codecs : List (Codec σ)) : Codec σ where
  methodByte := 0x91
  getMaxCompressedDataSize := getMaxCompressedDataSize codecs
  doCompressData := doCompressData codecs
  doDecompressData := doDecompressData get

/-! ### The chain stage by stage -/

/-- What a chain that succeeds did at its first stage: the codec wrote within
its reserve and returned no more than it wrote. -/
theorem compressStages_cons_eq_ok {codec : Codec σ} {codecs : List (Codec σ)} {buf out : List UInt8} {s s' : σ}
    (h : compressStages (codec :: codecs) buf s = (.ok out, s')) :
    ∃ written size s₂, codec.compress buf (codec.getCompressedReserveSize buf.length.toUInt32 s).2 =
        (.ok (written, size), s₂) ∧
      written.length ≤ (codec.getCompressedReserveSize buf.length.toUInt32 s).1.toNat ∧
      size.toNat ≤ written.length ∧ compressStages codecs (written.take size.toNat) s₂ = (.ok out, s') := by
  rcases hreserve : codec.getCompressedReserveSize buf.length.toUInt32 s with ⟨reserveSize, s₁⟩
  rcases hc : codec.compress buf s₁ with ⟨r, s₂⟩
  simp only [compressStages, hreserve, hc] at h
  cases r with
  | error e => cases h
  | ok p =>
    obtain ⟨written, size⟩ := p
    simp only at h
    split_ifs at h with hbad
    · cases h
    · obtain ⟨hreserve, hsize⟩ := not_or.mp hbad
      exact ⟨written, size, s₂, rfl, Nat.le_of_not_lt hreserve, Nat.le_of_not_lt hsize, h⟩

/-- A first stage that writes within its reserve and returns no more than it
wrote hands the rest of the chain what it returned. -/
theorem compressStages_cons_of_ok {codec : Codec σ} (codecs : List (Codec σ)) {buf written : List UInt8}
    {s s₂ : σ} {size : UInt32}
    (hc : codec.compress buf (codec.getCompressedReserveSize buf.length.toUInt32 s).2 = (.ok (written, size), s₂))
    (hreserve : written.length ≤ (codec.getCompressedReserveSize buf.length.toUInt32 s).1.toNat)
    (hsize : size.toNat ≤ written.length) :
    compressStages (codec :: codecs) buf s = compressStages codecs (written.take size.toNat) s₂ := by
  simp only [compressStages, hc]
  rw [if_neg (by omega)]

/-- `codec` round-trips through the factory `get`: the codec `get` re-creates
from its method byte decodes the `size` bytes of every block `codec` writes to
the source, at the source's size. -/
def RoundTrips (get : UInt8 → Except CodecError (Codec σ)) (codec : Codec σ) : Prop :=
  ∀ source s written size s', codec.compress source s = (.ok (written, size), s') → written.length < 2 ^ 32 →
    ∃ codec', get codec.methodByte = .ok codec' ∧
      codec'.decompress (written.take size.toNat) = .ok (source.length.toUInt32, source)

/-- One stage of the decoder undoes one stage of the encoder: what is left to
decode after it is decoded from what the stage encoded. At the first stage of
the chain (`pre = []`) the size the stage declares is the one checked against
the block's. -/
theorem decompressStages_stage {get : UInt8 → Except CodecError (Codec σ)} {decompressedSize : UInt32}
    {codec : Codec σ} (hround : RoundTrips get codec) {buf written : List UInt8} {s s' : σ} {size : UInt32}
    (h : codec.compress buf s = (.ok (written, size), s')) (hwritten : written.length < 2 ^ 32)
    (hbuf : buf.length < 2 ^ 32) {pre : List UInt8} (hfinal : pre = [] → buf.length.toUInt32 = decompressedSize) :
    decompressStages get decompressedSize (codec.methodByte :: pre) (written.take size.toNat) =
      decompressStages get decompressedSize pre buf := by
  obtain ⟨codec', hget, hdecompress⟩ := hround buf s written size s' h hwritten
  obtain ⟨hheader, hsize⟩ := Codec.decompress_eq_ok hdecompress
  have hlength : buf.length = buf.length.toUInt32.toNat := by simp; omega
  rw [decompressStages, hget, ok_bind, if_neg (Nat.not_lt.mpr hheader), ← hsize,
    if_neg (fun ⟨hpre, hne⟩ => hne (hfinal hpre))]
  simp only [hdecompress, ok_bind, ← hlength, ne_eq, not_true_eq_false, if_false]

/-- **The decoder undoes the chain.** For every chain of codecs that round-trip
through `get`, the decoder walking their method bytes back from what the chain
makes of a buffer comes to that buffer, with the same methods `pre` still to
decode; induction on the chain, the first stage decoded last. -/
theorem decompressStages_compressStages {get : UInt8 → Except CodecError (Codec σ)} {decompressedSize : UInt32}
    {codecs : List (Codec σ)} (hround : ∀ c ∈ codecs, RoundTrips get c) {buf out : List UInt8} {s s' : σ}
    {pre : List UInt8} (hbuf : buf.length < 2 ^ 32) (hfinal : pre = [] → buf.length.toUInt32 = decompressedSize)
    (h : compressStages codecs buf s = (.ok out, s')) :
    decompressStages get decompressedSize ((codecs.map (·.methodByte)).reverse ++ pre) out =
      decompressStages get decompressedSize pre buf := by
  induction codecs generalizing buf s pre with
  | nil =>
    simp only [compressStages, Prod.mk.injEq, Except.ok.injEq] at h
    rw [← h.1]
    rfl
  | cons codec codecs ih =>
    obtain ⟨written, size, s₂, hc, hreserve, -, hrest⟩ := compressStages_cons_eq_ok h
    have hwritten : written.length < 2 ^ 32 := Nat.lt_of_le_of_lt hreserve (UInt32.toNat_lt _)
    have htake : (written.take size.toNat).length < 2 ^ 32 :=
      Nat.lt_of_le_of_lt (List.length_take_le' _ _) hwritten
    -- the stages after the first decode first, down to what the first encoded
    rw [List.map_cons, List.reverse_cons, List.append_assoc, List.singleton_append,
      ih (fun c hc => hround c (List.mem_cons_of_mem _ hc)) htake (fun hnil => absurd hnil (List.cons_ne_nil _ _)) hrest,
      decompressStages_stage (hround codec List.mem_cons_self) hc hwritten hbuf hfinal]

/-! ### The whole block -/

/-- What `Multiple` writes: the header, the count byte, the method bytes and
what the chain makes of the source. -/
theorem compress_eq_ok {get : UInt8 → Except CodecError (Codec σ)} {codecs : List (Codec σ)}
    {source block : List UInt8} {s s' : σ} {size : UInt32}
    (h : (make get codecs).compress source s = (.ok (block, size), s')) :
    ∃ out, compressStages codecs source s = (.ok out, s') ∧
      block = 0x91 :: writeLE 4 ((1 + codecs.length.toUInt32 + out.length.toUInt32) + headerSize).toNat ++
        writeLE 4 source.length ++ (codecs.length.toUInt8 :: codecs.map (·.methodByte) ++ out) ∧
      size = headerSize + (1 + codecs.length.toUInt32 + out.length.toUInt32) := by
  obtain ⟨data, written, hdo, rfl, rfl⟩ := Codec.compress_eq_ok h
  simp only [make, doCompressData] at hdo
  rcases hstages : compressStages codecs source s with ⟨r, t⟩
  rw [hstages] at hdo
  cases r with
  | error e => cases hdo
  | ok out =>
    simp only [Except.map, Prod.mk.injEq, Except.ok.injEq] at hdo
    obtain ⟨⟨rfl, rfl⟩, rfl⟩ := hdo
    exact ⟨out, rfl, rfl, rfl⟩

/-- `Multiple` writes what the chain makes of the source after its header,
count and method bytes. -/
theorem compress_of_compressStages (get : UInt8 → Except CodecError (Codec σ)) {codecs : List (Codec σ)}
    {source out : List UInt8} {s s' : σ} (h : compressStages codecs source s = (.ok out, s')) :
    (make get codecs).compress source s =
      (.ok (0x91 :: writeLE 4 ((1 + codecs.length.toUInt32 + out.length.toUInt32) + headerSize).toNat ++
        writeLE 4 source.length ++ (codecs.length.toUInt8 :: codecs.map (·.methodByte) ++ out),
        headerSize + (1 + codecs.length.toUInt32 + out.length.toUInt32)), s') := by
  simp only [Codec.compress, make, doCompressData, h]
  rfl

theorem length_compress {codecs : List (Codec σ)} (source out : List UInt8) (compressedSize : UInt32) :
    (0x91 :: writeLE 4 compressedSize.toNat ++ writeLE 4 source.length ++
      (codecs.length.toUInt8 :: codecs.map (·.methodByte) ++ out)).length = 10 + codecs.length + out.length := by
  simp only [List.length_cons, List.length_append, length_writeLE, List.length_map]
  omega

/-- The size `compress` returns is that of the block when it fits. -/
theorem compress_size {codecs : List (Codec σ)} {out : List UInt8}
    (hsmall : 10 + codecs.length + out.length < 2 ^ 32) :
    (headerSize + (1 + codecs.length.toUInt32 + out.length.toUInt32)).toNat = 10 + codecs.length + out.length := by
  simp only [headerSize, UInt32.toNat_add, Nat.toUInt32_eq, UInt32.toNat_ofNat', UInt32.reduceToNat]
  omega

/-- A count byte of 1 to 255 has the decoder walk back the method bytes that
follow it. -/
theorem doDecompressData_of_count (get : UInt8 → Except CodecError (Codec σ)) {codecs : List (Codec σ)}
    (hne : codecs ≠ []) (hcount : codecs.length < 256) (out : List UInt8) (decompressedSize : UInt32) :
    doDecompressData get (codecs.length.toUInt8 :: codecs.map (·.methodByte) ++ out) decompressedSize =
      decompressStages get decompressedSize (codecs.map (·.methodByte)).reverse out := by
  have hbyte : codecs.length.toUInt8.toNat = codecs.length := by simp; omega
  have hpos : 0 < codecs.length := List.length_pos_iff.mpr hne
  have hnonzero : codecs.length.toUInt8 ≠ 0 := fun h => by rw [h] at hbyte; simp at hbyte; omega
  have hmethods : (codecs.map (·.methodByte)).length = codecs.length := List.length_map _
  rw [doDecompressData, List.cons_append]
  simp only [List.headD_cons, List.length_cons, List.length_append, hbyte, hmethods]
  rw [if_neg (by simp [hnonzero]), if_neg (by omega), List.drop_one, List.tail_cons, List.take_left' hmethods,
    List.drop_succ_cons, List.drop_left' hmethods]

/-- A count byte of `0` is a "Wrong compression methods list". -/
theorem doDecompressData_count_zero (get : UInt8 → Except CodecError (Codec σ)) (rest : List UInt8)
    (decompressedSize : UInt32) : doDecompressData get (0 :: rest) decompressedSize = .error .wrongCompressionMethodsList := by
  simp [doDecompressData]
  rfl

/-- **A chain of 1 to 255 codecs decodes what it encodes.** For every chain of
codecs that round-trip through `get` and every source whose size and block fit
a `UInt32`, `compress` returns the size of the block it writes, and
`decompress` of the block gives the source back. -/
theorem decompress_compress {get : UInt8 → Except CodecError (Codec σ)} {codecs : List (Codec σ)}
    (hround : ∀ c ∈ codecs, RoundTrips get c) (hne : codecs ≠ []) (hcount : codecs.length < 256)
    {source block : List UInt8} {s s' : σ} {size : UInt32}
    (h : (make get codecs).compress source s = (.ok (block, size), s')) (hsource : source.length < 2 ^ 32)
    (hblock : block.length < 2 ^ 32) :
    size.toNat = block.length ∧ (make get codecs).decompress block = .ok (source.length.toUInt32, source) := by
  obtain ⟨out, hstages, rfl, rfl⟩ := compress_eq_ok h
  rw [length_compress] at hblock ⊢
  refine ⟨compress_size hblock, ?_⟩
  have hchain : decompressStages get source.length.toUInt32 ((codecs.map (·.methodByte)).reverse ++ []) out =
      decompressStages get source.length.toUInt32 [] source :=
    decompressStages_compressStages hround hsource (fun _ => rfl) hstages
  rw [show (0x91 : UInt8) = (make get codecs).methodByte from rfl, Codec.decompress_header_length _ _ hsource]
  simp only [make]
  rw [doDecompressData_of_count get hne hcount, ← List.append_nil (List.reverse _), hchain]
  rfl

/-- **A chain of a multiple of 256 codecs rejects its own blocks.** The count
`static_cast<UInt8>(codecs.size())` is `0`, and `decompress` throws "Wrong
compression methods list" for every block the chain writes. -/
theorem decompress_compress_count_wraps (get : UInt8 → Except CodecError (Codec σ)) {codecs : List (Codec σ)}
    (hcount : codecs.length % 256 = 0) {source block : List UInt8} {s s' : σ} {size : UInt32}
    (h : (make get codecs).compress source s = (.ok (block, size), s')) (hsource : source.length < 2 ^ 32)
    (hblock : block.length < 2 ^ 32) :
    size.toNat = block.length ∧ (make get codecs).decompress block = .error .wrongCompressionMethodsList := by
  obtain ⟨out, -, rfl, rfl⟩ := compress_eq_ok h
  rw [length_compress] at hblock ⊢
  refine ⟨compress_size hblock, ?_⟩
  have hbyte : codecs.length.toUInt8 = 0 := by
    apply UInt8.toNat_inj.mp
    simp
    omega
  rw [show (0x91 : UInt8) = (make get codecs).methodByte from rfl, Codec.decompress_header_length _ _ hsource]
  simp only [make]
  rw [hbyte, List.cons_append, doDecompressData_count_zero]
  rfl

/-! ### A chain of `Delta`s -/

/-- Every `Delta` round-trips through a factory that re-creates a `Delta` from
its method byte, whatever width it is created with. -/
theorem roundTrips_delta {get : UInt8 → Except CodecError (Codec Unit)} {w' : DataBytesSize}
    (hget : get 0x92 = .ok (CompressionCodecDelta.make w')) (w : DataBytesSize) :
    RoundTrips get (CompressionCodecDelta.make w) := by
  intro source s written size s' h hwritten
  obtain ⟨block, hlength, hc, hd⟩ := CompressionCodecDelta.decompress_compress w w' source
  rw [hc] at h
  simp only [Prod.mk.injEq, Except.ok.injEq] at h
  obtain ⟨⟨rfl, rfl⟩, -⟩ := h
  have hsize : (source.length + 11).toUInt32.toNat = block.length := by simp; omega
  exact ⟨CompressionCodecDelta.make w', hget, by rw [hsize, List.take_length]; exact hd (by omega)⟩

/-- A chain of `Delta`s encodes every buffer, each stage writing 11 bytes more
than it is given, within its reserve. -/
theorem compressStages_deltas : ∀ (ws : List DataBytesSize) (buf : List UInt8), buf.length + 11 * ws.length < 2 ^ 32 →
    ∃ out, out.length = buf.length + 11 * ws.length ∧
      compressStages (ws.map CompressionCodecDelta.make) buf () = (.ok out, ())
  | [], buf, _ => ⟨buf, rfl, rfl⟩
  | w :: ws, buf, hsmall => by
    rw [List.length_cons] at hsmall
    obtain ⟨block, hlength, hc, -⟩ := CompressionCodecDelta.decompress_compress w w buf
    have hreserve : ((CompressionCodecDelta.make w).getCompressedReserveSize buf.length.toUInt32 ()).1.toNat =
        buf.length + 11 := by
      simp only [Codec.getCompressedReserveSize, CompressionCodecDelta.make,
        CompressionCodecDelta.getMaxCompressedDataSize, headerSize, UInt32.toNat_add, Nat.toUInt32_eq,
        UInt32.toNat_ofNat', UInt32.reduceToNat]
      omega
    have hsize : (buf.length + 11).toUInt32.toNat = block.length := by simp; omega
    obtain ⟨out, hout, hrest⟩ := compressStages_deltas ws block (by omega)
    refine ⟨out, by rw [List.length_cons]; omega, ?_⟩
    rw [List.map_cons, compressStages_cons_of_ok _ hc (by omega) (by omega), hsize, List.take_length, hrest]

theorem deltas_of_256_reject_own_blocks {get : UInt8 → Except CodecError (Codec Unit)} {w' : DataBytesSize}
    (hget : get 0x92 = .ok (CompressionCodecDelta.make w')) (ws : List DataBytesSize) (hcount : ws.length = 256)
    (source : List UInt8) (hsmall : source.length + 11 * 256 + 266 < 2 ^ 32) :
    (∀ c ∈ ws.map CompressionCodecDelta.make, RoundTrips get c) ∧
      ∃ block, (make get (ws.map CompressionCodecDelta.make)).compress source () =
          (.ok (block, block.length.toUInt32), ()) ∧
        (make get (ws.map CompressionCodecDelta.make)).decompress block = .error .wrongCompressionMethodsList := by
  refine ⟨fun c hc => ?_, ?_⟩
  · obtain ⟨w, -, rfl⟩ := List.mem_map.mp hc
    exact roundTrips_delta hget w
  · obtain ⟨out, hout, hstages⟩ := compressStages_deltas ws source (by omega)
    have hcompress := compress_of_compressStages get hstages
    have hmap : (ws.map CompressionCodecDelta.make).length = 256 := by rw [List.length_map, hcount]
    obtain ⟨hsize, hdecompress⟩ := decompress_compress_count_wraps get (by rw [hmap]) hcompress (by omega)
      (by rw [length_compress, hmap, hout]; omega)
    refine ⟨_, ?_, hdecompress⟩
    rw [hcompress, ← hsize]
    simp only [Nat.toUInt32_eq, UInt32.ofNat_toNat]

theorem deltas_of_256_reject_own_blocks_one_byte :
    (∀ c ∈ (List.replicate 256 (⟨1, by decide⟩ : DataBytesSize)).map CompressionCodecDelta.make,
        RoundTrips (fun b => if b = 0x92 then .ok (CompressionCodecDelta.make ⟨1, by decide⟩)
          else .error (.unknownCodecFamilyCode b)) c) ∧
      ∃ block, (make (fun b => if b = 0x92 then .ok (CompressionCodecDelta.make ⟨1, by decide⟩)
          else .error (.unknownCodecFamilyCode b)) ((List.replicate 256 ⟨1, by decide⟩).map CompressionCodecDelta.make)).compress
            [7] () = (.ok (block, block.length.toUInt32), ()) ∧
        (make (fun b => if b = 0x92 then .ok (CompressionCodecDelta.make ⟨1, by decide⟩)
          else .error (.unknownCodecFamilyCode b)) ((List.replicate 256 ⟨1, by decide⟩).map CompressionCodecDelta.make)).decompress
            block = .error .wrongCompressionMethodsList :=
  deltas_of_256_reject_own_blocks (if_pos rfl) _ (List.length_replicate) [7] (by decide)

end Daisy.Compression.CompressionCodecMultiple
