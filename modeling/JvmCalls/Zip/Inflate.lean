import JvmCalls.Zip.Huffman

/-!
# Inflating

Compressed data is a sequence of blocks.  A block holds bytes as they stand or
a sequence of literals and of copies from the bytes before, by codes that are
fixed or described at the head of the block.  A copy may reach back before the
first byte, where it finds zeros.
-/

namespace JvmCalls.Inflate

/-- The least copy length of each length symbol and its count of extra bits. -/
def lengthTable : Array (Nat × Nat) :=
  #[(3, 0), (4, 0), (5, 0), (6, 0), (7, 0), (8, 0), (9, 0), (10, 0), (11, 1), (13, 1),
    (15, 1), (17, 1), (19, 2), (23, 2), (27, 2), (31, 2), (35, 3), (43, 3), (51, 3), (59, 3),
    (67, 4), (83, 4), (99, 4), (115, 4), (131, 5), (163, 5), (195, 5), (227, 5), (258, 0)]

def distanceTable : Array (Nat × Nat) :=
  #[(1, 0), (2, 0), (3, 0), (4, 0), (5, 1), (7, 1), (9, 2), (13, 2), (17, 3), (25, 3),
    (33, 4), (49, 4), (65, 5), (97, 5), (129, 6), (193, 6), (257, 7), (385, 7), (513, 8),
    (769, 8), (1025, 9), (1537, 9), (2049, 10), (3073, 10), (4097, 11), (6145, 11),
    (8193, 12), (12289, 12), (16385, 13), (24577, 13)]

/-- The order in which a block describes the code of its code lengths. -/
def lengthOrder : List Nat :=
  [16, 17, 18, 0, 8, 7, 9, 6, 10, 5, 11, 4, 12, 3, 13, 2, 14, 1, 15]

/-- Appends `count` bytes, each equal to the one `distance` before it. -/
def copy (distance : Nat) : (count : Nat) → (output : Array UInt8) → Array UInt8
  | 0, output => output
  | count + 1, output =>
      let byte :=
        if distance ≤ output.size then output[output.size - distance]?.getD 0 else 0
      copy distance count (output.push byte)

/-- The value a table gives for a symbol, with the extra bits added. -/
def extended (table : Array (Nat × Nat)) (symbol : Nat) : BitDecoder Nat := do
  let (least, extra) ← (table[symbol]? : Option (Nat × Nat))
  return least + (← BitReader.bits extra)

/-- Reads literals and copies up to the end of a block.  Each of them takes at
least one bit, so `fuel` only needs to be a bound on the bits that are left. -/
def inflateSymbols (literals distances : Huffman) : (fuel : Nat) → (output : Array UInt8) →
    BitDecoder (Array UInt8)
  | 0, _ => failure
  | fuel + 1, output => do
      let symbol ← literals.decode
      if symbol < 256 then
        inflateSymbols literals distances fuel (output.push (UInt8.ofNat symbol))
      else if symbol = 256 then
        return output
      else
        let count ← extended lengthTable (symbol - 257)
        let distance ← extended distanceTable (← distances.decode)
        inflateSymbols literals distances fuel (copy distance count output)

/-- Reads a block of bytes as they stand: their count, its complement, and the
bytes from the next byte boundary on. -/
def inflateStored (output : Array UInt8) : BitDecoder (Array UInt8) := do
  BitReader.align
  let count ← BitReader.bits 16
  let complement ← BitReader.bits 16
  if count + complement = 0xFFFF then
    return output ++ (← BitReader.bytes count)
  else
    failure

def fixedLiteralLengths : List Nat :=
  List.replicate 144 8 ++ List.replicate 112 9 ++ List.replicate 24 7 ++ List.replicate 8 8

def fixedDistanceLengths : List Nat := List.replicate 32 5

/-- Reads the lengths of `missing` code words; `lengths` are those before, the
last one first. -/
def readLengths (code : Huffman) (missing : Nat) (lengths : List Nat) :
    (fuel : Nat) → BitDecoder (List Nat)
  | 0 => if missing = 0 then return lengths.reverse else failure
  | fuel + 1 =>
      if missing = 0 then
        return lengths.reverse
      else do
        let symbol ← code.decode
        if symbol < 16 then
          readLengths code (missing - 1) (symbol :: lengths) fuel
        else
          let (length, least, extra) ←
            match symbol, lengths with
            | 16, last :: _ => pure (last, 3, 2)
            | 17, _ => pure (0, 3, 3)
            | 18, _ => pure (0, 11, 7)
            | _, _ => failure
          let count := least + (← BitReader.bits extra)
          if count ≤ missing then
            readLengths code (missing - count) (List.replicate count length ++ lengths) fuel
          else
            failure

/-- Reads the codes at the head of a block: of literals and of distances. -/
def readCodes : BitDecoder (Huffman × Huffman) := do
  let literalCount := 257 + (← BitReader.bits 5)
  let distanceCount := 1 + (← BitReader.bits 5)
  let lengthCount := 4 + (← BitReader.bits 4)
  if 286 < literalCount || 30 < distanceCount then
    failure
  else
    let described ← (lengthOrder.take lengthCount).mapM (fun symbol => do
      return (symbol, ← BitReader.bits 3))
    let codeLengths := (List.range 19).map (fun symbol => (described.lookup symbol).getD 0)
    let code ← Huffman.ofLengths codeLengths
    let total := literalCount + distanceCount
    let lengths ← readLengths code total [] total
    let literals ← Huffman.ofLengths (lengths.take literalCount)
    let distances ← Huffman.ofLengths (lengths.drop literalCount)
    return (literals, distances)

def inflateBlock (kind : Nat) (fuel : Nat) (output : Array UInt8) : BitDecoder (Array UInt8) :=
  match kind with
  | 0 => inflateStored output
  | 1 => do
      let literals ← Huffman.ofLengths fixedLiteralLengths
      let distances ← Huffman.ofLengths fixedDistanceLengths
      inflateSymbols literals distances fuel output
  | 2 => do
      let (literals, distances) ← readCodes
      inflateSymbols literals distances fuel output
  | _ => failure

/-- Reads blocks up to the last one; `fuel` is a bound on the bits left. -/
def inflateBlocks (fuel : Nat) : (blocks : Nat) → (output : Array UInt8) →
    BitDecoder (Array UInt8)
  | 0, _ => failure
  | blocks + 1, output => do
      let final ← BitReader.bit
      let kind ← BitReader.bits 2
      let output ← inflateBlock kind fuel output
      if final = 1 then return output else inflateBlocks fuel blocks output

/-- The content of compressed data; none if the data is broken or ends too
early.  Bytes behind the last block are ignored. -/
def inflate (data : Bytes) : Option Bytes :=
  let reader := BitReader.ofBytes data
  let result := (inflateBlocks reader.bound reader.bound #[]).run reader
  result.map (fun final => final.1.toList)

end JvmCalls.Inflate
