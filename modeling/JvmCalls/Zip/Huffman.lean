import JvmCalls.Zip.BitReader

/-!
# Canonical codes

A canonical code is given by the length of the code word of each symbol: words
of one length are consecutive numbers in the order of their symbols, and
longer words start where the shorter ones end.
-/

namespace JvmCalls

/-- A canonical code. -/
structure Huffman where
  counts : List Nat
  symbols : Array Nat
  deriving DecidableEq, Repr

namespace Huffman

def maxLength : Nat := 15

def wordLengths : List Nat := List.range' 1 maxLength

/-- The count of words of the greatest length that start with a given word of
`length` bits. -/
def share (length : Nat) : Nat := 1 <<< (maxLength - length)

/-- The count of words of the greatest length that start with a code word, for
code words of the given lengths. -/
def space (lengths : List Nat) : Nat :=
  (lengths.filter (· != 0)).foldr (fun length total => share length + total) 0

/-- The code with the given length of the word of each symbol; a symbol of
length zero has no word.  The words must fill the code space exactly, except
that there may be none at all or a single word of one bit. -/
def ofLengths (lengths : List Nat) : Option Huffman :=
  let words := lengths.filter (· != 0)
  if space lengths = share 0 || words = [] || words = [1] then
    let indexed := lengths.zipIdx
    some {
      counts := wordLengths.map (fun length => lengths.count length)
      symbols := (wordLengths.flatMap (fun length =>
        (indexed.filter (fun entry => entry.1 == length)).map Prod.snd)).toArray }
  else
    none

/-- Compares the bits read so far, `word`, with the code words of each length
in turn: the first of them is `first`, and its symbol is at `index`. -/
def decodeFrom (symbols : Array Nat) : (counts : List Nat) → (word first index : Nat) →
    BitDecoder Nat
  | [], _, _, _ => failure
  | count :: counts, word, first, index => do
      let word := word + (← BitReader.bit)
      if word < first + count then
        symbols[index + (word - first)]?
      else
        decodeFrom symbols counts (2 * word) (2 * (first + count)) (index + count)

def decode (code : Huffman) : BitDecoder Nat :=
  decodeFrom code.symbols code.counts 0 0 0

end Huffman

end JvmCalls
