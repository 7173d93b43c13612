import BasedOp.Computation.ByteWords
import Mathlib.Data.Nat.Log
import Mathlib.Data.List.Defs

/-!
# Merkle roots of SSZ values

The hash tree root of a container over any compression function: its fields are packed into
chunks of 32 bytes, the chunks are the first leaves of a tree as deep as their limit needs,
lists have their length mixed in, and a union its selector. The subtrees without a chunk are
not built; their roots are those of zero chunks.
-/

set_option autoImplicit false

namespace BasedOp.Computation.Ssz

/-- A field as the hasher sees it: of a fixed size, a list of bytes with the limit of its
length, or a list of such lists. -/
inductive Field where
  | fixed (bytes : List UInt8)
  | byteList (limit : ℕ) (bytes : List UInt8)
  | byteLists (limit itemLimit : ℕ) (items : List (List UInt8))
deriving DecidableEq

def zeroChunk : List UInt8 := List.replicate 32 0

/-- The chunks of some bytes; the last one is filled up with zeros. -/
def pack (bytes : List UInt8) : List (List UInt8) :=
  (bytes.toChunks 32).map fun chunk => chunk.rightpad 32 0

section

variable (sha : List UInt8 → List UInt8)

/-- The root of a tree whose leaves are zero chunks. -/
def zeroRoot : ℕ → List UInt8
  | 0 => zeroChunk
  | depth + 1 => sha (zeroRoot depth ++ zeroRoot depth)

/-- The root of a tree of the given depth with the chunks as its first leaves. -/
def merkleRoot : ℕ → List (List UInt8) → List UInt8
  | 0, chunks => chunks.headD zeroChunk
  | depth + 1, [] => zeroRoot sha (depth + 1)
  | depth + 1, chunks =>
    sha (merkleRoot depth (chunks.take (2 ^ depth)) ++ merkleRoot depth (chunks.drop (2 ^ depth)))

def merkleize (limit : ℕ) (chunks : List (List UInt8)) : List UInt8 :=
  merkleRoot sha (Nat.clog 2 limit) chunks

def mixInLength (root : List UInt8) (length : ℕ) : List UInt8 := sha (root ++ leBytes 32 length)

def mixInSelector (root : List UInt8) (selector : UInt8) : List UInt8 :=
  sha (root ++ [selector].rightpad 32 0)

def byteListRoot (limit : ℕ) (bytes : List UInt8) : List UInt8 :=
  mixInLength sha (merkleize sha ((limit + 31) / 32) (pack bytes)) bytes.length

def Field.root : Field → List UInt8
  | fixed bytes => merkleize sha (pack bytes).length (pack bytes)
  | byteList limit bytes => byteListRoot sha limit bytes
  | byteLists limit itemLimit items =>
    mixInLength sha (merkleize sha limit (items.map (byteListRoot sha itemLimit))) items.length

def containerRoot (fields : List Field) : List UInt8 :=
  merkleize sha fields.length (fields.map (Field.root sha))

end

end BasedOp.Computation.Ssz
