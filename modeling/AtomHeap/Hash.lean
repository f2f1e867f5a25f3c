import AtomHeap.Config
import AtomHeap.Fault
/-!
# Hashing

The hash of a byte string, and the hash chain that it selects. `Hash.ofBytes` mixes the bytes into
two words (`digest`), adds the digest and the length to a running word (`absorb`), rotates it, and
passes it through a finalizer (`avalanche`) under which each bit depends on all others. `Hash.fold`
folds the high bits of a hash into as many low bits as there are chains for.
-/

namespace AtomHeap.Hash

def seed₀ : UInt64 := 0x243f6a8885a308d3

def seed₁ : UInt64 := 0x13198a2e03707344

/-- Keeps a block of zero bytes from wiping out the state. -/
def whitener : UInt64 := 0xa4093822299f31d0

/-- The odd factor that spreads each absorbed word. -/
def factor : UInt64 := 0xf1357aea2e62a9c5

/-- The two halves of the 128-bit product of two words, combined. -/
def mix (a b : UInt64) : UInt64 :=
  let p := a.toNat * b.toNat
  .ofNat p ^^^ .ofNat (p / UInt64.size)

/-- The number whose little-endian bytes these are. -/
def littleEndian (bytes : List UInt8) : UInt64 :=
  bytes.foldr (fun b n => n <<< 8 ||| b.toUInt64) 0

/-- Mixes in `n` blocks of 16 bytes, each taken from the front of the rest. -/
def mixBlocks : Nat → UInt64 × UInt64 → List UInt8 → UInt64 × UInt64
  | 0, s, _ => s
  | n + 1, (s₀, s₁), rest =>
    let t := mix (s₀ ^^^ littleEndian (rest.take 8))
      (whitener ^^^ littleEndian ((rest.drop 8).take 8))
    mixBlocks n (s₁, t) (rest.drop 16)

/-- The two mixing words after all bytes. Up to 16 bytes go in at once, the two ends overlapping;
a longer string goes in by blocks of 16, with its last 16 bytes once more at the end. -/
def state (bytes : List UInt8) (length : Nat) : UInt64 × UInt64 :=
  if length > 16 then
    let (s₀, s₁) := mixBlocks ((length - 1) / 16) (seed₀, seed₁) bytes
    let last := bytes.drop (length - 16)
    (s₀ ^^^ littleEndian (last.take 8), s₁ ^^^ littleEndian (last.drop 8))
  else if length ≥ 8 then
    (seed₀ ^^^ littleEndian (bytes.take 8), seed₁ ^^^ littleEndian (bytes.drop (length - 8)))
  else if length ≥ 4 then
    (seed₀ ^^^ littleEndian (bytes.take 4), seed₁ ^^^ littleEndian (bytes.drop (length - 4)))
  else if length > 0 then
    (seed₀ ^^^ littleEndian (bytes.take 1),
      seed₁ ^^^ littleEndian [bytes.getD (length / 2) 0, bytes.getD (length - 1) 0])
  else (seed₀, seed₁)

def digest (bytes : List UInt8) : UInt64 :=
  let (s₀, s₁) := state bytes bytes.length
  mix s₀ s₁ ^^^ .ofNat bytes.length

def absorb (h word : UInt64) : UInt64 := (h + word) * factor

def rotate (h : UInt64) : UInt64 := h <<< 26 ||| h >>> 38

/-- The hash before the finalizer: the digest and then the length are absorbed. -/
def raw (bytes : List UInt8) : UInt64 :=
  rotate (absorb (absorb 0 (digest bytes)) (.ofNat bytes.length))

/-- The high half of a word combined into its low half. -/
def shiftIn (h : UInt64) : UInt64 := h ^^^ h >>> 33

/-- A permutation of the words under which every bit of the result depends on every bit of `h`. -/
def avalanche (h : UInt64) : UInt64 :=
  shiftIn (shiftIn (shiftIn h * 0xff51afd7ed558ccd) * 0xc4ceb9fe1a85ec53)

def ofBytes (bytes : List UInt8) : UInt64 := avalanche (raw bytes)

/-- The chain of a hash among `2 ^ k` chains: its low `k` bits, combined with those above them. -/
def fold (h : UInt64) (k : Nat) : Nat := (h.toNat ^^^ h.toNat >>> k) % (1 <<< k)

/-- The chain of a hash among `n` chains, where `n` has to be a power of two. -/
def chain (h : UInt64) (n : Nat) : Except Fault Nat :=
  if isPowerOfTwo n then .ok (fold h n.log2) else .error .brokenContract

theorem fold_lt (h : UInt64) (k : Nat) : fold h k < 1 <<< k :=
  Nat.mod_lt _ (Nat.one_shiftLeft k ▸ Nat.two_pow_pos k)

end AtomHeap.Hash
