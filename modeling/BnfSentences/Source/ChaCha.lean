import BnfSentences.Source.Basic
import BnfSentences.Text.Basic

/-!
# ChaCha with twelve rounds

The keystream of ChaCha12 as a source: the sixteen words of block 0, then those
of block 1, and so on, for a key of 32 octets and a nonce of zero. `Key.ofSeed`
spreads a 64-bit seed over a key.
-/

namespace BnfSentences.ChaCha

abbrev State := Vector UInt32 16

abbrev Key := Vector UInt32 8

def rotateLeft (w : UInt32) (n : UInt32) : UInt32 :=
  (w <<< n) ||| (w >>> (32 - n))

def rotateRight (w : UInt32) (n : UInt32) : UInt32 :=
  (w >>> n) ||| (w <<< (32 - n))

/-! ### Blocks -/

/-- Half of a quarter round: three words mixed, the third one turned by `n` bits. -/
def mix (s : State) (a b d : Fin 16) (n : UInt32) : State :=
  let s := s.set a (s[a] + s[b])
  s.set d (rotateLeft (s[d] ^^^ s[a]) n)

def quarterRound (s : State) (a b c d : Fin 16) : State :=
  mix (mix (mix (mix s a b d 16) c d b 12) a b d 8) c d b 7

def doubleRound (s : State) : State :=
  let s := quarterRound s 0 4 8 12
  let s := quarterRound s 1 5 9 13
  let s := quarterRound s 2 6 10 14
  let s := quarterRound s 3 7 11 15
  let s := quarterRound s 0 5 10 15
  let s := quarterRound s 1 6 11 12
  let s := quarterRound s 2 7 8 13
  quarterRound s 3 4 9 14

/-- The state before the first round: constants, key, block number and nonce. -/
def initial (key : Key) (number : UInt64) : State :=
  #v[0x61707865, 0x3320646e, 0x79622d32, 0x6b206574,
    key[0], key[1], key[2], key[3], key[4], key[5], key[6], key[7],
    number.toUInt32, (number >>> 32).toUInt32, 0, 0]

def block (key : Key) (number : UInt64) : State :=
  let s := initial key number
  (Nat.repeat doubleRound 6 s).zipWith (· + ·) s

/-! ### Keys -/

/-- Octets as words of four, the lowest octet first; up to three octets are left over. -/
def wordsOfBytes : Bytes → List UInt32
  | a :: b :: c :: d :: rest =>
    (a.toUInt32 ||| b.toUInt32 <<< 8 ||| c.toUInt32 <<< 16 ||| d.toUInt32 <<< 24) ::
      wordsOfBytes rest
  | _ => []

def Key.ofBytes? (bs : Bytes) : Option Key :=
  if h : (wordsOfBytes bs).toArray.size = 8 then some ⟨(wordsOfBytes bs).toArray, h⟩ else none

def advance (s : UInt64) : UInt64 :=
  s * 6364136223846793005 + 11634580027462260723

/-- The word that a state of that generator gives: its high bits folded, then
turned by its highest five bits. -/
def output (s : UInt64) : UInt32 :=
  rotateRight (((s >>> 18) ^^^ s) >>> 27).toUInt32 (s >>> 59).toUInt32

/-- The key that a seed stands for: one word after each of eight steps. -/
def Key.ofSeed (seed : UInt64) : Key :=
  Vector.ofFn fun i => output (Nat.repeat advance (i + 1) seed)

end BnfSentences.ChaCha

namespace BnfSentences

/-- A keystream under way: the number of the next block, and the words left of
the last one. -/
structure ChaCha where
  key : ChaCha.Key
  number : UInt64
  left : List UInt32

instance : Source ChaCha where
  next s :=
    match s.left with
    | w :: ws => (w, { s with left := ws })
    | [] =>
      let b := ChaCha.block s.key s.number
      (b[0], { s with number := s.number + 1, left := b.toList.tail })

namespace ChaCha

def ofKey (key : Key) : ChaCha :=
  ⟨key, 0, []⟩

def ofSeed (seed : UInt64) : ChaCha :=
  ofKey (Key.ofSeed seed)

end ChaCha

end BnfSentences
