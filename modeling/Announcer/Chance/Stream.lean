/-! # The word stream of a key

A key of eight words gives an endless stream of words. The stream comes in blocks of sixteen;
block `n` is the twelve-round ChaCha permutation of the constants, the key and the counter `n`,
added to what it started from. The counter has 64 bits, so the stream repeats after `2 ^ 68` words.
-/
namespace Announcer.Chance

abbrev Block := Vector UInt32 16

abbrev Key := Vector UInt32 8

def rotateLeft (x : UInt32) (n : UInt32) : UInt32 := (x <<< n) ||| (x >>> (32 - n))

def quarterRound (a b c d : Fin 16) (v : Block) : Block :=
  let v := v.set a (v[a] + v[b])
  let v := v.set d (rotateLeft (v[d] ^^^ v[a]) 16)
  let v := v.set c (v[c] + v[d])
  let v := v.set b (rotateLeft (v[b] ^^^ v[c]) 12)
  let v := v.set a (v[a] + v[b])
  let v := v.set d (rotateLeft (v[d] ^^^ v[a]) 8)
  let v := v.set c (v[c] + v[d])
  v.set b (rotateLeft (v[b] ^^^ v[c]) 7)

def doubleRound (v : Block) : Block :=
  let v := quarterRound 0 4 8 12 v
  let v := quarterRound 1 5 9 13 v
  let v := quarterRound 2 6 10 14 v
  let v := quarterRound 3 7 11 15 v
  let v := quarterRound 0 5 10 15 v
  let v := quarterRound 1 6 11 12 v
  let v := quarterRound 2 7 8 13 v
  quarterRound 3 4 9 14 v

def startBlock (key : Key) (counter : Nat) : Block :=
  #v[0x61707865, 0x3320646e, 0x79622d32, 0x6b206574,
    key[0], key[1], key[2], key[3], key[4], key[5], key[6], key[7],
    UInt32.ofNat counter, UInt32.ofNat (counter / Nat.pow 2 32), 0, 0]

def block (key : Key) (counter : Nat) : Block :=
  let start := startBlock key counter
  let mixed := doubleRound (doubleRound (doubleRound
    (doubleRound (doubleRound (doubleRound start)))))
  mixed.zipWith (· + ·) start

def word (key : Key) (position : Nat) : UInt32 :=
  (block key (position / 16))[position % 16]

end Announcer.Chance
