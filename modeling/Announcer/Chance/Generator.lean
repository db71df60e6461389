import Announcer.Chance.Choice
import Announcer.Chance.Stream

/-! # Seeded generators

A generator is a key and a place in the key's stream. Equal seeds give equal keys, and so the
same choices.
-/
namespace Announcer.Chance

structure Generator where
  key : Key
  position : Nat
deriving DecidableEq

namespace Generator

/-- One step of the congruential sequence that spreads a seed over a key. -/
def spread (state : UInt64) : UInt64 := state * 6364136223846793005 + 11634580027462260723

/-- The high bits of a state, folded and rotated by its topmost five bits. -/
def permute (state : UInt64) : UInt32 :=
  let folded := (((state >>> 18) ^^^ state) >>> 27).toUInt32
  let turn := (state >>> 59).toUInt32
  (folded >>> turn) ||| (folded <<< ((32 - turn) % 32))

def spreads : Nat → UInt64 → UInt64
  | 0, state => state
  | n + 1, state => spreads n (spread state)

def ofKey (key : Key) : Generator := ⟨key, 0⟩

def ofSeed (seed : UInt64) : Generator :=
  ofKey (Vector.ofFn fun i => permute (spreads (i.val + 1) seed))

def next (g : Generator) : UInt32 := word g.key g.position

/-- Two words, the low half first. -/
def draw (g : Generator) : UInt64 × Generator :=
  ((word g.key g.position).toUInt64 ||| ((word g.key (g.position + 1)).toUInt64 <<< 32),
    ⟨g.key, g.position + 2⟩)

/-- The alternative of the first accepted draw. -/
def pick (n : Nat) (h : 0 < n) : Nat → Generator → Fin n × Generator
  | 0, g => (⟨0, h⟩, g)
  | tries + 1, g =>
    let (v, rest) := g.draw
    if accepts n v.toNat then (⟨index n v.toNat, index_lt h v.toNat_lt⟩, rest)
    else pick n h tries rest

/-- The draws of one period of the stream: if none of them is accepted, no later one is. -/
def period : Nat := Nat.pow 2 67

instance : ChoiceSource Generator where
  choose n h g := pick n h period g

end Generator

end Announcer.Chance
