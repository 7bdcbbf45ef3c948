/-!
# Dense sets of small numbers

A set of natural numbers as a list of 64-bit words: `n` is in the set when bit `n % 64` of word `n /
64` is set, and a word that is not there holds nothing.  `BitSet.ofSize` makes room ahead, which no
later answer shows.  It counts the words in 64-bit arithmetic, so a size that cannot be rounded up
to whole words gets a single word, as a negative one does.

Positions may also come in as integers.  A negative one is never in a set and cannot be inserted.
The word of a position is looked at before the bit: for the positions from `-63` to `-1` that is the
first word, so a set without words answers that they are absent, and a refused insertion leaves the
first word behind.

`BitSet.answers` makes a list of calls, where the next call is made after a refused one too.
-/

namespace KernelIR

/-- A set of natural numbers, 64 to a word. -/
structure BitSet where
  words : List (BitVec 64) := []
deriving DecidableEq, Repr, Inhabited

namespace BitSet

/-- The empty set with room for the numbers below `size`. -/
def ofSize (size : Int) : BitSet :=
  ⟨List.replicate (max 1 ((BitVec.ofInt 64 (size + 63)).toInt.tdiv 64).toNat) 0⟩

/-- Makes sure that the `w`-th word is there. -/
def grow (s : BitSet) (w : Nat) : BitSet :=
  ⟨s.words ++ List.replicate (w + 1 - s.words.length) 0⟩

/-- Adds a number. -/
def insert (s : BitSet) (n : Nat) : BitSet :=
  ⟨(s.grow (n / 64)).words.modify (n / 64) (· ||| 1#64 <<< (n % 64))⟩

/-- Whether a number is in the set. -/
def contains (s : BitSet) (n : Nat) : Bool :=
  match s.words[n / 64]? with
  | some word => word.getLsbD (n % 64)
  | none => false

/-- Adds the number at a position and tells whether the position was accepted. -/
def insertAt (s : BitSet) (i : Int) : BitSet × Bool :=
  if 0 ≤ i then (s.insert i.toNat, true)
  else if i.tdiv 64 = 0 then (s.grow 0, false)
  else (s, false)

/-- Whether the number at a position is in the set; none when the position is refused. -/
def containsAt? (s : BitSet) (i : Int) : Option Bool :=
  if 0 ≤ i then some (s.contains i.toNat)
  else if i.tdiv 64 = 0 ∧ s.words = [] then some false
  else none

/-- What a set is asked to do. -/
inductive Call
  | insert (i : Int)
  | contains (i : Int)
deriving DecidableEq

/-- The answer to a call. -/
inductive Answer
  /-- To an insertion: whether the position was accepted. -/
  | inserted (accepted : Bool)
  /-- To a question: whether the number is in the set; none when the position is refused. -/
  | held (answer : Option Bool)
deriving DecidableEq

/-- The set that a call leaves, and its answer. -/
def perform (s : BitSet) : Call → BitSet × Answer
  | .insert i => ((s.insertAt i).1, .inserted (s.insertAt i).2)
  | .contains i => (s, .held (s.containsAt? i))

/-- The answers to some calls, one after another. -/
def answers (s : BitSet) : List Call → List Answer
  | [] => []
  | c :: calls => (s.perform c).2 :: (s.perform c).1.answers calls

/-- A set nobody has used: without words, or with room for a size. -/
def fresh (room : Option Int) : BitSet :=
  room.elim {} ofSize

end BitSet

end KernelIR
