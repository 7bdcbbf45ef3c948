/-!
# Texts as bytes

Positions in messages and the string section of a symbol table count UTF-8 bytes.  `byteLength`
measures a text that way, `bytes` gives the bytes themselves, and `decodeLossy` reads bytes back: a
byte that begins no character is read as U+FFFD, so every byte string has a reading.
-/

namespace KernelIR.Text

/-- The number of bytes a text takes in UTF-8. -/
def byteLength (cs : List Char) : Nat :=
  cs.foldr (fun c n => c.utf8Size + n) 0

/-- The UTF-8 bytes of a text. -/
def bytes (s : String) : List UInt8 :=
  s.toList.flatMap String.utf8EncodeChar

/-- The number that the payload bits of an encoded character spell: a lone byte gives seven bits,
the first of `k ≥ 2` bytes gives `7 - k`, and each byte after it gives six. -/
def codePoint : List UInt8 → Nat
  | [] => 0
  | b :: rest =>
    let lead := if rest.isEmpty then b.toNat % 128 else b.toNat % Nat.pow 2 (6 - rest.length)
    rest.foldl (fun n c => n * 64 + c.toNat % 64) lead

/-- The character that exactly the bytes `bs` encode.  Encoding the candidate again rules out
overlong forms and surrogates. -/
def charOfBytes? (bs : List UInt8) : Option Char :=
  let c := Char.ofNat (codePoint bs)
  if String.utf8EncodeChar c = bs then some c else none

/-- The character that begins `bs`, with the number of bytes it takes. -/
def firstChar? (bs : List UInt8) : Option (Char × Nat) :=
  [1, 2, 3, 4].findSome? fun k => (charOfBytes? (bs.take k)).map (·, k)

/-- Reads bytes as text.  A byte that begins no character stands for U+FFFD. -/
def decodeLossy (bs : List UInt8) : List Char :=
  match bs with
  | [] => []
  | b :: rest =>
    match firstChar? (b :: rest) with
    | some (c, k) => c :: decodeLossy (rest.drop (k - 1))
    | none => '�' :: decodeLossy rest
  termination_by bs.length
  decreasing_by all_goals simp; try omega

end KernelIR.Text
