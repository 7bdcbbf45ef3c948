import KernelIR.Text.Utf8
import Mathlib.Tactic.Common

/-!
# Texts read back from their bytes

`decodeLossy_bytes`: the bytes of a text are read as the text.  A character is recognised by trying
ever longer beginnings of what is left, so it has to be shown that no proper beginning of an encoded
character encodes another one.  That is so because the first character of a byte string is
determined by the whole of it (`eq_of_utf8EncodeChar_append_eq`).

`takeWhile_bytes_append`: the bytes of a text up to the first zero byte are those of the text up to
its first null character, since no other character has a zero among its bytes.
-/

namespace KernelIR.Text

/-! ### One character -/

/-- The payload bits of an encoded character spell its number. -/
theorem codePoint_utf8EncodeChar (c : Char) : codePoint (String.utf8EncodeChar c) = c.toNat := by
  have hc : c.val.toNat = c.toNat := rfl
  have hmax : c.toNat < 1114112 := by
    rcases c.valid with h | ⟨-, h⟩
    · exact Nat.lt_trans h (by decide)
    · exact h
  rw [String.utf8EncodeChar, hc]
  split_ifs
  all_goals
    simp [codePoint]
    omega

/-- An encoded character is recognised. -/
theorem charOfBytes?_utf8EncodeChar (c : Char) :
    charOfBytes? (String.utf8EncodeChar c) = some c := by
  rw [charOfBytes?, codePoint_utf8EncodeChar, Char.ofNat_toNat]
  exact if_pos rfl

/-- The first character of a byte string is determined by it. -/
theorem eq_of_utf8EncodeChar_append_eq {c d : Char} {bs cs : List UInt8}
    (h : String.utf8EncodeChar c ++ bs = String.utf8EncodeChar d ++ cs) : c = d := by
  have hbytes := congrArg List.toByteArray h
  rw [List.toByteArray_append, List.toByteArray_append] at hbytes
  have hc := ByteArray.utf8DecodeChar?_utf8EncodeChar_append (b := bs.toByteArray) (c := c)
  rw [hbytes, ByteArray.utf8DecodeChar?_utf8EncodeChar_append] at hc
  exact (Option.some.inj hc).symm

/-- No proper beginning of an encoded character is recognised. -/
theorem charOfBytes?_take_of_lt {c : Char} {k : Nat} (hk : k < c.utf8Size) (bs : List UInt8) :
    charOfBytes? ((String.utf8EncodeChar c ++ bs).take k) = none := by
  have hlen := String.length_utf8EncodeChar c
  unfold charOfBytes?
  dsimp only
  refine if_neg fun h => ?_
  -- what is encoded there is the first character, whose bytes are too many
  have hfirst := List.take_append_drop k (String.utf8EncodeChar c ++ bs)
  rw [← h] at hfirst
  have hsize := congrArg List.length h
  rw [eq_of_utf8EncodeChar_append_eq hfirst, hlen, List.length_take, List.length_append] at hsize
  omega

/-- **The first character of a byte string is found**, with the number of its bytes. -/
theorem firstChar?_utf8EncodeChar_append (c : Char) (bs : List UInt8) :
    firstChar? (String.utf8EncodeChar c ++ bs) = some (c, c.utf8Size) := by
  have hlen := String.length_utf8EncodeChar c
  have hwhole : charOfBytes? ((String.utf8EncodeChar c ++ bs).take c.utf8Size) = some c := by
    rw [← hlen, List.take_left, charOfBytes?_utf8EncodeChar]
  have hshort : ∀ k < c.utf8Size, charOfBytes? ((String.utf8EncodeChar c ++ bs).take k) = none :=
    fun k hk => charOfBytes?_take_of_lt hk bs
  unfold firstChar?
  rcases c.utf8Size_eq with h | h | h | h
  all_goals
    rw [h] at hwhole hshort ⊢
    simp only [List.findSome?_cons, hwhole, hshort, Nat.reduceLT, Option.map_some, Option.map_none]

/-- Only the null character has a zero byte. -/
theorem zero_mem_utf8EncodeChar_iff (c : Char) : 0 ∈ String.utf8EncodeChar c ↔ c = '\x00' := by
  constructor
  · intro h
    have hc : c.val.toNat = c.toNat := rfl
    have hzero : c.toNat = 0 := by
      rw [String.utf8EncodeChar, hc] at h
      split_ifs at h
      all_goals
        simp [← UInt8.toNat_inj] at h
        omega
    rw [← c.ofNat_toNat, hzero]
  · rintro rfl
    decide

/-! ### Texts -/

theorem decodeLossy_utf8EncodeChar_append (c : Char) (bs : List UInt8) :
    decodeLossy (String.utf8EncodeChar c ++ bs) = c :: decodeLossy bs := by
  have hlen := String.length_utf8EncodeChar c
  have hfirst := firstChar?_utf8EncodeChar_append c bs
  obtain ⟨b, rest, hb⟩ := List.exists_cons_of_ne_nil (String.utf8EncodeChar_ne_nil (c := c))
  rw [hb, List.length_cons] at hlen
  rw [hb, List.cons_append] at hfirst ⊢
  rw [decodeLossy, hfirst]
  dsimp only
  rw [← hlen, Nat.add_sub_cancel, List.drop_left]

/-- **The bytes of a text are read as the text.** -/
theorem decodeLossy_bytes (s : String) : decodeLossy (bytes s) = s.toList := by
  rw [bytes]
  induction s.toList with
  | nil => rw [List.flatMap_nil, decodeLossy]
  | cons c cs ih => rw [List.flatMap_cons, decodeLossy_utf8EncodeChar_append, ih]

/-- Different texts have different bytes. -/
theorem bytes_inj {s s' : String} : bytes s = bytes s' ↔ s = s' := by
  refine ⟨fun h => ?_, congrArg bytes⟩
  apply String.toList_inj.mp
  rw [← decodeLossy_bytes, h, decodeLossy_bytes]

/-- **Cutting bytes at the first zero cuts the text at its first null character.** -/
theorem takeWhile_bytes_append (cs : List Char) (bs : List UInt8) :
    (cs.flatMap String.utf8EncodeChar ++ 0 :: bs).takeWhile (· ≠ 0) =
      (cs.takeWhile (· ≠ '\x00')).flatMap String.utf8EncodeChar := by
  induction cs with
  | nil => rfl
  | cons c cs ih =>
    rw [List.flatMap_cons, List.append_assoc]
    by_cases hc : c = '\x00'
    · rw [hc]
      rfl
    · have hbytes : ∀ b ∈ String.utf8EncodeChar c, decide (b ≠ 0) = true := by
        intro b hb
        refine decide_eq_true fun h => hc ?_
        rwa [h, zero_mem_utf8EncodeChar_iff] at hb
      rw [List.takeWhile_append_of_pos hbytes, ih, List.takeWhile_cons_of_pos (by simpa using hc),
        List.flatMap_cons]

end KernelIR.Text
