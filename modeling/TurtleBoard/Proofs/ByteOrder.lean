import Mathlib.Data.String.Basic
import TurtleBoard.Utf8

/-! Texts in the order of their bytes. Characters have codes of one to four bytes, and the order of the codes is that of
the characters: two codes differ first at a byte that both have. So what is kept in the order of texts is in the order
of their UTF-8 bytes. -/
namespace TurtleBoard.Utf8

def bytes (text : String) : List UInt8 := text.toUTF8.data.toList

inductive Ahead : List UInt8 → List UInt8 → Prop where
  | here {x y : UInt8} {xs ys : List UInt8} (less : x < y) : Ahead (x :: xs) (y :: ys)
  | later {x : UInt8} {xs ys : List UInt8} (ahead : Ahead xs ys) : Ahead (x :: xs) (x :: ys)

theorem Ahead.append {xs ys : List UInt8} (ahead : Ahead xs ys) (more rest : List UInt8) : xs ++ more < ys ++ rest := by
  induction ahead with
  | here less => exact List.Lex.rel less
  | later _ ih => exact List.Lex.cons ih

theorem Ahead.byte {m n : Nat} {xs ys : List UInt8} (rest : m = n → Ahead xs ys) (le : m ≤ n := by omega)
    (fits : n < 256 := by omega) : Ahead (UInt8.ofNat m :: xs) (UInt8.ofNat n :: ys) := by
  rcases Nat.lt_or_eq_of_le le with less | rfl
  · exact .here ((UInt8.ofNat_lt_iff_lt (Nat.lt_trans less fits) fits).mpr less)
  · exact .later (rest rfl)

theorem codeAhead {c d : Char} (less : c < d) : Ahead (String.utf8EncodeChar c) (String.utf8EncodeChar d) := by
  have below : c.val.toNat < d.val.toNat := less
  have top : d.val.toNat < 0x110000 := by
    rcases d.valid with low | ⟨_, high⟩
    · exact Nat.lt_trans low (by decide)
    · exact high
  simp only [String.utf8EncodeChar]
  generalize c.val.toNat = m at below
  generalize d.val.toNat = n at below top
  -- A longer code begins with a greater byte, and codes of one length are compared byte by byte.
  split_ifs <;> try omega
  · exact .byte fun first => by omega
  · exact .byte fun first => by omega
  · exact .byte fun first => by omega
  · exact .byte fun first => by omega
  · exact .byte fun first => .byte fun second => by omega
  · exact .byte fun first => by omega
  · exact .byte fun first => by omega
  · exact .byte fun first => .byte fun second => .byte fun third => by omega
  · exact .byte fun first => by omega
  · exact .byte fun first => .byte fun second => .byte fun third => .byte fun last => by omega

theorem bytesOfChars (text : String) : bytes text = text.toList.flatMap String.utf8EncodeChar := by
  rw [bytes, String.toUTF8_eq_toByteArray, ← String.utf8Encode_toList, List.utf8Encode, List.toList_data_toByteArray]

theorem charsLess {cs ds : List Char} (less : cs < ds) :
    cs.flatMap String.utf8EncodeChar < ds.flatMap String.utf8EncodeChar := by
  induction less with
  | @nil d ds =>
    rw [List.flatMap_nil, List.flatMap_cons]
    obtain ⟨byte, rest, code⟩ := List.exists_cons_of_length_pos (l := String.utf8EncodeChar d) (by
      rw [String.length_utf8EncodeChar]
      exact d.utf8Size_pos)
    rw [code]
    exact List.Lex.nil
  | rel less =>
    rw [List.flatMap_cons, List.flatMap_cons]
    exact (codeAhead less).append _ _
  | cons _ ih =>
    rw [List.flatMap_cons, List.flatMap_cons]
    exact List.append_left_lt ih

theorem lessBytes (a b : String) : bytes a < bytes b ↔ a < b := by
  have onwards {a b : String} (less : a < b) : bytes a < bytes b := by
    rw [bytesOfChars, bytesOfChars]
    exact charsLess (String.lt_iff.mp less)
  refine ⟨fun less => ?_, onwards⟩
  rcases Std.lt_trichotomy a b with less | rfl | greater
  · exact less
  · exact absurd less (List.lt_irrefl _)
  · exact absurd (List.lt_trans less (onwards greater)) (List.lt_irrefl _)

end TurtleBoard.Utf8
