import Mathlib.Data.BitVec
import Mathlib.Tactic.Common

/-
  32-bit words as four bytes, in either byte order.

  A machine that reads a word of the other byte order gets
  the word with its bytes reversed.

  Key definitions include:
    * `Word.byte`
    * `Word.ofBytes`
    * `Word.reverseBytes`
    * `ByteOrder.encode`
    * `ByteOrder.decode`

  Key theorems include:
    * `Word.ofBytes_byte`
    * `Word.reverseBytes_reverseBytes`
    * `ByteOrder.decode_encode`
-/

------------------------------------------------------------
-- Words and Their Bytes
------------------------------------------------------------

namespace Foundations

abbrev Byte : Type := BitVec 8

abbrev Word : Type := BitVec 32

namespace Word

/- The byte with the given weight, 0 for the lowest. -/
def byte (w : Word) (k : Nat) : Byte :=
  w.extractLsb' (8 * k) 8

/- A word from its bytes, the highest one first. -/
def ofBytes (b3 b2 b1 b0 : Byte) : Word :=
  b3 ++ b2 ++ b1 ++ b0

theorem getLsbD_ofBytes
    (b3 b2 b1 b0 : Byte)
    (i : Nat) :
    (ofBytes b3 b2 b1 b0).getLsbD i =
      if i < 8 then b0.getLsbD i
      else if i < 16 then b1.getLsbD (i - 8)
      else if i < 24 then b2.getLsbD (i - 16)
      else b3.getLsbD (i - 24) := by
  simp only [ofBytes, BitVec.getLsbD_append]
  grind

theorem getLsbD_byte
    (w : Word)
    (k i : Nat) :
    (w.byte k).getLsbD i =
      (decide (i < 8) && w.getLsbD (8 * k + i)) :=
  BitVec.getLsbD_extractLsb' _ _ _ _

/- A word is put together from its own bytes. -/
theorem ofBytes_byte
    (w : Word) :
    ofBytes (w.byte 3) (w.byte 2) (w.byte 1) (w.byte 0) =
      w := by
  apply BitVec.eq_of_getLsbD_eq
  intro i hIndex
  simp only [getLsbD_ofBytes, getLsbD_byte]
  grind

@[simp] theorem byte_ofBytes
    (b3 b2 b1 b0 : Byte)
    (k : Nat) :
    (ofBytes b3 b2 b1 b0).byte k =
      if k = 0 then b0
      else if k = 1 then b1
      else if k = 2 then b2
      else if k = 3 then b3
      else 0 := by
  apply BitVec.eq_of_getLsbD_eq
  intro i hIndex
  simp only [getLsbD_ofBytes, getLsbD_byte]
  grind

/- The same bytes in the opposite order. -/
def reverseBytes (w : Word) : Word :=
  ofBytes (w.byte 0) (w.byte 1) (w.byte 2) (w.byte 3)

@[simp] theorem reverseBytes_reverseBytes
    (w : Word) :
    w.reverseBytes.reverseBytes = w := by
  simp [reverseBytes, ofBytes_byte]

/- Reversing the bytes permutes the bits. -/
theorem getLsbD_reverseBytes
    (w : Word)
    (i : Nat) :
    w.reverseBytes.getLsbD i =
      (decide (i < 32) &&
        w.getLsbD (8 * (3 - i / 8) + i % 8)) := by
  simp only [reverseBytes, getLsbD_ofBytes, getLsbD_byte]
  grind

theorem reverseBytes_and
    (a b : Word) :
    (a &&& b).reverseBytes =
      a.reverseBytes &&& b.reverseBytes := by
  apply BitVec.eq_of_getLsbD_eq
  intro i hIndex
  simp only [getLsbD_reverseBytes, BitVec.getLsbD_and]
  grind

end Word

end Foundations

------------------------------------------------------------
-- Byte Orders
------------------------------------------------------------

namespace Foundations

inductive ByteOrder where
  | bigEndian
  | littleEndian
deriving DecidableEq, Repr

namespace ByteOrder

/- The bytes of a word as they lie in memory. -/
def encode (order : ByteOrder) (w : Word) : List Byte :=
  match order with
  | bigEndian => [w.byte 3, w.byte 2, w.byte 1, w.byte 0]
  | littleEndian => [w.byte 0, w.byte 1, w.byte 2, w.byte 3]

/- The word that a machine finds in four bytes of memory. -/
def decode (order : ByteOrder) (b0 b1 b2 b3 : Byte) : Word :=
  match order with
  | bigEndian => Word.ofBytes b0 b1 b2 b3
  | littleEndian => Word.ofBytes b3 b2 b1 b0

/- The word as a machine of another order reads it. -/
def translate
    (written read : ByteOrder)
    (w : Word) :
    Word :=
  if written = read then w else w.reverseBytes

@[simp] theorem length_encode
    (order : ByteOrder)
    (w : Word) :
    (order.encode w).length = 4 := by
  cases order <;> rfl

/- Four bytes that were written are read as a whole. -/
theorem decode_encode
    (written read : ByteOrder)
    (w : Word) :
    ∃ b0 b1 b2 b3,
      written.encode w = [b0, b1, b2, b3] ∧
        read.decode b0 b1 b2 b3 =
          translate written read w := by
  cases written with
  | bigEndian =>
      refine ⟨_, _, _, _, rfl, ?_⟩
      cases read with
      | bigEndian => exact w.ofBytes_byte
      | littleEndian => rfl
  | littleEndian =>
      refine ⟨_, _, _, _, rfl, ?_⟩
      cases read with
      | bigEndian => rfl
      | littleEndian => exact w.ofBytes_byte

/- Four bytes that were read are written as they were. -/
@[simp] theorem encode_decode
    (order : ByteOrder)
    (b0 b1 b2 b3 : Byte) :
    order.encode (order.decode b0 b1 b2 b3) =
      [b0, b1, b2, b3] := by
  cases order <;> simp [encode, decode]

@[simp] theorem translate_self
    (order : ByteOrder)
    (w : Word) :
    translate order order w = w :=
  if_pos rfl

end ByteOrder

end Foundations
