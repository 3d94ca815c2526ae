import ReplicatedAccount.Client.MessageSize
import ReplicatedAccount.Foundations.ByteOrder

/-
  How the Spread connection writes ints and group names into
  byte buffers, and how it reads them back.

  A group name takes 32 bytes.  It is written with at most 32
  characters and zeros behind them, but it is read up to the
  first zero in the rest of the buffer: a name that fills its
  field is read together with what follows it.

  Key definitions include:
    * `SpreadThrown`
    * `SpreadConnection.toInt`
    * `SpreadConnection.flip`
    * `SpreadGroup`
    * `SpreadConnection.groupBytes`
    * `SpreadConnection.toGroup`

  Key theorems include:
    * `SpreadConnection.toInt_of_encode`
    * `SpreadConnection.toGroup_of_groupBytes`
-/

------------------------------------------------------------
-- Exceptions
------------------------------------------------------------

namespace ReplicatedAccount

open Foundations

/- What the methods of the package `spread` can throw. -/
inductive SpreadThrown where
  | spreadException (message : String)
  | interruptedRead
  | nullPointer
  | arrayIndexOutOfBounds
  | negativeArraySize
deriving DecidableEq, Repr

namespace SpreadConnection

/- `buffer[index]`. -/
def element
    {α : Type}
    (buffer : List α)
    (index : Nat) :
    Except SpreadThrown α :=
  match buffer[index]? with
  | some a => .ok a
  | none => .error .arrayIndexOutOfBounds

------------------------------------------------------------
-- Ints
------------------------------------------------------------

/- `ENDIAN_TYPE`. -/
def endianType : Word := 0x80000080

def sameEndian (i : Word) : Bool :=
  i &&& endianType == 0

def clearEndian (i : Word) : Word :=
  i &&& ~~~endianType

/- The shifts to the right keep the sign. -/
def flip (i : Word) : Word :=
  ((i.sshiftRight 24) &&& 0x000000ff) |||
    ((i.sshiftRight 8) &&& 0x0000ff00) |||
      ((i <<< 8) &&& 0x00ff0000) |||
        ((i <<< 24) &&& 0xff000000)

/- `toBytes` of an int. -/
def intBytes (i : Word) : List Byte :=
  [((i.sshiftRight 24) &&& 0xFF).setWidth 8,
    ((i.sshiftRight 16) &&& 0xFF).setWidth 8,
    ((i.sshiftRight 8) &&& 0xFF).setWidth 8,
    (i &&& 0xFF).setWidth 8]

def toInt
    (buffer : List Byte)
    (bufferIndex : Nat) :
    Except SpreadThrown Word := do
  let i0 ← element buffer bufferIndex
  let i1 ← element buffer (bufferIndex + 1)
  let i2 ← element buffer (bufferIndex + 2)
  let i3 ← element buffer (bufferIndex + 3)
  pure ((i0.setWidth 32 <<< 24) |||
    (i1.setWidth 32 <<< 16) |||
      (i2.setWidth 32 <<< 8) ||| i3.setWidth 32)

/- Masks of whole bytes. -/
private theorem getLsbD_masks
    {i : Nat}
    (hIndex : i < 32) :
    (0x000000ff#32).getLsbD i = decide (i < 8) ∧
      (0x0000ff00#32).getLsbD i =
        decide (8 ≤ i ∧ i < 16) ∧
        (0x00ff0000#32).getLsbD i =
          decide (16 ≤ i ∧ i < 24) ∧
          (0xff000000#32).getLsbD i = decide (24 ≤ i) := by
  revert i
  decide

/- `flip` is the reversal of the bytes. -/
theorem flip_eq_reverseBytes
    (i : Word) :
    flip i = i.reverseBytes := by
  apply BitVec.eq_of_getLsbD_eq
  intro k hIndex
  rcases getLsbD_masks hIndex with ⟨h0, h1, h2, h3⟩
  simp only [flip, Word.reverseBytes, Word.getLsbD_ofBytes,
    Word.getLsbD_byte, BitVec.getLsbD_or,
    BitVec.getLsbD_and, BitVec.getLsbD_sshiftRight,
    BitVec.getLsbD_shiftLeft]
  grind

private theorem byte_of_shift
    (i : Word)
    {k : Nat}
    (hByte : k < 4) :
    ((i.sshiftRight (8 * k)) &&& 0xFF).setWidth 8 =
      i.byte k := by
  apply BitVec.eq_of_getLsbD_eq
  intro j hIndex
  have hMask := (getLsbD_masks (i := j) (by omega)).1
  simp only [BitVec.getLsbD_setWidth, BitVec.getLsbD_and,
    BitVec.getLsbD_sshiftRight, Word.getLsbD_byte]
  rw [show (0xFF : Word) = 0x000000ff#32 from rfl, hMask]
  grind

/- Java writes the highest byte first. -/
theorem intBytes_eq_encode
    (i : Word) :
    intBytes i = ByteOrder.bigEndian.encode i := by
  have h3 := byte_of_shift i (k := 3) (by decide)
  have h2 := byte_of_shift i (k := 2) (by decide)
  have h1 := byte_of_shift i (k := 1) (by decide)
  have h0 := byte_of_shift i (k := 0) (by decide)
  simp only [Nat.reduceMul, Nat.mul_zero,
    BitVec.sshiftRight_zero] at h3 h2 h1 h0
  simp only [intBytes, ByteOrder.encode, h3, h2, h1, h0]

private theorem or_shifts_eq_ofBytes
    (b0 b1 b2 b3 : Byte) :
    (b0.setWidth 32 <<< 24) ||| (b1.setWidth 32 <<< 16) |||
        (b2.setWidth 32 <<< 8) ||| b3.setWidth 32 =
      Word.ofBytes b0 b1 b2 b3 := by
  apply BitVec.eq_of_getLsbD_eq
  intro i hIndex
  simp only [Word.getLsbD_ofBytes, BitVec.getLsbD_or,
    BitVec.getLsbD_shiftLeft, BitVec.getLsbD_setWidth]
  grind

/- What a machine wrote, in Java's order or flipped. -/
theorem toInt_of_encode
    (order : ByteOrder)
    (w : Word)
    (before after : List Byte) :
    toInt (before ++ (order.encode w ++ after))
        before.length =
      .ok (order.translate .bigEndian w) := by
  rcases ByteOrder.decode_encode order .bigEndian w with
    ⟨b0, b1, b2, b3, hBytes, hWord⟩
  rw [hBytes, ← hWord]
  simp [toInt, element, or_shifts_eq_ofBytes,
    ByteOrder.decode]

------------------------------------------------------------
-- Group Names
------------------------------------------------------------

/- `String.getBytes("ISO8859_1")` of one character. -/
def latin1Byte (c : Char) : Byte :=
  if c.toNat < 256 then
    BitVec.ofNat 8 c.toNat
  else
    BitVec.ofNat 8 '?'.toNat

/- `new String(bytes, "ISO8859_1")`. -/
def ofLatin1 (bytes : List Byte) : String :=
  String.ofList (bytes.map fun b => Char.ofNat b.toNat)

end SpreadConnection

/- The name of a group; the connection plays no part here. -/
structure SpreadGroup where
  name : String
deriving DecidableEq, Repr

namespace SpreadConnection

/- `toBytes` of a group. -/
def groupBytes (group : SpreadGroup) : List Byte :=
  let name := group.name.toList.map latin1Byte
  let kept := name.take maxGroupName
  kept ++ List.replicate (maxGroupName - kept.length) 0

/- The result is null when there is no zero to be found. -/
def toGroup
    (buffer : List Byte)
    (bufferIndex : Nat) :
    Option SpreadGroup :=
  let rest := buffer.drop bufferIndex
  if 0 ∈ rest then
    some ⟨ofLatin1 (rest.takeWhile (· ≠ 0))⟩
  else
    none

end SpreadConnection

/-
  The name has only characters of ISO 8859-1 and no zero, and
  leaves room for a zero behind it.
-/
def SpreadGroup.Sendable (group : SpreadGroup) : Prop :=
  group.name.length < maxGroupName ∧
    ∀ c ∈ group.name.toList, 0 < c.toNat ∧ c.toNat < 256

instance
    (group : SpreadGroup) :
    Decidable group.Sendable :=
  inferInstanceAs (Decidable (_ ∧ _))

namespace SpreadConnection

@[simp] theorem length_groupBytes
    (group : SpreadGroup) :
    (groupBytes group).length = maxGroupName := by
  simp only [groupBytes, List.length_append,
    List.length_replicate, List.length_take]
  omega

/- The characters of one byte survive their encoding. -/
theorem ofNat_latin1Byte
    {c : Char}
    (hByte : c.toNat < 256) :
    Char.ofNat (latin1Byte c).toNat = c := by
  simp [latin1Byte, hByte, Nat.mod_eq_of_lt hByte]

theorem latin1Byte_ne_zero
    {c : Char}
    (hPositive : 0 < c.toNat) :
    latin1Byte c ≠ 0 := by
  unfold latin1Byte
  split_ifs with hByte
  · intro hZero
    have hNat := congrArg BitVec.toNat hZero
    simp [Nat.mod_eq_of_lt hByte] at hNat
    omega
  · decide

/- A sendable name is its bytes, and at least one zero. -/
theorem groupBytes_of_sendable
    {group : SpreadGroup}
    (hSendable : group.Sendable) :
    ∃ zeros,
      groupBytes group =
        group.name.toList.map latin1Byte ++ 0 :: zeros := by
  have hLength : group.name.toList.length < maxGroupName := by
    rw [String.length_toList]
    exact hSendable.1
  have hKept :
      (group.name.toList.map latin1Byte).take maxGroupName =
        group.name.toList.map latin1Byte :=
    List.take_of_length_le (by simpa using hLength.le)
  refine ⟨List.replicate
    (maxGroupName - group.name.toList.length - 1) 0, ?_⟩
  simp only [groupBytes, hKept, List.length_map]
  rw [← List.replicate_succ]
  congr 2
  omega

/- What is written is read back, whatever stands around it. -/
theorem toGroup_of_groupBytes
    {group : SpreadGroup}
    (hSendable : group.Sendable)
    (before after : List Byte) :
    toGroup (before ++ (groupBytes group ++ after))
        before.length =
      some group := by
  rcases groupBytes_of_sendable hSendable with
    ⟨zeros, hBytes⟩
  have hName :
      ∀ b ∈ group.name.toList.map latin1Byte,
        decide (b ≠ 0) = true := by
    intro b hMember
    rcases List.mem_map.mp hMember with ⟨c, hChar, rfl⟩
    simpa using
      latin1Byte_ne_zero (hSendable.2 c hChar).1
  have hDecoded :
      ofLatin1 (group.name.toList.map latin1Byte) =
        group.name := by
    have hSame :
        group.name.toList.map
            (fun c => Char.ofNat (latin1Byte c).toNat) =
          group.name.toList.map id :=
      List.map_congr_left
        (fun c hChar => ofNat_latin1Byte (hSendable.2 c hChar).2)
    rw [ofLatin1, List.map_map]
    exact (congrArg String.ofList
      (hSame.trans (List.map_id _))).trans
        String.ofList_toList
  simp only [toGroup, List.drop_left, hBytes,
    List.append_assoc, List.cons_append]
  rw [if_pos (by simp)]
  rw [List.takeWhile_append_of_pos hName]
  simp [hDecoded]

end SpreadConnection

end ReplicatedAccount
