import ReplicatedAccount.Spread.Connection

/-
  The message header of the daemon, as it lies in the memory
  of machines of either byte order.

  Two bits of every service type tell the byte order of the
  machine that wrote the header.  They are chosen such that
  they read the same in both orders.

  Key definitions include:
    * `Daemon.archEndian`
    * `Daemon.setEndian`
    * `Daemon.MessageHeader`
    * `Daemon.MessageHeader.memory`
    * `Daemon.MessageHeader.correct`

  Key theorems include:
    * `Daemon.sameEndian_translate`
    * `Daemon.MessageHeader.correct_translate`
-/

------------------------------------------------------------
-- Byte Order Bits
------------------------------------------------------------

namespace ReplicatedAccount

open Foundations SpreadConnection

namespace Daemon

/- `ARCH_ENDIAN` of the two kinds of machines. -/
def archEndian : ByteOrder → Word
| .bigEndian => 0x00000000
| .littleEndian => 0x80000080

/- The macro `Set_endian`. -/
def setEndian (order : ByteOrder) (type : Word) : Word :=
  (type &&& ~~~endianType) ||| archEndian order

/- The macro `Same_endian`. -/
def sameEndian (order : ByteOrder) (type : Word) : Bool :=
  type &&& endianType == archEndian order

theorem reverseBytes_endianType :
    endianType.reverseBytes = endianType := by
  decide

theorem archEndian_injective
    {a b : ByteOrder}
    (hSame : archEndian a = archEndian b) :
    a = b := by
  cases a <;> cases b <;> first | rfl | cases hSame

/- Setting the bits leaves all other bits, and these two. -/
theorem setEndian_and
    (order : ByteOrder)
    (type mask : Word)
    (hDisjoint : mask &&& endianType = 0) :
    setEndian order type &&& mask = type &&& mask := by
  have hArch : archEndian order &&& mask = 0 := by
    cases order with
    | bigEndian => exact BitVec.zero_and
    | littleEndian =>
        rw [BitVec.and_comm]
        exact hDisjoint
  have hKept : ~~~endianType &&& mask = mask := by
    have hSplit :
        (~~~endianType &&& mask) ||| (mask &&& endianType) =
          mask := by
      apply BitVec.eq_of_getLsbD_eq
      intro i hIndex
      simp only [BitVec.getLsbD_or, BitVec.getLsbD_and,
        BitVec.getLsbD_not]
      grind
    simpa [hDisjoint] using hSplit
  have hParts :
      setEndian order type &&& mask =
        (type &&& (~~~endianType &&& mask)) |||
          (archEndian order &&& mask) := by
    apply BitVec.eq_of_getLsbD_eq
    intro i hIndex
    simp only [setEndian, BitVec.getLsbD_or,
      BitVec.getLsbD_and, BitVec.getLsbD_not]
    grind
  simp [hParts, hKept, hArch]

theorem setEndian_and_endianType
    (order : ByteOrder)
    (type : Word) :
    setEndian order type &&& endianType =
      archEndian order := by
  have hArch :
      archEndian order &&& endianType = archEndian order := by
    cases order <;> decide
  have hParts :
      setEndian order type &&& endianType =
        archEndian order &&& endianType := by
    apply BitVec.eq_of_getLsbD_eq
    intro i hIndex
    simp only [setEndian, BitVec.getLsbD_or,
      BitVec.getLsbD_and, BitVec.getLsbD_not]
    grind
  rw [hParts, hArch]

@[simp] theorem clearEndian_setEndian
    (order : ByteOrder)
    (type : Word) :
    clearEndian (setEndian order type) = clearEndian type := by
  have hKept := setEndian_and order type (~~~endianType)
    (by decide)
  exact hKept

@[simp] theorem setEndian_setEndian
    (a b : ByteOrder)
    (type : Word) :
    setEndian a (setEndian b type) = setEndian a type := by
  have hClear := clearEndian_setEndian b type
  unfold clearEndian at hClear
  rw [setEndian, hClear]
  rfl

/- A type that bears the order of another machine is read. -/
theorem translate_and_endianType
    (written read : ByteOrder)
    (type : Word) :
    written.translate read (setEndian written type) &&&
        endianType =
      archEndian written := by
  unfold ByteOrder.translate
  split_ifs
  · exact setEndian_and_endianType written type
  · rw [← reverseBytes_endianType, ← Word.reverseBytes_and,
      setEndian_and_endianType]
    cases written <;> decide

/- The bits tell whether the orders agree. -/
theorem sameEndian_translate
    (written read : ByteOrder)
    (type : Word) :
    sameEndian read
        (written.translate read (setEndian written type)) =
      decide (written = read) := by
  rw [sameEndian, translate_and_endianType]
  by_cases hSame : written = read
  · simp [hSame]
  · have hDiffer : archEndian written ≠ archEndian read :=
      fun hArch => hSame (archEndian_injective hArch)
    simp [hSame, hDiffer]

/- What a machine of another order flips is right again. -/
theorem flip_translate
    {written read : ByteOrder}
    (hDiffer : written ≠ read)
    (w : Word) :
    flip (written.translate read w) = w := by
  rw [ByteOrder.translate, if_neg hDiffer,
    flip_eq_reverseBytes, Word.reverseBytes_reverseBytes]

end Daemon

end ReplicatedAccount

------------------------------------------------------------
-- Headers
------------------------------------------------------------

namespace ReplicatedAccount

open Foundations SpreadConnection

namespace Daemon

/- `message_header`, with the values one machine reads. -/
structure MessageHeader where
  type : Word
  privateGroupName : List Byte
  numGroups : Word
  hint : Word
  dataLen : Word
  nameLength : privateGroupName.length = maxGroupName

namespace MessageHeader

variable (head : MessageHeader)

/- The header in the memory of a machine. -/
def memory (order : ByteOrder) : List Byte :=
  order.encode head.type ++
    (head.privateGroupName ++
      (order.encode head.numGroups ++
        (order.encode head.hint ++
          order.encode head.dataLen)))

/- The header as a machine of another order reads it. -/
def translate (written read : ByteOrder) : MessageHeader :=
  { head with
    type := written.translate read head.type
    numGroups := written.translate read head.numGroups
    hint := written.translate read head.hint
    dataLen := written.translate read head.dataLen }

/- `Flip_mess`: the hint is not flipped. -/
def flipMess : MessageHeader :=
  { head with
    type := flip head.type
    numGroups := flip head.numGroups
    dataLen := flip head.dataLen }

/- `Message_endian_correct_message_header`. -/
def correct (order : ByteOrder) : MessageHeader :=
  if sameEndian order head.type then head else head.flipMess

/- The header with `Set_endian` applied to its type. -/
def withEndian (order : ByteOrder) : MessageHeader :=
  { head with type := setEndian order head.type }

@[simp] theorem length_memory
    (order : ByteOrder) :
    (head.memory order).length = maxGroupName + 16 := by
  simp [memory, head.nameLength, maxGroupName]

/-
  A header that bears the order of the machine that wrote it
  is corrected on any other; only the hint is left as it is.
-/
theorem correct_translate
    (written read : ByteOrder) :
    ((head.withEndian written).translate written read).correct
        read =
      { head.withEndian written with
        hint := written.translate read head.hint } := by
  have hBits := sameEndian_translate written read head.type
  unfold correct
  change (if sameEndian read
    (written.translate read (setEndian written head.type)) = true
      then _ else _) = _
  rw [hBits]
  by_cases hSame : written = read
  · subst hSame
    simp [translate, withEndian]
  · simp [hSame, translate, flipMess, withEndian,
      flip_translate hSame]

end MessageHeader

end Daemon

end ReplicatedAccount
