import ReplicatedAccount.Spread.RegularMessage

/-
  How many bytes of the stream one received message takes.

  Key definitions include:
    * `SpreadMessage.wireLength`

  Key theorems include:
    * `SpreadConnection.internalReceive_consumes`
    * `SpreadConnection.internalReceive_takesPrefix`
    * `RegularMessage.length_frame`
-/

------------------------------------------------------------
-- The Bytes of a Message
------------------------------------------------------------

namespace ReplicatedAccount

open Foundations Foundations.Method SpreadConnection

/- A reject message has its old service type in addition. -/
def SpreadMessage.wireLength (message : SpreadMessage) : Nat :=
  headerBytes message.groups.length + message.data.length +
    (if message.isReject then 4 else 0)

namespace SpreadConnection

theorem readBuffer_consumes
    (length : Nat)
    (closed failed : String) :
    Consumes (readBuffer length closed failed)
      (fun content b => content = b ∧ b.length = length) :=
  Consumes.read _ _ _

/- The mark of a reject message is not lost with its type. -/
theorem readOldType_consumes
    (serviceType : Word) :
    Consumes (readOldType serviceType)
      (fun content found =>
        content.length =
            (if ServiceType.isReject found then 4 else 0) ∧
          ServiceType.isReject found =
            ServiceType.isReject serviceType) := by
  unfold readOldType
  cases hReject : ServiceType.isReject serviceType with
  | false =>
      refine (Consumes.pure serviceType).mono ?_
      rintro content found ⟨rfl, rfl⟩
      simp [hReject]
  | true =>
      have hMarked :
          ∀ oldType : Word,
            ServiceType.isReject
              (ServiceType.rejectMess ||| oldType) = true := by
        intro oldType
        have hBit :
            (ServiceType.rejectMess ||| oldType) &&&
                ServiceType.rejectMess =
              ServiceType.rejectMess := by
          apply BitVec.eq_of_getLsbD_eq
          intro i hIndex
          simp only [BitVec.getLsbD_and, BitVec.getLsbD_or]
          grind
        simp only [ServiceType.isReject, ServiceType.has, hBit]
        decide
      refine ((readBuffer_consumes 4 _ _).bind fun buffer =>
        (Consumes.ofExcept _).bind fun oldType =>
          Consumes.pure _).mono ?_
      rintro content found
        ⟨first, second, buffer, rfl, ⟨rfl, hLength⟩, third,
          fourth, oldType, rfl, ⟨rfl, _⟩, rfl, rfl⟩
      simp [hMarked, hLength]

theorem readGroups_consumes
    (numGroups : Word) :
    Consumes (readGroups numGroups)
      (fun content groups =>
        content.length = maxGroupName * groups.length) := by
  unfold readGroups
  have hWhole :
      maxGroupName ∣
        (numGroups * BitVec.ofNat 32 maxGroupName).toNat := by
    simp only [BitVec.toNat_mul, maxGroupName,
      BitVec.toNat_ofNat]
    omega
  simp only
  split_ifs with hNegative
  · exact Consumes.throw _
  · refine ((readBuffer_consumes _ _ _).bind fun buffer =>
      Consumes.pure _).mono ?_
    rintro content groups
      ⟨first, second, buffer, rfl, ⟨rfl, hLength⟩, rfl, rfl⟩
    rw [← hLength] at hWhole
    simp [groupsOf, Nat.mul_div_cancel' hWhole]

theorem readRest_consumes
    (group : SpreadGroup)
    (header : Header) :
    Consumes (readRest group header)
      (fun content message =>
        content.length + (maxGroupName + 16) =
          message.wireLength) := by
  unfold readRest
  split_ifs with hInvalid
  · exact Consumes.throw _
  · refine ((readOldType_consumes _).bind fun serviceType =>
      (readGroups_consumes _).bind fun groups =>
        (readBuffer_consumes _ _ _).bind fun data =>
          (Consumes.ofExcept _).bind fun found =>
            Consumes.pure _).mono ?_
    rintro content message
      ⟨first, _, serviceType, rfl, ⟨hOld, _⟩, second, _,
        groups, rfl, hGroups, third, _, data, rfl,
        ⟨rfl, hData⟩, fourth, _, found, rfl, ⟨rfl, _⟩, rfl,
        rfl⟩
    have hReject :
        ServiceType.isReject (clearEndian serviceType) =
          ServiceType.isReject serviceType := by
      have hMask :
          (~~~endianType) &&& ServiceType.rejectMess =
            ServiceType.rejectMess := by
        decide
      simp only [ServiceType.isReject, ServiceType.has,
        clearEndian, BitVec.and_assoc, hMask]
    simp only [SpreadMessage.wireLength, headerBytes,
      SpreadMessage.isReject, hReject, List.length_append,
      hOld, hGroups]
    simp
    omega

/- A received message took the bytes of its parts. -/
theorem internalReceive_consumes
    (connected : Bool)
    (group : SpreadGroup) :
    Consumes (internalReceive connected group)
      (fun content message =>
        content.length = message.wireLength) := by
  unfold internalReceive
  split_ifs with hConnected
  · exact Consumes.throw _
  · refine ((readBuffer_consumes _ _ _).bind fun buffer =>
      (Consumes.ofExcept _).bind fun header =>
        readRest_consumes group header).mono ?_
    rintro content message
      ⟨first, second, buffer, rfl, ⟨rfl, hLength⟩, third,
        fourth, header, rfl, ⟨rfl, _⟩, hRest⟩
    rw [List.nil_append, List.length_append, hLength, ← hRest]
    omega

/- Also a reading that fails takes a first part only. -/
theorem internalReceive_takesPrefix
    (connected : Bool)
    (group : SpreadGroup) :
    TakesPrefix (internalReceive connected group) := by
  have hBuffer :
      ∀ length closed failed,
        TakesPrefix (readBuffer length closed failed) :=
    fun _ _ _ => TakesPrefix.read _ _ _
  have hOldType :
      ∀ serviceType, TakesPrefix (readOldType serviceType) := by
    intro serviceType
    unfold readOldType
    split
    · exact (hBuffer _ _ _).bind fun _ =>
        (TakesPrefix.ofExcept _).bind fun _ =>
          TakesPrefix.pure _
    · exact TakesPrefix.pure _
  have hGroups :
      ∀ numGroups, TakesPrefix (readGroups numGroups) := by
    intro numGroups
    unfold readGroups
    simp only
    split_ifs
    · exact TakesPrefix.ofExcept _
    · exact (hBuffer _ _ _).bind fun _ => TakesPrefix.pure _
  have hRest :
      ∀ header, TakesPrefix (readRest group header) := by
    intro header
    unfold readRest
    split_ifs
    · exact TakesPrefix.ofExcept _
    · exact (hOldType _).bind fun _ =>
        (hGroups _).bind fun _ =>
          (hBuffer _ _ _).bind fun _ =>
            (TakesPrefix.ofExcept _).bind fun _ =>
              TakesPrefix.pure _
  unfold internalReceive
  split_ifs
  · exact TakesPrefix.ofExcept _
  · exact (hBuffer _ _ _).bind fun _ =>
      (TakesPrefix.ofExcept _).bind fun _ => hRest _

end SpreadConnection

namespace RegularMessage

theorem length_frame
    (m : RegularMessage)
    (order source : ByteOrder) :
    (m.frame order source).length =
      (m.incoming source).wireLength := by
  have hReject : (m.incoming source).isReject = false := by
    have hBoth := m.regular
    simp only [ServiceType.isRegular, Bool.and_eq_true,
      Bool.not_eq_true'] at hBoth
    exact hBoth.2
  have hComm := Nat.mul_comm maxGroupName m.groups.length
  rw [SpreadMessage.wireLength, hReject]
  simp [frame, incoming, headerBytes]
  omega

end RegularMessage

end ReplicatedAccount
