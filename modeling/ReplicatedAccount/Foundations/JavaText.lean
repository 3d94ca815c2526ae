import Mathlib.Data.List.DropRight
import Mathlib.Data.Rat.Init
import Mathlib.Tactic.NormNum
import Mathlib.Tactic.IntervalCases

/-
  The parts of `java.lang.String` and `java.lang.Integer`
  that small text protocols are written with: `trim`,
  `startsWith`, `split` at single spaces, decimal printing
  and `Integer.parseInt`.

  Key definitions include:
    * `JavaText.trim`
    * `JavaText.startsWith`
    * `JavaText.split`
    * `JavaText.digit`
    * `JavaText.parseInt`
    * `JavaText.intToString`
    * `JavaText.parseDecimal`

  Key theorems include:
    * `JavaText.split_pair`
    * `JavaText.parseInt_intToString`
    * `JavaText.intToString_injective`
-/

------------------------------------------------------------
-- Trimming, Prefixes and Splitting
------------------------------------------------------------

namespace Foundations

namespace JavaText

/- `String.trim` counts every char up to U+0020 as blank. -/
def isBlank (c : Char) : Bool :=
  c.toNat ≤ 0x20

/- `String.trim`: drop the blanks at both ends. -/
def trim (s : String) : String :=
  String.ofList
    ((s.toList.dropWhile isBlank).rdropWhile isBlank)

/- `s.startsWith(beginning)`. -/
def startsWith (s beginning : String) : Bool :=
  beginning.toList.isPrefixOf s.toList

/-
  `String.split(" ")` on characters.  A text without a space
  is its own only part, even when it is empty; otherwise
  trailing empty parts are dropped, and inner or leading
  empty parts are kept.
-/
def splitChars (cs : List Char) : List (List Char) :=
  if ' ' ∈ cs then
    (cs.splitOn ' ').rdropWhile List.isEmpty
  else
    [cs]

/- `String.split(" ")`. -/
def split (s : String) : List String :=
  (splitChars s.toList).map String.ofList

/- Two space-free parts around one space split apart again. -/
theorem split_pair
    (left right : String)
    (hLeft : ' ' ∉ left.toList)
    (hRight : ' ' ∉ right.toList)
    (hNonempty : right ≠ "") :
    split (left ++ " " ++ right) = [left, right] := by
  have hChars :
      (left ++ " " ++ right).toList =
        left.toList ++ ' ' :: right.toList := by
    simp [String.toList_append]
  have hSplit :
      (left.toList ++ ' ' :: right.toList).splitOn ' ' =
        [left.toList, right.toList] := by
    rw [List.splitOn_append_cons_self_of_not_mem hLeft,
      List.splitOn_eq_singleton hRight]
  have hLast : right.toList.isEmpty = false := by
    cases hRightChars : right.toList with
    | nil =>
        exact (hNonempty
          (String.toList_inj.mp (by simpa using hRightChars))).elim
    | cons c cs => rfl
  have hKept :
      [left.toList, right.toList].rdropWhile List.isEmpty =
        [left.toList, right.toList] :=
    List.rdropWhile_concat_neg _ [left.toList]
      right.toList (by simp [hLast])
  simp [split, splitChars, hChars, hSplit, hKept]

/- The first part of a text is a prefix of the text. -/
theorem first_part_isPrefix
    {cs part : List Char}
    (hFirst : (splitChars cs)[0]? = some part) :
    part <+: cs := by
  unfold splitChars at hFirst
  split_ifs at hFirst with hSpace
  · have hKept :=
      List.rdropWhile_prefix (p := List.isEmpty)
        (l := cs.splitOn ' ')
    rcases hKept with ⟨dropped, hParts⟩
    have hHead : (cs.splitOn ' ')[0]? = some part := by
      rw [← hParts, List.getElem?_append_left
        (List.getElem?_eq_some_iff.mp hFirst).1]
      exact hFirst
    have hJoined : [' '].intercalate (cs.splitOn ' ') = cs :=
      List.intercalate_splitOn ' '
    cases hAll : cs.splitOn ' ' with
    | nil => simp [hAll] at hHead
    | cons first rest =>
        have hSame : first = part := by
          simpa [hAll] using hHead
        rw [hAll, hSame] at hJoined
        rw [← hJoined]
        cases rest with
        | nil => simp
        | cons next rest => simp [List.intercalate]
  · have hSame : cs = part := by simpa using hFirst
    exact hSame ▸ List.prefix_rfl

theorem startsWith_first_part
    {s part : String}
    (hFirst : (split s)[0]? = some part) :
    startsWith s part := by
  rw [split, List.getElem?_map,
    Option.map_eq_some_iff] at hFirst
  rcases hFirst with ⟨cs, hChars, rfl⟩
  simpa [startsWith] using first_part_isPrefix hChars

theorem startsWith_iff
    (s beginning : String) :
    startsWith s beginning ↔
      beginning.toList <+: s.toList := by
  simp [startsWith]

/- Of two beginnings of a text, one begins with the other. -/
theorem startsWith_both
    {s left right : String}
    (hLeft : startsWith s left)
    (hRight : startsWith s right) :
    startsWith left right ∨ startsWith right left := by
  rw [startsWith_iff] at *
  rw [startsWith_iff]
  exact (List.prefix_or_prefix_of_prefix hRight hLeft)

/- Splitting a text that does not end with a space. -/
theorem exists_last_part
    (cs : List Char)
    {c : Char}
    (hLast : c ≠ ' ') :
    ∃ parts last,
      (cs ++ [c]).splitOn ' ' = parts ++ [last ++ [c]] := by
  induction cs with
  | nil =>
      refine ⟨[], [], ?_⟩
      exact List.splitOn_eq_singleton (by simpa using hLast.symm)
  | cons d cs ih =>
      rcases ih with ⟨parts, last, hParts⟩
      rw [List.cons_append, List.splitOn_cons_eq_if_modifyHead,
        hParts]
      by_cases hSpace : (d == ' ') = true
      · rw [if_pos hSpace]
        exact ⟨[] :: parts, last, rfl⟩
      · rw [if_neg hSpace]
        cases parts with
        | nil => exact ⟨[], d :: last, rfl⟩
        | cons part parts =>
            exact ⟨(d :: part) :: parts, last, rfl⟩

theorem splitChars_concat
    (cs : List Char)
    {c : Char}
    (hLast : c ≠ ' ') :
    splitChars (cs ++ [c]) = (cs ++ [c]).splitOn ' ' := by
  unfold splitChars
  split_ifs with hSpace
  · rcases exists_last_part cs hLast with ⟨parts, last, hParts⟩
    rw [hParts, List.rdropWhile_concat_neg]
    simp
  · exact (List.splitOn_eq_singleton hSpace).symm

theorem length_splitOn
    (cs : List Char) :
    (cs.splitOn ' ').length = cs.count ' ' + 1 := by
  induction cs with
  | nil => simp
  | cons d cs ih =>
      rw [List.splitOn_cons_eq_if_modifyHead]
      by_cases hSpace : d = ' '
      · simp [hSpace, ih]
      · simp [hSpace, ih]

/- Such a text has one part more than it has spaces. -/
theorem length_splitChars_concat
    (cs : List Char)
    {c : Char}
    (hLast : c ≠ ' ') :
    (splitChars (cs ++ [c])).length =
      (cs ++ [c]).count ' ' + 1 := by
  rw [splitChars_concat cs hLast, length_splitOn]

/- Without trailing blanks a text ends with a visible char. -/
theorem rdropWhile_isBlank_cases
    (cs : List Char) :
    cs.rdropWhile isBlank = [] ∨
      ∃ ds c, cs.rdropWhile isBlank = ds ++ [c] ∧
        isBlank c = false := by
  by_cases hEmpty : cs.rdropWhile isBlank = []
  · exact Or.inl hEmpty
  · have hLast :=
      List.rdropWhile_last_not isBlank cs hEmpty
    exact Or.inr ⟨_, _,
      (List.dropLast_concat_getLast hEmpty).symm,
      by simpa using hLast⟩

theorem ne_space_of_visible
    {c : Char}
    (hVisible : isBlank c = false) :
    c ≠ ' ' := by
  rintro rfl
  exact absurd hVisible (by decide)

/- One part of a trimmed text is the whole text. -/
theorem trim_eq_of_single_part
    {s part : String}
    (hFirst : (split (trim s))[0]? = some part)
    (hLength : (split (trim s)).length = 1) :
    trim s = part := by
  have hTrimmed :
      (trim s).toList =
        (s.toList.dropWhile isBlank).rdropWhile isBlank := by
    simp [trim]
  have hNoSpace : ' ' ∉ (trim s).toList := by
    rcases
        rdropWhile_isBlank_cases (s.toList.dropWhile isBlank)
      with hEmpty | ⟨cs, c, hChars, hVisible⟩
    · simp [hTrimmed, hEmpty]
    · rw [split, List.length_map, hTrimmed, hChars,
        length_splitChars_concat cs
          (ne_space_of_visible hVisible)] at hLength
      rw [hTrimmed, hChars]
      exact List.count_eq_zero.mp (by omega)
  simpa [split, splitChars, hNoSpace] using hFirst

/- The text without the blanks at its end. -/
def withoutTrailingBlanks (s : String) : String :=
  String.ofList (s.toList.rdropWhile isBlank)

theorem rdropWhile_append
    {α : Type}
    (p : α → Bool)
    (left right : List α) :
    (left ++ right).rdropWhile p =
      if right.rdropWhile p = [] then
        left.rdropWhile p
      else
        left ++ right.rdropWhile p := by
  induction right using List.reverseRecOn with
  | nil => simp
  | append_singleton right a ih =>
      rw [← List.append_assoc, List.rdropWhile_concat,
        List.rdropWhile_concat]
      cases hEnd : p a with
      | true => simpa using ih
      | false => simp

theorem withoutTrailingBlanks_cases
    (s : String) :
    withoutTrailingBlanks s = "" ∨
      ∃ cs c,
        (withoutTrailingBlanks s).toList = cs ++ [c] ∧
          isBlank c = false := by
  rcases rdropWhile_isBlank_cases s.toList with
    hEmpty | ⟨cs, c, hChars, hVisible⟩
  · exact Or.inl (by simp [withoutTrailingBlanks, hEmpty])
  · exact Or.inr ⟨cs, c,
      by simp [withoutTrailingBlanks, hChars], hVisible⟩

/- Nothing is dropped behind a visible text. -/
theorem withoutTrailingBlanks_append
    (s : String)
    {t : String}
    (hNonempty : t ≠ "")
    (hVisible : ∀ c ∈ t.toList, isBlank c = false) :
    withoutTrailingBlanks (s ++ t) = s ++ t := by
  have hChars : t.toList ≠ [] := by
    simpa using hNonempty
  have hKept : t.toList.rdropWhile isBlank = t.toList := by
    rw [List.rdropWhile_eq_self_iff]
    intro hList
    simp [hVisible _ (List.getLast_mem hList)]
  unfold withoutTrailingBlanks
  rw [String.toList_append, rdropWhile_append, hKept,
    if_neg hChars]
  simp

/-
  A word and a text behind it are two parts, unless the
  text has spaces of its own.
-/
theorem length_split_word_append
    (word : String)
    {rest : String}
    {cs : List Char}
    {c : Char}
    (hWord : ' ' ∉ word.toList)
    (hRest : rest.toList = cs ++ [c])
    (hLast : c ≠ ' ') :
    (split (word ++ " " ++ rest)).length = 2 ↔
      ' ' ∉ rest.toList := by
  have hChars :
      (word ++ " " ++ rest).toList =
        (word.toList ++ ' ' :: cs) ++ [c] := by
    simp [String.toList_append, hRest]
  have hWordCount : word.toList.count ' ' = 0 :=
    List.count_eq_zero.mpr hWord
  rw [split, List.length_map, hChars,
    length_splitChars_concat _ hLast, ← List.count_eq_zero,
    hRest, List.append_assoc, List.count_append, hWordCount,
    List.cons_append, List.count_cons_self]
  omega

/- Trimming a text behind a visible word and a space. -/
theorem trim_word_append
    (word : String)
    (hWord : word ≠ "")
    (hVisible : ∀ c ∈ word.toList, isBlank c = false)
    (s : String) :
    trim (word ++ " " ++ s) =
      if withoutTrailingBlanks s = "" then
        word
      else
        word ++ " " ++ withoutTrailingBlanks s := by
  have hSpace : isBlank ' ' = true := by decide
  have hNonempty : word.toList ≠ [] := by
    simpa using hWord
  rcases List.exists_cons_of_ne_nil hNonempty with
    ⟨c, cs, hChars⟩
  rw [hChars] at hVisible
  have hFirst : isBlank c = false := hVisible c (by simp)
  have hWhole :
      (word ++ " " ++ s).toList.dropWhile isBlank =
        (c :: cs) ++ ' ' :: s.toList := by
    simp [String.toList_append, hChars, hFirst]
  have hKept :
      (c :: cs).rdropWhile isBlank = c :: cs := by
    rw [List.rdropWhile_eq_self_iff]
    intro hCons
    simp [hVisible _ (List.getLast_mem hCons)]
  have hTail :
      (' ' :: s.toList).rdropWhile isBlank =
        if s.toList.rdropWhile isBlank = [] then
          []
        else
          ' ' :: s.toList.rdropWhile isBlank := by
    have hAppend :=
      rdropWhile_append isBlank [' '] s.toList
    simpa [List.rdropWhile_singleton, hSpace] using hAppend
  unfold trim withoutTrailingBlanks
  rw [hWhole, rdropWhile_append, hTail, hKept, ← hChars]
  by_cases hEmpty : s.toList.rdropWhile isBlank = []
  · simp [hEmpty]
  · simp [hEmpty, ← String.toList_inj, String.toList_append]

end JavaText

end Foundations

------------------------------------------------------------
-- Decimal Integers
------------------------------------------------------------

namespace Foundations

namespace JavaText

/-
  The zero digits of the decimal digit blocks of the basic
  multilingual plane, as `Character.digit(c, 10)` knows them.
-/
def digitZeros : List Nat :=
  [0x30, 0x660, 0x6f0, 0x7c0, 0x966, 0x9e6, 0xa66, 0xae6,
    0xb66, 0xbe6, 0xc66, 0xce6, 0xd66, 0xde6, 0xe50, 0xed0,
    0xf20, 0x1040, 0x1090, 0x17e0, 0x1810, 0x1946, 0x19d0,
    0x1a80, 0x1a90, 0x1b50, 0x1bb0, 0x1c40, 0x1c50, 0xa620,
    0xa8d0, 0xa900, 0xa9d0, 0xa9f0, 0xaa50, 0xabf0, 0xff10]

/- `Character.digit(c, 10)`. -/
def digit (c : Char) : Option Nat :=
  (digitZeros.find?
    fun first => first ≤ c.toNat ∧ c.toNat < first + 10).map
      fun first => c.toNat - first

/- Read digits from the left onto an accumulator. -/
def accumulate (acc : Nat) : List Char → Option Nat
| [] => some acc
| c :: cs =>
    match digit c with
    | none => none
    | some d => accumulate (acc * 10 + d) cs

/- The value of a nonempty digit text. -/
def magnitude : List Char → Option Nat
| [] => none
| c :: cs => accumulate 0 (c :: cs)

/-
  `Integer.parseInt`; `none` stands for the
  `NumberFormatException`.
-/
def parseInt (s : String) : Option Int32 :=
  match s.toList with
  | '-' :: digits =>
      (magnitude digits).bind fun m =>
        if m ≤ 2 ^ 31 then some (Int32.ofInt (-m)) else none
  | '+' :: digits =>
      (magnitude digits).bind fun m =>
        if m < 2 ^ 31 then some (Int32.ofInt m) else none
  | digits =>
      (magnitude digits).bind fun m =>
        if m < 2 ^ 31 then some (Int32.ofInt m) else none

/- `String.valueOf(int)`, also used by `+` on strings. -/
def intToString (n : Int32) : String :=
  toString n.toInt

theorem digit_digitChar
    {d : Nat}
    (hd : d < 10) :
    digit d.digitChar = some d := by
  interval_cases d <;> decide

theorem accumulate_append
    (acc : Nat)
    (cs ds : List Char) :
    accumulate acc (cs ++ ds) =
      (accumulate acc cs).bind
        fun m => accumulate m ds := by
  induction cs generalizing acc with
  | nil => rfl
  | cons c cs ih =>
      cases hDigit : digit c with
      | none => simp [accumulate, hDigit]
      | some d => simp [accumulate, hDigit, ih]

/- Decimal digits read back to their number. -/
theorem accumulate_toDigits
    (n : Nat) :
    accumulate 0 (Nat.toDigits 10 n) = some n := by
  induction n using Nat.strong_induction_on with
  | _ n ih =>
      have hMod := digit_digitChar
        (Nat.mod_lt n (by omega : 0 < 10))
      rw [Nat.toDigits_eq_if (by omega)]
      by_cases hSmall : n < 10
      · have hDigit := digit_digitChar hSmall
        simp [hSmall, accumulate, hDigit]
      · rw [if_neg hSmall, accumulate_append,
          ih (n / 10) (by omega)]
        simp only [Option.bind_some, accumulate, hMod]
        congr 1
        omega

theorem magnitude_toDigits
    (n : Nat) :
    magnitude (Nat.toDigits 10 n) = some n := by
  have hValue := accumulate_toDigits n
  cases hDigits : Nat.toDigits 10 n with
  | nil => exact (Nat.toDigits_ne_nil hDigits).elim
  | cons c cs => simpa [magnitude, hDigits] using hValue

/- A printed natural number starts with a digit, not a sign. -/
theorem parseInt_repr
    (n : Nat)
    (hBound : n < 2 ^ 31) :
    parseInt n.repr = some (Int32.ofInt n) := by
  have hValue := magnitude_toDigits n
  have hFirst :
      ∀ c ∈ Nat.toDigits 10 n, c.isDigit :=
    fun c hc =>
      Nat.isDigit_of_mem_toDigits (by omega) (by omega) hc
  unfold parseInt
  rw [Nat.toList_repr]
  cases hDigits : Nat.toDigits 10 n with
  | nil => exact (Nat.toDigits_ne_nil hDigits).elim
  | cons c cs =>
      have hc : c.isDigit := hFirst c (by simp [hDigits])
      rw [hDigits] at hValue
      split
      · rename_i hMinus
        cases hMinus
        simp at hc
      · rename_i hPlus
        cases hPlus
        simp at hc
      · rw [hValue, Option.bind_some, if_pos hBound]

/- A printed int is its digits, after a sign if negative. -/
theorem intToString_of_nonnegative
    {n : Int32}
    {m : Nat}
    (hInt : n.toInt = .ofNat m) :
    intToString n = m.repr := by
  rw [intToString, hInt]
  rfl

theorem toList_intToString_of_negative
    {n : Int32}
    {m : Nat}
    (hInt : n.toInt = .negSucc m) :
    (intToString n).toList =
      '-' :: Nat.toDigits 10 (m + 1) := by
  simp [intToString, hInt, toString, Int.repr,
    String.toList_append]

/- Parsing a printed int gives the int back. -/
theorem parseInt_intToString
    (n : Int32) :
    parseInt (intToString n) = some n := by
  have hUpper : n.toInt < 2 ^ 31 := n.toInt_lt
  have hLower : -2 ^ 31 ≤ n.toInt := n.le_toInt
  have hRestore : Int32.ofInt n.toInt = n := by simp
  cases hInt : n.toInt with
  | ofNat m =>
      rw [intToString_of_nonnegative hInt, parseInt_repr m (by
        rw [hInt] at hUpper
        simpa using hUpper)]
      rw [← hRestore, hInt]
      rfl
  | negSucc m =>
      have hSmall : m + 1 ≤ 2 ^ 31 := by
        rw [hInt] at hLower
        omega
      have hNegated :
          Int32.ofInt (-((m + 1 : Nat) : Int)) = n := by
        rw [← hRestore, hInt]
        congr 1
      unfold parseInt
      rw [toList_intToString_of_negative hInt]
      simp only [magnitude_toDigits, Option.bind_some,
        if_pos hSmall, hNegated]

theorem intToString_injective :
    Function.Injective intToString := by
  intro m n hEq
  have hParsed := congrArg parseInt hEq
  simpa [parseInt_intToString] using hParsed

theorem isBlank_of_isDigit
    {c : Char}
    (hDigit : c.isDigit) :
    isBlank c = false := by
  rw [Char.isDigit_iff_toNat] at hDigit
  have hZero : '0'.toNat = 0x30 := rfl
  unfold isBlank
  rw [decide_eq_false_iff_not]
  omega

/- Printed ints are nonempty and contain no blanks. -/
theorem isBlank_of_mem_intToString
    {n : Int32}
    {c : Char}
    (hc : c ∈ (intToString n).toList) :
    isBlank c = false := by
  have hDigits :
      ∀ m : Nat, c ∈ Nat.toDigits 10 m → isBlank c = false := by
    intro m hMem
    exact isBlank_of_isDigit
      (Nat.isDigit_of_mem_toDigits (by omega) (by omega) hMem)
  cases hInt : n.toInt with
  | ofNat m =>
      rw [intToString_of_nonnegative hInt, Nat.toList_repr]
        at hc
      exact hDigits m hc
  | negSucc m =>
      rw [toList_intToString_of_negative hInt] at hc
      rcases List.mem_cons.mp hc with rfl | hc
      · decide
      · exact hDigits (m + 1) hc

theorem space_not_mem_intToString
    (n : Int32) :
    ' ' ∉ (intToString n).toList := by
  intro hSpace
  exact ne_space_of_visible
    (isBlank_of_mem_intToString hSpace) rfl

theorem intToString_ne_empty
    (n : Int32) :
    intToString n ≠ "" := by
  intro hEmpty
  have hParsed := parseInt_intToString n
  rw [hEmpty] at hParsed
  simp [parseInt, magnitude] at hParsed

end JavaText

end Foundations

------------------------------------------------------------
-- Plain Decimal Literals
------------------------------------------------------------

namespace Foundations

namespace JavaText

/- Digits with an optional fraction, as an exact number. -/
def unsignedDecimal (cs : List Char) : Option ℚ :=
  let whole := cs.takeWhile Char.isDigit
  match cs.dropWhile Char.isDigit with
  | [] =>
      if whole.isEmpty then
        none
      else
        some (Nat.ofDigitChars 10 whole 0)
  | '.' :: fraction =>
      if fraction.all Char.isDigit &&
          !(whole.isEmpty && fraction.isEmpty) then
        some
          ((Nat.ofDigitChars 10 (whole ++ fraction) 0 : ℚ) /
            (10 ^ fraction.length : ℚ))
      else
        none
  | _ => none

/-
  The literals of `Double.parseDouble` without exponent,
  type suffix or hexadecimal digits, read without rounding.
-/
def parseDecimal (s : String) : Option ℚ :=
  match s.toList with
  | '-' :: cs => (unsignedDecimal cs).map fun q => -q
  | '+' :: cs => unsignedDecimal cs
  | cs => unsignedDecimal cs

end JavaText

end Foundations
