import Mathlib.Data.List.Basic
import Mathlib.Tactic.Ring
import RecordMerge.Number.Bounds
import RecordMerge.Number.Shortest

/-!
Numbers written and read back. A decimal comes back digit for digit, with its trailing zeros, its
exponent and the sign of a zero; a finite binary number comes back as a finite decimal.
-/

set_option autoImplicit false

namespace RecordMerge.Number

theorem isDigit_of_mem_numeral {number : Nat} {char : Char} (member : char ∈ numeral number) :
    char.isDigit = true :=
  Nat.isDigit_of_mem_toDigits (by decide) (by decide) member

theorem numeral_ne_nil (number : Nat) : numeral number ≠ [] :=
  Nat.toDigits_ne_nil

theorem numeralValue_append_zeros (digits : List Char) (count : Nat) :
    numeralValue (digits ++ List.replicate count '0') = numeralValue digits * 10 ^ count := by
  induction count with
  | zero => simp
  | succ count tail =>
    rw [List.replicate_succ', ← List.append_assoc, numeralValue_append_single, tail, pow_succ]
    have zero : '0'.toNat - 48 = 0 := by decide
    rw [zero]
    ring

theorem numeralValue_zeros_append (count : Nat) (digits : List Char) :
    numeralValue (List.replicate count '0' ++ digits) = numeralValue digits := by
  induction count with
  | zero => rfl
  | succ count tail => exact tail

namespace Decimal

/-- What may follow the digits of a number: nothing, or a mark and an exponent. -/
inductive Tail : List Char → Int → Prop where
  | absent : Tail [] 0
  | exponent {mark : Char} {digits : List Char} {negative : Bool} :
      mark = 'e' ∨ mark = 'E' → digits ≠ [] → (∀ digit ∈ digits, digit.isDigit = true) →
      Tail (mark :: (if negative then '-' else '+') :: digits)
        (if negative then -(numeralValue digits : Int) else numeralValue digits)

/-- The text has the given digits and stands for that coefficient at that power of ten. -/
inductive Denotes : List Char → Nat → Int → Prop where
  | whole {digits rest : List Char} {place : Int} : digits ≠ [] →
      (∀ digit ∈ digits, digit.isDigit = true) → Tail rest place →
      Denotes (digits ++ rest) (numeralValue digits) place
  | pointed {digits fraction rest : List Char} {place : Int} : digits ≠ [] →
      (∀ digit ∈ digits, digit.isDigit = true) → (∀ digit ∈ fraction, digit.isDigit = true) →
      Tail rest place →
      Denotes (digits ++ '.' :: (fraction ++ rest)) (numeralValue (digits ++ fraction))
        (place - fraction.length)

theorem Tail.readExponent_eq {rest : List Char} {place : Int} (tail : Tail rest place) :
    readExponent rest = some place := by
  cases tail with
  | absent => rfl
  | @exponent mark digits negative marked nonempty digit =>
    have known : (mark == 'e' || mark == 'E') = true := by simpa using marked
    have all : digits.all Char.isDigit = true := List.all_eq_true.mpr digit
    cases negative <;> simp [readExponent, splitSign, known, nonempty, all]

/-- Neither a digit nor a point begins what follows the digits. -/
theorem Tail.stops {rest : List Char} {place : Int} (tail : Tail rest place) :
    rest.takeWhile Char.isDigit = [] ∧ rest.dropWhile Char.isDigit = rest ∧
      rest.head? ≠ some '.' := by
  cases tail with
  | absent => simp
  | exponent marked nonempty digit => rcases marked with rfl | rfl <;> simp

theorem readFinite_of_dropWhile {negative : Bool} {chars whole rest : List Char}
    (nonempty : whole ≠ []) (taken : chars.takeWhile Char.isDigit = whole)
    (dropped : chars.dropWhile Char.isDigit = rest) (noPoint : rest.head? ≠ some '.') :
    readFinite negative chars = (readExponent rest).map fun exponent =>
      .finite negative (numeralValue whole) exponent := by
  rw [readFinite, taken, dropped]
  split
  next fraction others found =>
    split at found
    · simp at noPoint
    · cases found
      simp [nonempty]

theorem Denotes.readFinite_eq {chars : List Char} {coefficient : Nat} {place : Int}
    (denotes : Denotes chars coefficient place) (negative : Bool) :
    readFinite negative chars = some (.finite negative coefficient place) := by
  cases denotes with
  | @whole digits rest place nonempty digit tail =>
    obtain ⟨none, all, noPoint⟩ := tail.stops
    have taken : (digits ++ rest).takeWhile Char.isDigit = digits := by
      rw [List.takeWhile_append_of_pos digit, none, List.append_nil]
    have dropped : (digits ++ rest).dropWhile Char.isDigit = rest := by
      rw [List.dropWhile_append_of_pos digit, all]
    rw [readFinite_of_dropWhile nonempty taken dropped noPoint, tail.readExponent_eq]
    rfl
  | @pointed digits fraction rest place nonempty digit digit' tail =>
    obtain ⟨none, all, -⟩ := tail.stops
    have point : ('.' :: (fraction ++ rest)).takeWhile Char.isDigit = [] := rfl
    have point' :
        ('.' :: (fraction ++ rest)).dropWhile Char.isDigit = '.' :: (fraction ++ rest) := rfl
    simp only [readFinite, List.takeWhile_append_of_pos digit, List.dropWhile_append_of_pos digit,
      List.takeWhile_append_of_pos digit', List.dropWhile_append_of_pos digit', point, point',
      none, all, List.append_nil]
    simp [nonempty, tail.readExponent_eq]

theorem Denotes.exists_digit {chars : List Char} {coefficient : Nat} {place : Int}
    (denotes : Denotes chars coefficient place) :
    ∃ digit rest, chars = digit :: rest ∧ digit.isDigit = true := by
  cases denotes with
  | whole nonempty digit tail | pointed nonempty digit digit' tail =>
    obtain ⟨first, others, rfl⟩ := List.exists_cons_of_ne_nil nonempty
    exact ⟨first, _, rfl, digit first List.mem_cons_self⟩

theorem plainDigit_of_isDigit {char : Char} (digit : char.isDigit = true) :
    plainDigit char = char := by
  have small : char.toNat < 128 := by
    simp only [Char.isDigit, Bool.and_eq_true, decide_eq_true_eq] at digit
    exact Nat.lt_of_le_of_lt (UInt32.le_iff_toNat_le.mp digit.2) (by decide)
  simp [plainDigit, small]

theorem map_plainDigit {digits : List Char} (digit : ∀ digit ∈ digits, digit.isDigit = true) :
    digits.map plainDigit = digits := by
  conv_rhs => rw [← List.map_id digits]
  exact List.map_congr_left fun char member => plainDigit_of_isDigit (digit char member)

theorem Tail.map_plainDigit {rest : List Char} {place : Int} (tail : Tail rest place) :
    rest.map plainDigit = rest := by
  cases tail with
  | absent => rfl
  | @exponent mark digits negative marked nonempty digit =>
    have mark_eq : plainDigit mark = mark := by rcases marked with rfl | rfl <;> decide
    have sign_eq : plainDigit (if negative then '-' else '+') = if negative then '-' else '+' := by
      cases negative <;> decide
    rw [List.map_cons, List.map_cons, mark_eq, sign_eq, Decimal.map_plainDigit digit]

theorem Denotes.map_plainDigit {chars : List Char} {coefficient : Nat} {place : Int}
    (denotes : Denotes chars coefficient place) : chars.map plainDigit = chars := by
  cases denotes with
  | whole nonempty digit tail =>
    rw [List.map_append, Decimal.map_plainDigit digit, tail.map_plainDigit]
  | pointed nonempty digit digit' tail =>
    have point : plainDigit '.' = '.' := by decide
    rw [List.map_append, List.map_cons, List.map_append, Decimal.map_plainDigit digit,
      Decimal.map_plainDigit digit', tail.map_plainDigit, point]

/-- A text that begins with a digit is none of the words. -/
theorem ofChars?_of_digit {negative : Bool} {chars rest : List Char} {digit : Char}
    (split : splitSign (chars.map plainDigit) = (negative, digit :: rest))
    (isDigit : digit.isDigit = true) : ofChars? chars = readFinite negative (digit :: rest) := by
  have lower (char : Char) (letter : char.isDigit = false) : digit.toLower ≠ char := by
    have same : digit.toLower = digit := by
      unfold Char.toLower
      rw [dif_neg]
      rintro ⟨capital, -⟩
      simp only [Char.isDigit, Bool.and_eq_true, decide_eq_true_eq] at isDigit
      exact absurd (UInt32.le_trans capital isDigit.2) (by decide)
    rintro rfl
    rw [same, isDigit] at letter
    cases letter
  rw [ofChars?, split]
  simp only [List.map_cons]
  split
  · next found => exact absurd (List.cons.inj found).1 (lower _ rfl)
  · next found => exact absurd (List.cons.inj found).1 (lower _ rfl)
  · next found => exact absurd (List.cons.inj found).1 (lower _ rfl)
  · next found => exact absurd (List.cons.inj found).1 (lower _ rfl)
  · rfl

theorem Denotes.ofChars?_eq {chars : List Char} {coefficient : Nat} {place : Int}
    (denotes : Denotes chars coefficient place) (negative : Bool) :
    ofChars? ((if negative then ['-'] else []) ++ chars) =
      some (.finite negative coefficient place) := by
  obtain ⟨digit, rest, rfl, isDigit⟩ := denotes.exists_digit
  have split : splitSign (((if negative then ['-'] else []) ++ digit :: rest).map plainDigit) =
      (negative, digit :: rest) := by
    have same := denotes.map_plainDigit
    rw [List.map_append, same]
    cases negative with
    | true => rfl
    | false =>
      simp only [Bool.false_eq_true, if_false, List.map_nil, List.nil_append]
      unfold splitSign
      split
      · next found =>
        cases found
        cases isDigit
      · next found =>
        cases found
        cases isDigit
      · rfl
  rw [ofChars?_of_digit split isDigit, denotes.readFinite_eq]

end Decimal

theorem isDigit_of_mem_zeros {count : Nat} {char : Char}
    (member : char ∈ List.replicate count '0') : char.isDigit = true := by
  rw [List.eq_of_mem_replicate member]
  rfl

-- The point stands in front of all digits, among them, or behind them. Only in the last case are
-- there zeros that count.
theorem Decimal.denotes_placePoint {digits rest : List Char} {exponent : Int}
    (digit : ∀ digit ∈ digits, digit.isDigit = true) (place : Int)
    (tail : Decimal.Tail rest exponent) :
    Decimal.Denotes (placePoint digits place ++ rest)
      (numeralValue digits * 10 ^ (place - digits.length).toNat)
      (exponent - (digits.length - place).toNat) := by
  unfold placePoint
  split
  · next low =>
    have value : numeralValue (['0'] ++ (List.replicate (-place).toNat '0' ++ digits)) =
        numeralValue digits := numeralValue_zeros_append ((-place).toNat + 1) digits
    have size : (List.replicate (-place).toNat '0' ++ digits).length =
        (digits.length - place).toNat := by
      rw [List.length_append, List.length_replicate]
      omega
    have before : (place - digits.length).toNat = 0 := by omega
    have whole : ∀ digit ∈ ['0'], digit.isDigit = true := by simp
    have fraction : ∀ digit ∈ List.replicate (-place).toNat '0' ++ digits, digit.isDigit = true :=
      List.forall_mem_append.mpr ⟨fun _ => isDigit_of_mem_zeros, digit⟩
    have denotes := Denotes.pointed (by simp) whole fraction tail
    rw [value, size] at denotes
    simpa [before] using denotes
  · split
    · next high few =>
      have nonempty : digits ++ List.replicate (place.toNat - digits.length) '0' ≠ [] := by
        rw [← List.length_pos_iff, List.length_append, List.length_replicate]
        omega
      have size : (place - digits.length).toNat = place.toNat - digits.length := by omega
      have none : (digits.length - place).toNat = 0 := by omega
      have denotes := Denotes.whole nonempty
        (List.forall_mem_append.mpr ⟨digit, fun _ => isDigit_of_mem_zeros⟩) tail
      rw [numeralValue_append_zeros] at denotes
      simpa [size, none] using denotes
    · next high many =>
      have nonempty : digits.take place.toNat ≠ [] := by
        rw [← List.length_pos_iff, List.length_take]
        omega
      have size : (digits.drop place.toNat).length = (digits.length - place).toNat := by
        rw [List.length_drop]
        omega
      have before : (place - digits.length).toNat = 0 := by omega
      have whole : ∀ digit ∈ digits.take place.toNat, digit.isDigit = true :=
        fun char member => digit char (List.mem_of_mem_take member)
      have fraction : ∀ digit ∈ digits.drop place.toNat, digit.isDigit = true :=
        fun char member => digit char (List.mem_of_mem_drop member)
      have denotes := Denotes.pointed nonempty whole fraction tail
      rw [List.take_append_drop, size] at denotes
      simpa [before] using denotes

theorem tail_exponentText {layout : Layout} (marked : layout.mark = 'e' ∨ layout.mark = 'E')
    (exponent : Int) : Decimal.Tail (exponentText layout exponent) exponent := by
  generalize digits :
    List.replicate (layout.exponentWidth - (numeral exponent.natAbs).length) '0' ++
      numeral exponent.natAbs = written
  have nonempty : written ≠ [] := by simp [← digits, numeral_ne_nil]
  have digit : ∀ digit ∈ written, digit.isDigit = true := by
    rw [← digits]
    exact List.forall_mem_append.mpr
      ⟨fun _ => isDigit_of_mem_zeros, fun _ => isDigit_of_mem_numeral⟩
  have value : numeralValue written = exponent.natAbs := by
    rw [← digits, numeralValue_zeros_append, numeralValue_numeral]
  have tail (negative : Bool) :
      Decimal.Tail (layout.mark :: (if negative then '-' else '+') :: written)
        (if negative then -(exponent.natAbs : Int) else exponent.natAbs) :=
    value ▸ .exponent marked nonempty digit
  by_cases below : exponent < 0
  · have negated : -(exponent.natAbs : Int) = exponent := by omega
    have negative := tail true
    rw [if_pos rfl, if_pos rfl, negated] at negative
    rwa [exponentText, digits, if_pos below]
  · have same : (exponent.natAbs : Int) = exponent := by omega
    have positive := tail false
    rw [if_neg Bool.false_ne_true, if_neg Bool.false_ne_true, same] at positive
    rwa [exponentText, digits, if_neg below]

theorem isDigit_of_mem_placePoint {digits : List Char}
    (digit : ∀ digit ∈ digits, digit.isDigit = true) {place : Int}
    (noPoint : '.' ∉ placePoint digits place) :
    placePoint digits place ≠ [] ∧ ∀ digit ∈ placePoint digits place, digit.isDigit = true := by
  unfold placePoint at noPoint ⊢
  split at noPoint
  · simp at noPoint
  · next high =>
    split at noPoint
    · next few =>
      rw [if_neg high, if_pos few]
      refine ⟨?_, List.forall_mem_append.mpr ⟨digit, fun _ => isDigit_of_mem_zeros⟩⟩
      rw [← List.length_pos_iff, List.length_append, List.length_replicate]
      omega
    · simp at noPoint

/-- Whatever the layout, digits laid out denote a number. -/
theorem Layout.exists_denotes {layout : Layout} (marked : layout.mark = 'e' ∨ layout.mark = 'E')
    {digits : List Char} (digit : ∀ digit ∈ digits, digit.isDigit = true) (leading : Int) :
    ∃ coefficient place, Decimal.Denotes (layout.write digits leading) coefficient place := by
  unfold Layout.write
  split
  · have body := Decimal.denotes_placePoint digit (leading + 1) .absent
    rw [List.append_nil] at body
    dsimp only
    split
    · next extended =>
      have noPoint : '.' ∉ placePoint digits (leading + 1) := by
        simp only [Bool.and_eq_true, Bool.not_eq_true', List.contains_eq_mem] at extended
        exact of_decide_eq_false extended.2
      obtain ⟨nonempty, all⟩ := isDigit_of_mem_placePoint digit noPoint
      have fraction : ∀ digit ∈ ['0'], digit.isDigit = true := by simp
      exact ⟨_, _, Decimal.Denotes.pointed nonempty all fraction .absent⟩
    · exact ⟨_, _, body⟩
  · exact ⟨_, _, Decimal.denotes_placePoint digit 1 (tail_exponentText marked leading)⟩

namespace Decimal

theorem denotes_write (coefficient : Nat) (exponent : Int) :
    Denotes (layout.write (numeral coefficient) (leadingPlace coefficient exponent)) coefficient
      exponent := by
  have digit : ∀ digit ∈ numeral coefficient, digit.isDigit = true :=
    fun _ => isDigit_of_mem_numeral
  have some : 0 < (numeral coefficient).length := List.length_pos_iff.mpr (numeral_ne_nil _)
  unfold Layout.write leadingPlace
  split
  · next positional =>
    have place : exponent + (numeral coefficient).length - 1 + 1 =
        exponent + (numeral coefficient).length := by omega
    have low : exponent ≤ 0 := by
      simp only [layout, Bool.and_eq_true, decide_eq_true_eq] at positional
      omega
    have before :
        (exponent + (numeral coefficient).length - (numeral coefficient).length).toNat = 0 := by
      omega
    have after : (0 : Int) - ((numeral coefficient).length -
        (exponent + (numeral coefficient).length) : Int).toNat = exponent := by omega
    have body := denotes_placePoint digit (exponent + (numeral coefficient).length) .absent
    rw [before, after, pow_zero, mul_one, numeralValue_numeral, List.append_nil] at body
    rw [place]
    exact body
  · have marked : layout.mark = 'e' ∨ layout.mark = 'E' := Or.inr rfl
    have before : (1 - (numeral coefficient).length : Int).toNat = 0 := by omega
    have after : exponent + (numeral coefficient).length - 1 -
        ((numeral coefficient).length - 1 : Int).toNat = exponent := by omega
    have scientific := denotes_placePoint digit 1
      (tail_exponentText marked (exponent + (numeral coefficient).length - 1))
    rw [before, after, pow_zero, mul_one, numeralValue_numeral] at scientific
    exact scientific

/-- A finite decimal reads back as it was written. -/
theorem ofText?_text (negative : Bool) (coefficient : Nat) (exponent : Int) :
    ofText? (text (.finite negative coefficient exponent)) =
      some (.finite negative coefficient exponent) := by
  rw [text, ofText?, String.toList_ofList]
  exact (denotes_write coefficient exponent).ofChars?_eq negative

end Decimal

namespace Binary64

theorem isDigit_of_mem_shortest {interval : Interval} {char : Char}
    (member : char ∈ interval.shortest.1) : char.isDigit = true := by
  have kept := (List.dropWhile_sublist _).subset (List.mem_reverse.mp member)
  exact isDigit_of_mem_numeral (List.mem_reverse.mp kept)

/-- The shortest text of a finite number denotes a finite decimal. -/
theorem exists_shortestDecimal (negative : Bool) (biased : Fin 2047)
    (fraction : Fin 4503599627370496) :
    ∃ coefficient exponent, shortestDecimal (.finite negative biased fraction) =
      .finite negative coefficient exponent := by
  have digit : ∀ digit ∈ (if significand biased fraction = 0 then (['0'], 0)
      else (Interval.ofFields biased fraction).shortest).1, digit.isDigit = true := by
    split
    · simp
    · exact fun char => isDigit_of_mem_shortest
  have marked : layout.mark = 'e' ∨ layout.mark = 'E' := Or.inl rfl
  obtain ⟨coefficient, exponent, denotes⟩ := Layout.exists_denotes marked digit
    (if significand biased fraction = 0 then (['0'], 0)
      else (Interval.ofFields biased fraction).shortest).2
  refine ⟨coefficient, exponent, ?_⟩
  have read := denotes.ofChars?_eq negative
  rw [shortestDecimal, text, Decimal.ofText?, String.toList_ofList, read]
  rfl

end Binary64

end RecordMerge.Number
