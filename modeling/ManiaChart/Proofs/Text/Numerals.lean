/-
The grammar of numbers as they are written: runs of digits, whole numbers, and
decimal numbers with a point and an exponent. The readers accept exactly what
the grammar derives, with the value it derives (`natural?_eq_some_iff`,
`integer?_eq_some_iff`, `number?_eq_some_iff`). Beyond the grammar `number?`
reads no more than NaN and the infinities, so on finite numbers the two agree.
-/
import ManiaChart.Proofs.Text.Parts
import ManiaChart.Text.Numeral

namespace ManiaChart.Text

/-! ## The grammar -/

/-- A run of at least one digit. -/
structure Digits (text : List Char) : Prop where
  digits : ∀ c ∈ text, c.isDigit = true
  ne_nil : text ≠ []

/-- An optional sign, whether it is a minus, and what follows it. -/
inductive Signed : List Char → Bool → List Char → Prop
  | absent {rest : List Char} : Signed rest false rest
  | plus {rest : List Char} : Signed ('+' :: rest) false rest
  | minus {rest : List Char} : Signed ('-' :: rest) true rest

/-- A whole number without a minus sign. -/
inductive Natural : List Char → Nat → Prop
  | intro {text digits : List Char} : Signed text false digits → Digits digits → Natural text (digitsValue digits)

/-- A whole number. -/
inductive Whole : List Char → Int → Prop
  | intro {text digits : List Char} {negative : Bool} : Signed text negative digits → Digits digits →
      Whole text (if negative then -(digitsValue digits : Int) else digitsValue digits)

/-- The digits of a decimal number, and how many of them follow the point. -/
inductive Mantissa : List Char → List Char → Nat → Prop
  | whole {digits : List Char} : Digits digits → Mantissa digits digits 0
  | point {whole fraction : List Char} : (∀ c ∈ whole, c.isDigit = true) →
      (∀ c ∈ fraction, c.isDigit = true) → whole ++ fraction ≠ [] →
      Mantissa (whole ++ '.' :: fraction) (whole ++ fraction) fraction.length

/-- The exponent of a decimal number, zero if there is none. -/
inductive Exponent : List Char → Int → Prop
  | absent : Exponent [] 0
  | marked {mark : Char} {text : List Char} {exponent : Int} :
      mark = 'e' ∨ mark = 'E' → Whole text exponent → Exponent (mark :: text) exponent

/-- A decimal number, read as the nearest binary64 number. -/
inductive Decimal : List Char → Binary64 → Prop
  | intro {text mantissa digits power : List Char} {negative : Bool} {places : Nat} {exponent : Int} :
      Signed text negative (mantissa ++ power) → Mantissa mantissa digits places → Exponent power exponent →
      Decimal text (Binary64.ofDecimal negative (digitsValue digits) (exponent - places))

/-! ## Whole numbers -/

theorem digits?_eq_some_iff {text : List Char} {n : Nat} :
    digits? text = some n ↔ Digits text ∧ digitsValue text = n := by
  unfold digits?
  by_cases h : (!text.isEmpty && text.all Char.isDigit) = true
  · rw [if_pos h]
    simp only [Bool.and_eq_true, Bool.not_eq_true', List.isEmpty_eq_false_iff, List.all_eq_true] at h
    simp [show Digits text from ⟨h.2, h.1⟩]
  · rw [if_neg h]
    refine ⟨nofun, fun hdigits => absurd ?_ h⟩
    simpa using ⟨hdigits.1.ne_nil, hdigits.1.digits⟩

theorem Digits.ne_sign {c : Char} {rest : List Char} (h : Digits (c :: rest)) : c ≠ '+' ∧ c ≠ '-' := by
  have hdigit := h.digits c List.mem_cons_self
  refine ⟨?_, ?_⟩ <;> (intro heq; subst heq; revert hdigit; decide)

theorem natural?_eq_some_iff {text : List Char} {n : Nat} : natural? text = some n ↔ Natural text n := by
  refine ⟨?_, ?_⟩
  · intro h
    unfold natural? at h
    split at h
    next rest =>
      obtain ⟨hdigits, rfl⟩ := digits?_eq_some_iff.1 h
      exact .intro .plus hdigits
    next =>
      obtain ⟨hdigits, rfl⟩ := digits?_eq_some_iff.1 h
      exact .intro .absent hdigits
  · intro h
    cases h with
    | intro hsign hdigits =>
      cases hsign with
      | plus => exact digits?_eq_some_iff.2 ⟨hdigits, rfl⟩
      | absent =>
        unfold natural?
        split
        next rest => exact absurd rfl hdigits.ne_sign.1
        next => exact digits?_eq_some_iff.2 ⟨hdigits, rfl⟩

theorem integer?_eq_some_iff {text : List Char} {n : Int} : integer? text = some n ↔ Whole text n := by
  refine ⟨?_, ?_⟩
  · intro h
    unfold integer? at h
    split at h
    next rest =>
      obtain ⟨_, hread, rfl⟩ := Option.map_eq_some_iff.1 h
      obtain ⟨k, hk, hread⟩ := Option.bind_eq_some_iff.1 hread
      cases hread
      obtain ⟨hdigits, rfl⟩ := digits?_eq_some_iff.1 hk
      exact .intro .minus hdigits
    next =>
      obtain ⟨k, hk, rfl⟩ := Option.map_eq_some_iff.1 h
      cases natural?_eq_some_iff.1 hk with
      | intro hsign hdigits => exact .intro hsign hdigits
  · intro h
    cases h with
    | intro hsign hdigits =>
      cases hsign with
      | minus =>
        have hread := digits?_eq_some_iff.2 ⟨hdigits, rfl⟩
        simp [integer?, hread]
      | plus =>
        have hread := natural?_eq_some_iff.2 (.intro .plus hdigits)
        simp [integer?, hread]
      | absent =>
        have hread := natural?_eq_some_iff.2 (.intro .absent hdigits)
        unfold integer?
        split
        next rest => exact absurd rfl hdigits.ne_sign.2
        next => simp [hread]

/-! ## Decimal numbers -/

/-- Whether a text does not start with a digit. -/
def NoDigit (text : List Char) : Prop := ∀ c ∈ text.head?, c.isDigit = false

theorem exists_span_digits (text : List Char) :
    ∃ digits rest, text = digits ++ rest ∧ (∀ c ∈ digits, c.isDigit = true) ∧ NoDigit rest := by
  refine ⟨text.takeWhile Char.isDigit, text.dropWhile Char.isDigit, List.takeWhile_append_dropWhile.symm,
    fun c hmem => List.mem_takeWhile_imp hmem, fun c hmem => ?_⟩
  have hhead := List.head?_dropWhile_not Char.isDigit text
  rw [Option.mem_def.1 hmem] at hhead
  simpa using hhead

theorem toLower_eq_e_iff {c : Char} : c.toLower = 'e' ↔ c = 'e' ∨ c = 'E' := by
  unfold Char.toLower
  split
  next hupper =>
    have hfirst : 'A'.toNat = 65 := rfl
    have hlast : 'Z'.toNat = 90 := rfl
    simp only [ge_iff_le, UInt32.le_iff_toNat_le, Char.toNat_val] at hupper
    simp only [Char.ext_iff, UInt32.ext_iff]
    simp
    omega
  next hother =>
    refine (or_iff_left ?_).symm
    rintro rfl
    exact hother (by decide)

theorem exponent?_eq_some_iff {text : List Char} {n : Int} : exponent? text = some n ↔ Exponent text n := by
  cases text with
  | nil =>
    refine ⟨?_, ?_⟩
    · intro h
      cases h
      exact .absent
    · intro h
      cases h
      rfl
  | cons mark rest =>
    simp only [exponent?, toLower_eq_e_iff]
    refine ⟨?_, ?_⟩
    · intro h
      split at h
      next hmark => exact .marked hmark (integer?_eq_some_iff.1 h)
      next => cases h
    · intro h
      cases h with
      | marked hmark hwhole => rw [if_pos hmark, integer?_eq_some_iff.2 hwhole]

theorem Exponent.noDigit {text : List Char} {n : Int} (h : Exponent text n) : NoDigit text := by
  cases h with
  | absent => nofun
  | marked hmark _ =>
    intro c hc
    cases hc
    rcases hmark with rfl | rfl <;> decide

theorem noDigit_point {text : List Char} : NoDigit ('.' :: text) := by
  intro c hc
  cases hc
  decide

theorem unsignedDecimal?_whole {digits power : List Char} (negative : Bool)
    (hdigits : ∀ c ∈ digits, c.isDigit = true) (hpower : NoDigit power) (hpoint : power.head? ≠ some '.') :
    unsignedDecimal? negative (digits ++ power) =
      if digits = [] then none
      else (exponent? power).map fun exponent => Binary64.ofDecimal negative (digitsValue digits) exponent := by
  unfold unsignedDecimal?
  simp only [span_append hdigits hpower]
  split
  next rest => exact absurd rfl hpoint
  next => simp

theorem unsignedDecimal?_point {whole fraction power : List Char} (negative : Bool)
    (hwhole : ∀ c ∈ whole, c.isDigit = true) (hfraction : ∀ c ∈ fraction, c.isDigit = true)
    (hpower : NoDigit power) :
    unsignedDecimal? negative (whole ++ '.' :: (fraction ++ power)) =
      if whole ++ fraction = [] then none
      else (exponent? power).map fun exponent =>
        Binary64.ofDecimal negative (digitsValue (whole ++ fraction)) (exponent - fraction.length) := by
  unfold unsignedDecimal?
  simp only [span_append hwhole noDigit_point, span_append hfraction hpower, Bool.and_eq_true, List.isEmpty_iff,
    List.append_eq_nil_iff]

/-- Without its sign, a text is a decimal number when it is a mantissa with an
exponent. -/
theorem unsignedDecimal?_eq_some_iff {text : List Char} {negative : Bool} {x : Binary64} :
    unsignedDecimal? negative text = some x ↔ ∃ mantissa digits power places exponent,
      text = mantissa ++ power ∧ Mantissa mantissa digits places ∧ Exponent power exponent ∧
        Binary64.ofDecimal negative (digitsValue digits) (exponent - places) = x := by
  refine ⟨?_, ?_⟩
  · intro h
    obtain ⟨whole, rest, rfl, hwhole, hrest⟩ := exists_span_digits text
    by_cases hpoint : rest.head? = some '.'
    · obtain ⟨after, rfl⟩ := List.head?_eq_some_iff.1 hpoint
      obtain ⟨fraction, power, rfl, hfraction, hpower⟩ := exists_span_digits after
      rw [unsignedDecimal?_point negative hwhole hfraction hpower, Option.ite_none_left_eq_some] at h
      obtain ⟨hne, h⟩ := h
      obtain ⟨exponent, hexponent, rfl⟩ := Option.map_eq_some_iff.1 h
      exact ⟨whole ++ '.' :: fraction, whole ++ fraction, power, fraction.length, exponent, by simp,
        .point hwhole hfraction hne, exponent?_eq_some_iff.1 hexponent, rfl⟩
    · rw [unsignedDecimal?_whole negative hwhole hrest hpoint, Option.ite_none_left_eq_some] at h
      obtain ⟨hne, h⟩ := h
      obtain ⟨exponent, hexponent, rfl⟩ := Option.map_eq_some_iff.1 h
      exact ⟨whole, whole, rest, 0, exponent, rfl, .whole ⟨hwhole, hne⟩, exponent?_eq_some_iff.1 hexponent,
        by simp⟩
  · intro h
    obtain ⟨mantissa, digits, power, places, exponent, rfl, hmantissa, hpower, rfl⟩ := h
    have hexponent := exponent?_eq_some_iff.2 hpower
    cases hmantissa with
    | whole hdigits =>
      have hpoint : power.head? ≠ some '.' := by
        cases hpower with
        | absent => nofun
        | marked hmark _ => rcases hmark with rfl | rfl <;> simp
      rw [unsignedDecimal?_whole negative hdigits.digits hpower.noDigit hpoint, if_neg hdigits.ne_nil, hexponent]
      simp
    | point hwhole hfraction hne =>
      rw [List.append_assoc, List.cons_append, unsignedDecimal?_point negative hwhole hfraction hpower.noDigit,
        if_neg hne, hexponent]
      rfl

/-- A mantissa starts with a digit or a point, so it is neither a sign nor the
name of a number. -/
theorem Mantissa.exists_cons {text digits : List Char} {places : Nat} (h : Mantissa text digits places) :
    ∃ c rest, text = c :: rest ∧ 46 ≤ c.toNat ∧ c.toNat ≤ 57 := by
  have hdigit : ∀ c : Char, c.isDigit = true → 46 ≤ c.toNat ∧ c.toNat ≤ 57 := by
    intro c hc
    simp [Char.isDigit, UInt32.le_iff_toNat_le] at hc
    omega
  cases h with
  | whole hdigits =>
    obtain ⟨c, rest, rfl⟩ := List.exists_cons_of_ne_nil hdigits.ne_nil
    exact ⟨c, rest, rfl, hdigit c (hdigits.digits c List.mem_cons_self)⟩
  | @point whole fraction hwhole _ _ =>
    cases whole with
    | nil => exact ⟨'.', fraction, rfl, by decide⟩
    | cons c rest => exact ⟨c, _, rfl, hdigit c (hwhole c List.mem_cons_self)⟩

theorem toLower_eq_self {c : Char} (h : c.toNat ≤ 57) : c.toLower = c := by
  unfold Char.toLower
  split
  next hupper =>
    have hfirst : 'A'.toNat = 65 := rfl
    simp only [ge_iff_le, UInt32.le_iff_toNat_le, Char.toNat_val] at hupper
    omega
  next => rfl

theorem unsignedNumber?_of_unsignedDecimal? {text : List Char} {negative : Bool} {x : Binary64}
    (h : unsignedDecimal? negative text = some x) : unsignedNumber? negative text = some x := by
  obtain ⟨mantissa, digits, power, places, exponent, rfl, hmantissa, -, -⟩ := unsignedDecimal?_eq_some_iff.1 h
  obtain ⟨c, rest, rfl, -, hle⟩ := hmantissa.exists_cons
  -- A name would start with a letter.
  have hname : ∀ name : String, 57 < (name.toList.headD 'z').toNat →
      String.ofList ((c :: rest ++ power).map Char.toLower) ≠ name := by
    intro name hlt heq
    rw [← heq] at hlt
    simp [toLower_eq_self hle] at hlt
    omega
  simp only [unsignedNumber?]
  rw [if_neg (hname "nan" (by decide)),
    if_neg (not_or.2 ⟨hname "inf" (by decide), hname "infinity" (by decide)⟩), h]

/-- Every decimal number is read, those past the finite numbers as infinities. -/
theorem Decimal.number?_eq {text : List Char} {x : Binary64} (h : Decimal text x) : number? text = some x := by
  cases h with
  | @intro mantissa digits power negative places exponent hsign hmantissa hpower =>
    have hread : unsignedNumber? negative (mantissa ++ power) =
        some (Binary64.ofDecimal negative (digitsValue digits) (exponent - places)) :=
      unsignedNumber?_of_unsignedDecimal?
        (unsignedDecimal?_eq_some_iff.2 ⟨mantissa, digits, power, places, exponent, rfl, hmantissa, hpower, rfl⟩)
    cases hsign with
    | plus | minus => exact hread
    | absent =>
      obtain ⟨c, rest, rfl, hle, -⟩ := hmantissa.exists_cons
      unfold number?
      split
      next heq =>
        cases heq
        exact absurd hle (by decide)
      next heq =>
        cases heq
        exact absurd hle (by decide)
      next => exact hread

theorem unsignedDecimal?_of_unsignedNumber? {text : List Char} {negative : Bool} {x : Binary64}
    (h : unsignedNumber? negative text = some x) (hfinite : x.isFinite = true) :
    unsignedDecimal? negative text = some x := by
  simp only [unsignedNumber?] at h
  split at h
  · cases h
    cases hfinite
  split at h
  · cases h
    cases hfinite
  · exact h

/-- **The grammar of finite numbers.** -/
theorem number?_eq_some_iff {text : List Char} {x : Binary64} (hfinite : x.isFinite = true) :
    number? text = some x ↔ Decimal text x := by
  refine ⟨fun h => ?_, Decimal.number?_eq⟩
  obtain ⟨negative, rest, hsign, h⟩ :
      ∃ negative rest, Signed text negative rest ∧ unsignedNumber? negative rest = some x := by
    unfold number? at h
    split at h
    · exact ⟨true, _, .minus, h⟩
    · exact ⟨false, _, .plus, h⟩
    · exact ⟨false, _, .absent, h⟩
  obtain ⟨mantissa, digits, power, places, exponent, rfl, hmantissa, hpower, rfl⟩ :=
    unsignedDecimal?_eq_some_iff.1 (unsignedDecimal?_of_unsignedNumber? h hfinite)
  exact .intro hsign hmantissa hpower

/-! ## Whole numbers as decimal numbers -/

/-- A decimal number without a point and an exponent is the nearest to its
digits; a zero keeps its sign. -/
theorem ofDecimal_whole (negative : Bool) (digits : Nat) :
    Binary64.ofDecimal negative digits 0 =
      if digits = 0 then Binary64.zero negative
      else Binary64.ofRatio negative (digits * Binary64.unitsPerOne) 1 := by
  have hone : 10 ^ (0 : Int).toNat = 1 := rfl
  unfold Binary64.ofDecimal
  rw [if_neg (show ¬310 ≤ (0 : Int) by decide), if_neg (show ¬(0 + (digits.log2 : Int) + 1 ≤ -325) by omega),
    if_pos (show 0 ≤ (0 : Int) by decide), hone, Nat.mul_one]

/-- A whole number is a decimal number too, and the number nearest to itself. -/
theorem Whole.exists_decimal {text : List Char} {n : Int} (h : Whole text n) :
    ∃ x, Decimal text x ∧ (x = Binary64.ofInt n ∨ n = 0 ∧ ∃ negative, x = Binary64.zero negative) := by
  cases h with
  | @intro digits negative hsign hdigits =>
    have hdecimal : Decimal text (Binary64.ofDecimal negative (digitsValue digits) (0 - (0 : Nat))) :=
      .intro (by rwa [List.append_nil]) (.whole hdigits) .absent
    refine ⟨_, hdecimal, ?_⟩
    show Binary64.ofDecimal negative (digitsValue digits) 0 = _ ∨ _
    rw [ofDecimal_whole]
    by_cases hzero : digitsValue digits = 0
    · exact .inr ⟨by simp [hzero], negative, if_pos hzero⟩
    · left
      rw [if_neg hzero, Binary64.ofInt]
      cases negative with
      | true => simp [Nat.pos_of_ne_zero hzero]
      | false =>
        have hsign : ¬((digitsValue digits : Int) < 0) := Int.not_lt.2 (Int.natCast_nonneg _)
        simp [hsign]

/-! ## The characters of a number -/

/-- The characters that a number may be written with. -/
def NumeralChar (c : Char) : Prop := c.isDigit = true ∨ c ∈ ['+', '-', '.', 'e', 'E']

theorem Signed.chars {text rest : List Char} {negative : Bool} (h : Signed text negative rest)
    (hrest : ∀ c ∈ rest, NumeralChar c) : ∀ c ∈ text, NumeralChar c := by
  cases h with
  | absent => exact hrest
  | plus | minus => exact List.forall_mem_cons.2 ⟨.inr (by decide), hrest⟩

theorem Whole.chars {text : List Char} {n : Int} (h : Whole text n) : ∀ c ∈ text, NumeralChar c := by
  cases h with
  | intro hsign hdigits => exact hsign.chars fun c hmem => .inl (hdigits.digits c hmem)

theorem Mantissa.chars {text digits : List Char} {places : Nat} (h : Mantissa text digits places) :
    ∀ c ∈ text, NumeralChar c := by
  cases h with
  | whole hdigits => exact fun c hmem => .inl (hdigits.digits c hmem)
  | point hwhole hfraction _ =>
    refine List.forall_mem_append.2 ⟨fun c hmem => .inl (hwhole c hmem), ?_⟩
    exact List.forall_mem_cons.2 ⟨.inr (by decide), fun c hmem => .inl (hfraction c hmem)⟩

theorem Exponent.chars {text : List Char} {n : Int} (h : Exponent text n) : ∀ c ∈ text, NumeralChar c := by
  cases h with
  | absent => nofun
  | marked hmark hwhole =>
    refine List.forall_mem_cons.2 ⟨.inr ?_, hwhole.chars⟩
    rcases hmark with rfl | rfl <;> decide

theorem Decimal.chars {text : List Char} {x : Binary64} (h : Decimal text x) : ∀ c ∈ text, NumeralChar c := by
  cases h with
  | intro hsign hmantissa hpower => exact hsign.chars (List.forall_mem_append.2 ⟨hmantissa.chars, hpower.chars⟩)

end ManiaChart.Text
