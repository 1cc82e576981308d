import Mathlib.Data.List.TakeWhile

/-! # Reading words and decimal numbers from a line

The two extractions of a formatted input stream: a word ends at the next space,
and a number is an optional sign with as many digits as there are. A number that
does not fit its type is not read. Numbers are printed in decimal, so that what
is printed is read back, and the last separator of a text is found again when
only a number follows it. What either extraction accepts is also said as a
grammar, with the text cut into its parts.
-/

namespace InputStream

def isSpace (c : Char) : Bool := c == ' ' || (9 ≤ c.toNat && c.toNat ≤ 13)

def skipSpace (cs : List Char) : List Char := cs.dropWhile isSpace

/-- The next word and the text after it. -/
def word (cs : List Char) : Option (String × List Char) :=
  let cs := skipSpace cs
  let word := cs.takeWhile (!isSpace ·)
  if word = [] then none else some (String.ofList word, cs.dropWhile (!isSpace ·))

def sign : List Char → Bool × List Char
  | '-' :: cs => (true, cs)
  | '+' :: cs => (false, cs)
  | cs => (false, cs)

def Fits (low high value : Int) : Prop := low ≤ value ∧ value ≤ high

instance (low high value : Int) : Decidable (Fits low high value) :=
  inferInstanceAs (Decidable (_ ∧ _))

/-- The next number, of a signed type with the given bounds. -/
def number (low high : Int) (cs : List Char) : Option Int :=
  let (negative, cs) := sign (skipSpace cs)
  let digits := cs.takeWhile Char.isDigit
  let magnitude : Int := Nat.ofDigitChars 10 digits 0
  let value := if negative then -magnitude else magnitude
  if digits ≠ [] ∧ Fits low high value then some value else none

theorem word_wellFormed {cs rest : List Char} {w : String} (h : word cs = some (w, rest)) :
    w ≠ "" ∧ ∀ c ∈ w.toList, isSpace c = false := by
  obtain ⟨hNe, hEq⟩ := Option.ite_none_left_eq_some.mp h
  cases hEq
  constructor
  · simpa [← String.toList_inj] using hNe
  · intro c hc
    rw [String.toList_ofList] at hc
    simpa using List.mem_takeWhile_imp hc

theorem number_fits {low high value : Int} {cs : List Char}
    (h : number low high cs = some value) : Fits low high value := by
  obtain ⟨⟨-, hFits⟩, hEq⟩ := Option.ite_none_right_eq_some.mp h
  cases hEq
  exact hFits

theorem skipSpace_cons {c : Char} (cs : List Char) (h : isSpace c = false) :
    skipSpace (c :: cs) = c :: cs := by
  simp [skipSpace, h]

theorem word_append {w : String} (hNe : w ≠ "") (hSpace : ∀ c ∈ w.toList, isSpace c = false)
    (rest : List Char) : word (w.toList ++ ' ' :: rest) = some (w, ' ' :: rest) := by
  have hSkip : skipSpace (w.toList ++ ' ' :: rest) = w.toList ++ ' ' :: rest := by
    cases hw : w.toList with
    | nil => exact absurd (String.toList_eq_nil_iff.mp hw) hNe
    | cons c cs => exact skipSpace_cons _ (hSpace c (by simp [hw]))
  have hAll : ∀ c ∈ w.toList, (!isSpace c) = true := fun c hc => by simp [hSpace c hc]
  have hEnd : isSpace ' ' = true := by decide
  simp only [word, hSkip, List.takeWhile_append_of_pos hAll, List.dropWhile_append_of_pos hAll]
  simp [hEnd, hNe]

theorem digit_ne {c : Char} (h : c.isDigit = true) : isSpace c = false ∧ c ≠ '-' ∧ c ≠ '+' := by
  have hBounds : 48 ≤ c.toNat ∧ c.toNat ≤ 57 := by
    rw [Char.isDigit_iff_toNat] at h
    exact h
  refine ⟨?_, ?_, ?_⟩
  · have hNe : c ≠ ' ' := by
      rintro rfl
      exact absurd h (by decide)
    simp only [isSpace, beq_eq_false_iff_ne.mpr hNe, Bool.false_or, Bool.and_eq_false_iff,
      decide_eq_false_iff_not]
    omega
  · rintro rfl
    exact absurd h (by decide)
  · rintro rfl
    exact absurd h (by decide)

theorem sign_cons {c : Char} (cs : List Char) (h : c.isDigit = true) :
    sign (c :: cs) = (false, c :: cs) := by
  obtain ⟨-, hMinus, hPlus⟩ := digit_ne h
  unfold sign
  split
  · rename_i hEq
    cases hEq
    exact absurd rfl hMinus
  · rename_i hEq
    cases hEq
    exact absurd rfl hPlus
  · rfl

theorem toList_toString (value : Int) : (toString value).toList =
    if value < 0 then '-' :: Nat.toDigits 10 value.natAbs else Nat.toDigits 10 value.natAbs := by
  rw [Int.toString_eq_repr, Int.repr_eq_if]
  by_cases hNeg : value < 0
  · have hAbs : (-value).toNat = value.natAbs := by omega
    rw [if_neg (by omega), if_pos hNeg, String.toList_append, Nat.toList_repr, hAbs]
    rfl
  · have hAbs : value.toNat = value.natAbs := by omega
    rw [if_pos (by omega), if_neg hNeg, Nat.toList_repr, hAbs]

theorem isDigit_of_mem {c : Char} {k : Nat} (h : c ∈ Nat.toDigits 10 k) : c.isDigit = true :=
  Nat.isDigit_of_mem_toDigits (by decide) (by decide) h

theorem mem_toString {c : Char} {value : Int} (h : c ∈ (toString value).toList) :
    c = '-' ∨ c.isDigit = true := by
  rw [toList_toString] at h
  split at h
  · cases List.mem_cons.mp h with
    | inl hMinus => exact .inl hMinus
    | inr hDigit => exact .inr (isDigit_of_mem hDigit)
  · exact .inr (isDigit_of_mem h)

theorem sign_toString (value : Int) :
    sign (toString value).toList = (decide (value < 0), Nat.toDigits 10 value.natAbs) := by
  rw [toList_toString]
  split
  · rename_i hNeg
    simp [sign, hNeg]
  · rename_i hNonneg
    obtain ⟨c, cs, hDigits⟩ := List.exists_cons_of_ne_nil (Nat.toDigits_ne_nil (n := value.natAbs))
    have hHead : c.isDigit = true := isDigit_of_mem (by rw [hDigits]; exact List.mem_cons_self)
    rw [hDigits, sign_cons cs hHead, decide_eq_false hNonneg]

theorem skipSpace_toString (value : Int) :
    skipSpace (' ' :: (toString value).toList) = (toString value).toList := by
  have hSpace : isSpace ' ' = true := by decide
  rw [skipSpace, List.dropWhile_cons_of_pos hSpace]
  cases hText : (toString value).toList with
  | nil => rfl
  | cons c cs =>
    have hFirst : c ∈ (toString value).toList := by
      rw [hText]
      exact List.mem_cons_self
    apply skipSpace_cons
    rcases mem_toString hFirst with rfl | hDigit
    · decide
    · exact (digit_ne hDigit).1

theorem number_toString {low high value : Int} (h : Fits low high value) :
    number low high (' ' :: (toString value).toList) = some value := by
  have hDigits : (Nat.toDigits 10 value.natAbs).takeWhile Char.isDigit =
      Nat.toDigits 10 value.natAbs :=
    List.takeWhile_eq_self_iff.mpr fun _ hc => isDigit_of_mem hc
  have hValue : (if decide (value < 0) = true then -(value.natAbs : Int) else value.natAbs) =
      value := by
    simp only [decide_eq_true_eq]
    split <;> omega
  simp only [number, skipSpace_toString, sign_toString, hDigits, Nat.ofDigitChars_ten_toDigits,
    hValue]
  rw [if_pos ⟨Nat.toDigits_ne_nil, h⟩]

theorem toString_inj {low high value value' : Int} (h : Fits low high value)
    (h' : Fits low high value') (hEq : toString value = toString value') : value = value' := by
  have hRead := number_toString h
  rw [hEq, number_toString h'] at hRead
  exact (Option.some.inj hRead).symm

theorem eq_nil_of_separator {α : Type*} {x : α} {b b' c : List α} (hb : x ∉ b)
    (h : x :: b = c ++ x :: b') : c = [] ∧ b = b' := by
  cases c with
  | nil =>
    cases h
    exact ⟨rfl, rfl⟩
  | cons y c =>
    cases h
    exact absurd (by simp) hb

/-- Where the separator last stands splits a text in one way only. -/
theorem separator_inj {α : Type*} {x : α} {a b a' b' : List α} (hb : x ∉ b) (hb' : x ∉ b')
    (h : a ++ x :: b = a' ++ x :: b') : a = a' ∧ b = b' := by
  rcases List.append_eq_append_iff.mp h with ⟨c, rfl, hTail⟩ | ⟨c, rfl, hTail⟩
  · obtain ⟨rfl, rfl⟩ := eq_nil_of_separator hb hTail
    exact ⟨(List.append_nil a).symm, rfl⟩
  · obtain ⟨rfl, rfl⟩ := eq_nil_of_separator hb' hTail
    exact ⟨List.append_nil a', rfl⟩

/-- Where a text is cut by the first character that `p` does not hold of. -/
theorem span_iff {p : Char → Bool} {cs front back : List Char} :
    cs.takeWhile p = front ∧ cs.dropWhile p = back ↔
      cs = front ++ back ∧ (∀ c ∈ front, p c = true) ∧ ∀ c ∈ back.head?, p c = false := by
  constructor
  · rintro ⟨rfl, rfl⟩
    refine ⟨List.takeWhile_append_dropWhile.symm, fun c hc => List.mem_takeWhile_imp hc, ?_⟩
    intro c hc
    have hHead := List.head?_dropWhile_not p cs
    rw [hc] at hHead
    exact hHead
  · rintro ⟨rfl, hFront, hBack⟩
    rw [List.takeWhile_append_of_pos hFront, List.dropWhile_append_of_pos hFront]
    cases back with
    | nil => simp
    | cons c back => simp [hBack c rfl]

def signed (sgn digits : List Char) : Int :=
  if sgn = ['-'] then -(Nat.ofDigitChars 10 digits 0 : Int) else Nat.ofDigitChars 10 digits 0

theorem skipSpace_iff {cs rest : List Char} :
    skipSpace cs = rest ↔ ∃ gap, cs = gap ++ rest ∧ (∀ c ∈ gap, isSpace c = true) ∧
      ∀ c ∈ rest.head?, isSpace c = false := by
  constructor
  · rintro rfl
    exact ⟨_, span_iff.mp ⟨rfl, rfl⟩⟩
  · rintro ⟨gap, hSpan⟩
    exact (span_iff.mpr hSpan).2

theorem word_iff {cs rest : List Char} {w : String} :
    word cs = some (w, rest) ↔ ∃ gap, cs = gap ++ (w.toList ++ rest) ∧
      (∀ c ∈ gap, isSpace c = true) ∧ w ≠ "" ∧ (∀ c ∈ w.toList, isSpace c = false) ∧
      ∀ c ∈ rest.head?, isSpace c = true := by
  constructor
  · intro h
    obtain ⟨hNe, hSpace⟩ := word_wellFormed h
    obtain ⟨-, hEq⟩ := Option.ite_none_left_eq_some.mp h
    cases hEq
    obtain ⟨gap, hCut, hGap, -⟩ := skipSpace_iff.mp (rfl : skipSpace cs = skipSpace cs)
    obtain ⟨hSplit, -, hBack⟩ := span_iff.mp
      (⟨rfl, rfl⟩ : (skipSpace cs).takeWhile (!isSpace ·) = _ ∧ (skipSpace cs).dropWhile _ = _)
    refine ⟨gap, ?_, hGap, hNe, hSpace, fun c hc => by simpa using hBack c hc⟩
    rw [String.toList_ofList, ← hSplit]
    exact hCut
  · rintro ⟨gap, rfl, hGap, hNe, hSpace, hEnd⟩
    have hList : w.toList ≠ [] := fun hNil => hNe (String.toList_eq_nil_iff.mp hNil)
    have hSkip : skipSpace (gap ++ (w.toList ++ rest)) = w.toList ++ rest := by
      refine skipSpace_iff.mpr ⟨gap, rfl, hGap, ?_⟩
      obtain ⟨c, cs, hw⟩ := List.exists_cons_of_ne_nil hList
      rw [hw]
      rintro _ ⟨⟩
      exact hSpace c (by rw [hw]; exact List.mem_cons_self)
    have hSpan : (w.toList ++ rest).takeWhile (!isSpace ·) = w.toList ∧
        (w.toList ++ rest).dropWhile (!isSpace ·) = rest :=
      span_iff.mpr ⟨rfl, fun c hc => by simp [hSpace c hc], fun c hc => by simp [hEnd c hc]⟩
    obtain ⟨hTake, hDrop⟩ := hSpan
    simp only [word, hSkip, hTake, hDrop, if_neg hList, String.ofList_toList]

theorem sign_split (cs : List Char) : ∃ sgn, cs = sgn ++ (sign cs).2 ∧
    (sgn = [] ∨ sgn = ['-'] ∨ sgn = ['+']) ∧ (sign cs).1 = decide (sgn = ['-']) := by
  unfold sign
  split
  · exact ⟨['-'], rfl, .inr (.inl rfl), rfl⟩
  · exact ⟨['+'], rfl, .inr (.inr rfl), rfl⟩
  · exact ⟨[], rfl, .inl rfl, rfl⟩

theorem sign_append {sgn digits : List Char} (hSign : sgn = [] ∨ sgn = ['-'] ∨ sgn = ['+'])
    (hNe : digits ≠ []) (hDigits : ∀ c ∈ digits, c.isDigit = true) (rest : List Char) :
    sign (sgn ++ (digits ++ rest)) = (decide (sgn = ['-']), digits ++ rest) := by
  rcases hSign with rfl | rfl | rfl
  · obtain ⟨c, cs, rfl⟩ := List.exists_cons_of_ne_nil hNe
    exact sign_cons _ (hDigits c List.mem_cons_self)
  · rfl
  · rfl

theorem head_signed {sgn digits rest : List Char} (hSign : sgn = [] ∨ sgn = ['-'] ∨ sgn = ['+'])
    (hNe : digits ≠ []) (hDigits : ∀ c ∈ digits, c.isDigit = true) :
    ∀ c ∈ (sgn ++ (digits ++ rest)).head?, isSpace c = false := by
  rcases hSign with rfl | rfl | rfl
  · obtain ⟨c, cs, rfl⟩ := List.exists_cons_of_ne_nil hNe
    rintro _ ⟨⟩
    exact (digit_ne (hDigits c List.mem_cons_self)).1
  · rintro _ ⟨⟩
    decide
  · rintro _ ⟨⟩
    decide

/-- The texts from which a number is read, and which number. -/
theorem number_iff {low high value : Int} {cs : List Char} :
    number low high cs = some value ↔ ∃ gap sgn digits rest,
      cs = gap ++ (sgn ++ (digits ++ rest)) ∧ (∀ c ∈ gap, isSpace c = true) ∧
      (sgn = [] ∨ sgn = ['-'] ∨ sgn = ['+']) ∧ digits ≠ [] ∧ (∀ c ∈ digits, c.isDigit = true) ∧
      (∀ c ∈ rest.head?, c.isDigit = false) ∧ value = signed sgn digits ∧
      Fits low high value := by
  constructor
  · intro h
    have hFits := number_fits h
    obtain ⟨⟨hNe, -⟩, hEq⟩ := Option.ite_none_right_eq_some.mp h
    obtain ⟨gap, hCut, hGap, -⟩ := skipSpace_iff.mp (rfl : skipSpace cs = skipSpace cs)
    obtain ⟨sgn, hSplit, hSign, hNegative⟩ := sign_split (skipSpace cs)
    obtain ⟨hText, hDigits, hRest⟩ := span_iff.mp
      (⟨rfl, rfl⟩ : (sign (skipSpace cs)).2.takeWhile Char.isDigit = _ ∧
        (sign (skipSpace cs)).2.dropWhile Char.isDigit = _)
    refine ⟨gap, sgn, (sign (skipSpace cs)).2.takeWhile Char.isDigit, _, ?_, hGap, hSign, hNe,
      hDigits, hRest, ?_, hFits⟩
    · rw [← hText, ← hSplit]
      exact hCut
    · have hValue : (if (sign (skipSpace cs)).1 = true then
          -(Nat.ofDigitChars 10 ((sign (skipSpace cs)).2.takeWhile Char.isDigit) 0 : Int)
          else Nat.ofDigitChars 10 ((sign (skipSpace cs)).2.takeWhile Char.isDigit) 0) = value :=
        Option.some.inj hEq
      rw [hNegative] at hValue
      simpa [signed] using hValue.symm
  · rintro ⟨gap, sgn, digits, rest, rfl, hGap, hSign, hNe, hDigits, hRest, rfl, hFits⟩
    have hSkip : skipSpace (gap ++ (sgn ++ (digits ++ rest))) = sgn ++ (digits ++ rest) :=
      skipSpace_iff.mpr ⟨gap, rfl, hGap, head_signed hSign hNe hDigits⟩
    have hTake : (digits ++ rest).takeWhile Char.isDigit = digits :=
      (span_iff.mpr ⟨rfl, hDigits, hRest⟩).1
    have hValue : (if decide (sgn = ['-']) = true then -(Nat.ofDigitChars 10 digits 0 : Int)
        else Nat.ofDigitChars 10 digits 0) = signed sgn digits := by
      simp [signed]
    simp only [number, hSkip, sign_append hSign hNe hDigits, hTake, hValue]
    exact if_pos ⟨hNe, hFits⟩

/-- The texts that successive calls of getline extract. A last line may lack its end. -/
def getlines : List Char → List (List Char)
  | [] => []
  | c :: cs =>
    if c = '\n' then [] :: getlines cs
    else
      match getlines cs with
      | [] => [[c]]
      | line :: lines => (c :: line) :: lines

theorem getlines_append {line : List Char} (h : '\n' ∉ line) (rest : List Char) :
    getlines (line ++ '\n' :: rest) = line :: getlines rest := by
  induction line with
  | nil => simp [getlines]
  | cons c line ih =>
    rw [List.mem_cons, not_or] at h
    rw [List.cons_append, getlines, if_neg (Ne.symm h.1), ih h.2]

end InputStream
