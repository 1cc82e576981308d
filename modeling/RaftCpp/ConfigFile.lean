import RaftCpp.Main

/-! # The format of the configuration file

Which lines `main` accepts, and what it makes of a whole file. A line may begin
with spaces, separate its two parts by any of them and go on after the port in
whatever way; the port may have a sign. The first line that is not of this form
ends the file.
-/

namespace RaftCpp

open InputStream

/-- The lines from which an address is read. -/
def Address.Reads (a : Address) (line : String) : Prop :=
  ∃ margin gap sgn digits rest,
    line.toList = margin ++ (a.addr.toList ++ (gap ++ (sgn ++ (digits ++ rest)))) ∧
    (∀ c ∈ margin, isSpace c = true) ∧ gap ≠ [] ∧ (∀ c ∈ gap, isSpace c = true) ∧
    (sgn = [] ∨ sgn = ['-'] ∨ sgn = ['+']) ∧ digits ≠ [] ∧ (∀ c ∈ digits, c.isDigit = true) ∧
    (∀ c ∈ rest.head?, c.isDigit = false) ∧ a.port = signed sgn digits

/-- The loop of `main` over the lines of the file. -/
def readFile (contents : String) : List Address :=
  readConfig ((getlines contents.toList).map String.ofList)

/-- A file with one address on each line. -/
def writeFile (addresses : List Address) : String :=
  String.join (addresses.map fun a => a.line ++ "\n")

theorem readLine_eq_some_iff {line : String} {a : Address} : readLine line = some a ↔
    ∃ rest, word line.toList = some (a.addr, rest) ∧ number intMin intMax rest = some a.port := by
  unfold readLine
  split
  · rename_i hWord
    simp [hWord]
  · rename_i addr rest hWord
    split
    · rename_i hPort
      simp [hWord, hPort]
    · rename_i port hPort
      obtain ⟨addr', port', -, -, -⟩ := a
      simp [hWord, hPort]

theorem readLine_iff {line : String} {a : Address} : readLine line = some a ↔ a.Reads line := by
  rw [readLine_eq_some_iff]
  constructor
  · rintro ⟨rest, hWord, hPort⟩
    obtain ⟨margin, hLine, hMargin, -, -, hEnd⟩ := word_iff.mp hWord
    obtain ⟨gap, sgn, digits, rest, rfl, hGap, hSign, hNe, hDigits, hRest, hValue, -⟩ :=
      number_iff.mp hPort
    refine ⟨margin, gap, sgn, digits, rest, hLine, hMargin, ?_, hGap, hSign, hNe, hDigits, hRest,
      hValue⟩
    -- the word ends at a space, which is no part of the number
    rintro rfl
    rw [List.nil_append] at hEnd
    cases hHead : (sgn ++ (digits ++ rest)).head? with
    | none =>
      rw [List.head?_eq_none_iff] at hHead
      simp [hNe] at hHead
    | some c =>
      have hSpace := hEnd c hHead
      rw [head_signed hSign hNe hDigits c hHead] at hSpace
      cases hSpace
  · rintro ⟨margin, gap, sgn, digits, rest, hLine, hMargin, hGapNe, hGap, hSign, hNe, hDigits,
      hRest, hValue⟩
    refine ⟨gap ++ (sgn ++ (digits ++ rest)), word_iff.mpr ⟨margin, hLine, hMargin, a.addr_ne,
      a.no_space, ?_⟩, number_iff.mpr ⟨gap, sgn, digits, rest, rfl, hGap, hSign, hNe, hDigits,
      hRest, hValue, a.port_fits⟩⟩
    obtain ⟨c, cs, rfl⟩ := List.exists_cons_of_ne_nil hGapNe
    rintro _ ⟨⟩
    exact hGap c List.mem_cons_self

theorem readLine_eq_none_iff {line : String} :
    readLine line = none ↔ ∀ a : Address, ¬ a.Reads line := by
  constructor
  · intro hNone a hReads
    rw [readLine_iff.mpr hReads] at hNone
    cases hNone
  · intro hNever
    cases hLine : readLine line with
    | none => rfl
    | some a => exact absurd (readLine_iff.mp hLine) (hNever a)

theorem readConfig_append {good rest : List String} {addresses : List Address}
    (h : List.Forall₂ (fun line a => Address.Reads a line) good addresses) :
    readConfig (good ++ rest) = addresses ++ readConfig rest := by
  induction h with
  | nil => rfl
  | @cons line a good addresses hReads _ ih =>
    rw [List.cons_append, readConfig, readLine_iff.mpr hReads]
    exact congrArg (a :: ·) ih

/-- The configuration is read from the longest run of lines of the right form at the
beginning of the file, one address from each. -/
theorem config_is_longest_good_run (lines : List String) (addresses : List Address) :
    readConfig lines = addresses ↔ ∃ good rest, lines = good ++ rest ∧
      List.Forall₂ (fun line a => Address.Reads a line) good addresses ∧
      ∀ line ∈ rest.head?, ∀ a : Address, ¬ a.Reads line := by
  constructor
  · rintro rfl
    induction lines with
    | nil => exact ⟨[], [], rfl, .nil, fun line hLine => by cases hLine⟩
    | cons line lines ih =>
      cases hLine : readLine line with
      | none =>
        refine ⟨[], line :: lines, rfl, ?_, ?_⟩
        · rw [readConfig, hLine]
          exact .nil
        · rintro _ ⟨⟩
          exact readLine_eq_none_iff.mp hLine
      | some a =>
        obtain ⟨good, rest, rfl, hGood, hRest⟩ := ih
        refine ⟨line :: good, rest, rfl, ?_, hRest⟩
        rw [readConfig, hLine]
        exact .cons (readLine_iff.mp hLine) hGood
  · rintro ⟨good, rest, rfl, hGood, hRest⟩
    rw [readConfig_append hGood]
    have hEnd : readConfig rest = [] := by
      cases rest with
      | nil => rfl
      | cons line rest => rw [readConfig, readLine_eq_none_iff.mpr (hRest line rfl)]
    rw [hEnd, List.append_nil]

theorem newline_not_mem_line (a : Address) : '\n' ∉ a.line.toList := by
  have hLine : a.line.toList = a.addr.toList ++ ' ' :: (toString a.port).toList := by
    simp [Address.line, String.toList_append]
  have hSpace : isSpace '\n' = true := by decide
  rw [hLine, List.mem_append, List.mem_cons, not_or, not_or]
  refine ⟨?_, by decide, ?_⟩
  · intro hMem
    rw [a.no_space _ hMem] at hSpace
    cases hSpace
  · intro hMem
    cases mem_toString hMem with
    | inl hMinus => exact absurd hMinus (by decide)
    | inr hDigit => exact absurd hDigit (by decide)

theorem getlines_writeFile (addresses : List Address) (tail : List Char) :
    (getlines ((writeFile addresses).toList ++ tail)).map String.ofList =
      addresses.map Address.line ++ (getlines tail).map String.ofList := by
  induction addresses with
  | nil => simp [writeFile]
  | cons a addresses ih =>
    have hText : (writeFile (a :: addresses)).toList ++ tail =
        a.line.toList ++ '\n' :: ((writeFile addresses).toList ++ tail) := by
      simp [writeFile, String.join_cons, String.toList_append]
    rw [hText, getlines_append (newline_not_mem_line a), List.map_cons, ih, List.map_cons,
      String.ofList_toList, List.cons_append]

/-- A file that was written with one address on each line is read back as it was, and what
is read of a longer file are these addresses and then those of the rest of it. -/
theorem config_file_round_trip (addresses : List Address) (tail : String) :
    readFile (writeFile addresses ++ tail) = addresses ++ readFile tail := by
  rw [readFile, String.toList_append, getlines_writeFile]
  apply readConfig_append
  induction addresses with
  | nil => exact .nil
  | cons a addresses ih => exact .cons (readLine_iff.mp a.readLine_line) ih

end RaftCpp
