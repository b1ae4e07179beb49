/-
What a dictionary file brings in, field by field and row by row.

`ParseRow` counts the fields and then reads each with `>>`, without a look at
what became of it. A field that is a literal of its column is read as its
value (`extractUnsigned_literal`), a decimal one as the double it is rounded to
(`IsDouble.isRead`), so a list of five such fields is read right; any other
list of five is accepted as well, with what the stream left in the row
(`ParseRow_iff`).

`FetcherData` takes a file over whole only if there is nothing to take in its
last line (`FetcherData_iff`).
-/
import DictionaryServer.Sender.DictionaryUpdate
import Mathlib.Data.List.TakeWhile

namespace DictionaryServer

open Lib Sender

namespace Sender

/-! ## Literals -/

/-- The text is, as a whole, a number of at most `max`. -/
def IsUnsigned (max : Nat) (text : Bytes) : Prop := text ≠ [] ∧ (∀ d ∈ text, isdigit d = true) ∧ digitsValue text ≤ max

instance (max : Nat) (text : Bytes) : Decidable (IsUnsigned max text) := inferInstanceAs (Decidable (_ ∧ _))

inductive Sign
  | unsigned
  | plus
  | minus
  deriving DecidableEq

def Sign.text : Sign → Bytes
  | unsigned => []
  | plus => ofText "+"
  | minus => ofText "-"

abbrev Digits := List (Fin 10)

def Digits.text (digits : Digits) : Bytes := digits.map fun d => 48 + .ofNat d

def Digits.value (digits : Digits) : Nat := digits.foldl (fun n (d : Fin 10) => 10 * n + d.val) 0

structure Exponent where
  capital : Bool
  sign : Sign
  digits : Digits
  digits_ne : digits ≠ []

namespace Exponent

def text (exponent : Exponent) : Bytes :=
  ofText (if exponent.capital then "E" else "e") ++ exponent.sign.text ++ exponent.digits.text

def value (exponent : Exponent) : Int :=
  if exponent.sign = .minus then -exponent.digits.value else exponent.digits.value

end Exponent

/-- A decimal literal: digits with a point, and an exponent. -/
structure Literal where
  sign : Sign
  whole : Digits
  fraction : Option Digits
  exponent : Option Exponent
  digits_ne : whole ++ fraction.getD [] ≠ []

namespace Literal

def text (literal : Literal) : Bytes :=
  literal.sign.text ++ literal.whole.text ++ (literal.fraction.elim [] fun digits => ofText "." ++ digits.text) ++
    literal.exponent.elim [] Exponent.text

/-- The number it stands for. -/
def number (literal : Literal) : Decimal where
  negative := literal.sign = .minus
  digits := Digits.value (literal.whole ++ literal.fraction.getD [])
  exponent := literal.exponent.elim 0 Exponent.value - (literal.fraction.getD []).length

end Literal

/-- The text is, as a whole, a decimal literal that a `double` has room for. -/
def IsDouble (text : Bytes) : Prop := ∃ literal : Literal, literal.text = text ∧ literal.number.Fits

/-- The double is the one that the literal's number is rounded to. -/
def IsRead (x : Binary64) (text : Bytes) : Prop := ∃ literal : Literal, literal.text = text ∧ literal.number.RoundsTo x

/-- **A literal is read as its value**, whatever the variable held before. -/
theorem extractUnsigned_literal {max : Nat} {text : Bytes} (h : IsUnsigned max text) (old : Nat) :
    extractUnsigned max text old = digitsValue text := by
  obtain ⟨hne, hdigits, hmax⟩ := h
  obtain ⟨c, rest, rfl⟩ := List.exists_cons_of_ne_nil hne
  have hc : 48 ≤ c ∧ c ≤ 57 := by simpa [isdigit] using hdigits c List.mem_cons_self
  have hspace : isspace c = false := by
    have hne : c ≠ 32 := by rintro rfl; exact absurd hc.1 (by decide)
    have hle : ¬c ≤ 13 := fun hle => absurd (UInt8.le_trans hc.1 hle) (by decide)
    simp [isspace, hne, hle]
  have hsign : ¬(c = 43 ∨ c = 45) := by
    intro hsign
    rcases hsign with rfl | rfl
    · exact absurd hc.1 (by decide)
    · exact absurd hc.1 (by decide)
  have htake : (c :: rest).takeWhile isdigit = c :: rest := List.takeWhile_eq_self_iff.mpr hdigits
  have hdrop : (c :: rest).dropWhile isspace = c :: rest := List.dropWhile_cons_of_neg (by simp [hspace])
  unfold extractUnsigned
  rw [hdrop]
  simp only [if_neg hsign, htake]
  change (if digitsValue (c :: rest) > max then max else if c = 45 then _ else digitsValue (c :: rest)) = _
  rw [if_neg (not_lt.mpr hmax), if_neg fun h => hsign (.inr h)]

theorem isdigit_digit (d : Fin 10) : isdigit (48 + .ofNat d) = true := by decide +revert

theorem not_sign_of_isdigit {c : UInt8} (h : isdigit c = true) : c ≠ 43 ∧ c ≠ 45 := by
  constructor
  · rintro rfl
    exact absurd h (by decide)
  · rintro rfl
    exact absurd h (by decide)

namespace Digits

theorem text_append (digits rest : Digits) : text (digits ++ rest) = digits.text ++ rest.text := List.map_append

theorem digitsValue_text (digits : Digits) : digitsValue digits.text = digits.value := by
  have hdigit : ∀ d : Fin 10, (48 + UInt8.ofNat d).toNat - 48 = d := by decide
  rw [digitsValue, text, value, List.foldl_map]
  simp only [hdigit]

theorem isdigit_text {digits : Digits} : ∀ c ∈ digits.text, isdigit c = true := by
  intro c hc
  obtain ⟨d, _, rfl⟩ := List.mem_map.mp hc
  exact isdigit_digit d

theorem head_text {digits : Digits} (hne : digits ≠ []) (rest : Bytes) :
    ∀ c ∈ (digits.text ++ rest).head?, isdigit c = true := by
  obtain ⟨d, digits, rfl⟩ := List.exists_cons_of_ne_nil hne
  rintro c ⟨⟩
  exact isdigit_digit d

theorem spanDigits_append (digits : Digits) (rest : Bytes) (hrest : ∀ c ∈ rest.head?, isdigit c = false) :
    spanDigits (digits.text ++ rest) = (digits.text, rest) := by
  have hspan : rest.takeWhile isdigit = [] ∧ rest.dropWhile isdigit = rest := by
    rcases rest with _ | ⟨c, rest⟩
    · exact ⟨rfl, rfl⟩
    · have hc := hrest c rfl
      exact ⟨List.takeWhile_cons_of_neg (by simp [hc]), List.dropWhile_cons_of_neg (by simp [hc])⟩
  rw [spanDigits, List.takeWhile_append_of_pos isdigit_text, List.dropWhile_append_of_pos isdigit_text, hspan.1, hspan.2,
    List.append_nil]

end Digits

namespace Sign

theorem skipSign_append (sign : Sign) {rest : Bytes} (hrest : ∀ c ∈ rest.head?, c ≠ 43 ∧ c ≠ 45) :
    skipSign (sign.text ++ rest) = rest := by
  cases sign with
  | unsigned =>
    rcases rest with _ | ⟨c, rest⟩
    · rfl
    · obtain ⟨hplus, hminus⟩ := hrest c rfl
      simp [text, skipSign, hplus, hminus]
  | plus => rfl
  | minus => rfl

theorem head_append (sign : Sign) {rest : Bytes} (hrest : ∀ c ∈ rest.head?, c ≠ 43 ∧ c ≠ 45) :
    (sign.text ++ rest).head? = some 45 ↔ sign = .minus := by
  cases sign with
  | unsigned => exact iff_of_false (fun h => (hrest 45 h).2 rfl) nofun
  | plus => exact iff_of_false (fun h => absurd (Option.some.inj h) (by decide)) nofun
  | minus => exact iff_of_true rfl rfl

end Sign

/-- **An exponent is read as its value.** -/
theorem scanExponent_text (exponent : Exponent) : scanExponent exponent.text = some exponent.value := by
  obtain ⟨capital, sign, digits, hne⟩ := exponent
  have hhead : ∀ c ∈ digits.text.head?, c ≠ 43 ∧ c ≠ 45 := by
    intro c hc
    exact not_sign_of_isdigit (Digits.head_text hne [] c (by rwa [List.append_nil]))
  have hspan : spanDigits digits.text = (digits.text, []) := by
    have hspan := digits.spanDigits_append [] nofun
    rwa [List.append_nil] at hspan
  have hempty : digits.text.isEmpty = false := by
    rw [List.isEmpty_eq_false_iff, Digits.text]
    exact mt List.map_eq_nil_iff.mp hne
  have hletter : ∃ c : UInt8, ofText (if capital then "E" else "e") = [c] ∧ (c = 69 ∨ c = 101) := by
    cases capital
    · exact ⟨101, rfl, .inr rfl⟩
    · exact ⟨69, rfl, .inl rfl⟩
  obtain ⟨c, hc, hor⟩ := hletter
  rw [Exponent.text, hc, List.append_assoc, List.singleton_append, scanExponent, if_pos hor, sign.skipSign_append hhead,
    hspan]
  simp only [sign.head_append hhead, hempty, digits.digitsValue_text, Bool.false_eq_true, if_false]
  rfl

theorem head_exponent {exponent : Option Exponent} :
    ∀ c ∈ (exponent.elim [] Exponent.text).head?, c = 69 ∨ c = 101 := by
  intro c hc
  rcases exponent with _ | ⟨capital, sign, digits, hne⟩
  · cases hc
  · cases capital
    · exact .inr (Option.some.inj hc).symm
    · exact .inl (Option.some.inj hc).symm

theorem scanExponent_elim (exponent : Option Exponent) :
    scanExponent (exponent.elim [] Exponent.text) = some (exponent.elim 0 Exponent.value) := by
  cases exponent with
  | none => rfl
  | some exponent => exact scanExponent_text exponent

/-- **A literal is read as its number.** -/
theorem scanDecimal_text (literal : Literal) : scanDecimal literal.text = some literal.number := by
  obtain ⟨sign, whole, fraction, exponent, hne⟩ := literal
  obtain ⟨rest, hrest⟩ : ∃ rest, rest = exponent.elim [] Exponent.text := ⟨_, rfl⟩
  have hletter : ∀ c ∈ rest.head?, c = 69 ∨ c = 101 := hrest ▸ head_exponent
  have hexponent : scanExponent rest = some (exponent.elim 0 Exponent.value) := hrest ▸ scanExponent_elim exponent
  have hdigit : ∀ c ∈ rest.head?, isdigit c = false := by
    intro c hc
    rcases hletter c hc with rfl | rfl <;> rfl
  have hempty : (Digits.text (whole ++ fraction.getD [])).isEmpty = false := by
    rw [List.isEmpty_eq_false_iff, Digits.text]
    exact mt List.map_eq_nil_iff.mp hne
  cases fraction with
  | none =>
    have hwhole : whole ≠ [] := by simpa using hne
    have hhead : ∀ c ∈ (whole.text ++ rest).head?, c ≠ 43 ∧ c ≠ 45 :=
      fun c hc => not_sign_of_isdigit (Digits.head_text hwhole rest c hc)
    have htext : Literal.text ⟨sign, whole, none, exponent, hne⟩ = sign.text ++ (whole.text ++ rest) := by
      simp [Literal.text, hrest]
    -- No point follows, so the fraction is empty.
    have hpoint : ∀ after, rest ≠ 46 :: after := by
      rintro after rfl
      exact absurd (hletter 46 rfl) (by decide)
    rw [Option.getD_none, List.append_nil] at hempty
    rw [scanDecimal, htext, sign.skipSign_append hhead, whole.spanDigits_append rest hdigit]
    simp only [sign.head_append hhead, List.append_nil, hempty, hexponent]
    rw [if_neg Bool.false_ne_true, Option.map_some, whole.digitsValue_text]
    simp [Literal.number]
  | some digits =>
    have hhead : ∀ c ∈ (whole.text ++ 46 :: (digits.text ++ rest)).head?, c ≠ 43 ∧ c ≠ 45 := by
      rcases whole with _ | ⟨d, whole⟩
      · rintro c ⟨⟩
        decide
      · exact fun c hc => not_sign_of_isdigit (Digits.head_text (List.cons_ne_nil d whole) _ c hc)
    have htext : Literal.text ⟨sign, whole, some digits, exponent, hne⟩ =
        sign.text ++ (whole.text ++ 46 :: (digits.text ++ rest)) := by
      have hpoint : ofText "." = [46] := rfl
      simp [Literal.text, hrest, hpoint]
    have hpoint : ∀ c ∈ (46 :: (digits.text ++ rest)).head?, isdigit c = false := by
      rintro c ⟨⟩
      rfl
    rw [Option.getD_some, Digits.text_append] at hempty
    rw [scanDecimal, htext, sign.skipSign_append hhead, whole.spanDigits_append _ hpoint]
    simp only [sign.head_append hhead, digits.spanDigits_append rest hdigit, hempty, hexponent]
    rw [if_neg Bool.false_ne_true, Option.map_some, ← Digits.text_append, Digits.digitsValue_text, Digits.text,
      List.length_map]
    rfl

/-- No number starts with a space. -/
theorem scanDecimal_space {c : UInt8} (h : isspace c = true) (rest : Bytes) : scanDecimal (c :: rest) = none := by
  have hle : c ≤ 32 := by
    have hc : c = 32 ∨ 9 ≤ c ∧ c ≤ 13 := by simpa [isspace] using h
    rcases hc with rfl | ⟨_, hle⟩
    · exact UInt8.le_refl 32
    · exact UInt8.le_trans hle (by decide)
  have hdigit : ¬48 ≤ c := fun hge => absurd (UInt8.le_trans hge hle) (by decide)
  have hother : c ≠ 43 ∧ c ≠ 45 ∧ c ≠ 46 := by
    refine ⟨?_, ?_, ?_⟩
    all_goals
      rintro rfl
      exact absurd hle (by decide)
  have hskip : skipSign (c :: rest) = c :: rest := if_neg (not_or.mpr ⟨hother.1, hother.2.1⟩)
  have hspan : spanDigits (c :: rest) = ([], c :: rest) := by simp [spanDigits, isdigit, hdigit]
  rw [scanDecimal, hskip, hspan]
  simp [hother.2.2]

theorem extractDouble_of_scan {text : Bytes} {number : Decimal} (h : scanDecimal text = some number) (old : Binary64) :
    extractDouble text old = number.toBinary64 := by
  rcases text with _ | ⟨c, rest⟩
  · cases h
  · have hspace : isspace c = false := by
      by_contra hspace
      rw [scanDecimal_space (Bool.not_eq_false _ ▸ hspace)] at h
      cases h
    rw [extractDouble, List.dropWhile_cons_of_neg (by simp [hspace])]
    simp only [h]

/-- **A decimal literal is read as its double**, whatever the variable held before. -/
theorem IsDouble.isRead {text : Bytes} (h : IsDouble text) (old : Binary64) : IsRead (extractDouble text old) text := by
  obtain ⟨literal, rfl, hfits⟩ := h
  refine ⟨literal, rfl, ?_⟩
  rw [extractDouble_of_scan (scanDecimal_text literal)]
  exact Decimal.toBinary64_roundsTo hfits

/-- Half, an exponent without digits, and nothing. -/
example : ["0.5", "5e", ""].map (fun text => extractDouble (ofText text) minusOne) =
    [⟨0x3FE0000000000000⟩, .zero, minusOne] := by decide +kernel

end Sender

open Sender

namespace PreRankScoreDic

/-! ## Rows -/

/-- Five fields, each a literal of its column. -/
def WellFormed : List Bytes → Prop
  | [adspaceId, solutionId, ctr, cvr, timestamp] =>
    IsUnsigned (2 ^ 64 - 1) adspaceId ∧ IsUnsigned (2 ^ 32 - 1) solutionId ∧ IsDouble ctr ∧ IsDouble cvr ∧
      IsUnsigned (2 ^ 64 - 1) timestamp
  | _ => False

/-- The row holds the values of the fields. -/
def Holds (rank : RankScoreData) : List Bytes → Prop
  | [adspaceId, solutionId, ctr, cvr, timestamp] =>
    rank.adspaceId.toNat = digitsValue adspaceId ∧ rank.solutionId.toNat = digitsValue solutionId ∧
      IsRead rank.ctr ctr ∧ IsRead rank.cvr cvr ∧ rank.timestamp.toNat = digitsValue timestamp
  | _ => False

theorem ParseRow_isSome (result : List Bytes) : (ParseRow result).isSome ↔ result.length = 5 := by
  rcases result with _ | ⟨a, _ | ⟨s, _ | ⟨c, _ | ⟨v, _ | ⟨t, _ | ⟨x, rest⟩⟩⟩⟩⟩⟩ <;> simp [ParseRow]

theorem WellFormed.length_eq {result : List Bytes} (h : WellFormed result) : result.length = 5 := by
  unfold WellFormed at h
  split at h
  · rfl
  · exact h.elim

/-- **Literals are read as their values.** -/
theorem ParseRow_holds {result : List Bytes} (h : WellFormed result) {rank : RankScoreData}
    (hrank : ParseRow result = some rank) : Holds rank result := by
  unfold WellFormed at h
  split at h
  · next adspaceId solutionId ctr cvr timestamp =>
    obtain ⟨hadspace, hsolution, hctr, hcvr, htime⟩ := h
    cases hrank
    refine ⟨?_, ?_, hctr.isRead _, hcvr.isRead _, ?_⟩
    · have := hadspace.2.2
      simp only [extractUnsigned_literal hadspace, UInt64.toNat_ofNat']
      omega
    · have := hsolution.2.2
      simp only [extractUnsigned_literal hsolution, UInt32.toNat_ofNat']
      omega
    · have := htime.2.2
      simp only [extractUnsigned_literal htime, UInt64.toNat_ofNat']
      omega
  · exact h.elim

/-- **`ParseRow` accepts well-formed rows only**, and reads them right, unless
it is given five fields that are not. -/
theorem ParseRow_iff (result : List Bytes) :
    (((ParseRow result).isSome ↔ WellFormed result) ∧
      ∀ rank, ParseRow result = some rank → Holds rank result) ↔
    result.length ≠ 5 ∨ WellFormed result := by
  rw [ParseRow_isSome]
  constructor
  · intro h
    by_cases hlength : result.length = 5
    · exact .inr (h.1.mp hlength)
    · exact .inl hlength
  · intro h
    rcases h with hlength | hwell
    · refine ⟨iff_of_false hlength fun hwell => hlength hwell.length_eq, fun rank hrank => ?_⟩
      exact absurd ((ParseRow_isSome result).mp (Option.isSome_of_eq_some hrank)) hlength
    · exact ⟨iff_of_true hwell.length_eq hwell, fun rank hrank => ParseRow_holds hwell hrank⟩

/-- A row without a number in its first field is accepted. -/
theorem ParseRow_word : ¬∀ result : List Bytes,
    ((ParseRow result).isSome ↔ WellFormed result) ∧
      ∀ rank, ParseRow result = some rank → Holds rank result := by
  intro h
  have hwell := (h [ofText "abc", ofText "1", ofText "0.5", ofText "0.5", ofText "100"]).1.mp rfl
  exact absurd hwell.1 (by decide)

/-! ## Files -/

/-- The call sets the flag. -/
def SetsFlag (dic : PreRankScoreDic) (content : Bytes) (fate : Fate) : Prop :=
  ({ dic with isSuccess := false }.FetcherData content fate).isSuccess = true

theorem setsFlag_iff (dic : PreRankScoreDic) (content : Bytes) (fate : Fate) : SetsFlag dic content fate ↔ fate = .ok := by
  unfold SetsFlag
  by_cases hfate : fate = .ok
  · rw [hfate, FetcherData_ok]
    refine iff_of_true ?_ rfl
    split <;> rfl
  · rw [FetcherData_failed _ _ hfate]
    exact iff_of_false Bool.false_ne_true hfate

/-- **A file is taken over whole or not at all** exactly when it ends in a line
that is no row, or in a newline and has no rows but those that are there. -/
theorem FetcherData_iff (dic : PreRankScoreDic) (content : Bytes) (fate : Fate) :
    ((SetsFlag dic content fate → (dic.FetcherData content fate).datas = parse content) ∧
      (¬SetsFlag dic content fate → (dic.FetcherData content fate).datas = dic.datas)) ↔
    (fate = .ok →
      if lastLine content = [] then dic.datas = parse content else parseLine (lastLine content) = none) := by
  rw [setsFlag_iff]
  by_cases hfate : fate = .ok
  · rw [hfate, FetcherData_ok]
    by_cases hlast : lastLine content = []
    · simp [hlast]
    · simp [hlast, DictFile.completeRows_iff]
  · rw [FetcherData_failed _ _ hfate]
    simp [hfate]

/-- Of a file that ends in a newline nothing is taken over. -/
theorem FetcherData_newline : ¬∀ (dic : PreRankScoreDic) (content : Bytes) (fate : Fate),
    (SetsFlag dic content fate → (dic.FetcherData content fate).datas = parse content) ∧
      (¬SetsFlag dic content fate → (dic.FetcherData content fate).datas = dic.datas) := by
  intro h
  have hrows := (h .create (ofText "1\x012\x010.5\x010.5\x01100\n") .ok).1 ((setsFlag_iff _ _ _).mpr rfl)
  have hlast : lastLine (ofText "1\x012\x010.5\x010.5\x01100\n") = [] := by decide +kernel
  rw [FetcherData_ok, if_pos hlast] at hrows
  have hone : (parse (ofText "1\x012\x010.5\x010.5\x01100\n")).length = 1 := by decide +kernel
  rw [← hrows] at hone
  cases hone

end PreRankScoreDic
end DictionaryServer
