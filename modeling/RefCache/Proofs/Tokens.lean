import RefCache.Json.Token
import RefCache.Json.Value

/-! The tokens of a written value. The text of a value, read from between two tokens on, leaves
exactly the tokens of the value, whatever ends the value after it: the end of the text, a comma or
a closing bracket. Only a number needs something to end it. -/

namespace RefCache.Json

/-- How a character of a written string is read: by its value if it has no short escape. -/
def pieceOf (c : Char) : Piece :=
  if c.toNat < 0x20 ∧ c ∉ ['\n', '\r', '\t', '\x08', '\x0c'] then .unit c.toNat else .char c

/-- A written integer as it is read. -/
def numeralOf (i : Int) : Numeral := Lexer.startNumeral (decide (i < 0)) (decimal i.natAbs)

def textToken (s : String) : Token := .text (s.toList.map pieceOf) none

mutual

def tokensOf : Json → List Token
  | .null => [.word .null none]
  | .bool true => [.word .yes none]
  | .bool false => [.word .no none]
  | .int value => [.number (numeralOf value) none]
  | .text value => [textToken value]
  | .array [] => [.mark '[', .mark ']']
  | .array (first :: rest) => .mark '[' :: (tokensOf first ++ laterItemTokens rest)
  | .object [] => [.mark '\x7b', .mark '\x7d']
  | .object ((key, value) :: rest) =>
    .mark '\x7b' :: textToken key :: .mark ':' :: (tokensOf value ++ laterMemberTokens rest)

def laterItemTokens : List Json → List Token
  | [] => [.mark ']']
  | item :: rest => .mark ',' :: (tokensOf item ++ laterItemTokens rest)

def laterMemberTokens : List (String × Json) → List Token
  | [] => [.mark '\x7d']
  | (key, value) :: rest =>
    .mark ',' :: textToken key :: .mark ':' :: (tokensOf value ++ laterMemberTokens rest)

end

namespace Lexer

/-- The tokens once the rest of a text is read. -/
def tokensFrom (s : Lexer) (cs : List Char) : List Token := (cs.foldl step s).finish

theorem tokensFrom_append (s : Lexer) (cs rest : List Char) :
    s.tokensFrom (cs ++ rest) = (cs.foldl step s).tokensFrom rest := by
  rw [tokensFrom, List.foldl_append, tokensFrom]

variable {ts : List Token}

/-! ### Strings -/

theorem hexValue_control : ∀ n < 32,
    hexValue ['0', '0', Nat.digitChar (n / 16), Nat.digitChar (n % 16)] = some n ∧
      byteLength ['0', '0', Nat.digitChar (n / 16)] = 3 ∧
      byteLength ['0', '0', Nat.digitChar (n / 16), Nat.digitChar (n % 16)] = 4 := by
  decide

/-- The characters with an escape of one letter. -/
def shortEscaped : List Char := ['"', '\\', '\n', '\r', '\t', '\x08', '\x0c']

theorem foldl_step_shortEscape (pieces : List Piece) : ∀ c ∈ shortEscaped,
    (escapeChar c).foldl step ⟨ts, .text pieces⟩ = ⟨ts, .text (pieceOf c :: pieces)⟩ := by
  intro c hc
  simp only [shortEscaped, List.mem_cons, List.not_mem_nil, or_false] at hc
  rcases hc with rfl | rfl | rfl | rfl | rfl | rfl | rfl <;> rfl

theorem foldl_step_hexEscape {n : Nat} (h : n < 32) (pieces : List Piece) :
    ['\\', 'u', '0', '0', Nat.digitChar (n / 16), Nat.digitChar (n % 16)].foldl step
      ⟨ts, .text pieces⟩ = ⟨ts, .text (.unit n :: pieces)⟩ := by
  obtain ⟨hvalue, hthree, hfour⟩ := hexValue_control n h
  have hopen : ['\\', 'u', '0', '0'].foldl step ⟨ts, .text pieces⟩ =
      ⟨ts, .hex pieces ['0', '0']⟩ := rfl
  rw [show ['\\', 'u', '0', '0', Nat.digitChar (n / 16), Nat.digitChar (n % 16)] =
    ['\\', 'u', '0', '0'] ++ [Nat.digitChar (n / 16), Nat.digitChar (n % 16)] from rfl,
    List.foldl_append, hopen]
  simp [step, hexStep, enter, hthree, hfour, hvalue]

theorem foldl_step_escapeChar (c : Char) (pieces : List Piece) :
    (escapeChar c).foldl step ⟨ts, .text pieces⟩ = ⟨ts, .text (pieceOf c :: pieces)⟩ := by
  by_cases hshort : c ∈ shortEscaped
  · exact foldl_step_shortEscape pieces c hshort
  · simp only [shortEscaped, List.mem_cons, List.not_mem_nil, or_false, not_or] at hshort
    obtain ⟨hquote, hslash, hn, hr, ht, hb, hf⟩ := hshort
    by_cases hcontrol : c.toNat < 0x20
    · have hescape : escapeChar c =
          ['\\', 'u', '0', '0', Nat.digitChar (c.toNat / 16), Nat.digitChar (c.toNat % 16)] := by
        simp [escapeChar, *]
      have hpiece : pieceOf c = .unit c.toNat := by simp [pieceOf, *]
      rw [hescape, hpiece, foldl_step_hexEscape hcontrol]
    · have hescape : escapeChar c = [c] := by simp [escapeChar, *]
      have hpiece : pieceOf c = .char c := by simp [pieceOf, hcontrol]
      simp [hescape, hpiece, step, textStep, enter, hquote, hslash, hcontrol]

theorem foldl_step_escaped (cs : List Char) (pieces : List Piece) :
    (cs.flatMap escapeChar).foldl step ⟨ts, .text pieces⟩ =
      ⟨ts, .text ((cs.map pieceOf).reverse ++ pieces)⟩ := by
  induction cs generalizing pieces with
  | nil => rfl
  | cons c cs ih =>
    rw [List.flatMap_cons, List.foldl_append, foldl_step_escapeChar, ih]
    simp

theorem foldl_step_quoted (s : String) :
    (quoted s).foldl step ⟨ts, .between⟩ = ⟨textToken s :: ts, .between⟩ := by
  have hopen : step ⟨ts, .between⟩ '"' = ⟨ts, .text []⟩ := rfl
  rw [quoted, List.foldl_cons, hopen, List.foldl_append, foldl_step_escaped]
  simp [step, textStep, emit, textToken]

/-! ### Integers -/

theorem exists_decimal_eq_cons {n : Nat} (h : 0 < n) :
    ∃ c cs, decimal n = c :: cs ∧ c ≠ '0' := by
  induction n using Nat.strongRecOn with
  | ind n ih =>
    by_cases hlt : n < 10
    · refine ⟨n.digitChar, [], Nat.toDigits_of_lt_base hlt, fun hzero => ?_⟩
      exact Nat.ne_of_gt h (Nat.digitChar_eq_zero.1 hzero)
    · have hdiv : 0 < n / 10 := Nat.div_pos (Nat.le_of_not_lt hlt) (by decide)
      obtain ⟨c, cs, hcs, hc⟩ := ih (n / 10) (Nat.div_lt_self h (by decide)) hdiv
      refine ⟨c, cs ++ [(n % 10).digitChar], ?_, hc⟩
      rw [decimal, Nat.toDigits_of_base_le (by decide) (Nat.le_of_not_lt hlt), ← decimal, hcs]
      rfl

theorem isDigit_of_mem_decimal {n : Nat} {c : Char} (h : c ∈ decimal n) : c.isDigit :=
  Nat.isDigit_of_mem_toDigits (by decide) (by decide) h

/-- Before the digits of a number: a minus sign is part of it. -/
def started : Bool → Mode
  | true => .number (startNumeral true []) .sign
  | false => .between

/-- How far a number has come by all its digits: nothing but a point or an exponent can follow a
zero. -/
def partOf (n : Nat) : NumeralPart := if n = 0 then .zero else .whole

theorem step_started {c : Char} (hdigit : c.isDigit) (hzero : c ≠ '0') (negative : Bool) :
    step ⟨ts, started negative⟩ c = ⟨ts, .number (startNumeral negative [c]) .whole⟩ := by
  cases negative with
  | true => simp [step, started, numberStep, extend, enter, startNumeral, hdigit, hzero]
  | false =>
    have hne : ∀ d : Char, d.isDigit = false → c ≠ d := by
      rintro d hd rfl
      simp [hdigit] at hd
    simp [step, started, begin, isSpace, isMark, enter, hdigit, hzero, hne]

theorem foldl_step_digits {cs : List Char} (h : ∀ c ∈ cs, c.isDigit) (n : Numeral) :
    cs.foldl step ⟨ts, .number n .whole⟩ =
      ⟨ts, .number { n with whole := n.whole ++ cs } .whole⟩ := by
  induction cs generalizing n with
  | nil => simp
  | cons c cs ih =>
    rw [List.forall_mem_cons] at h
    have hstep : step ⟨ts, .number n .whole⟩ c =
        ⟨ts, .number { n with whole := n.whole ++ [c] } .whole⟩ := by
      simp [step, numberStep, extend, enter, h.1]
    rw [List.foldl_cons, hstep, ih h.2]
    simp

theorem foldl_step_decimal (negative : Bool) (n : Nat) :
    (decimal n).foldl step ⟨ts, started negative⟩ =
      ⟨ts, .number (startNumeral negative (decimal n)) (partOf n)⟩ := by
  rcases Nat.eq_zero_or_pos n with rfl | hpos
  · cases negative <;> rfl
  · obtain ⟨c, cs, hcs, hzero⟩ := exists_decimal_eq_cons hpos
    have hdigits : ∀ d ∈ c :: cs, d.isDigit := fun d hd => isDigit_of_mem_decimal (hcs ▸ hd)
    rw [List.forall_mem_cons] at hdigits
    rw [hcs, List.foldl_cons, step_started hdigits.1 hzero, foldl_step_digits hdigits.2, partOf,
      if_neg (Nat.ne_of_gt hpos)]
    rfl

theorem foldl_step_decimalInt (i : Int) :
    (decimalInt i).foldl step ⟨ts, .between⟩ =
      ⟨ts, .number (numeralOf i) (partOf i.natAbs)⟩ := by
  cases i with
  | ofNat n => exact foldl_step_decimal false n
  | negSucc n =>
    have hsign : step ⟨ts, .between⟩ '-' = ⟨ts, started true⟩ := rfl
    have hnegative : decide (Int.negSucc n < 0) = true := by simp [Int.negSucc_lt_zero]
    rw [decimalInt, List.foldl_cons, hsign, numeralOf, hnegative]
    exact foldl_step_decimal true (n + 1)

/-! ### Values -/

/-- What can stand after a value: nothing, a comma or a closing bracket. -/
def endsValue : List Char → Bool
  | [] => true
  | c :: _ => c == ',' || c == ']' || c == '\x7d'

theorem endsValue_laterItems (items : List Json) (rest : List Char) :
    endsValue (laterItems items ++ rest) := by
  cases items <;> simp [laterItems, endsValue]

theorem endsValue_laterMembers (members : List (String × Json)) (rest : List Char) :
    endsValue (laterMembers members ++ rest) := by
  cases members <;> simp [laterMembers, endsValue]

theorem tokensFrom_number {rest : List Char} (h : endsValue rest) (n : Numeral) (m : Nat) :
    tokensFrom ⟨ts, .number n (partOf m)⟩ rest =
      tokensFrom ⟨.number n none :: ts, .between⟩ rest := by
  have hcomplete : (partOf m).complete := by unfold partOf; split <;> rfl
  cases rest with
  | nil => simp [tokensFrom, finish, hcomplete]
  | cons c cs =>
    have hstep : step ⟨ts, .number n (partOf m)⟩ c = step ⟨.number n none :: ts, .between⟩ c := by
      simp only [endsValue, Bool.or_eq_true, beq_iff_eq] at h
      unfold partOf
      rcases h with (rfl | rfl) | rfl <;> split <;> rfl
    rw [tokensFrom, List.foldl_cons, hstep]
    rfl

theorem tokensFrom_quoted (s : String) (rest : List Char) :
    tokensFrom ⟨ts, .between⟩ (quoted s ++ rest) =
      tokensFrom ⟨textToken s :: ts, .between⟩ rest := by
  rw [tokensFrom_append, foldl_step_quoted]

theorem tokensFrom_mark {c : Char} (h : isMark c) (rest : List Char) :
    tokensFrom ⟨ts, .between⟩ (c :: rest) = tokensFrom ⟨.mark c :: ts, .between⟩ rest := by
  have hspace : isSpace c = false := by
    simp only [isMark, Bool.or_eq_true, beq_iff_eq] at h
    rcases h with ((((rfl | rfl) | rfl) | rfl) | rfl) | rfl <;> rfl
  have hstep : step ⟨ts, .between⟩ c = ⟨.mark c :: ts, .between⟩ := by
    simp [step, begin, hspace, h, emit]
  rw [tokensFrom, List.foldl_cons, hstep]
  rfl

mutual

theorem tokensFrom_chars (j : Json) (ts : List Token) {rest : List Char} (h : endsValue rest) :
    tokensFrom ⟨ts, .between⟩ (chars j ++ rest) =
      tokensFrom ⟨(tokensOf j).reverse ++ ts, .between⟩ rest := by
  match j with
  | .null => rfl
  | .bool true => rfl
  | .bool false => rfl
  | .int i =>
    rw [chars, tokensFrom_append, foldl_step_decimalInt, tokensFrom_number h]
    rfl
  | .text s =>
    rw [chars, tokensFrom_quoted]
    rfl
  | .array [] => rfl
  | .array (first :: rest') =>
    rw [chars, List.cons_append, tokensFrom_mark rfl, List.append_assoc,
      tokensFrom_chars first _ (endsValue_laterItems rest' rest), tokensFrom_laterItems rest' _ h]
    simp [tokensOf]
  | .object [] => rfl
  | .object ((key, value) :: rest') =>
    rw [chars, List.cons_append, tokensFrom_mark rfl, List.append_assoc, tokensFrom_quoted,
      List.cons_append, tokensFrom_mark rfl, List.append_assoc,
      tokensFrom_chars value _ (endsValue_laterMembers rest' rest),
      tokensFrom_laterMembers rest' _ h]
    simp [tokensOf]

theorem tokensFrom_laterItems (items : List Json) (ts : List Token) {rest : List Char}
    (h : endsValue rest) :
    tokensFrom ⟨ts, .between⟩ (laterItems items ++ rest) =
      tokensFrom ⟨(laterItemTokens items).reverse ++ ts, .between⟩ rest := by
  match items with
  | [] => rfl
  | item :: rest' =>
    rw [laterItems, List.cons_append, tokensFrom_mark rfl, List.append_assoc,
      tokensFrom_chars item _ (endsValue_laterItems rest' rest), tokensFrom_laterItems rest' _ h]
    simp [laterItemTokens]

theorem tokensFrom_laterMembers (members : List (String × Json)) (ts : List Token)
    {rest : List Char} (h : endsValue rest) :
    tokensFrom ⟨ts, .between⟩ (laterMembers members ++ rest) =
      tokensFrom ⟨(laterMemberTokens members).reverse ++ ts, .between⟩ rest := by
  match members with
  | [] => rfl
  | (key, value) :: rest' =>
    rw [laterMembers, List.cons_append, tokensFrom_mark rfl, List.append_assoc, tokensFrom_quoted,
      List.cons_append, tokensFrom_mark rfl, List.append_assoc,
      tokensFrom_chars value _ (endsValue_laterMembers rest' rest),
      tokensFrom_laterMembers rest' _ h]
    simp [laterMemberTokens]

end

end Lexer

theorem tokens_chars (j : Json) : tokens j.chars = tokensOf j := by
  have h : Lexer.tokensFrom ⟨[], .between⟩ (j.chars ++ []) =
      Lexer.tokensFrom ⟨j.tokensOf.reverse ++ [], .between⟩ [] := Lexer.tokensFrom_chars j [] rfl
  rw [List.append_nil, List.append_nil] at h
  exact h.trans (List.reverse_reverse _)

end RefCache.Json
