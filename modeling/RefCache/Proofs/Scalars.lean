import RefCache.Proofs.Trees
import RefCache.Json.Wire

/-! Strings, integers and identifiers as they are read back. A written character is read as itself,
whether it is escaped or not; a written integer of 64 bits is whole and in range; the digits of an
identifier stand for its bits. -/

namespace RefCache

namespace Json

/-! ### Strings -/

theorem pieceChars_map_pieceOf (cs : List Char) : pieceChars none (cs.map pieceOf) = .ok cs := by
  induction cs with
  | nil => rfl
  | cons c cs ih =>
    rw [List.map_cons, pieceOf]
    split
    · rename_i hcontrol
      have hleading : isLeading c.toNat = false := by simp [isLeading]; omega
      have htrailing : isTrailing c.toNat = false := by simp [isTrailing]; omega
      rw [pieceChars.eq_def]
      simp only [hleading, htrailing, ih]
      exact congrArg (fun d => Except.ok (d :: cs)) (Char.ofNat_toNat c)
    · rw [pieceChars, ih]
      rfl

@[simp] theorem readText_treeOf (s : String) : readText (treeOf (.text s)) = .ok s := by
  simp only [treeOf, readText, pieceChars_map_pieceOf]
  exact congrArg Except.ok String.ofList_toList

@[simp] theorem keyText_textToken (s : String) : keyText (textToken s) = .ok s :=
  readText_treeOf s

/-! ### Integers -/

namespace Numeral

theorem le_ofDigitChars (cs : List Char) (n : Nat) : n ≤ Nat.ofDigitChars 10 cs n := by
  induction cs generalizing n with
  | nil => simp
  | cons c cs ih =>
    rw [Nat.ofDigitChars_cons]
    have := ih (10 * n + (c.toNat - '0'.toNat))
    omega

/-- Digits of a number that fits are all taken into account. -/
theorem takeWhole_eq (cs : List Char) (s : Scaled)
    (h : Nat.ofDigitChars 10 cs s.significand < wordBound) :
    takeWhole s cs = ⟨Nat.ofDigitChars 10 cs s.significand, s.power⟩ := by
  induction cs generalizing s with
  | nil => rfl
  | cons c cs ih =>
    rw [Nat.ofDigitChars_cons] at h ⊢
    have hnext : s.significand * 10 + digitValue c =
        10 * s.significand + (c.toNat - '0'.toNat) := by
      rw [digitValue, Nat.mul_comm]
    have hfits : s.significand * 10 + digitValue c < wordBound :=
      hnext ▸ Nat.lt_of_le_of_lt (le_ofDigitChars cs _) h
    rw [takeWhole]
    simp only [hfits, if_true]
    rw [ih ⟨_, s.power⟩ (by rw [hnext]; exact h), hnext]

theorem nearestDouble_le (n : Nat) : nearestDouble n ≤ 2 * n := by
  unfold nearestDouble
  split
  · omega
  · rename_i hlarge
    have hpos : n ≠ 0 := by
      rintro rfl
      exact hlarge (by decide)
    generalize hunit : Nat.pow 2 (n.log2 - 52) = unit
    have hle : unit ≤ n := by
      rw [← hunit]
      exact Nat.le_trans (Nat.pow_le_pow_right (by decide) (Nat.sub_le _ _)) (Nat.log2_self_le hpos)
    have hlow : n / unit * unit ≤ n := Nat.div_mul_le_self ..
    simp only []
    split
    · rw [Nat.add_mul]
      omega
    · omega

theorem scaledInRange_of_lt {n : Nat} (h : n < wordBound) : scaledInRange ⟨n, 0⟩ := by
  have hone : nearestDouble 1 = 1 := rfl
  have hdouble := nearestDouble_le n
  have hbound : 2 * wordBound ≤ overflowBound := by decide +kernel
  have hsmall : nearestDouble n < overflowBound := by omega
  simp [scaledInRange, hone, hsmall]

end Numeral

theorem ofDigitChars_decimal (n : Nat) : Nat.ofDigitChars 10 (decimal n) 0 = n :=
  Nat.ofDigitChars_ten_toDigits

theorem inRange_numeralOf {i : Int} (h : i.natAbs < wordBound) : (numeralOf i).inRange := by
  have hmantissa : (numeralOf i).mantissa = ⟨i.natAbs, 0⟩ := by
    have hdigits : Nat.ofDigitChars 10 (decimal i.natAbs) 0 < wordBound := by
      rwa [ofDigitChars_decimal]
    rw [Numeral.mantissa, numeralOf, Lexer.startNumeral, Numeral.takeWhole_eq _ _ hdigits,
      ofDigitChars_decimal]
    rfl
  have hexponent : Numeral.exponentValue (numeralOf i).exponent = some 0 := rfl
  have hclamp : Numeral.clampExponent 0 = 0 := by decide
  simp only [Numeral.inRange, hmantissa, hexponent]
  simpa [hclamp] using Numeral.scaledInRange_of_lt h

theorem integer?_numeralOf {i : Int} (hlow : -9223372036854775808 ≤ i)
    (hhigh : i ≤ 9223372036854775807) : (numeralOf i).integer? = some i := by
  have hsigned : Nat.pow 2 63 = 9223372036854775808 := rfl
  have hword : wordBound = 18446744073709551616 := rfl
  simp only [Numeral.integer?, numeralOf, Lexer.startNumeral, ofDigitChars_decimal, hsigned, hword]
  by_cases hneg : i < 0
  · have hfits : ¬(i.natAbs = 0 ∨ 9223372036854775808 < i.natAbs) := by omega
    have hvalue : -(i.natAbs : Int) = i := by omega
    simp only [hneg, decide_true, if_true, hfits, if_false, hvalue]
    rfl
  · have hfits : i.natAbs < 18446744073709551616 := by omega
    have hvalue : (i.natAbs : Int) = i := by omega
    simp only [hneg, decide_false, hfits, if_true, hvalue]
    rfl

theorem readInt_treeOf {low high i : Int} (hlow : -9223372036854775808 ≤ low)
    (hhigh : high ≤ 9223372036854775807) (h : low ≤ i ∧ i ≤ high) :
    readInt low high (treeOf (.int i)) = .ok i := by
  have hword : wordBound = 18446744073709551616 := rfl
  have hrange : (numeralOf i).inRange := inRange_numeralOf (by omega)
  have hinteger : (numeralOf i).integer? = some i := integer?_numeralOf (by omega) (by omega)
  simp [treeOf, readInt, numberFault, hrange, hinteger, h]

end Json

/-! ### Identifiers -/

namespace Uuid

theorem hexValue_digitChar : ∀ n < 16, hexValue (Nat.digitChar n) = some n := by decide

theorem length_digits (u : Uuid) : u.digits.length = 32 := by simp [digits]

theorem mapM_hexValue_map {ns : List Nat} (h : ∀ n ∈ ns, n < 16) :
    (ns.map Nat.digitChar).mapM hexValue = some ns := by
  induction ns with
  | nil => rfl
  | cons n ns ih =>
    rw [List.forall_mem_cons] at h
    rw [List.map_cons, List.mapM_cons, hexValue_digitChar n h.1, ih h.2]
    rfl

/-- The first digits of a number of 32 hexadecimal digits stand for what is left of the last. -/
theorem foldl_digitValues {b : Nat} (h : b < Nat.pow 16 32) {k : Nat} (hk : k ≤ 32) :
    ((List.range k).map fun i => b / Nat.pow 16 (31 - i) % 16).foldl (fun n v => n * 16 + v) 0 =
      b / Nat.pow 16 (32 - k) := by
  induction k with
  | zero => exact (Nat.div_eq_of_lt h).symm
  | succ k ih =>
    have hpow : Nat.pow 16 (32 - k) = Nat.pow 16 (31 - k) * 16 := by
      rw [show 32 - k = (31 - k) + 1 by omega]
      rfl
    rw [List.range_succ, List.map_append, List.foldl_append, ih (Nat.le_of_succ_le hk), hpow,
      ← Nat.div_div_eq_div_mul, show 32 - (k + 1) = 31 - k by omega]
    exact Nat.div_add_mod' (b / Nat.pow 16 (31 - k)) 16

theorem ofDigits?_digits (u : Uuid) : ofDigits? u.digits = some u := by
  have hvalues : u.digits.mapM hexValue =
      some ((List.range 32).map fun i => u.bits.toNat / Nat.pow 16 (31 - i) % 16) := by
    rw [digits, ← mapM_hexValue_map, List.map_map]
    · rfl
    · intro n hn
      obtain ⟨i, -, rfl⟩ := List.mem_map.1 hn
      exact Nat.mod_lt _ (by decide)
  have hfold := foldl_digitValues u.bits.isLt (Nat.le_refl 32)
  rw [Nat.sub_self, show Nat.pow 16 0 = 1 from rfl, Nat.div_one] at hfold
  simp only [ofDigits?, hvalues, length_digits, ne_eq, not_true_eq_false, if_false]
  change some (Uuid.mk (BitVec.ofNat 128 _)) = some u
  rw [hfold, BitVec.ofNat_toNat, BitVec.setWidth_eq]

theorem length_grouped (sizes : List Nat) (cs : List Char) :
    (grouped sizes cs).length = cs.length + sizes.length := by
  induction sizes generalizing cs with
  | nil => rfl
  | cons n sizes ih =>
    rw [grouped, List.length_append, List.length_cons, ih, List.length_take, List.length_drop,
      List.length_cons]
    omega

theorem ungrouped?_grouped (sizes : List Nat) (cs : List Char)
    (h : sizes.foldr (· + ·) 0 ≤ cs.length) : ungrouped? sizes (grouped sizes cs) = some cs := by
  induction sizes generalizing cs with
  | nil => rfl
  | cons n sizes ih =>
    rw [List.foldr_cons] at h
    have hlength : (cs.take n).length = n := List.length_take_of_le (by omega)
    have hdrop : (grouped (n :: sizes) cs).drop n = '-' :: grouped sizes (cs.drop n) :=
      List.drop_left' hlength
    have htake : (grouped (n :: sizes) cs).take n = cs.take n := List.take_left' hlength
    have hrest := ih (cs.drop n) (by rw [List.length_drop]; omega)
    rw [ungrouped?, hdrop, htake]
    simp [hrest]

theorem length_chars (u : Uuid) : u.chars.length = 36 := by
  rw [chars, length_grouped, length_digits]
  rfl

theorem ofHyphenated?_chars (u : Uuid) : ofHyphenated? u.chars = some u := by
  have hparts : ungrouped? [8, 4, 4, 4] u.chars = some u.digits :=
    ungrouped?_grouped _ _ (by rw [length_digits]; decide)
  simp [ofHyphenated?, length_chars, hparts, ofDigits?_digits]

theorem digitChar_opens_nothing : ∀ n < 16,
    Nat.digitChar n ≠ '\x7b' ∧ (Nat.digitChar n).toLower ≠ 'u' := by
  decide

theorem ofText?_text (u : Uuid) : ofText? u.text = some u := by
  obtain ⟨n, rest, hn, hchars⟩ : ∃ n rest, n < 16 ∧ u.chars = Nat.digitChar n :: rest :=
    ⟨_, u.chars.tail, Nat.mod_lt _ (by decide), rfl⟩
  obtain ⟨hbrace, hprefix⟩ := digitChar_opens_nothing n hn
  have hbraced : ¬(u.chars.head? = some '\x7b' ∧ u.chars.getLast? = some '\x7d') := by
    rintro ⟨hhead, -⟩
    rw [hchars, List.head?_cons] at hhead
    exact hbrace (Option.some.inj hhead)
  have hnamed : (u.chars.take 9).map Char.toLower ≠ "urn:uuid:".toList := by
    intro heq
    have hhead := congrArg List.head? heq
    rw [hchars] at hhead
    exact hprefix (Option.some.inj hhead)
  rw [ofText?, text, String.toList_ofList, ofChars?, length_chars, if_neg (by decide),
    if_neg hbraced, if_neg hnamed, ofHyphenated?_chars]

end Uuid

end RefCache
