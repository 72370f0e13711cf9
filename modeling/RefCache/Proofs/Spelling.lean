import RefCache.Settings
import Mathlib.Data.List.Induction
import Mathlib.Data.List.TakeWhile
import Mathlib.Data.Nat.Digits.Defs

/-! Settings that are positive numbers. A text spells a number if it is, between blanks, an optional
plus sign and at least one decimal digit; leading zeros count for nothing, and no number is too
long. A setting comes to the number that it spells where this is positive and below the bound, and
else to its default, so that it is neither zero nor cut. -/

namespace RefCache

/-! ### Blanks around a text -/

theorem trimLeft_append {before : List Char} (h : ∀ c ∈ before, isBlank c) (cs : List Char) :
    trimLeft (before ++ cs) = trimLeft cs :=
  List.dropWhile_append_of_pos h

theorem trimLeft_of_inked {cs : List Char} (h : ∀ c ∈ cs, ¬isBlank c) : trimLeft cs = cs := by
  cases cs with
  | nil => rfl
  | cons c cs => exact List.dropWhile_cons_of_neg (h c (List.mem_cons_self ..))

/-- Trimming takes the blanks around a text that holds none. -/
theorem trim_between {before core after : List Char} (hbefore : ∀ c ∈ before, isBlank c)
    (hcore : ∀ c ∈ core, ¬isBlank c) (hafter : ∀ c ∈ after, isBlank c) :
    trim (before ++ core ++ after) = core := by
  have hreverse : ∀ c ∈ after.reverse, isBlank c := fun c hc => hafter c (List.mem_reverse.1 hc)
  have hright : trimLeft (core ++ after).reverse = core.reverse := by
    rw [List.reverse_append, trimLeft_append hreverse]
    exact trimLeft_of_inked fun c hc => hcore c (List.mem_reverse.1 hc)
  rw [trim, List.append_assoc, trimLeft_append hbefore]
  cases core with
  | nil =>
    have hnone : trimLeft after = [] := by
      rw [← List.append_nil after, trimLeft_append hafter]
      rfl
    rw [List.nil_append, hnone]
    rfl
  | cons c cs =>
    have hleft : trimLeft (c :: cs ++ after) = c :: cs ++ after :=
      List.dropWhile_cons_of_neg (hcore c (List.mem_cons_self ..))
    rw [hleft, hright, List.reverse_reverse]

/-- What trimming takes away is blank. -/
theorem exists_blanks (cs : List Char) :
    ∃ before after : List Char, cs = before ++ trim cs ++ after ∧
      (∀ c ∈ before, isBlank c) ∧ ∀ c ∈ after, isBlank c := by
  have hleft : cs = cs.takeWhile isBlank ++ trimLeft cs := List.takeWhile_append_dropWhile.symm
  have hright : (trimLeft cs).reverse =
      (trimLeft cs).reverse.takeWhile isBlank ++ trimLeft (trimLeft cs).reverse :=
    List.takeWhile_append_dropWhile.symm
  refine ⟨cs.takeWhile isBlank, ((trimLeft cs).reverse.takeWhile isBlank).reverse, ?_, ?_, ?_⟩
  · have hsplit := congrArg List.reverse hright
    rw [List.reverse_reverse, List.reverse_append] at hsplit
    rw [List.append_assoc, trim, ← hsplit]
    exact hleft
  · exact fun c hc => List.mem_takeWhile_imp hc
  · exact fun c hc => List.mem_takeWhile_imp (List.mem_reverse.1 hc)

theorem not_isBlank_of_isDigit {c : Char} (h : c.isDigit) : ¬isBlank c := by
  obtain ⟨hlow, hhigh⟩ := Char.isDigit_iff_toNat.1 h
  have hzero : '0'.toNat = 48 := rfl
  have hnine : '9'.toNat = 57 := rfl
  simp only [isBlank, inRanges, blankRanges, List.any_eq_true, Bool.and_eq_true, decide_eq_true_eq,
    not_exists, not_and, List.mem_cons, List.not_mem_nil, or_false]
  rintro r hr hfrom
  rcases hr with rfl | rfl | rfl | rfl | rfl | rfl | rfl | rfl | rfl | rfl <;>
    simp only at hfrom ⊢ <;> omega

/-! ### Numbers in decimal digits -/

/-- The value of decimal digits by their places: the last one counts for itself, and every other
one ten times what it would count one place later. -/
def placeValue (digits : List Char) : Nat :=
  Nat.ofDigits 10 (digits.reverse.map fun c => c.toNat - '0'.toNat)

theorem decimalValue_eq (digits : List Char) : decimalValue digits = placeValue digits := by
  induction digits using List.reverseRecOn with
  | nil => rfl
  | append_singleton digits c ih =>
    have hlast : decimalValue (digits ++ [c]) =
        10 * decimalValue digits + (c.toNat - '0'.toNat) := by
      rw [decimalValue, Nat.ofDigitChars_append]
      rfl
    have hplaces : placeValue (digits ++ [c]) =
        c.toNat - '0'.toNat + 10 * placeValue digits := by
      rw [placeValue, List.reverse_append]
      exact Nat.ofDigits_cons
    rw [hlast, hplaces, ih, Nat.add_comm]

/-- A text that writes a number down. -/
def Spells (text : String) (n : Nat) : Prop :=
  ∃ before sign digits after : List Char, text.toList = before ++ (sign ++ digits) ++ after ∧
    (∀ c ∈ before, isBlank c) ∧ (∀ c ∈ after, isBlank c) ∧ (sign = [] ∨ sign = ['+']) ∧
    digits ≠ [] ∧ (∀ c ∈ digits, c.isDigit) ∧ placeValue digits = n

theorem exists_sign (cs : List Char) :
    ∃ sign, cs = sign ++ dropPlus cs ∧ (sign = [] ∨ sign = ['+']) := by
  unfold dropPlus
  split
  · exact ⟨['+'], rfl, .inr rfl⟩
  · exact ⟨[], rfl, .inl rfl⟩

theorem dropPlus_append {sign digits : List Char} (hsign : sign = [] ∨ sign = ['+'])
    (hdigits : ∀ c ∈ digits, c.isDigit) : dropPlus (sign ++ digits) = digits := by
  rcases hsign with rfl | rfl
  · rw [List.nil_append]
    unfold dropPlus
    split
    · exact absurd (hdigits '+' (List.mem_cons_self ..)) (by decide)
    · rfl
  · rfl

theorem Spells.dropPlus_trim {text : String} {n : Nat} (h : Spells text n) :
    dropPlus (trim text.toList) ≠ [] ∧ (∀ c ∈ dropPlus (trim text.toList), c.isDigit) ∧
      decimalValue (dropPlus (trim text.toList)) = n := by
  obtain ⟨before, sign, digits, after, htext, hbefore, hafter, hsign, hne, hdigits, hvalue⟩ := h
  have hcore : ∀ c ∈ sign ++ digits, ¬isBlank c := by
    intro c hc
    rcases List.mem_append.1 hc with hc | hc
    · rcases hsign with rfl | rfl
      · cases hc
      · obtain rfl := List.mem_singleton.1 hc
        decide
    · exact not_isBlank_of_isDigit (hdigits c hc)
  have htrim : dropPlus (trim text.toList) = digits := by
    rw [htext, trim_between hbefore hcore hafter, dropPlus_append hsign hdigits]
  rw [htrim]
  exact ⟨hne, hdigits, (decimalValue_eq digits).trans hvalue⟩

/-- A text spells one number at most. -/
theorem Spells.unique {text : String} {m n : Nat} (hm : Spells text m) (hn : Spells text n) :
    m = n :=
  hm.dropPlus_trim.2.2.symm.trans hn.dropPlus_trim.2.2

theorem readPositive_eq_some {bound n : Nat} {text : String} :
    readPositive bound text = some n ↔ Spells text n ∧ 0 < n ∧ n < bound := by
  constructor
  · intro h
    simp only [readPositive] at h
    split at h
    · cases h
    · rename_i hdigits
      split at h
      · rename_i hrange
        obtain rfl := Option.some.inj h
        simp only [Bool.or_eq_true, List.isEmpty_iff, Bool.not_eq_true', not_or, Bool.not_eq_false,
          List.all_eq_true] at hdigits
        obtain ⟨before, after, htext, hbefore, hafter⟩ := exists_blanks text.toList
        obtain ⟨sign, hsplit, hsign⟩ := exists_sign (trim text.toList)
        rw [hsplit] at htext
        exact ⟨⟨before, sign, _, after, htext, hbefore, hafter, hsign, hdigits.1, hdigits.2,
          (decimalValue_eq _).symm⟩, hrange⟩
      · cases h
  · rintro ⟨hspells, hrange⟩
    obtain ⟨hne, hdigits, hvalue⟩ := hspells.dropPlus_trim
    simp only [readPositive]
    rw [if_neg, hvalue, if_pos hrange]
    simpa [hne] using hdigits

/-! ### Settings -/

/-- A setting that is given and spells a positive number below the bound. -/
def Names (bound : Nat) (setting : Option String) (n : Nat) : Prop :=
  ∃ text, setting = some text ∧ Spells text n ∧ 0 < n ∧ n < bound

theorem names_iff {bound n : Nat} {setting : Option String} :
    Names bound setting n ↔ setting.bind (readPositive bound) = some n := by
  simp only [Names, Option.bind_eq_some_iff, readPositive_eq_some]

/-- What a setting comes to. -/
structure ComesTo (bound default : Nat) (setting : Option String) (value : Nat) : Prop where
  named : ∀ n, Names bound setting n → value = n
  otherwise : (∀ n, ¬Names bound setting n) → value = default
  positive : 0 < value
  below : value < bound

theorem comesTo_getD {bound default : Nat} (hpositive : 0 < default) (hbelow : default < bound)
    (setting : Option String) :
    ComesTo bound default setting ((setting.bind (readPositive bound)).getD default) := by
  cases hread : setting.bind (readPositive bound) with
  | none =>
    have hnone : ∀ n, ¬Names bound setting n := by
      intro n hn
      rw [names_iff, hread] at hn
      cases hn
    exact ⟨fun n hn => absurd hn (hnone n), fun _ => rfl, hpositive, hbelow⟩
  | some m =>
    have hm : Names bound setting m := names_iff.2 hread
    obtain ⟨text, -, -, hrange⟩ := hm
    refine ⟨fun n hn => ?_, fun hno => absurd (names_iff.2 hread) (hno m), hrange.1, hrange.2⟩
    rw [names_iff, hread] at hn
    exact Option.some.inj hn

/-- The interval and its warning, told by what the setting reads as. -/
theorem readSyncInterval_eq (setting : Option String) :
    readSyncInterval setting =
      ⟨(setting.bind (readPositive (2 ^ 64))).getD defaultSyncSeconds,
        setting.isSome && (setting.bind (readPositive (2 ^ 64))).isNone⟩ := by
  cases setting with
  | none => rfl
  | some text =>
    have hbound : Nat.pow 2 64 = 2 ^ 64 := rfl
    rw [readSyncInterval, hbound, Option.bind_some]
    cases readPositive (2 ^ 64) text with
    | none => rfl
    | some n => rfl

/-- The sync interval is the number of 64 bits that its setting spells, or else the default with a
warning if there was a setting; the size of a pool and its timeout are the numbers of 32 bits that
theirs spell, each without regard to the other. All of them are positive. -/
theorem positive_settings_exact (interval connections timeout : Option String) :
    ComesTo (2 ^ 64) defaultSyncSeconds interval (readSyncInterval interval).seconds ∧
    ((readSyncInterval interval).warned ↔ interval.isSome ∧ ∀ n, ¬Names (2 ^ 64) interval n) ∧
    ComesTo (2 ^ 32) PoolSettings.standard.maxConnections connections
      (PoolSettings.read connections timeout).maxConnections ∧
    ComesTo (2 ^ 32) PoolSettings.standard.acquireSeconds timeout
      (PoolSettings.read connections timeout).acquireSeconds := by
  refine ⟨?_, ?_, ?_, ?_⟩
  · rw [readSyncInterval_eq]
    exact comesTo_getD (by decide) (by decide) interval
  · rw [readSyncInterval_eq]
    simp only [names_iff, Bool.and_eq_true, Option.isNone_iff_eq_none,
      Option.eq_none_iff_forall_ne_some]
  · exact comesTo_getD (by decide) (by decide) connections
  · exact comesTo_getD (by decide) (by decide) timeout

/-- The greatest number of 64 bits is taken with zeros, sign and blanks; the next one is not. -/
example :
    readSyncInterval (some "\u3000+0018446744073709551615\u0085") =
        ⟨18446744073709551615, false⟩ ∧
      readSyncInterval (some "18446744073709551616") = ⟨defaultSyncSeconds, true⟩ := by
  decide +kernel

end RefCache
