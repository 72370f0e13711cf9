import RefCache.Search
import Mathlib.Data.List.Infix

/-! Who is found by a search. A token gains points from every field that it occurs in, and it loses
some as well from a field that starts with it and is shorter, as it is stored, than the token:
lower case can take more bytes. A user is found if and only if every token occurs in some field and
gains more than it loses, which is so whenever lower case lengthens no field by more than four
bytes. -/

namespace RefCache.Search

variable {token field : List Char} {texts tokens : List (List Char)}

/-! ### Texts inside texts -/

theorem occursIn_iff {text : List Char} : occursIn token text ↔ token <:+: text := by
  induction text with
  | nil => simp [occursIn]
  | cons c rest ih => simp [occursIn, ih, List.infix_cons_iff]

@[simp] theorem byteLength_nil : byteLength [] = 0 := rfl

@[simp] theorem byteLength_cons (c : Char) (cs : List Char) :
    byteLength (c :: cs) = c.utf8Size + byteLength cs := rfl

@[simp] theorem byteLength_append (a b : List Char) :
    byteLength (a ++ b) = byteLength a + byteLength b := by
  induction a with
  | nil => simp
  | cons c rest ih =>
    simp only [List.cons_append, byteLength_cons, ih]
    omega

theorem byteLength_le_of_prefix {a b : List Char} (h : a <+: b) : byteLength a ≤ byteLength b := by
  obtain ⟨rest, rfl⟩ := h
  rw [byteLength_append]
  omega

theorem byteLength_lt_of_prefix {a b : List Char} (h : a <+: b) (hne : b ≠ a) :
    byteLength a < byteLength b := by
  obtain ⟨rest, rfl⟩ := h
  cases rest with
  | nil => simp at hne
  | cons c rest =>
    have hpos : 0 < c.utf8Size := c.utf8Size_pos
    simp only [byteLength_append, byteLength_cons]
    omega

/-! ### What a token gains and loses -/

/-- The points that a field adds. -/
def gain (token field : List Char) : Nat :=
  (if lower field = token then 5 else 0)
  + (if token <+: lower field then
      3 + (if surplus token field ≤ bonusLimit then byteLength field - byteLength token else 0)
     else 0)
  + (if token <:+: lower field then 1 else 0)

/-- The points that a field takes away: the bytes that it is short of a token it starts with. -/
def loss (token field : List Char) : Nat :=
  if token <+: lower field then byteLength token - byteLength field else 0

def gained (token : List Char) (texts : List (List Char)) : Nat :=
  (texts.map (gain token)).foldr (· + ·) 0

def lost (token : List Char) (texts : List (List Char)) : Nat :=
  (texts.map (loss token)).foldr (· + ·) 0

@[simp] theorem gained_cons :
    gained token (field :: texts) = gain token field + gained token texts := rfl

@[simp] theorem lost_cons : lost token (field :: texts) = loss token field + lost token texts := rfl

theorem fieldPoints_eq (token field : List Char) :
    fieldPoints token field = (gain token field : Int) - loss token field := by
  have hoccurs : (occursIn token (lower field) = true) = (token <:+: lower field) :=
    propext occursIn_iff
  have hstarts : (token.isPrefixOf (lower field) = true) = (token <+: lower field) :=
    propext List.isPrefixOf_iff_prefix
  simp only [fieldPoints, gain, loss, hoccurs, hstarts, equalPoints, startPoints, occurrencePoints]
  have hsurplus : surplus token field = (byteLength field : Int) - byteLength token := rfl
  have hlimit : bonusLimit = 5 := rfl
  split_ifs <;> omega

theorem tokenPoints_eq (token : List Char) (texts : List (List Char)) :
    tokenPoints token texts = (gained token texts : Int) - lost token texts := by
  induction texts with
  | nil => rfl
  | cons field rest ih =>
    rw [gained_cons, lost_cons, tokenPoints, List.map_cons, List.foldr_cons, fieldPoints_eq,
      ← tokenPoints, ih]
    omega

theorem gain_pos_iff : 0 < gain token field ↔ token <:+: lower field := by
  have hequal : lower field = token → token <:+: lower field := fun h => h ▸ List.infix_refl _
  have hstarts : token <+: lower field → token <:+: lower field := List.IsPrefix.isInfix
  unfold gain
  split <;> split <;> split <;> simp_all

theorem gained_pos_iff : 0 < gained token texts ↔ ∃ field ∈ texts, token <:+: lower field := by
  induction texts with
  | nil => simp [gained]
  | cons field rest ih =>
    rw [gained_cons, Nat.add_pos_iff_pos_or_pos, gain_pos_iff, ih]
    simp

/-- Lower case lengthens the field by at most four bytes. -/
def GrowsLittle (field : List Char) : Prop := byteLength (lower field) ≤ byteLength field + 4

instance (field : List Char) : Decidable (GrowsLittle field) := inferInstanceAs (Decidable (_ ≤ _))

theorem loss_lt_gain (h : GrowsLittle field) (hoccurs : token <:+: lower field) :
    loss token field < gain token field := by
  unfold GrowsLittle at h
  by_cases hstarts : token <+: lower field
  · have hle := byteLength_le_of_prefix hstarts
    rw [loss, gain, if_pos hstarts, if_pos hstarts, if_pos hoccurs]
    by_cases hequal : lower field = token
    · rw [if_pos hequal]
      omega
    · -- a field that goes on after the token is longer than it by a byte
      have hlt := byteLength_lt_of_prefix hstarts hequal
      omega
  · simp [loss, gain, hstarts, hoccurs]

theorem loss_le_gain (h : GrowsLittle field) : loss token field ≤ gain token field := by
  by_cases hoccurs : token <:+: lower field
  · exact Nat.le_of_lt (loss_lt_gain h hoccurs)
  · have hstarts : ¬ token <+: lower field := fun hs => hoccurs hs.isInfix
    simp [loss, hstarts]

theorem lost_le_gained (h : ∀ field ∈ texts, GrowsLittle field) :
    lost token texts ≤ gained token texts := by
  induction texts with
  | nil => exact Nat.le_refl _
  | cons field rest ih =>
    rw [List.forall_mem_cons] at h
    rw [lost_cons, gained_cons]
    exact Nat.add_le_add (loss_le_gain h.1) (ih h.2)

theorem lost_lt_gained (h : ∀ field ∈ texts, GrowsLittle field)
    (hoccurs : ∃ field ∈ texts, token <:+: lower field) :
    lost token texts < gained token texts := by
  induction texts with
  | nil => simp at hoccurs
  | cons field rest ih =>
    rw [List.forall_mem_cons] at h
    rw [lost_cons, gained_cons]
    rw [List.exists_mem_cons_iff] at hoccurs
    rcases hoccurs with hfield | hlater
    · exact Nat.add_lt_add_of_lt_of_le (loss_lt_gain h.1 hfield) (lost_le_gained h.2)
    · exact Nat.add_lt_add_of_le_of_lt (loss_le_gain h.1) (ih h.2 hlater)

/-! ### Scores -/

/-- The points of all tokens together. -/
def totalPoints (texts : List (List Char)) (tokens : List (List Char)) : Int :=
  (tokens.map (tokenPoints · texts)).foldr (· + ·) 0

theorem scoreFrom_eq_some {total n : Int} :
    scoreFrom texts total tokens = some n ↔
      (∀ token ∈ tokens, 0 < tokenPoints token texts) ∧ n = total + totalPoints texts tokens := by
  induction tokens generalizing total with
  | nil => simp [scoreFrom, totalPoints, eq_comm]
  | cons token rest ih =>
    simp only [scoreFrom, totalPoints, List.map_cons, List.foldr_cons, List.forall_mem_cons] at ih ⊢
    split
    · rename_i hpos
      rw [ih, Int.add_assoc]
      simp [hpos]
    · rename_i hneg
      simp [hneg]

theorem length_le_totalPoints (h : ∀ token ∈ tokens, 0 < tokenPoints token texts) :
    tokens.length ≤ totalPoints texts tokens := by
  induction tokens with
  | nil => simp [totalPoints]
  | cons token rest ih =>
    rw [List.forall_mem_cons] at h
    have hrest := ih h.2
    simp only [totalPoints, List.map_cons, List.foldr_cons, List.length_cons] at hrest ⊢
    omega

theorem decimalInt_eq (i : Int) : decimalInt i = (toString i).toList := by
  cases i with
  | ofNat n =>
    change _ = (Nat.repr n).toList
    rw [Nat.repr, String.toList_ofList]
    rfl
  | negSucc n =>
    change _ = ("-" ++ Nat.repr (n + 1)).toList
    rw [Nat.repr, String.toList_append, String.toList_ofList, String.toList_ofList]
    rfl

/-- The texts of a user that are searched. -/
theorem fields_eq (u : User) : fields u = [u.name.toList, u.lastName.toList, u.patronymic.toList,
    u.email.toList, (toString u.phone).toList] := by
  rw [fields, decimalInt_eq]
  rfl

theorem score_isSome_iff {u : User} :
    (score u tokens).isSome ↔ ∀ token ∈ tokens, lost token (fields u) < gained token (fields u) := by
  have hpos : ∀ token, 0 < tokenPoints token (fields u) ↔
      lost token (fields u) < gained token (fields u) := by
    intro token
    rw [tokenPoints_eq]
    omega
  simp only [Option.isSome_iff_exists, score, scoreFrom_eq_some, hpos]
  exact ⟨fun ⟨_, h, _⟩ => h, fun h => ⟨_, h, rfl⟩⟩

/-- A user is found if and only if every token occurs in lower case in a name, in the address or in
the digits of the phone number, and gains more than it loses; and then the user scores a point or
more for each token. Where lower case lengthens no field by more than four bytes, no token loses as
much as it gains. -/
theorem score_admission (u : User) (tokens : List (List Char)) :
    let texts := [u.name.toList, u.lastName.toList, u.patronymic.toList, u.email.toList,
      (toString u.phone).toList]
    ((score u tokens).isSome ↔ ∀ token ∈ tokens,
      (∃ field ∈ texts, token <:+: lower field) ∧ lost token texts < gained token texts) ∧
    (∀ n, score u tokens = some n →
      (∀ token ∈ tokens, 0 < tokenPoints token texts) ∧ tokens.length ≤ n) ∧
    ((∀ field ∈ texts, GrowsLittle field) →
      ((score u tokens).isSome ↔ ∀ token ∈ tokens, ∃ field ∈ texts, token <:+: lower field)) := by
  intro texts
  have htexts : fields u = texts := fields_eq u
  have hsome : (score u tokens).isSome ↔ ∀ token ∈ tokens,
      lost token texts < gained token texts := htexts ▸ score_isSome_iff
  have hoccurs : ∀ token, lost token texts < gained token texts →
      ∃ field ∈ texts, token <:+: lower field :=
    fun token h => gained_pos_iff.1 (Nat.lt_of_le_of_lt (Nat.zero_le _) h)
  refine ⟨?_, fun n hn => ?_, fun hgrows => ?_⟩
  · rw [hsome]
    exact forall₂_congr fun token _ => ⟨fun h => ⟨hoccurs token h, h⟩, And.right⟩
  · rw [score, htexts] at hn
    obtain ⟨hpos, rfl⟩ := scoreFrom_eq_some.1 hn
    refine ⟨hpos, ?_⟩
    rw [Int.zero_add]
    exact length_le_totalPoints hpos
  · rw [hsome]
    exact forall₂_congr fun token _ => ⟨hoccurs token, lost_lt_gained hgrows⟩

/-- A user whose last name takes four bytes more in lower case. -/
def fourDots : User := { (default : User) with lastName := "İSTİKLALİYETİ" }

theorem score_admission_four_dots :
    let texts := [fourDots.name.toList, fourDots.lastName.toList, fourDots.patronymic.toList,
      fourDots.email.toList, (toString fourDots.phone).toList]
    let token := lower "İSTİKLALİ".toList
    (∀ field ∈ texts, GrowsLittle field) ∧ token <:+: lower fourDots.lastName.toList ∧
      (score fourDots [token]).isSome := by
  intro texts token
  have hgrows : ∀ field ∈ texts, GrowsLittle field := by decide +kernel
  have hoccurs : token <:+: lower fourDots.lastName.toList := by decide +kernel
  have hfound := (score_admission fourDots [token]).2.2 hgrows
  exact ⟨hgrows, hoccurs, hfound.2 (List.forall_mem_singleton.2
    ⟨_, List.mem_cons_of_mem _ (List.mem_cons_self ..), hoccurs⟩)⟩

/-- A user whose last name takes five bytes more in lower case. -/
def fiveDots : User := { (default : User) with lastName := "GİRİŞİMCİLİK" }

/-- The last name without its last letter occurs in it, and yet it does not find the user: what the
token loses by the dots of the lower case is all that it gains. -/
theorem name_start_not_found :
    ∃ token, queryTokens "GİRİŞİMCİLİ" = [token] ∧
      token <:+: lower fiveDots.lastName.toList ∧
      gained token (fields fiveDots) = 4 ∧ lost token (fields fiveDots) = 4 ∧
      score fiveDots [token] = none := by
  refine ⟨"gi̇ri̇şi̇mci̇li̇".toList, ?_⟩
  decide +kernel

end RefCache.Search
