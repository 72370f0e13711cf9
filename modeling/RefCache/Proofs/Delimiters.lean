import RefCache.Json.Read

/-! What the brackets and quotes of a text amount to. Each bracket of a container and each quote of
a string that a tree holds was a character of the text, and none of them is white space, so that a
trimmed text is at least as long as the delimiters of its tree. Flawed parts of a tree count for
nothing. -/

namespace RefCache

/-! ### Characters that trimming leaves -/

/-- How many characters are not blank. -/
def inked (cs : List Char) : Nat := cs.countP (!isBlank ·)

theorem inked_trimLeft (cs : List Char) : inked (trimLeft cs) = inked cs := by
  induction cs with
  | nil => rfl
  | cons c cs ih =>
    unfold trimLeft at ih ⊢
    by_cases hc : isBlank c
    · rw [List.dropWhile_cons_of_pos hc, ih, inked, inked, List.countP_cons_of_neg (by simp [hc])]
    · rw [List.dropWhile_cons_of_neg hc]

theorem inked_trim (cs : List Char) : inked (trim cs) = inked cs := by
  have hreverse : ∀ ds : List Char, inked ds.reverse = inked ds := fun ds => List.countP_reverse
  rw [trim, hreverse, inked_trimLeft, hreverse, inked_trimLeft]

theorem length_le_byteLength (cs : List Char) : cs.length ≤ byteLength cs := by
  induction cs with
  | nil => exact Nat.le_refl 0
  | cons c cs ih =>
    have hpos := c.utf8Size_pos
    have hbytes : byteLength (c :: cs) = c.utf8Size + byteLength cs := rfl
    rw [hbytes, List.length_cons]
    omega

theorem inked_le_byteLength_trim (cs : List Char) : inked cs ≤ byteLength (trim cs) := by
  rw [← inked_trim]
  exact Nat.le_trans List.countP_le_length (length_le_byteLength _)

namespace Json

/-! ### Tokens -/

/-- A bracket, a comma or a colon is one character, and a string that ends has two quotes. -/
def Token.delimiters : Token → Nat
  | .mark _ => 1
  | .text _ none => 2
  | _ => 0

def delimitersOf : List Token → Nat
  | [] => 0
  | t :: ts => t.delimiters + delimitersOf ts

theorem delimitersOf_append (ts us : List Token) :
    delimitersOf (ts ++ us) = delimitersOf ts + delimitersOf us := by
  induction ts with
  | nil => simp [delimitersOf]
  | cons t ts ih => rw [List.cons_append, delimitersOf, delimitersOf, ih, Nat.add_assoc]

theorem delimitersOf_reverse (ts : List Token) : delimitersOf ts.reverse = delimitersOf ts := by
  induction ts with
  | nil => rfl
  | cons t ts ih =>
    rw [List.reverse_cons, delimitersOf_append, ih, Nat.add_comm]
    rfl

namespace Lexer

/-- The quote that opened the string under way. -/
def openQuotes : Mode → Nat
  | .text _ => 1
  | .escape _ => 1
  | .hex _ _ => 1
  | _ => 0

def delimiters (s : Lexer) : Nat := delimitersOf s.tokens + openQuotes s.mode

/-- What a character can add: a delimiter is not blank. -/
def ink (c : Char) : Nat := if isBlank c then 0 else 1

variable (s : Lexer)

@[simp] theorem delimiters_enter (m : Mode) :
    (s.enter m).delimiters = delimitersOf s.tokens + openQuotes m := rfl

@[simp] theorem delimiters_emit (t : Token) :
    (s.emit t).delimiters = t.delimiters + delimitersOf s.tokens := rfl

@[simp] theorem delimiters_halt (t : Token) :
    (s.halt t).delimiters = t.delimiters + delimitersOf s.tokens := rfl

theorem ink_of_isMark {c : Char} (h : isMark c) : isSpace c = false ∧ ink c = 1 := by
  simp only [isMark, Bool.or_eq_true, beq_iff_eq] at h
  rcases h with ((((rfl | rfl) | rfl) | rfl) | rfl) | rfl <;> decide

theorem delimiters_begin (c : Char) :
    (s.begin c).delimiters ≤ delimitersOf s.tokens + ink c := by
  by_cases hmark : isMark c
  · obtain ⟨hspace, hink⟩ := ink_of_isMark hmark
    simp [begin, hspace, hmark, hink, Token.delimiters, Nat.add_comm]
  · by_cases hquote : c = '"'
    · subst hquote
      exact Nat.le_refl _
    · -- nothing else that a token can begin with is a delimiter
      simp only [begin, hmark, hquote, Bool.false_eq_true, if_false]
      repeat' split
      all_goals simp [openQuotes, Token.delimiters]

theorem delimiters_textStep (pieces : List Piece) (c : Char) :
    (s.textStep pieces c).delimiters ≤ delimitersOf s.tokens + 1 + ink c := by
  unfold textStep
  by_cases hquote : c = '"'
  · subst hquote
    have hink : ink '"' = 1 := rfl
    rw [if_pos rfl, delimiters_emit, hink, Token.delimiters]
    omega
  · rw [if_neg hquote]
    repeat' split
    all_goals
      simp only [delimiters_enter, delimiters_halt, openQuotes, Token.delimiters]
      omega

theorem delimiters_escapeStep (pieces : List Piece) (c : Char) :
    (s.escapeStep pieces c).delimiters ≤ delimitersOf s.tokens + 1 := by
  unfold escapeStep
  repeat' split
  all_goals simp [openQuotes, Token.delimiters]

theorem delimiters_hexStep (pieces : List Piece) (digits : List Char) :
    (s.hexStep pieces digits).delimiters ≤ delimitersOf s.tokens + 1 := by
  unfold hexStep
  repeat' split
  all_goals simp [openQuotes, Token.delimiters]

theorem delimiters_wordStep (value : Word) (left : List Char) (c : Char) :
    (s.wordStep value left c).delimiters ≤ delimitersOf s.tokens := by
  unfold wordStep
  repeat' split
  all_goals simp [openQuotes, Token.delimiters]

theorem delimiters_numberStep (n : Numeral) (part : NumeralPart) (c : Char) :
    (s.numberStep n part c).delimiters ≤ delimitersOf s.tokens + ink c := by
  unfold numberStep
  split
  · simp [openQuotes]
  · split
    · have hbegin := delimiters_begin (s.emit (.number n none)) c
      have hnumber : delimitersOf (s.emit (.number n none)).tokens = delimitersOf s.tokens :=
        Nat.zero_add _
      rwa [hnumber] at hbegin
    · simp [Token.delimiters]

/-- A character adds at most one delimiter, and a blank one none. -/
theorem delimiters_step (c : Char) : (s.step c).delimiters ≤ s.delimiters + ink c := by
  obtain ⟨ts, mode⟩ := s
  cases mode with
  | between => exact delimiters_begin _ c
  | text pieces => exact delimiters_textStep _ pieces c
  | escape pieces => exact Nat.le_add_right_of_le (delimiters_escapeStep _ pieces c)
  | hex pieces digits => exact Nat.le_add_right_of_le (delimiters_hexStep _ pieces _)
  | word value left => exact Nat.le_add_right_of_le (delimiters_wordStep _ value left c)
  | number n part => exact delimiters_numberStep _ n part c
  | halted => exact Nat.le_add_right _ _

theorem delimiters_foldl (cs : List Char) :
    (cs.foldl step s).delimiters ≤ s.delimiters + inked cs := by
  induction cs generalizing s with
  | nil => exact Nat.le_refl _
  | cons c cs ih =>
    have hstep := s.delimiters_step c
    have hrest := ih (s.step c)
    have hink : inked (c :: cs) = inked cs + ink c := by
      rw [inked, List.countP_cons, ink]
      cases isBlank c <;> rfl
    rw [List.foldl_cons, hink]
    omega

theorem delimitersOf_finish : delimitersOf s.finish ≤ s.delimiters := by
  obtain ⟨ts, mode⟩ := s
  cases mode <;> simp only [finish, delimitersOf_reverse] <;>
    simp [delimitersOf, Token.delimiters, delimiters]

end Lexer

theorem delimitersOf_tokens (cs : List Char) : delimitersOf (tokens cs) ≤ inked cs := by
  have hfold := Lexer.delimiters_foldl ⟨[], .between⟩ cs
  have hstart : Lexer.delimiters ⟨[], .between⟩ = 0 := rfl
  rw [hstart, Nat.zero_add] at hfold
  exact Nat.le_trans (Lexer.delimitersOf_finish _) hfold

/-! ### Trees -/

mutual

/-- The brackets and quotes of a tree; what is flawed has none. -/
def Tree.delimiters : Tree → Nat
  | .text _ none => 2
  | .array items none => itemDelimiters items + 2
  | .object members none => memberDelimiters members + 2
  | _ => 0

def itemDelimiters : List Tree → Nat
  | [] => 0
  | t :: rest => t.delimiters + itemDelimiters rest

def memberDelimiters : List (Token × Tree) → Nat
  | [] => 0
  | (key, t) :: rest => key.delimiters + t.delimiters + memberDelimiters rest

end

theorem itemDelimiters_append (items later : List Tree) :
    itemDelimiters (items ++ later) = itemDelimiters items + itemDelimiters later := by
  induction items with
  | nil => simp [itemDelimiters]
  | cons t items ih => rw [List.cons_append, itemDelimiters, itemDelimiters, ih, Nat.add_assoc]

theorem memberDelimiters_append (members later : List (Token × Tree)) :
    memberDelimiters (members ++ later) = memberDelimiters members + memberDelimiters later := by
  induction members with
  | nil => simp [memberDelimiters]
  | cons m members ih =>
    obtain ⟨key, t⟩ := m
    rw [List.cons_append, memberDelimiters, memberDelimiters, ih]
    omega

theorem itemDelimiters_reverse (items : List Tree) :
    itemDelimiters items.reverse = itemDelimiters items := by
  induction items with
  | nil => rfl
  | cons t items ih =>
    rw [List.reverse_cons, itemDelimiters_append, ih, Nat.add_comm]
    rfl

theorem memberDelimiters_reverse (members : List (Token × Tree)) :
    memberDelimiters members.reverse = memberDelimiters members := by
  induction members with
  | nil => rfl
  | cons m members ih =>
    rw [List.reverse_cons, memberDelimiters_append, ih, Nat.add_comm]
    rfl

namespace Frame

/-- The bracket that opened a container under way, and what its finished parts hold. -/
def delimiters : Frame → Nat
  | .array items => itemDelimiters items + 1
  | .object members _ => memberDelimiters members + 1

/-- The same with the key of the value under way. -/
def delimitersWithKey : Frame → Nat
  | .array items => itemDelimiters items + 1
  | .object members key => memberDelimiters members + 1 + key.delimiters

theorem delimiters_le_withKey (frame : Frame) : frame.delimiters ≤ frame.delimitersWithKey := by
  cases frame with
  | array items => exact Nat.le_refl _
  | object members key => exact Nat.le_add_right _ _

theorem delimiters_add (frame : Frame) (t : Tree) :
    (frame.add t).delimiters = frame.delimitersWithKey + t.delimiters := by
  cases frame with
  | array items =>
    simp only [add, delimiters, delimitersWithKey, itemDelimiters]
    omega
  | object members key =>
    simp only [add, delimiters, delimitersWithKey, memberDelimiters]
    omega

theorem delimiters_close (frame : Frame) :
    (frame.close none).delimiters = frame.delimiters + 1 := by
  cases frame with
  | array items => rw [close, Tree.delimiters, itemDelimiters_reverse, delimiters]
  | object members key => rw [close, Tree.delimiters, memberDelimiters_reverse, delimiters]

theorem delimiters_close_some (frame : Frame) (fault : Fault) :
    (frame.close (some fault)).delimiters = 0 := by
  cases frame <;> rfl

end Frame

namespace Builder

/-- The delimiters of the containers under way around a value. -/
def around : List Frame → Nat
  | [] => 0
  | frame :: outer => frame.delimitersWithKey + around outer

/-- Where no value is expected next, the innermost container has no key without one. -/
def openDelimiters (expecting : Expecting) : List Frame → Nat
  | [] => 0
  | frame :: outer =>
    (match expecting with
      | .value | .itemOrEnd | .colon => frame.delimitersWithKey
      | .separator | .keyOrEnd | .key | .nothing => frame.delimiters) + around outer

def delimiters (b : Builder) : Nat :=
  (b.document.map (·.root.delimiters)).getD 0 + openDelimiters b.expecting b.frames

theorem closeAll_delimiters (fault : Fault) (frames : List Frame) {t : Tree}
    (h : t.delimiters = 0) : (closeAll fault frames t).delimiters = 0 := by
  induction frames generalizing t with
  | nil => exact h
  | cons frame outer ih => exact ih ((frame.add t).delimiters_close_some fault)

theorem delimiters_breakAt_le (b : Builder) (fault : Fault) (n : Nat) :
    (b.breakAt fault).delimiters ≤ n :=
  Nat.le_trans (Nat.le_of_eq (closeAll_delimiters fault b.frames rfl)) n.zero_le

theorem delimiters_breakAfter (b : Builder) (fault : Fault) :
    (b.breakAfter fault).delimiters ≤ b.delimiters := by
  unfold breakAfter
  split
  · exact Nat.le_refl _
  · rename_i frame outer _
    have hzero := closeAll_delimiters fault outer (frame.delimiters_close_some fault)
    simp [delimiters, openDelimiters, hzero]

theorem delimiters_place (b : Builder) (t : Tree) :
    (b.place t).delimiters = around b.frames + t.delimiters := by
  unfold place
  split
  · rename_i hframes
    simp [delimiters, openDelimiters, around, hframes]
  · rename_i frame outer hframes
    simp only [delimiters, openDelimiters, hframes, Option.map_none, Option.getD_none,
      Frame.delimiters_add, around]
    omega

theorem around_eq (frames : List Frame) : around frames = openDelimiters .value frames := by
  cases frames <;> rfl

theorem delimiters_le_openDelimiters (expecting : Expecting) (frame : Frame)
    (outer : List Frame) :
    frame.delimiters + around outer ≤ openDelimiters expecting (frame :: outer) := by
  have hle := frame.delimiters_le_withKey
  cases expecting <;> simp only [openDelimiters] <;> omega

theorem delimiters_onValue (b : Builder) (t : Token) :
    (b.onValue t).delimiters ≤ around b.frames + t.delimiters := by
  unfold onValue
  split
  · exact Nat.le_of_eq (delimiters_place ..)
  · exact Nat.le_of_eq (delimiters_place ..)
  · rename_i pieces flaw
    rw [delimiters_place]
    cases flaw <;> exact Nat.le_refl _
  · have hopened : ∀ frame next, frame.delimitersWithKey = 1 → frame.delimiters = 1 →
        (b.open_ frame next).delimiters = around b.frames + 1 := by
      intro frame next hkey hbare
      cases next <;> simp [open_, delimiters, openDelimiters, hkey, hbare, Nat.add_comm]
    split
    · exact Nat.le_of_eq (hopened _ _ rfl rfl)
    split
    · exact Nat.le_of_eq (hopened _ _ rfl rfl)
    · exact b.delimiters_breakAt_le _ _
  · exact b.delimiters_breakAt_le _ _
  · exact b.delimiters_breakAt_le _ _

theorem delimiters_onKey (b : Builder) (t : Token) :
    (b.onKey t).delimiters ≤ b.delimiters + t.delimiters := by
  unfold onKey
  split
  · rename_i members key outer hframes
    have hbare := delimiters_le_openDelimiters b.expecting (.object members key) outer
    split
    · simp only [delimiters, openDelimiters, hframes, Option.map_none, Option.getD_none,
        Frame.delimiters, Frame.delimitersWithKey, Token.delimiters] at hbare ⊢
      omega
    · exact delimiters_breakAt_le _ _ _
    · exact delimiters_breakAt_le _ _ _
  · exact Nat.le_add_right _ _

theorem delimiters_close (b : Builder) : b.close.delimiters ≤ b.delimiters + 1 := by
  unfold close
  split
  · exact Nat.le_add_right _ _
  · rename_i frame outer hframes
    have hbare := delimiters_le_openDelimiters b.expecting frame outer
    rw [delimiters_place, Frame.delimiters_close, delimiters, hframes]
    simp only []
    omega

theorem delimiters_of_closes {b : Builder} {t : Token} (h : b.closes t) : t.delimiters = 1 := by
  unfold closes at h
  split at h
  · rw [beq_iff_eq.1 h]
    rfl
  · rw [beq_iff_eq.1 h]
    rfl
  · cases h

theorem delimiters_onSeparator (b : Builder) (t : Token) (h : b.expecting = .separator) :
    (b.onSeparator t).delimiters ≤ b.delimiters + t.delimiters := by
  unfold onSeparator
  split
  · rename_i hcloses
    rw [delimiters_of_closes hcloses]
    exact b.delimiters_close
  split
  · split
    · rename_i items outer hframes
      simp [delimiters, openDelimiters, h, hframes, Frame.delimiters, Frame.delimitersWithKey]
    · cases hframes : b.frames <;> simp [delimiters, openDelimiters, h, hframes]
  split
  · exact Nat.le_add_right_of_le (b.delimiters_breakAfter _)
  · exact Nat.le_add_right_of_le (b.delimiters_breakAfter _)

/-- A tree under way grows by no more delimiters than the token has. -/
theorem delimiters_step (b : Builder) (t : Token) :
    (b.step t).delimiters ≤ b.delimiters + t.delimiters := by
  have hvalue : b.expecting = .value ∨ b.expecting = .itemOrEnd →
      (b.onValue t).delimiters ≤ b.delimiters + t.delimiters := by
    intro h
    -- in an array that may end at once the frame has no key that could make a difference
    have haround : around b.frames ≤ b.delimiters := by
      rw [around_eq, delimiters]
      rcases h with h | h <;> rw [h] <;> cases b.frames <;> exact Nat.le_add_left _ _
    exact Nat.le_trans (b.delimiters_onValue t) (Nat.add_le_add_right haround _)
  have hclose : b.closes t → b.close.delimiters ≤ b.delimiters + t.delimiters := by
    intro h
    rw [delimiters_of_closes h]
    exact b.delimiters_close
  unfold step
  split
  case h_1 hexpecting => exact hvalue (.inl hexpecting)
  case h_2 hexpecting =>
    split
    · rename_i h
      exact hclose h
    · exact hvalue (.inr hexpecting)
  case h_3 hexpecting => exact b.delimiters_onSeparator t hexpecting
  case h_4 =>
    split
    · rename_i h
      exact hclose h
    · exact b.delimiters_onKey t
  case h_5 => exact b.delimiters_onKey t
  case h_6 hexpecting =>
    have hcolon : ({ b with expecting := .value } : Builder).delimiters = b.delimiters := by
      cases hframes : b.frames <;> simp [delimiters, openDelimiters, hexpecting, hframes]
    split
    · rw [hcolon]
      exact Nat.le_add_right _ _
    split
    · exact b.delimiters_breakAt_le _ _
    · exact b.delimiters_breakAt_le _ _
  case h_7 hexpecting =>
    cases hdocument : b.document <;> simp [delimiters, hdocument]

/-- The document and the containers under way hold no more than the tokens read so far. -/
theorem delimiters_foldl (ts : List Token) (b : Builder) :
    (ts.foldl step b).delimiters ≤ b.delimiters + delimitersOf ts := by
  induction ts generalizing b with
  | nil => exact Nat.le_refl _
  | cons t ts ih =>
    have hstep := b.delimiters_step t
    have hrest := ih (b.step t)
    rw [List.foldl_cons, delimitersOf]
    omega

theorem delimiters_run (ts : List Token) : (run ts).root.delimiters ≤ delimitersOf ts := by
  have hfold := delimiters_foldl ts start
  have hended := delimiters_step (ts.foldl step start) .ended
  have hstart : start.delimiters = 0 := rfl
  have htoken : Token.ended.delimiters = 0 := rfl
  unfold run
  simp only []
  split
  · rename_i d hdocument
    have hroot : d.root.delimiters ≤ (ts.foldl step start).delimiters := by
      simp [delimiters, hdocument]
    omega
  · have hroot : (((ts.foldl step start).step .ended).document.getD
        ⟨.broken .truncated, false⟩).root.delimiters ≤
          ((ts.foldl step start).step .ended).delimiters := by
      rw [delimiters]
      cases ((ts.foldl step start).step .ended).document <;> simp [Tree.delimiters]
    omega

end Builder

/-- A trimmed text has at least as many bytes as its tree has delimiters. -/
theorem delimiters_root_le (cs : List Char) :
    (document cs).root.delimiters ≤ byteLength (trim cs) :=
  calc (document cs).root.delimiters
      ≤ delimitersOf (tokens cs) := Builder.delimiters_run _
    _ ≤ inked cs := delimitersOf_tokens cs
    _ ≤ byteLength (trim cs) := inked_le_byteLength_trim cs

end Json

end RefCache
