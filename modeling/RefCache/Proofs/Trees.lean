import RefCache.Json.Read
import RefCache.Proofs.Tokens

/-! The tree of a written value. The tokens of a value, wherever a value can stand, put its tree
there and nothing else, so that the document of the text of a value is its tree, without a flaw and
with nothing after it. -/

namespace RefCache.Json

mutual

def treeOf : Json → Tree
  | .null => .word .null none
  | .bool true => .word .yes none
  | .bool false => .word .no none
  | .int value => .number (numeralOf value) none
  | .text value => .text (value.toList.map pieceOf) none
  | .array items => .array (treesOf items) none
  | .object members => .object (memberTrees members) none

def treesOf : List Json → List Tree
  | [] => []
  | item :: rest => treeOf item :: treesOf rest

def memberTrees : List (String × Json) → List (Token × Tree)
  | [] => []
  | (key, value) :: rest => (textToken key, treeOf value) :: memberTrees rest

end

namespace Builder

theorem place_item (t : Tree) (items : List Tree) (outer : List Frame) :
    place ⟨.array items :: outer, .value, none⟩ t =
      ⟨.array (t :: items) :: outer, .separator, none⟩ := rfl

theorem place_member (t : Tree) (members : List (Token × Tree)) (key : Token)
    (outer : List Frame) :
    place ⟨.object members key :: outer, .value, none⟩ t =
      ⟨.object ((key, t) :: members) key :: outer, .separator, none⟩ := rfl

theorem foldl_first_key (name : String) (ts : List Token) (frames : List Frame)
    (document : Option Document) :
    (.mark '\x7b' :: textToken name :: .mark ':' :: ts).foldl step ⟨frames, .value, document⟩ =
      ts.foldl step ⟨.object [] (textToken name) :: frames, .value, none⟩ := rfl

theorem foldl_later_key (name : String) (ts : List Token) (members : List (Token × Tree))
    (key : Token) (outer : List Frame) :
    (.mark ',' :: textToken name :: .mark ':' :: ts).foldl step
        ⟨.object members key :: outer, .separator, none⟩ =
      ts.foldl step ⟨.object members (textToken name) :: outer, .value, none⟩ := rfl

/-- Where an array may end at once, a value is as welcome as after a comma. -/
theorem step_first_item (j : Json) (items : List Tree) (outer : List Frame)
    (document : Option Document) :
    (tokensOf j).foldl step ⟨.array items :: outer, .itemOrEnd, document⟩ =
      (tokensOf j).foldl step ⟨.array items :: outer, .value, document⟩ := by
  have hsame : ∀ t : Token, t ≠ .mark ']' →
      step ⟨.array items :: outer, .itemOrEnd, document⟩ t =
        step ⟨.array items :: outer, .value, document⟩ t := by
    intro t ht
    have hcloses : closes ⟨.array items :: outer, .itemOrEnd, document⟩ t = false := by
      simp [closes, ht]
    simp only [step, hcloses]
    rfl
  obtain ⟨t, later, htokens, ht⟩ : ∃ t later, tokensOf j = t :: later ∧ t ≠ .mark ']' := by
    unfold tokensOf
    split <;> exact ⟨_, _, rfl, by simp [textToken]⟩
  rw [htokens, List.foldl_cons, hsame t ht, List.foldl_cons]

mutual

theorem foldl_tokensOf (j : Json) (frames : List Frame) (document : Option Document) :
    (tokensOf j).foldl step ⟨frames, .value, document⟩ =
      place ⟨frames, .value, document⟩ (treeOf j) := by
  match j with
  | .null => rfl
  | .bool true => rfl
  | .bool false => rfl
  | .int i => rfl
  | .text s => rfl
  | .array [] => rfl
  | .array (first :: rest) =>
    have hopen : step ⟨frames, .value, document⟩ (.mark '[') =
        ⟨.array [] :: frames, .itemOrEnd, none⟩ := rfl
    rw [tokensOf, List.foldl_cons, hopen, List.foldl_append, step_first_item,
      foldl_tokensOf first, place_item, foldl_laterItemTokens rest]
    rfl
  | .object [] => rfl
  | .object ((key, value) :: rest) =>
    rw [tokensOf, foldl_first_key, List.foldl_append, foldl_tokensOf value, place_member,
      foldl_laterMemberTokens rest]
    rfl

theorem foldl_laterItemTokens (items : List Json) (done : List Tree) (outer : List Frame) :
    (laterItemTokens items).foldl step ⟨.array done :: outer, .separator, none⟩ =
      place ⟨outer, .value, none⟩ (.array (done.reverse ++ treesOf items) none) := by
  match items with
  | [] =>
    rw [treesOf, List.append_nil]
    rfl
  | item :: rest =>
    have hcomma : step ⟨.array done :: outer, .separator, none⟩ (.mark ',') =
        ⟨.array done :: outer, .value, none⟩ := rfl
    rw [laterItemTokens, List.foldl_cons, hcomma, List.foldl_append, foldl_tokensOf item,
      place_item, foldl_laterItemTokens rest, treesOf]
    simp

theorem foldl_laterMemberTokens (members : List (String × Json)) (done : List (Token × Tree))
    (key : Token) (outer : List Frame) :
    (laterMemberTokens members).foldl step ⟨.object done key :: outer, .separator, none⟩ =
      place ⟨outer, .value, none⟩ (.object (done.reverse ++ memberTrees members) none) := by
  match members with
  | [] =>
    rw [memberTrees, List.append_nil]
    rfl
  | (name, value) :: rest =>
    rw [laterMemberTokens, foldl_later_key, List.foldl_append, foldl_tokensOf value, place_member,
      foldl_laterMemberTokens rest, memberTrees]
    simp

end

end Builder

theorem document_chars (j : Json) : document j.chars = ⟨treeOf j, false⟩ := by
  rw [document, tokens_chars, Builder.run, Builder.start, Builder.foldl_tokensOf]
  rfl

/-- A reader of the text of a value reads its tree. -/
theorem read_render {α : Type} (reader : Read α) (j : Json) :
    read reader j.render = reader (treeOf j) := by
  rw [read, render, String.toList_ofList, document_chars]
  cases reader (treeOf j) <;> rfl

end RefCache.Json
