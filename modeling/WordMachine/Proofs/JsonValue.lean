import WordMachine.Json.Value
import WordMachine.Proofs.JsonText

/-!
# How JSON values are spelled

The tokens of a value are `Json.tokens v`: an array is its items between brackets, an object its members
between braces, with a comma between two of them.  A text spells the value if it spells these tokens
(`Json.Spells`); blanks may stand anywhere between them, for of two neighbours one is a sign
(`Json.allApart_tokens`).

A value that is read in the middle of a text leaves the stack as it was and what follows it unread, so
that it is as good as one token (`Json.run_tokens`).  This is shown together with the same for the rest
of an array and of an object, by recursion on the value.  It follows that every text that spells a value
is read as that value (`Json.parse?_of_spells`).
-/

namespace WordMachine

namespace Json

/-! ### Tokens of values -/

mutual

/-- The tokens of a value. -/
def tokens : Json → List Token
  | null => [.null]
  | boolean b => [.boolean b]
  | number literal => [.number literal]
  | string us => [.string us]
  | array items => .openBracket :: ((itemTokens items).drop 1 ++ [.closeBracket])
  | object members => .openBrace :: ((memberTokens members).drop 1 ++ [.closeBrace])

/-- The tokens of items, each behind a comma. -/
def itemTokens : List Json → List Token
  | [] => []
  | v :: vs => .comma :: (v.tokens ++ itemTokens vs)

/-- The tokens of members, each behind a comma. -/
def memberTokens : List (Units × Json) → List Token
  | [] => []
  | (k, v) :: ms => .comma :: .string k :: .colon :: (v.tokens ++ memberTokens ms)

end

/-- `v.Spells cs`: the characters `cs` are a spelling of the value. -/
def Spells (v : Json) (cs : List Char) : Prop :=
  Spelled v.tokens cs

theorem tokens_array_cons_append (v : Json) (vs : List Json) (ts : List Token) :
    (array (v :: vs)).tokens ++ ts =
      .openBracket :: (v.tokens ++ (itemTokens vs ++ .closeBracket :: ts)) := by
  simp only [tokens, itemTokens, List.drop_succ_cons, List.drop_zero, List.cons_append,
    List.append_assoc, List.nil_append]

theorem itemTokens_cons_append (v : Json) (vs : List Json) (ts : List Token) :
    itemTokens (v :: vs) ++ ts = .comma :: (v.tokens ++ (itemTokens vs ++ ts)) := by
  simp only [itemTokens, List.cons_append, List.append_assoc]

theorem tokens_object_cons_append (k : Units) (v : Json) (ms : List (Units × Json))
    (ts : List Token) :
    (object ((k, v) :: ms)).tokens ++ ts =
      .openBrace :: .string k :: .colon ::
        (v.tokens ++ (memberTokens ms ++ .closeBrace :: ts)) := by
  simp only [tokens, memberTokens, List.drop_succ_cons, List.drop_zero, List.cons_append,
    List.append_assoc, List.nil_append]

theorem memberTokens_cons_append (k : Units) (v : Json) (ms : List (Units × Json))
    (ts : List Token) :
    memberTokens ((k, v) :: ms) ++ ts =
      .comma :: .string k :: .colon :: (v.tokens ++ (memberTokens ms ++ ts)) := by
  simp only [memberTokens, List.cons_append, List.append_assoc]

/-! ### Neighbours -/

section Neighbours

open Token (AllApart)

/-- The tokens start with a sign, or there are none. -/
def StartsWithSign (ts : List Token) : Prop :=
  ∀ t ∈ ts.head?, t.IsSign

variable {t : Token} {ts : List Token}

theorem startsWithSign_cons (ht : t.IsSign) : StartsWithSign (t :: ts) := by
  rintro _ ⟨⟩
  exact ht

theorem startsWithSign_itemTokens (vs : List Json) (hts : StartsWithSign ts) :
    StartsWithSign (itemTokens vs ++ ts) := by
  rcases vs with _ | ⟨v, vs⟩
  · exact hts
  · have hcomma : Token.comma.IsSign := trivial
    exact startsWithSign_cons hcomma

theorem startsWithSign_memberTokens (ms : List (Units × Json)) (hts : StartsWithSign ts) :
    StartsWithSign (memberTokens ms ++ ts) := by
  rcases ms with _ | ⟨⟨k, v⟩, ms⟩
  · exact hts
  · have hcomma : Token.comma.IsSign := trivial
    exact startsWithSign_cons hcomma

/-- A sign may stand beside any token. -/
theorem allApart_sign_cons (ht : t.IsSign) (h : AllApart ts) : AllApart (t :: ts) := by
  refine ⟨?_, h⟩
  intro s _
  exact .inl ht

/-- Any token may stand beside a sign. -/
theorem allApart_cons (hts : StartsWithSign ts) (h : AllApart ts) : AllApart (t :: ts) := by
  refine ⟨?_, h⟩
  intro s hs
  exact .inr (hts s hs)

/-- A key is followed by a colon. -/
theorem allApart_key (k : Units) (h : AllApart ts) : AllApart (.string k :: .colon :: ts) := by
  have hcolon : Token.colon.IsSign := trivial
  apply allApart_cons
  · exact startsWithSign_cons hcolon
  · exact allApart_sign_cons hcolon h

mutual

/-- A value may stand in front of a sign, for its tokens need nothing between them. -/
theorem allApart_tokens_append (v : Json) (ts : List Token) (hts : StartsWithSign ts)
    (h : AllApart ts) : AllApart (v.tokens ++ ts) := by
  match v with
  | null | boolean _ | number _ | string _ => exact allApart_cons hts h
  | array [] => exact allApart_sign_cons trivial (allApart_sign_cons trivial h)
  | array (v :: vs) =>
    rw [tokens_array_cons_append]
    refine allApart_sign_cons trivial ?_
    have hclose : AllApart (.closeBracket :: ts) := allApart_sign_cons trivial h
    have hsign : StartsWithSign (.closeBracket :: ts) := startsWithSign_cons trivial
    apply allApart_tokens_append v _ (startsWithSign_itemTokens vs hsign)
    exact allApart_itemTokens_append vs _ hsign hclose
  | object [] => exact allApart_sign_cons trivial (allApart_sign_cons trivial h)
  | object ((k, v) :: ms) =>
    rw [tokens_object_cons_append]
    refine allApart_sign_cons trivial ?_
    apply allApart_key
    have hclose : AllApart (.closeBrace :: ts) := allApart_sign_cons trivial h
    have hsign : StartsWithSign (.closeBrace :: ts) := startsWithSign_cons trivial
    apply allApart_tokens_append v _ (startsWithSign_memberTokens ms hsign)
    exact allApart_memberTokens_append ms _ hsign hclose

theorem allApart_itemTokens_append (vs : List Json) (ts : List Token) (hts : StartsWithSign ts)
    (h : AllApart ts) : AllApart (itemTokens vs ++ ts) := by
  match vs with
  | [] => exact h
  | v :: vs =>
    rw [itemTokens_cons_append]
    refine allApart_sign_cons trivial ?_
    apply allApart_tokens_append v _ (startsWithSign_itemTokens vs hts)
    exact allApart_itemTokens_append vs ts hts h

theorem allApart_memberTokens_append (ms : List (Units × Json)) (ts : List Token)
    (hts : StartsWithSign ts) (h : AllApart ts) : AllApart (memberTokens ms ++ ts) := by
  match ms with
  | [] => exact h
  | (k, v) :: ms =>
    rw [memberTokens_cons_append]
    refine allApart_sign_cons trivial ?_
    apply allApart_key
    apply allApart_tokens_append v _ (startsWithSign_memberTokens ms hts)
    exact allApart_memberTokens_append ms ts hts h

end

/-- The tokens of a value need nothing between them. -/
theorem allApart_tokens (v : Json) : AllApart v.tokens := by
  have hnone : StartsWithSign [] := by
    rintro _ ⟨⟩
  have happend := allApart_tokens_append v [] hnone trivial
  rwa [List.append_nil] at happend

end Neighbours

/-! ### Reading values -/

namespace Reading

theorem run_cons {r s : Reading} {t : Token} (h : r.next t = some s) (ts : List Token) :
    r.run (t :: ts) = s.run ts := by
  rw [run, h]

/-- The first item of an array is read as any other. -/
theorem run_firstItem (v : Json) (stack : List Frame) (ts : List Token) :
    (firstItem stack).run (v.tokens ++ ts) = (value (.array [] :: stack)).run (v.tokens ++ ts) := by
  cases v <;> rfl

mutual

/-- A value is read to its end. -/
theorem run_tokens (v : Json) (stack : List Frame) (ts : List Token) :
    (value stack).run (v.tokens ++ ts) = (finished v stack).run ts := by
  match v with
  | null | boolean _ | number _ | string _ => rfl
  | array [] => rfl
  | array (v :: vs) =>
    rw [tokens_array_cons_append, run_cons (s := firstItem stack) rfl, run_firstItem,
      run_tokens v]
    exact run_itemTokens vs v [] stack ts
  | object [] => rfl
  | object ((k, v) :: ms) =>
    rw [tokens_object_cons_append, run_cons (s := firstKey stack) rfl,
      run_cons (s := colon [] k stack) rfl, run_cons (s := value (.object [] k :: stack)) rfl,
      run_tokens v]
    exact run_memberTokens ms k v [] stack ts

/-- Behind an item, an array is read to its end. -/
theorem run_itemTokens (vs : List Json) (v : Json) (before : List Json) (stack : List Frame)
    (ts : List Token) :
    (finished v (.array before :: stack)).run (itemTokens vs ++ .closeBracket :: ts) =
      (finished (.array (before.reverse ++ v :: vs)) stack).run ts := by
  match vs with
  | [] =>
    rw [← List.reverse_cons]
    rfl
  | w :: vs =>
    rw [itemTokens_cons_append, run_cons (s := value (.array (v :: before) :: stack)) rfl,
      run_tokens w, run_itemTokens vs w, List.reverse_cons, List.append_assoc,
      List.singleton_append]

/-- Behind a member, an object is read to its end. -/
theorem run_memberTokens (ms : List (Units × Json)) (k : Units) (v : Json)
    (before : List (Units × Json)) (stack : List Frame) (ts : List Token) :
    (finished v (.object before k :: stack)).run (memberTokens ms ++ .closeBrace :: ts) =
      (finished (.object (before.reverse ++ (k, v) :: ms)) stack).run ts := by
  match ms with
  | [] =>
    rw [← List.reverse_cons]
    rfl
  | (l, w) :: ms =>
    rw [memberTokens_cons_append, run_cons (s := key ((k, v) :: before) stack) rfl,
      run_cons (s := colon ((k, v) :: before) l stack) rfl,
      run_cons (s := value (.object ((k, v) :: before) l :: stack)) rfl, run_tokens w,
      run_memberTokens ms l w, List.reverse_cons, List.append_assoc, List.singleton_append]

end

end Reading

/-- The tokens of a value are read as the value. -/
theorem ofTokens?_tokens (v : Json) : ofTokens? v.tokens = some v := by
  have hrun := Reading.run_tokens v [] []
  rw [List.append_nil] at hrun
  rw [ofTokens?, hrun]
  rfl

/-- A text that spells a value is read as the value. -/
theorem parse?_of_spells {v : Json} {text : String} (h : v.Spells text.toList) :
    parse? text = some v := by
  rw [parse?, Token.scan_of_spelled h v.allApart_tokens, Option.bind_some, ofTokens?_tokens]

end Json

end WordMachine
