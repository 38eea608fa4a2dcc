import Stocktake.Proofs.Json.Token

/-! The pretty text of a value reads back as that value. -/

namespace Stocktake.Json

/-- A token that can stand where it does is read first. -/
theorem foldlM_step (next : Reading) {reading : Reading} {token : Token}
    (taken : reading.step token = some next) {rest : List Token} :
    (token :: rest).foldlM Reading.step reading = rest.foldlM Reading.step next := by
  -- A fold begins with the first of its tokens.
  rw [List.foldlM_cons, taken]
  rfl

/-- Tokens that can be read lead on to those behind them. -/
private theorem foldlM_step_append {reading next : Reading} {tokens : List Token}
    (taken : tokens.foldlM Reading.step reading = some next) (rest : List Token) :
    (tokens ++ rest).foldlM Reading.step reading = rest.foldlM Reading.step next := by
  -- A fold over both parts goes on with what the first one came to.
  rw [List.foldlM_append, taken]
  rfl

/-- A value begins with a token that ends no array. -/
private theorem tokens_eq_cons (value : Value) :
    ∃ first rest, value.tokens = first :: rest ∧ first ≠ .closeArray := by
  -- Arrays and objects open with a mark, and all other values are a single token.
  cases value with
  | array items => cases items <;> exact ⟨_, _, rfl, by simp⟩
  | object members => cases members <;> exact ⟨_, _, rfl, by simp⟩
  | _ => exact ⟨_, _, rfl, by simp⟩

/-- A first item is read as any value inside an array. -/
private theorem foldlM_firstItem (stack : List Frame) (value : Value) :
    value.tokens.foldlM Reading.step (.firstItem stack) =
      value.tokens.foldlM Reading.step (.value (.array [] :: stack)) := by
  -- A first item is read as any value inside an array of which nothing is finished.
  obtain ⟨first, rest, spelled, other⟩ := tokens_eq_cons value
  rw [spelled, List.foldlM_cons, List.foldlM_cons]
  congr 1
  -- Only the end of the array is read differently here.
  cases first <;> first | rfl | contradiction

mutual

/-- The tokens of a value are read as that value, whatever containers are open around it. -/
theorem foldlM_tokens :
    ∀ (value : Value) (stack : List Frame),
      value.tokens.foldlM Reading.step (.value stack) = some (.behind stack value)
  -- Containers wait on the stack while their parts are read, and the value is put behind them.
  | .null, _ => rfl
  | .bool _, _ => rfl
  | .natural _, _ => rfl
  | .numeral _, _ => rfl
  | .string _, _ => rfl
  | .array [], _ => rfl
  | .array (item :: items), stack => by
    have first := foldlM_firstItem stack item
    rw [foldlM_tokens item] at first
    rw [Value.tokens, List.cons_append, List.cons_append, List.append_assoc,
      foldlM_step (.firstItem stack) rfl, foldlM_step_append first]
    exact foldlM_itemTokens items [] item stack
  | .object [], _ => rfl
  | .object ((name, value) :: members), stack => by
    simp only [Value.tokens, List.cons_append, List.append_assoc]
    rw [foldlM_step (.firstName stack) rfl, foldlM_step (.colon stack [] name) rfl,
      foldlM_step (.value (.object [] name :: stack)) rfl,
      foldlM_step_append (foldlM_tokens value (.object [] name :: stack))]
    exact foldlM_memberTokens members [] name value stack

/-- The tokens of further items complete the array in which the items before them stand. -/
theorem foldlM_itemTokens :
    ∀ (items done : List Value) (value : Value) (outer : List Frame),
      (itemTokens items ++ [Token.closeArray]).foldlM Reading.step
          (.behind (.array done :: outer) value) =
        some (.behind outer (.array (done.reverse ++ value :: items)))
  -- The items that are finished are kept in reverse, as the reader keeps them.
  | [], done, value, outer => by simp [itemTokens, Reading.step, afterValue]
  | item :: items, done, value, outer => by
    have others := foldlM_itemTokens items (value :: done) item outer
    simp only [itemTokens, List.cons_append, List.append_assoc]
    rw [foldlM_step (.value (.array (value :: done) :: outer)) rfl,
      foldlM_step_append (foldlM_tokens item (.array (value :: done) :: outer)), others]
    simp

/-- The tokens of further members complete the object in which the members before them stand. -/
theorem foldlM_memberTokens :
    ∀ (members done : List (Text × Value)) (name : Text) (value : Value) (outer : List Frame),
      (memberTokens members ++ [Token.closeObject]).foldlM Reading.step
          (.behind (.object done name :: outer) value) =
        some (.behind outer (.object (done.reverse ++ (name, value) :: members)))
  -- The members that are finished are kept in reverse, and the name of the next one with them.
  | [], done, name, value, outer => by simp [memberTokens, Reading.step, afterValue]
  | (label, item) :: members, done, name, value, outer => by
    let seen := (name, value) :: done
    have others := foldlM_memberTokens members seen label item outer
    simp only [memberTokens, List.cons_append, List.append_assoc]
    rw [foldlM_step (.name outer seen) rfl,
      foldlM_step (.colon outer seen label) rfl,
      foldlM_step (.value (.object seen label :: outer)) rfl,
      foldlM_step_append (foldlM_tokens item (.object seen label :: outer)), others]
    simp [seen]

end

/-- The tokens of a value are read as that value. -/
theorem ofTokens?_tokens (value : Value) : Value.ofTokens? value.tokens = some value := by
  -- No container is left open behind the value.
  rw [Value.ofTokens?, foldlM_tokens value []]
  rfl

/-- The text of a plain value reads back as that value. -/
theorem parse?_render {value : Value} (plain : value.Plain) :
    Value.parse? value.render = some value := by
  -- The text has the tokens of the value, and these have the value.
  rw [Value.parse?, tokens?_render plain]
  exact ofTokens?_tokens value

end Stocktake.Json
