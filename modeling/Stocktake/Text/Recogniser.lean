/-! Recognisers read one item at the front of a text, and find their items from left to right. -/

namespace Stocktake

/-- A recogniser reads an item at the front of a text and hands back the text behind it. -/
structure Recogniser (α : Type) where
  /-- The item that a text begins with, and the rest of that text. -/
  front? : List Char → Option (α × List Char)
  /-- An item takes up at least one character. -/
  shorter : ∀ {text : List Char} {item : α} {rest : List Char},
    front? text = some (item, rest) → rest.length < text.length

/-- Goes on looking for items behind those found so far, the last of which comes first. -/
def Recogniser.findFrom {α : Type} (recogniser : Recogniser α) (found : List α) :
    List Char → List α
  | [] => found.reverse
  | c :: text =>
    match _read : recogniser.front? (c :: text) with
    | some (item, rest) => recogniser.findFrom (item :: found) rest
    | none => recogniser.findFrom found text
termination_by text => text.length
decreasing_by
  -- A found item shortens the text, and a position without one is passed over.
  · exact recogniser.shorter (by assumption)
  · exact Nat.lt_succ_self text.length

/-- The items of a text from left to right, each search going on behind the item before it. -/
def Recogniser.findAll {α : Type} (recogniser : Recogniser α) (text : List Char) : List α :=
  recogniser.findFrom [] text

/-- Goes on reading items behind those read so far, the last of which comes first. -/
def Recogniser.readFrom? {α : Type} (recogniser : Recogniser α) (done : List α) :
    List Char → Option (List α)
  | [] => some done.reverse
  | c :: text =>
    match _read : recogniser.front? (c :: text) with
    | some (item, rest) => recogniser.readFrom? (item :: done) rest
    | none => none
termination_by text => text.length
decreasing_by exact recogniser.shorter (by assumption)

/-- The items that make up a text from its front to its end, none when a part of it is no item. -/
def Recogniser.readAll? {α : Type} (recogniser : Recogniser α) (text : List Char) :
    Option (List α) :=
  recogniser.readFrom? [] text

/-- A search takes an item where there is one, and else passes over a character. -/
theorem Recogniser.findFrom_cons {α : Type} (recogniser : Recogniser α) (found : List α)
    (c : Char) (text : List Char) :
    recogniser.findFrom found (c :: text) =
      match recogniser.front? (c :: text) with
      -- Both sides ask the recogniser for an item at the same place.
      | some (item, rest) => recogniser.findFrom (item :: found) rest
      | none => recogniser.findFrom found text := by
  rw [findFrom]
  split <;> simp_all only

/-- What was found before comes before all that is found later. -/
theorem Recogniser.findFrom_append {α : Type} (recogniser : Recogniser α) (later found : List α)
    (text : List Char) :
    recogniser.findFrom (later ++ found) text =
      found.reverse ++ recogniser.findFrom later text := by
  -- The search itself does not look at what was found.
  fun_induction recogniser.findFrom later text with
  | case1 => simp [findFrom]
  | case2 later c text item rest read ih =>
    rw [findFrom_cons, read]
    exact ih
  | case3 later c text read ih =>
    rw [findFrom_cons, read]
    exact ih

/-- The items of a text are the one at its front, if any, and those behind it. -/
theorem Recogniser.findAll_cons {α : Type} (recogniser : Recogniser α) (c : Char)
    (text : List Char) :
    recogniser.findAll (c :: text) =
      match recogniser.front? (c :: text) with
      -- What was found before goes in front of everything that is found later.
      | some (item, rest) => item :: recogniser.findAll rest
      | none => recogniser.findAll text := by
  unfold findAll
  rw [findFrom_cons]
  split
  · exact recogniser.findFrom_append [] [_] _
  · rfl

/-- A reading takes the item that comes next, and there has to be one. -/
theorem Recogniser.readFrom?_cons {α : Type} (recogniser : Recogniser α) (done : List α)
    (c : Char) (text : List Char) :
    recogniser.readFrom? done (c :: text) =
      (recogniser.front? (c :: text)).bind fun (item, rest) =>
        recogniser.readFrom? (item :: done) rest := by
  -- Without an item there is no reading, and with one it goes on behind it.
  rw [readFrom?]
  split <;> simp_all only [Option.bind_some, Option.bind_none]

/-- What was read before comes before all that is read later. -/
theorem Recogniser.readFrom?_append {α : Type} (recogniser : Recogniser α) (later done : List α)
    (text : List Char) :
    recogniser.readFrom? (later ++ done) text =
      (recogniser.readFrom? later text).map (done.reverse ++ ·) := by
  -- The reading itself does not look at what was read.
  fun_induction recogniser.readFrom? later text with
  | case1 => simp [readFrom?]
  | case2 later c text item rest read ih =>
    rw [readFrom?_cons, read]
    exact ih
  | case3 later c text read =>
    rw [readFrom?_cons, read]
    rfl

/-- A text is made up of the item at its front and of those that make up the rest. -/
theorem Recogniser.readAll?_cons {α : Type} (recogniser : Recogniser α) (c : Char)
    (text : List Char) :
    recogniser.readAll? (c :: text) =
      (recogniser.front? (c :: text)).bind fun (item, rest) =>
        (recogniser.readAll? rest).map (item :: ·) := by
  -- The item that was read goes in front of those that are read later.
  unfold readAll?
  rw [readFrom?_cons]
  congr 1
  funext read
  exact recogniser.readFrom?_append [] [read.1] read.2

/-- A word occurs in a text when the text goes on with it at some position. -/
def occursIn (word : List Char) : List Char → Bool
  | [] => word.isEmpty
  | c :: text => word.isPrefixOf (c :: text) || occursIn word text

/-- A text from which a leading word was read is shorter by that word. -/
theorem length_of_isPrefixOf? {word text rest : List Char}
    (read : word.isPrefixOf? text = some rest) : text.length = word.length + rest.length := by
  -- Both lists are walked together until the word is used up.
  induction word generalizing text with
  | nil =>
    change some text = some rest at read
    simp [Option.some.inj read]
  | cons w word ih =>
    cases text with
    | nil =>
      change none = some rest at read
      simp at read
    | cons c text =>
      change (if w == c then word.isPrefixOf? text else none) = some rest at read
      split at read
      · have := ih read
        simp only [List.length_cons]
        omega
      · simp at read

end Stocktake
