/-! Wildcards move marks along a text; a mark stands where what was read so far may end. -/

namespace Stocktake

/-- A text with marks: one may stand in front of it and one behind each of its elements. -/
structure Marking (σ : Type) where
  front : Bool
  steps : List (σ × Bool)

namespace Marking

variable {σ : Type}

/-- A text with its only mark in front, where reading begins. -/
def start (text : List σ) : Marking σ :=
  ⟨true, text.map fun c => (c, false)⟩

/-- No mark is left. -/
def isUnmarked (marking : Marking σ) : Bool :=
  !marking.front && marking.steps.all (!·.2)

/-- A mark stands at the end of the text. -/
def isMarkedAtEnd (marking : Marking σ) : Bool :=
  (marking.steps.getLast?.map Prod.snd).getD marking.front

end Marking

/-- A wildcard tells where reading may end when it may begin at the marks of a text. -/
abbrev Wildcard (σ : Type) := Marking σ → Marking σ

namespace Wildcard

variable {σ : Type}

/-- Moves every mark over the element behind it, if a class has that element. -/
def moveOver (accepts : σ → Bool) (before : Bool) : List (σ × Bool) → List (σ × Bool)
  | [] => []
  | (c, here) :: steps => (c, before && accepts c) :: moveOver accepts here steps

/-- Spreads every mark over the elements of a class behind it. -/
def spreadOver (accepts : σ → Bool) (before : Bool) : List (σ × Bool) → List (σ × Bool)
  | [] => []
  | (c, here) :: steps =>
    let marked := here || (before && accepts c)
    (c, marked) :: spreadOver accepts marked steps

/-- Marks the ends of all elements of a class that have a mark anywhere before them. -/
def markBehind (accepts : σ → Bool) (before : Bool) : List (σ × Bool) → List (σ × Bool)
  | [] => []
  | (c, here) :: steps => (c, before && accepts c) :: markBehind accepts (before || here) steps

/-- Marks the end of a text that has a mark anywhere before it. -/
def markEnd (before : Bool) : List (σ × Bool) → List (σ × Bool)
  | [] => []
  | [(c, here)] => [(c, before || here)]
  | (c, here) :: steps => (c, false) :: markEnd (before || here) steps

/-- Reads one element of a class. -/
def one (accepts : σ → Bool) : Wildcard σ :=
  fun marking => ⟨false, moveOver accepts marking.front marking.steps⟩

/-- Reads any number of elements of a class. -/
def many (accepts : σ → Bool) : Wildcard σ :=
  fun marking => ⟨marking.front, spreadOver accepts marking.front marking.steps⟩

/-- Reads up to an element of a class and that element too. -/
def through (accepts : σ → Bool) : Wildcard σ :=
  fun marking => ⟨false, markBehind accepts marking.front marking.steps⟩

/-- Reads all that is left. -/
def toEnd : Wildcard σ :=
  fun marking => ⟨marking.front && marking.steps.isEmpty, markEnd marking.front marking.steps⟩

/-- Reads nothing. -/
def nothing : Wildcard σ :=
  id

/-- Cannot be read. -/
def never : Wildcard σ :=
  fun marking => ⟨false, marking.steps.map fun (c, _) => (c, false)⟩

/-- Reads as either of two wildcards does. -/
def either (one other : Wildcard σ) : Wildcard σ :=
  fun marking =>
    let (left, right) := (one marking, other marking)
    ⟨left.front || right.front,
      left.steps.zipWith (fun (c, here) (_, there) => (c, here || there)) right.steps⟩

/-- Reads with one wildcard after the other, as long as any mark is left. -/
def inTurn : List (Wildcard σ) → Wildcard σ
  | [], marking => marking
  | wildcard :: wildcards, marking =>
    if marking.isUnmarked then marking else inTurn wildcards (wildcard marking)

/-- Reads the elements of a word. -/
def word [BEq σ] (elements : List σ) : Wildcard σ :=
  inTurn (elements.map fun element => one (· == element))

/-- A wildcard matches a text that it can read from its beginning to its end. -/
def matchesAll (wildcard : Wildcard σ) (text : List σ) : Bool :=
  (wildcard (.start text)).isMarkedAtEnd

end Wildcard

end Stocktake
