import Mathlib.Data.Finset.Sort
import Mathlib.Order.Bounds.Basic
import Stocktake.Proofs.Text.Search

/-! A search from left to right for words of one length finds as many of them as can be chosen from
the text without an overlap. From two texts put together as many can be chosen as from each of them,
or one more. -/

namespace Stocktake

/-- No more items can be chosen without an overlap than a search selects, if an item never ends
before another one that begins no later. -/
theorem Finding.IsSelection.length_le {α : Type} {stands : Finding α → Prop}
    {selected : List (Finding α)} (selection : IsSelection stands selected)
    (long : ∀ finding, stands finding → finding.start < finding.stop)
    (inOrder : ∀ one other, stands one → stands other → one.start ≤ other.start →
      one.stop ≤ other.stop)
    {chosen : List (Finding α)} (stand : ∀ finding ∈ chosen, stands finding)
    (apart : chosen.Pairwise fun one next => one.stop ≤ next.start) :
    chosen.length ≤ selected.length := by
  -- The first chosen item can be exchanged for the first selected one, which ends no later.
  induction selected generalizing stands chosen with
  | nil =>
    cases chosen with
    | nil => exact Nat.le_refl 0
    | cons own rest => exact absurd (stand own List.mem_cons_self) (selection.not_of_nil own)
  | cons first others ih =>
    cases chosen with
    | nil => exact Nat.zero_le _
    | cons own rest =>
      obtain ⟨ownStands, restStand⟩ := List.forall_mem_cons.mp stand
      obtain ⟨ownApart, restApart⟩ := List.pairwise_cons.mp apart
      have firstStands := selection.stand first List.mem_cons_self
      have sooner : first.stop ≤ own.stop :=
        inOrder first own firstStands ownStands (selection.start_le long ownStands)
      -- So what is chosen behind the one stands behind the other, too.
      have behind : ∀ finding ∈ rest, stands finding ∧ first.stop ≤ finding.start :=
        fun finding member =>
          ⟨restStand finding member, Nat.le_trans sooner (ownApart finding member)⟩
      exact Nat.succ_le_succ <| ih (selection.tail long) (fun finding later => long finding later.1)
        (fun one other here there => inOrder one other here.1 there.1) behind restApart

/-- A form of words that have one length, and are not empty. -/
structure WordForm where
  IsWord : List Char → Prop
  size : Nat
  positive : 0 < size
  length_eq : ∀ {word}, IsWord word → word.length = size

namespace WordForm

variable (form : WordForm) {text front back : List Char} {start : Nat} {starts : Finset Nat}

/-- A word of a form stands in a text where the text goes on with it. -/
def StandsAt (text : List Char) (start : Nat) : Prop :=
  ∃ word, form.IsWord word ∧ word <+: text.drop start

/-- Words of a form stand in a text at some positions, and none of them overlaps another. -/
structure Packs (text : List Char) (starts : Finset Nat) : Prop where
  stand : ∀ start ∈ starts, form.StandsAt text start
  apart : ∀ one ∈ starts, ∀ other ∈ starts, one ≠ other →
    one + form.size ≤ other ∨ other + form.size ≤ one

/-- The numbers of words of a form that can be chosen from a text without an overlap. -/
def counts (text : List Char) : Set Nat :=
  {count | ∃ starts, form.Packs text starts ∧ starts.card = count}

variable {form}

/-- A word ends within the text in which it stands. -/
theorem StandsAt.add_size_le (stands : form.StandsAt text start) :
    start + form.size ≤ text.length := by
  -- The word has its full length from its start on.
  obtain ⟨word, isWord, leads⟩ := stands
  have fits := leads.length_le
  rw [form.length_eq isWord, List.length_drop] at fits
  have := form.positive
  omega

/-- What comes behind a text does not change which words stand in it. -/
theorem standsAt_append_iff (within : start + form.size ≤ front.length) :
    form.StandsAt (front ++ back) start ↔ form.StandsAt front start := by
  have whole : (front ++ back).drop start = front.drop start ++ back :=
    List.drop_append_of_le_length (by omega)
  constructor
  · rintro ⟨word, isWord, leads⟩
    rw [whole] at leads
    -- What is left of the front part is at least as long as the word.
    refine ⟨word, isWord, List.prefix_of_prefix_length_le leads (List.prefix_append _ _) ?_⟩
    rw [form.length_eq isWord, List.length_drop]
    omega
  · rintro ⟨word, isWord, leads⟩
    rw [StandsAt, whole]
    exact ⟨word, isWord, leads.trans (List.prefix_append _ _)⟩

/-- Behind a text the words stand as they do without it. -/
theorem standsAt_append_add_iff :
    form.StandsAt (front ++ back) (front.length + start) ↔ form.StandsAt back start := by
  -- Dropping the front text leaves the same text to look at.
  rw [StandsAt, ← List.drop_drop, List.drop_left, StandsAt]

namespace Packs

/-- Some of the words that are chosen from a text can be chosen alone. -/
theorem subset {fewer : Finset Nat} (packs : form.Packs text starts) (among : fewer ⊆ starts) :
    form.Packs text fewer where
  -- Both conditions are about the words that are chosen.
  stand start member := packs.stand start (among member)
  apart one member other member' := packs.apart one (among member) other (among member')

/-- Two choices go together when the words of the first end before those of the second begin. -/
theorem union {starts' : Finset Nat} (packs : form.Packs text starts)
    (packs' : form.Packs text starts')
    (ordered : ∀ one ∈ starts, ∀ other ∈ starts', one + form.size ≤ other) :
    form.Packs text (starts ∪ starts') where
  stand start member := (Finset.mem_union.mp member).elim (packs.stand start) (packs'.stand start)
  apart one member other member' differ := by
    -- Words of one choice are apart anyway, and words of both come in their order.
    rcases Finset.mem_union.mp member with first | second <;>
      rcases Finset.mem_union.mp member' with first' | second'
    · exact packs.apart one first other first' differ
    · exact .inl (ordered one first other second')
    · exact .inr (ordered other first' one second)
    · exact packs'.apart one second other second' differ

/-- A choice from the front part of a text is one from the text. -/
theorem append_right (packs : form.Packs front starts) (back : List Char) :
    form.Packs (front ++ back) starts where
  -- The words stand where they stood, since each ends within the front part.
  stand start member :=
    have stands := packs.stand start member
    (standsAt_append_iff stands.add_size_le).mpr stands
  apart := packs.apart

/-- A choice from the back part of a text becomes one from the text when it moves there. -/
theorem append_left (packs : form.Packs back starts) (front : List Char) :
    form.Packs (front ++ back) (starts.image (front.length + ·)) where
  stand place member := by
    obtain ⟨start, among, rfl⟩ := Finset.mem_image.mp member
    exact standsAt_append_add_iff.mpr (packs.stand start among)
  apart one member other member' differ := by
    obtain ⟨start, among, rfl⟩ := Finset.mem_image.mp member
    obtain ⟨start', among', rfl⟩ := Finset.mem_image.mp member'
    have distinct : start ≠ start' := fun same => differ (by rw [same])
    -- Both words move by the same length.
    have := packs.apart start among start' among' distinct
    omega

/-- Words that end in the front part of a text are chosen from this part. -/
theorem of_append_right (packs : form.Packs (front ++ back) starts)
    (within : ∀ start ∈ starts, start + form.size ≤ front.length) : form.Packs front starts where
  -- The words stand in the front part, since each ends within it.
  stand start member := (standsAt_append_iff (within start member)).mp (packs.stand start member)
  apart := packs.apart

/-- Words that begin in the back part of a text are chosen from this part. -/
theorem of_append_left (packs : form.Packs (front ++ back) starts)
    (within : ∀ start ∈ starts, front.length ≤ start) :
    form.Packs back (starts.image (· - front.length)) where
  stand place member := by
    obtain ⟨start, among, rfl⟩ := Finset.mem_image.mp member
    apply standsAt_append_add_iff.mp
    rw [Nat.add_sub_cancel' (within start among)]
    exact packs.stand start among
  apart one member other member' differ := by
    obtain ⟨start, among, rfl⟩ := Finset.mem_image.mp member
    obtain ⟨start', among', rfl⟩ := Finset.mem_image.mp member'
    have distinct : start ≠ start' := fun same => differ (by rw [same])
    -- Neither of the two positions is cut off at the start of the back part.
    have := packs.apart start among start' among' distinct
    have := within start among
    have := within start' among'
    omega

end Packs

/-- The words that are chosen can be listed in the order of the text. -/
theorem mem_counts_iff {count : Nat} :
    count ∈ form.counts text ↔ ∃ places : List Nat, (∀ start ∈ places, form.StandsAt text start) ∧
      places.Pairwise (fun one next => one + form.size ≤ next) ∧ places.length = count := by
  constructor
  · rintro ⟨starts, packs, rfl⟩
    refine ⟨starts.sort, ?_, ?_, Finset.length_sort _⟩
    · intro start member
      exact packs.stand start ((Finset.mem_sort _).mp member)
    · -- Sorted positions that are apart leave room for a word between each other.
      refine starts.sortedLT_sort.pairwise.imp_of_mem fun {one next} member member' order => ?_
      have := packs.apart one ((Finset.mem_sort _).mp member) next ((Finset.mem_sort _).mp member')
        (Nat.ne_of_lt order)
      omega
  · rintro ⟨places, stand, apart, rfl⟩
    have positive := form.positive
    have distinct : places.Nodup := apart.imp fun {one next} order => by omega
    refine ⟨places.toFinset, ⟨?_, ?_⟩, List.toFinset_card_of_nodup distinct⟩
    · intro start member
      exact stand start (List.mem_toFinset.mp member)
    · intro one member other member' differ
      -- Of two words that are listed, one comes before the other.
      have either : places.Pairwise fun one other =>
          one + form.size ≤ other ∨ other + form.size ≤ one := apart.imp Or.inl
      have : Std.Symm fun one other : Nat =>
          one + form.size ≤ other ∨ other + form.size ≤ one := ⟨fun _ _ => Or.symm⟩
      exact either.forall (List.mem_toFinset.mp member) (List.mem_toFinset.mp member') differ

/-- What is chosen from two texts can be chosen from both put together. -/
theorem add_mem_counts {one other : Nat} (here : one ∈ form.counts front)
    (there : other ∈ form.counts back) : one + other ∈ form.counts (front ++ back) := by
  obtain ⟨starts, packs, rfl⟩ := here
  obtain ⟨starts', packs', rfl⟩ := there
  -- The words of the first text end before those of the second begin.
  have ordered : ∀ one ∈ starts, ∀ other ∈ starts'.image (front.length + ·),
      one + form.size ≤ other := by
    intro one member other member'
    obtain ⟨start, -, rfl⟩ := Finset.mem_image.mp member'
    exact Nat.le_add_right_of_le (packs.stand one member).add_size_le
  refine ⟨_, (packs.append_right back).union (packs'.append_left front) ordered, ?_⟩
  have disjoint : Disjoint starts (starts'.image (front.length + ·)) := by
    apply Finset.disjoint_left.mpr
    intro start member member'
    have := ordered start member start member'
    have := form.positive
    omega
  rw [Finset.card_union_of_disjoint disjoint,
    Finset.card_image_of_injective _ fun _ _ => Nat.add_left_cancel]

/-- Of the words that are chosen from a text, all but one end before a border or begin behind it. -/
theorem Packs.card_le_around (packs : form.Packs text starts) (border : Nat) :
    starts.card ≤ (starts.filter (· + form.size ≤ border)).card +
      (starts.filter (border ≤ ·)).card + 1 := by
  let before := starts.filter (· + form.size ≤ border)
  let behind := starts.filter (border ≤ ·)
  let across := starts.filter fun start => start < border ∧ border < start + form.size
  -- Two words across the border would overlap there.
  have single : across.card ≤ 1 := by
    apply Finset.card_le_one.mpr
    intro one member other member'
    obtain ⟨among, meets⟩ := Finset.mem_filter.mp member
    obtain ⟨among', meets'⟩ := Finset.mem_filter.mp member'
    by_contra differ
    have := packs.apart one among other among' differ
    omega
  -- A word that neither ends before the border nor begins behind it stands across it.
  have parts : starts ⊆ before ∪ behind ∪ across := by
    intro start member
    have cover : (start + form.size ≤ border ∨ border ≤ start) ∨
        start < border ∧ border < start + form.size := by omega
    simpa only [before, behind, across, Finset.mem_union, Finset.mem_filter, member, true_and]
      using cover
  calc starts.card
    _ ≤ (before ∪ behind ∪ across).card := Finset.card_le_card parts
    _ ≤ (before ∪ behind).card + across.card := Finset.card_union_le _ _
    _ ≤ before.card + behind.card + 1 := Nat.add_le_add (Finset.card_union_le _ _) single

/-- What is chosen from two texts put together can be chosen from each of them, up to a word that
stands where they meet. -/
theorem exists_counts_of_append {count : Nat} (whole : count ∈ form.counts (front ++ back)) :
    ∃ one ∈ form.counts front, ∃ other ∈ form.counts back, count ≤ one + other + 1 := by
  obtain ⟨starts, packs, rfl⟩ := whole
  have bound := packs.card_le_around front.length
  have before := (packs.subset (Finset.filter_subset _ _)).of_append_right
    fun start (member : start ∈ starts.filter (· + form.size ≤ front.length)) =>
      (Finset.mem_filter.mp member).2
  have within : ∀ start ∈ starts.filter (front.length ≤ ·), front.length ≤ start :=
    fun _ member => (Finset.mem_filter.mp member).2
  have behind := (packs.subset (Finset.filter_subset _ _)).of_append_left within
  -- Words that move together stay as many as they are.
  have kept : ((starts.filter (front.length ≤ ·)).image (· - front.length)).card =
      (starts.filter (front.length ≤ ·)).card := by
    apply Finset.card_image_of_injOn
    intro one member other member' same
    have := within one member
    have := within other member'
    simp only at same
    omega
  exact ⟨_, ⟨_, before, rfl⟩, _, ⟨_, behind, rfl⟩, by rwa [kept]⟩

/-- The largest choice from two texts put together has as many words as those from each of them, or
one more. -/
theorem isGreatest_counts_append {one other count : Nat}
    (here : IsGreatest (form.counts front) one) (there : IsGreatest (form.counts back) other)
    (whole : IsGreatest (form.counts (front ++ back)) count) :
    one + other ≤ count ∧ count ≤ one + other + 1 := by
  -- Choices from both texts go together, and of a choice from the whole one word may meet both.
  constructor
  · exact whole.2 (add_mem_counts here.1 there.1)
  · obtain ⟨one', mine, other', others, bound⟩ := exists_counts_of_append whole.1
    have := here.2 mine
    have := there.2 others
    omega

end WordForm

namespace Recogniser

variable {recogniser : Recogniser Unit} {form : WordForm} {text : List Char}

/-- A recogniser reads the words of a form. -/
def Reads (recogniser : Recogniser Unit) (form : WordForm) : Prop :=
  ∀ text rest, recogniser.front? text = some ((), rest) ↔ ∃ word, form.IsWord word ∧
    word ++ rest = text

/-- What is read stands in a text where a word of the form does, and is as long as this. -/
theorem Reads.standsIn_iff (reads : recogniser.Reads form) {finding : Finding Unit} :
    recogniser.StandsIn text finding ↔
      form.StandsAt text finding.start ∧ finding.stop = finding.start + form.size := by
  have positive := form.positive
  constructor
  · rintro ⟨read, bound⟩
    obtain ⟨word, isWord, shape⟩ := (reads _ _).mp read
    refine ⟨⟨word, isWord, _, shape⟩, ?_⟩
    -- The lengths tell where the word ends.
    have sizes := congrArg List.length shape
    rw [List.length_append, form.length_eq isWord, List.length_drop, List.length_drop] at sizes
    omega
  · rintro ⟨stands, stop⟩
    have bound := stands.add_size_le
    obtain ⟨word, isWord, rest, shape⟩ := stands
    refine ⟨(reads _ _).mpr ⟨word, isWord, ?_⟩, by omega⟩
    have size := form.length_eq isWord
    rw [stop, ← List.drop_drop, ← shape, ← size, List.drop_left]

/-- A search for words of a form finds as many as can be chosen without an overlap. -/
theorem Reads.isGreatest_findAll (reads : recogniser.Reads form) (text : List Char) :
    IsGreatest (form.counts text) (recogniser.findAll text).length := by
  -- The word that is read is all that stands before what is left.
  have leaves : recogniser.LeavesEnd := by
    intro text item rest read
    obtain ⟨word, -, shape⟩ := (reads _ _).mp read
    exact ⟨word, shape⟩
  obtain ⟨selected, found, selection⟩ := leaves.exists_isSelection text
  rw [found, List.length_map]
  constructor
  · -- What is selected is apart.
    refine WordForm.mem_counts_iff.mpr ⟨selected.map Finding.start, ?_, ?_, List.length_map _⟩
    · intro start member
      obtain ⟨finding, among, rfl⟩ := List.mem_map.mp member
      exact (reads.standsIn_iff.mp (selection.stand finding among)).1
    · apply List.pairwise_map.mpr
      refine selection.apart.imp_of_mem fun {one next} member _ order => ?_
      rwa [(reads.standsIn_iff.mp (selection.stand one member)).2] at order
  · intro count possible
    obtain ⟨places, stand, apart, rfl⟩ := WordForm.mem_counts_iff.mp possible
    -- Each word is an item that ends where it does.
    let item : Nat → Finding Unit := fun start => ⟨(), start, start + form.size⟩
    have items : ∀ finding ∈ places.map item, recogniser.StandsIn text finding := by
      intro finding member
      obtain ⟨start, among, rfl⟩ := List.mem_map.mp member
      exact reads.standsIn_iff.mpr ⟨stand start among, rfl⟩
    have most := selection.length_le (fun _ standing => standing.start_lt_stop) ?_ items
      (List.pairwise_map.mpr apart)
    · rwa [List.length_map] at most
    · -- Words of one length end in the order in which they begin.
      intro one other standing standing' order
      have := (reads.standsIn_iff.mp standing).2
      have := (reads.standsIn_iff.mp standing').2
      omega

end Recogniser

end Stocktake
