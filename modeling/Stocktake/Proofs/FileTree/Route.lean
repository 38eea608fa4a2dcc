import Stocktake.FileTree.Workspace

/-! Routes through a file tree are decided by what stands at its places. -/

namespace Stocktake

namespace FileTree

variable {tree other : FileTree}

/-- A route without steps has arrived. -/
@[simp] theorem advance_nil (creates : Bool) (place : Location) :
    tree.advance creates [] place = .arrived place := by
  -- The recursion on the steps ends here.
  rw [advance, advanceFrom]

/-- A step from anything but a directory is blocked. -/
theorem advance_of_not_directory {place : Location} (bare : tree.get? place ≠ some .directory)
    (creates : Bool) (step : Step) (steps : List Step) :
    tree.advance creates (step :: steps) place = .blocked .notDirectory := by
  -- Only the members of a directory are searched for the next step.
  rw [advance]
  cases found : tree.root.at? place with
  | none => rfl
  | some node =>
    cases node with
    | directory members => exact absurd (by simp [get?, found, FileNode.entry]) bare
    | _ => rfl

/-- A slash or a dot stays in a directory. -/
theorem advance_idle {place : Location} (inside : tree.get? place = some .directory)
    (creates : Bool) {step : Step} (idle : step = .slash ∨ step = .stay) (steps : List Step) :
    tree.advance creates (step :: steps) place = tree.advance creates steps place := by
  -- Such a step is taken in any directory, and ends where it begins.
  obtain ⟨members, found, _⟩ := exists_members inside
  rw [advance, advance, found]
  rcases idle with rfl | rfl <;> rfl

/-- Slashes stay in a directory. -/
theorem advance_slashes {place : Location} (inside : tree.get? place = some .directory)
    (creates : Bool) {slashes : List Step} (idle : ∀ step ∈ slashes, step = .slash) :
    tree.advance creates slashes place = .arrived place := by
  -- Each slash is taken in the directory and stays there.
  induction slashes with
  | nil => exact advance_nil creates place
  | cons step slashes ih =>
    rw [advance_idle inside creates (.inl (idle step List.mem_cons_self))]
    exact ih fun later member => idle later (List.mem_cons_of_mem _ member)

/-- A parent step goes up from a directory. -/
theorem advance_up {place : Location} (inside : tree.get? place = some .directory)
    (creates : Bool) (steps : List Step) :
    tree.advance creates (.up :: steps) place = tree.advance creates steps place.tail := by
  -- The entry above is where the names but the last one lead.
  obtain ⟨members, found, _⟩ := exists_members inside
  rw [advance, advance, found]
  rfl

/-- A name that no entry can have leads nowhere. -/
theorem advance_nowhere {place : Location} (inside : tree.get? place = some .directory)
    (creates : Bool) (steps : List Step) :
    tree.advance creates (.nowhere :: steps) place = .blocked .nameTooLong := by
  -- A directory is asked for the name, and refuses it for its length.
  obtain ⟨members, found, _⟩ := exists_members inside
  rw [advance, found]
  rfl

/-- A name leads to the member of a directory, or to a link on which the route goes on. -/
theorem advance_down {place : Location} (inside : tree.get? place = some .directory)
    (creates : Bool) (name : EntryName) (steps : List Step) :
    tree.advance creates (.down name :: steps) place =
      if creates && closesDirectory steps then .blocked .isDirectory
      else
        match tree.get? (name :: place) with
        | none => if steps.isEmpty then .arrived (name :: place) else .blocked .missing
        | some (.link target) => .atLink target place steps
        | some _ => tree.advance creates steps (name :: place) := by
  -- The member under the name is what stands one name below the place.
  obtain ⟨members, found, below⟩ := exists_members inside
  have member : tree.root.at? (name :: place) = OrderedMap.lookup name members := by
    rw [FileNode.at?, found]
    rfl
  rw [advance, found, advanceFrom]
  split
  · rfl
  · rw [get?, member, advance, member]
    cases OrderedMap.lookup name members with
    | none => rfl
    | some node => cases node <;> rfl

/-- Below an entry stands something only when the entry is a directory. -/
theorem directory_of_isSome {name : EntryName} {home : Location}
    (below : (tree.get? (name :: home)).isSome) : tree.get? home = some .directory := by
  -- An entry is found below another one as a member, and only directories have any.
  rw [get?, FileNode.at?] at below
  rw [get?]
  cases found : tree.root.at? home with
  | none => simp [found] at below
  | some node =>
    cases node with
    | directory members => rfl
    | _ => simp [found, FileNode.member?, FileNode.members, OrderedMap.lookup] at below

/-- Above an entry stand directories only. -/
private theorem directory_of_isSome_append {inner : Location} (deeper : inner ≠ [])
    {home : Location} (below : (tree.get? (inner ++ home)).isSome) :
    tree.get? home = some .directory := by
  -- All entries on the way to an entry are directories.
  induction inner with
  | nil => exact absurd rfl deeper
  | cons name inner ih =>
    have above := directory_of_isSome below
    cases inner with
    | nil => exact above
    | cons next inner => exact ih (by simp) (Option.isSome_of_mem above)

/-- Above every name of a chain that leads to an entry stands a directory. -/
theorem directory_of_isSome_chain {chain base : Location}
    (present : (tree.get? (chain ++ base)).isSome) (inner : Location) (name : EntryName)
    (outer : Location) (parts : chain = inner ++ name :: outer) :
    tree.get? (outer ++ base) = some .directory := by
  -- The chain up to the name leads on to an entry, so a directory stands there.
  have below : (tree.get? ((inner ++ [name]) ++ (outer ++ base))).isSome := by
    simpa [parts] using present
  exact directory_of_isSome_append (by simp) below

/-- A place along a chain that leads to an entry is the end of the chain or a directory. -/
theorem end_or_directory {chain inner outer base : Location}
    (present : (tree.get? (chain ++ base)).isSome) (parts : chain = inner ++ outer) :
    chain = outer ∨ tree.get? (outer ++ base) = some .directory := by
  subst parts
  cases inner with
  | nil => exact .inl rfl
  | cons name inner =>
    -- The names in front of the place lead on from it.
    rw [List.append_assoc] at present
    exact .inr (directory_of_isSome_append (List.cons_ne_nil name inner) present)

/-- A step of a route goes on from a place, stops at a link, is blocked, or ends the route. -/
theorem advance_cases (step : Step) (start : Location) :
    (∃ next, ∀ steps : List Step,
        tree.advance false (step :: steps) start = tree.advance false steps next) ∨
      (∃ target, (∃ place, tree.get? place = some (.link target)) ∧ ∀ steps : List Step,
        tree.advance false (step :: steps) start = .atLink target start steps) ∨
      (∃ cause, ∀ steps : List Step,
        tree.advance false (step :: steps) start = .blocked cause) ∨
      ∃ place, tree.get? place = none ∧ tree.advance false [step] start = .arrived place ∧
        ∀ (next : Step) (steps : List Step),
          tree.advance false (step :: next :: steps) start = .blocked .missing := by
  -- What a step does is decided by what stands where it is taken, and where it leads.
  by_cases inside : tree.get? start = some .directory
  · cases step with
    | slash => exact .inl ⟨start, advance_idle inside _ (.inl rfl)⟩
    | stay => exact .inl ⟨start, advance_idle inside _ (.inr rfl)⟩
    | up => exact .inl ⟨start.tail, advance_up inside _⟩
    | down name =>
      simp only [advance_down inside, Bool.false_and, Bool.false_eq_true, if_false]
      cases found : tree.get? (name :: start) with
      | none => exact .inr (.inr (.inr ⟨name :: start, found, rfl, fun _ _ => rfl⟩))
      | some entry =>
        cases entry with
        | link target => exact .inr (.inl ⟨target, ⟨_, found⟩, fun _ => rfl⟩)
        | _ => exact .inl ⟨name :: start, fun _ => rfl⟩
    | nowhere => exact .inr (.inr (.inl ⟨.nameTooLong, advance_nowhere inside _⟩))
  · exact .inr (.inr (.inl ⟨.notDirectory, advance_of_not_directory inside _ _⟩))

/-- A route that arrives at an entry before its first link goes on from there. -/
theorem advance_append_of_arrived {steps : List Step} {start place : Location}
    (arrived : tree.advance false steps start = .arrived place)
    (present : (tree.get? place).isSome) (more : List Step) :
    tree.advance false (steps ++ more) start = tree.advance false more place := by
  induction steps generalizing start with
  | nil =>
    rw [advance_nil] at arrived
    rw [List.nil_append, Advance.arrived.inj arrived]
  | cons step steps ih =>
    rw [List.cons_append]
    obtain ⟨next, goes⟩ | ⟨target, _, stops⟩ | ⟨cause, blocks⟩ | ⟨last, absent, ends, misses⟩ :=
      tree.advance_cases step start
    · rw [goes] at arrived ⊢
      exact ih arrived
    · simp [stops] at arrived
    · simp [blocks] at arrived
    · -- Where nothing stands, a route ends without an entry.
      cases steps with
      | nil =>
        obtain rfl := Advance.arrived.inj (ends.symm.trans arrived)
        simp [absent] at present
      | cons next steps => simp [misses] at arrived

/-- A route that comes to a link has the same steps left behind it, and those that follow. -/
theorem advance_append_of_atLink {steps rest : List Step} {start home : Location}
    {target : String}
    (stopped : tree.advance false steps start = .atLink target home rest) (more : List Step) :
    tree.advance false (steps ++ more) start = .atLink target home (rest ++ more) := by
  -- Steps are taken one by one, and the later ones only wait behind the link.
  induction steps generalizing start with
  | nil => simp at stopped
  | cons step steps ih =>
    rw [List.cons_append]
    obtain ⟨next, goes⟩ | ⟨found, _, stops⟩ | ⟨cause, blocks⟩ | ⟨last, _, ends, misses⟩ :=
      tree.advance_cases step start
    · rw [goes] at stopped ⊢
      exact ih stopped
    · rw [stops] at stopped ⊢
      obtain ⟨rfl, rfl, rfl⟩ := Advance.atLink.inj stopped
      rfl
    · simp [blocks] at stopped
    · cases steps with
      | nil => simp [ends] at stopped
      | cons next steps => simp [misses] at stopped

/-- A route arrives before the first link, or through that link with one link fewer to pass. -/
theorem follow_eq_ok {creates : Bool} {links : Nat} {steps : List Step} {start place : Location} :
    tree.follow creates links steps start = .ok place ↔
      tree.advance creates steps start = .arrived place ∨
        ∃ fewer target home rest, links = fewer + 1 ∧
          tree.advance creates steps start = .atLink target home rest ∧
          tree.follow creates fewer (stepsOf target ++ rest) (routeStart home target) =
            .ok place := by
  -- One unfolding of the route, with the number of links that it has left.
  rw [follow.eq_def]
  cases tree.advance creates steps start with
  | arrived there => simp
  | blocked cause => simp
  | atLink target home rest =>
    cases links with
    | zero => simp
    | succ fewer =>
      refine ⟨fun onward => .inr ⟨fewer, target, home, rest, rfl, rfl, onward⟩, ?_⟩
      rintro (arrived | ⟨_, _, _, _, same, stopped, onward⟩)
      · simp at arrived
      · obtain ⟨rfl, rfl, rfl⟩ := Advance.atLink.inj stopped
        rwa [Nat.succ.inj same]

/-- A route that does not run out of links is the same with more of them. -/
theorem follow_of_le {creates : Bool} {links more : Nat} (enough : links ≤ more)
    {steps : List Step} {start : Location}
    (within : tree.follow creates links steps start ≠ .error .tooManyLinks) :
    tree.follow creates more steps start = tree.follow creates links steps start := by
  -- Up to the first link no number counts, and behind it one link fewer is left on both sides.
  induction links generalizing more steps start with
  | zero =>
    rw [follow.eq_def] at within ⊢
    rw [follow.eq_def tree creates 0]
    cases stopped : tree.advance creates steps start with
    | atLink target home rest => simp [stopped] at within
    | _ => rfl
  | succ links ih =>
    obtain ⟨more, rfl⟩ : ∃ fewer, more = fewer + 1 := ⟨more - 1, by omega⟩
    rw [follow] at within
    rw [follow, follow]
    cases stopped : tree.advance creates steps start with
    | atLink target home rest =>
      rw [stopped] at within
      exact ih (Nat.le_of_succ_le_succ enough) within
    | _ => rfl

/-- Routes that do not run out of links are the same with any numbers of them. -/
theorem follow_of_within {creates : Bool} {links links' : Nat} {steps : List Step}
    {start : Location} (within : tree.follow creates links steps start ≠ .error .tooManyLinks)
    (within' : tree.follow creates links' steps start ≠ .error .tooManyLinks) :
    tree.follow creates links steps start = tree.follow creates links' steps start := by
  -- A higher number of links changes nothing about a route that needs fewer.
  rcases Nat.le_total links links' with fewer | fewer
  · exact (follow_of_le fewer within).symm
  · exact follow_of_le fewer within'

/-- A route that ends at an entry goes on from there, with fewer links left to pass. -/
theorem follow_append {links : Nat} {steps : List Step} {start place : Location}
    (ends : tree.follow false links steps start = .ok place) (present : (tree.get? place).isSome) :
    ∃ left, ∀ more : List Step,
      tree.follow false links (steps ++ more) start = tree.follow false left more place := by
  -- Each link passed puts its target in front, and the steps that follow stay behind.
  induction links using Nat.strongRecOn generalizing steps start with
  | ind links ih =>
    obtain arrived | ⟨fewer, target, home, rest, rfl, stopped, onward⟩ := follow_eq_ok.mp ends
    · refine ⟨links, fun more => ?_⟩
      rw [follow.eq_def, follow.eq_def, advance_append_of_arrived arrived present]
    · obtain ⟨left, goesOn⟩ := ih fewer (Nat.lt_succ_self fewer) onward
      refine ⟨left, fun more => ?_⟩
      rw [follow, advance_append_of_atLink stopped more]
      dsimp only
      rw [← List.append_assoc, goesOn]

/-- A slash or a dot before a further step is only seen in what is left at a link. -/
private theorem advance_append_idle {idle : Step} (stays : idle = .slash ∨ idle = .stay)
    (steps : List Step) (step : Step) (more : List Step) (start : Location) :
    tree.advance false (steps ++ idle :: step :: more) start =
        tree.advance false (steps ++ step :: more) start ∨
      ∃ target home rest,
        tree.advance false (steps ++ idle :: step :: more) start =
            .atLink target home (rest ++ idle :: step :: more) ∧
          tree.advance false (steps ++ step :: more) start =
            .atLink target home (rest ++ step :: more) := by
  -- A slash or a dot before a further step changes nothing on the way to the first link.
  induction steps generalizing start with
  | nil =>
    left
    by_cases inside : tree.get? start = some .directory
    · exact advance_idle inside _ stays _
    · rw [List.nil_append, List.nil_append, advance_of_not_directory inside,
        advance_of_not_directory inside]
  | cons first steps ih =>
    simp only [List.cons_append]
    obtain ⟨next, goes⟩ | ⟨target, _, stops⟩ | ⟨cause, blocks⟩ | ⟨last, _, _, misses⟩ :=
      tree.advance_cases first start
    · rw [goes, goes]
      exact ih next
    · exact .inr ⟨target, start, steps, stops _, stops _⟩
    · exact .inl ((blocks _).trans (blocks _).symm)
    · left
      -- On both routes a step follows where nothing stands.
      cases steps with
      | nil => exact (misses _ _).trans (misses _ _).symm
      | cons next steps => exact (misses _ _).trans (misses _ _).symm

/-- A slash or a dot before a further step changes nothing on a route. -/
theorem follow_append_idle {idle : Step} (stays : idle = .slash ∨ idle = .stay) (links : Nat)
    (steps : List Step) (step : Step) (more : List Step) (start : Location) :
    tree.follow false links (steps ++ idle :: step :: more) start =
      tree.follow false links (steps ++ step :: more) start := by
  -- Behind a link, the target comes before the idle step, so that a step still follows it.
  induction links using Nat.strongRecOn generalizing steps start with
  | ind links ih =>
    rw [follow.eq_def, follow.eq_def tree false links (steps ++ step :: more)]
    obtain same | ⟨target, home, rest, one, other⟩ :=
      tree.advance_append_idle stays steps step more start
    · rw [same]
    · rw [one, other]
      cases links with
      | zero => rfl
      | succ fewer =>
        dsimp only
        rw [← List.append_assoc, ← List.append_assoc, ih fewer (Nat.lt_succ_self fewer)]

/-- A route that is blocked stays so when further steps follow. -/
theorem advance_append_of_blocked {steps : List Step} {start : Location}
    {cause : SystemFault} (blocked : tree.advance false steps start = .blocked cause)
    (more : List Step) : tree.advance false (steps ++ more) start = .blocked cause := by
  -- What blocks a route comes before the steps that follow.
  induction steps generalizing start with
  | nil => simp at blocked
  | cons step steps ih =>
    rw [List.cons_append]
    obtain ⟨next, goes⟩ | ⟨target, _, stops⟩ | ⟨found, blocks⟩ | ⟨last, _, ends, misses⟩ :=
      tree.advance_cases step start
    · rw [goes] at blocked ⊢
      exact ih blocked
    · simp [stops] at blocked
    · rw [blocks] at blocked ⊢
      exact blocked
    · cases steps with
      | nil => simp [ends] at blocked
      | cons next steps =>
        rw [misses] at blocked
        exact (misses _ _).trans blocked

/-- A further slash asks for a directory where a route has come to. -/
private theorem advance_append_slash_of_arrived {steps : List Step} {start place : Location}
    (arrived : tree.advance false steps start = .arrived place) :
    (tree.get? place = some .directory ∧
        tree.advance false (steps ++ [.slash]) start = .arrived place) ∨
      (tree.get? place ≠ some .directory ∧
        ∃ cause, tree.advance false (steps ++ [.slash]) start = .blocked cause) := by
  -- The slash is the last step, and those before it go as they did without it.
  induction steps generalizing start with
  | nil =>
    obtain rfl : start = place := by simpa using arrived
    by_cases inside : tree.get? start = some .directory
    · exact .inl ⟨inside, by rw [List.nil_append, advance_idle inside _ (.inl rfl), advance_nil]⟩
    · exact .inr ⟨inside, _, advance_of_not_directory inside _ _ _⟩
  | cons first steps ih =>
    simp only [List.cons_append]
    obtain ⟨next, goes⟩ | ⟨target, _, stops⟩ | ⟨cause, blocks⟩ | ⟨last, absent, ends, misses⟩ :=
      tree.advance_cases first start
    · rw [goes] at arrived ⊢
      exact ih arrived
    · simp [stops] at arrived
    · simp [blocks] at arrived
    · -- Where nothing stands, no directory is marked.
      cases steps with
      | nil =>
        obtain rfl := Advance.arrived.inj (ends.symm.trans arrived)
        exact .inr ⟨by simp [absent], _, misses _ _⟩
      | cons next steps => simp [misses] at arrived

/-- A slash behind a route marks its end as a directory. -/
theorem follow_append_slash {links : Nat} {steps : List Step} {start place : Location} :
    tree.follow false links (steps ++ [.slash]) start = .ok place ↔
      tree.follow false links steps start = .ok place ∧ tree.get? place = some .directory := by
  -- A slash behind a link is still the last step of the route that goes on.
  induction links using Nat.strongRecOn generalizing steps start with
  | ind links ih =>
    rw [follow.eq_def, follow.eq_def tree false links steps]
    cases stopped : tree.advance false steps start with
    | arrived there =>
      obtain ⟨inside, marked⟩ | ⟨bare, cause, marked⟩ := advance_append_slash_of_arrived stopped
      · rw [marked]
        exact ⟨fun same => ⟨same, Except.ok.inj same ▸ inside⟩, And.left⟩
      · rw [marked]
        refine ⟨fun wrong => by simp at wrong, fun ⟨same, stands⟩ => ?_⟩
        exact absurd (Except.ok.inj same ▸ stands) bare
    | blocked cause =>
      rw [advance_append_of_blocked stopped]
      simp
    | atLink target home rest =>
      rw [advance_append_of_atLink stopped]
      cases links with
      | zero => simp
      | succ fewer =>
        dsimp only
        rw [← List.append_assoc, ih fewer (Nat.lt_succ_self fewer)]

/-- Names of directories, each inside the next, lead down to the innermost of them. -/
theorem advance_downs {chain base : Location}
    (inside : tree.get? (chain ++ base) = some .directory) (more : List Step) :
    tree.advance false (chain.reverse.map .down ++ more) base =
      tree.advance false more (chain ++ base) := by
  -- All directories but the innermost are passed before the last name.
  induction chain generalizing more with
  | nil => rfl
  | cons name chain ih =>
    have above : tree.get? (chain ++ base) = some .directory :=
      directory_of_isSome (Option.isSome_of_mem inside)
    have inner : tree.get? (name :: (chain ++ base)) = some .directory := inside
    rw [List.reverse_cons, List.map_append, List.append_assoc, ih above, List.map_singleton,
      List.singleton_append, advance_down above, inner]
    rfl

/-- A route down along a chain of names ends at its entry, unless that is a link. -/
theorem follow_downs {name : EntryName} {chain base : Location} {entry : Entry}
    (found : tree.get? (name :: chain ++ base) = some entry)
    (solid : ∀ target, entry ≠ .link target) (links : Nat) :
    tree.follow false links ((name :: chain).reverse.map .down) base =
      .ok (name :: chain ++ base) := by
  -- The last name is a member of the innermost directory, and no link stops the route there.
  have above : tree.get? (chain ++ base) = some .directory :=
    directory_of_isSome (Option.isSome_of_mem found)
  have inner : tree.get? (name :: (chain ++ base)) = some entry := found
  have stops : tree.advance false ((name :: chain).reverse.map .down) base =
      .arrived (name :: chain ++ base) := by
    rw [List.reverse_cons, List.map_append, advance_downs above, List.map_singleton,
      advance_down above, inner]
    cases entry with
    | link target => exact absurd rfl (solid target)
    | _ => exact advance_nil false _
  rw [follow, stops]

/-- A route is the same in a tree that keeps directories and links and has its end, too. -/
private theorem advance_of_kept
    (keeps : ∀ {place entry}, tree.get? place = some entry → (∀ content, entry ≠ .file content) →
      other.get? place = some entry)
    {steps : List Step} {start : Location} {result : Advance}
    (ends : tree.advance false steps start = result)
    (solid : (∃ target home rest, result = .atLink target home rest) ∨
      ∃ place entry, result = .arrived place ∧ tree.get? place = some entry ∧
        other.get? place = some entry) :
    other.advance false steps start = result := by
  -- A route that ends at an entry or a link is kept in a tree that keeps directories and links.
  have notBlocked : ∀ cause, result ≠ .blocked cause := by
    rintro cause rfl
    obtain ⟨_, _, _, wrong⟩ | ⟨_, _, wrong, _⟩ := solid <;> simp at wrong
  have atEntry : ∀ place, result = .arrived place → ∃ entry, tree.get? place = some entry ∧
      other.get? place = some entry := by
    rintro place rfl
    obtain ⟨_, _, _, wrong⟩ | ⟨there, entry, same, stands⟩ := solid
    · simp at wrong
    · exact ⟨entry, Advance.arrived.inj same ▸ stands⟩
  induction steps generalizing start with
  | nil => rw [← ends, advance_nil, advance_nil]
  | cons step steps ih =>
    by_cases inside : tree.get? start = some .directory
    · have kept := keeps inside (by simp)
      cases step with
      | slash =>
        rw [advance_idle inside _ (.inl rfl)] at ends
        rw [advance_idle kept _ (.inl rfl), ih ends]
      | stay =>
        rw [advance_idle inside _ (.inr rfl)] at ends
        rw [advance_idle kept _ (.inr rfl), ih ends]
      | up =>
        rw [advance_up inside] at ends
        rw [advance_up kept, ih ends]
      | nowhere =>
        rw [advance_nowhere inside] at ends
        exact absurd ends.symm (notBlocked _)
      | down name =>
        rw [advance_down inside] at ends
        rw [advance_down kept]
        simp only [Bool.false_and, Bool.false_eq_true, if_false] at ends ⊢
        cases found : tree.get? (name :: start) with
        | none =>
          -- The route would end where nothing stands.
          rw [found] at ends
          dsimp only at ends
          split at ends
          · obtain ⟨entry, stands, _⟩ := atEntry _ ends.symm
            simp [stands] at found
          · exact absurd ends.symm (notBlocked _)
        | some entry =>
          rw [found] at ends
          cases entry with
          | link target => rw [keeps found (by simp), ← ends]
          | directory => rw [keeps found (by simp), ← ih ends]
          | file content =>
            have solid : tree.get? (name :: start) ≠ some .directory := by simp [found]
            cases steps with
            | nil =>
              -- The route ends at this file, which stands in the other tree as well.
              obtain ⟨entry, stands, stands'⟩ := atEntry _ (ends.symm.trans (advance_nil _ _))
              obtain rfl := Option.some.inj (found.symm.trans stands)
              rw [stands', ← ends, advance_nil, advance_nil]
            | cons next steps =>
              dsimp only at ends
              rw [advance_of_not_directory solid] at ends
              exact absurd ends.symm (notBlocked _)
    · rw [advance_of_not_directory inside] at ends
      exact absurd ends.symm (notBlocked _)

/-- Also through links, a route to an entry is kept where the entry, directories and links are. -/
theorem follow_of_kept_entry
    (keeps : ∀ {place entry}, tree.get? place = some entry → (∀ content, entry ≠ .file content) →
      other.get? place = some entry)
    {links : Nat} {steps : List Step} {start place : Location} {entry : Entry}
    (ends : tree.follow false links steps start = .ok place)
    (stands : tree.get? place = some entry) (stands' : other.get? place = some entry) :
    other.follow false links steps start = .ok place := by
  -- The route ends the same way up to each link, so that both go through the same links.
  induction links using Nat.strongRecOn generalizing steps start with
  | ind links ih =>
    obtain arrived | ⟨fewer, target, home, rest, rfl, stopped, onward⟩ := follow_eq_ok.mp ends
    · have kept := advance_of_kept keeps arrived (.inr ⟨place, entry, rfl, stands, stands'⟩)
      exact follow_eq_ok.mpr (.inl kept)
    · have kept := advance_of_kept keeps stopped (.inl ⟨target, home, rest, rfl⟩)
      have reached := ih fewer (Nat.lt_succ_self fewer) onward
      exact follow_eq_ok.mpr (.inr ⟨fewer, target, home, rest, rfl, kept, reached⟩)

/-- A route to a directory is kept where directories and links are. -/
theorem follow_of_kept
    (keeps : ∀ {place entry}, tree.get? place = some entry → (∀ content, entry ≠ .file content) →
      other.get? place = some entry)
    {links : Nat} {steps : List Step} {start place : Location}
    (ends : tree.follow false links steps start = .ok place)
    (stands : tree.get? place = some .directory) :
    other.follow false links steps start = .ok place :=
  -- The directory itself is one of those that are kept.
  follow_of_kept_entry keeps ends stands (keeps stands (by simp))

end FileTree

namespace Workspace

variable {workspace : Workspace}

/-- What a path leads to stands where the route along its steps ends. -/
theorem find_eq_ok {path : String} {place : Location} {entry : Entry} :
    workspace.find path = .ok (place, entry) ↔
      workspace.reach false path (stepsOf path) = .ok place ∧
        workspace.tree.get? place = some entry := by
  -- The route decides on the place, and what stands there on the rest.
  rw [find]
  cases workspace.reach false path (stepsOf path) with
  | error cause => simp [bind, Except.bind]
  | ok there =>
    cases found : workspace.tree.get? there with
    | none =>
      simp only [bind, Except.bind, found, throw, throwThe, MonadExceptOf.throw]
      refine ⟨fun wrong => by simp at wrong, ?_⟩
      rintro ⟨same, stands⟩
      rw [Except.ok.inj same, stands] at found
      simp at found
    | some other =>
      simp only [bind, Except.bind, found, pure, Except.pure, Except.ok.injEq, Prod.mk.injEq]
      refine ⟨?_, ?_⟩
      · rintro ⟨rfl, rfl⟩
        exact ⟨rfl, found⟩
      · rintro ⟨rfl, stands⟩
        exact ⟨rfl, Option.some.inj (found.symm.trans stands)⟩

/-- A path that is reached has no null, is not empty and stays below the limit. -/
theorem reach_eq_ok {creates : Bool} {path : String} {steps : List Step} {place : Location} :
    workspace.reach creates path steps = .ok place ↔
      '\x00' ∉ path.toList ∧ path ≠ "" ∧ path.utf8ByteSize < pathLimit ∧
        workspace.tree.follow creates linkLimit steps (routeStart workspace.here path) =
          .ok place := by
  -- The text is judged as a whole, one property after another.
  rw [reach]
  by_cases null : '\x00' ∈ path.toList
  · simp [null]
  · by_cases present : path = ""
    · simp [present]
    · by_cases long : pathLimit ≤ path.utf8ByteSize
      · simp [null, present, long, Nat.not_lt.mpr long]
      · simp [null, present, long, Nat.not_le.mp long]

end Workspace

end Stocktake
