import Stocktake.Report.Console

/-! A sink keeps a prefix of what is written to it, whatever has failed in between. -/

namespace Stocktake

/-- The bytes of a joined text are the bytes of its parts. -/
theorem utf8Encode_append (first second : String) :
    utf8Encode (first ++ second).toList =
      utf8Encode first.toList ++ utf8Encode second.toList := by
  -- Texts are encoded one character after the other.
  rw [String.toList_append, utf8Encode, List.flatMap_append]
  rfl

namespace Sink

/-- Two texts in turn fill a sink like one text, also when the first does not go in whole. -/
theorem write_write (sink : Sink) (first second : String) :
    ((sink.write first).1.write second).1 = (sink.write (first ++ second)).1 := by
  obtain ⟨capacity, received⟩ := sink
  cases capacity with
  | none => simp only [write, utf8Encode_append, List.append_assoc]
  | some capacity =>
    simp only [write, utf8Encode_append, List.append_assoc]
    generalize utf8Encode first.toList = bytes
    -- The second text finds the room that the first one leaves.
    have left : capacity - (received ++ bytes.take (capacity - received.length)).length =
        capacity - received.length - bytes.length := by
      rw [List.length_append, List.length_take]
      omega
    rw [left, List.take_append]

/-- Once a text has not gone in whole, nothing goes in any more. -/
theorem write_of_failed {sink : Sink} {text : String} (failed : (sink.write text).2 = false)
    (more : String) : ((sink.write text).1.write more).1 = (sink.write text).1 := by
  obtain ⟨capacity, received⟩ := sink
  cases capacity with
  | none => simp [write] at failed
  | some capacity =>
    simp only [write, decide_eq_false_iff_not] at failed ⊢
    -- What went in has used up the room.
    have full : capacity - (received ++
        (utf8Encode text.toList).take (capacity - received.length)).length = 0 := by
      rw [List.length_append, List.length_take]
      omega
    rw [full, List.take_zero, List.append_nil]

/-- Texts fill a sink in turn as they would at once, although none is tried behind a failure. -/
theorem writeAll_eq_write (sink : Sink) (texts : List String) :
    (sink.writeAll texts).1 = (sink.write (String.join texts)).1 := by
  induction texts generalizing sink with
  | nil =>
    obtain ⟨capacity, received⟩ := sink
    cases capacity <;> simp [writeAll, write, utf8Encode]
  | cons text texts ih =>
    rw [String.join_cons, ← write_write, writeAll]
    -- Either the first text goes in and the others follow, or there is no room for the others.
    cases wrote : sink.write text with
    | mk filled whole =>
      cases whole with
      | true => exact ih filled
      | false =>
        have failed : (sink.write text).2 = false := congrArg Prod.snd wrote
        have kept := write_of_failed failed (String.join texts)
        rw [wrote] at kept
        exact kept.symm

/-- Further texts fill a sink as if they had been written with those before them. -/
theorem writeAll_writeAll (sink : Sink) (first second : List String) :
    ((sink.writeAll first).1.writeAll second).1 = (sink.writeAll (first ++ second)).1 := by
  -- What a sink receives is cut by its limit alone, wherever one text ends and the next begins.
  rw [writeAll_eq_write, writeAll_eq_write, writeAll_eq_write, write_write, String.join_append]

/-- A sink without limit has received all bytes of the texts. -/
theorem received_writeAll_fresh_none (texts : List String) :
    ((fresh none).writeAll texts).1.received = utf8Encode (String.join texts).toList := by
  -- Without a limit the joined texts go in whole.
  rw [writeAll_eq_write]
  rfl

/-- A sink with a limit has received the first bytes of what one without limit has. -/
theorem received_writeAll_fresh_some (capacity : Nat) (texts : List String) :
    ((fresh (some capacity)).writeAll texts).1.received =
      ((fresh none).writeAll texts).1.received.take capacity := by
  -- A limit cuts the joined texts, from which a sink without limit cuts nothing.
  rw [received_writeAll_fresh_none, writeAll_eq_write]
  rfl

end Sink

end Stocktake
