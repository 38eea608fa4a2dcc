import Mathlib.Data.List.Count
import Stocktake.Proofs.Text.Lossy
import Stocktake.Proofs.Walk.Selection

/-! A source file is read with its invalid parts replaced, and its ASCII bytes and lines kept. -/

namespace Stocktake

/-- A decoded text has a line more than its bytes have line feeds. -/
theorem lineCount_utf8Lossy (bytes : Bytes) :
    lineCount (utf8Lossy bytes) = bytes.count 0x0A + 1 := by
  have injective : Function.Injective Char.ofUInt8 := by
    intro byte byte' same
    exact UInt8.toNat_inj.mp (congrArg Char.toNat same)
  -- Line feeds are among the ASCII characters, which are those of the ASCII bytes.
  have feeds : (utf8Lossy bytes).count '\n' = bytes.count 0x0A := calc
    (utf8Lossy bytes).count '\n'
      = ((utf8Lossy bytes).filter (·.toNat < 0x80)).count '\n' :=
        (List.count_filter (by decide)).symm
    _ = ((bytes.filter (· < 0x80)).map Char.ofUInt8).count (Char.ofUInt8 0x0A) := by
        rw [filter_ascii_utf8Lossy]
        rfl
    _ = (bytes.filter (· < 0x80)).count 0x0A := List.count_map_of_injective _ _ injective _
    _ = bytes.count 0x0A := List.count_filter (by decide)
  rw [lineCount, feeds]

/-- The constructs of a file have its number of lines. -/
theorem Analysis.loc_of_mem_constructs {path content : String} {entry : Category × Construct}
    (member : entry ∈ (ofContent path content).constructs) :
    entry.2.loc = (ofContent path content).loc := by
  -- Each declaration of a file becomes a construct with the length of the whole.
  obtain ⟨declaration, _, rfl⟩ := List.mem_map.mp member
  rfl

namespace Workspace

variable {workspace : Workspace} {path : String} {bytes : Bytes}

/-- A file that can be read is recorded with the number of its lines, whatever its bytes are. -/
theorem exists_ofPath_of_read (found : workspace.read path = .ok bytes) (root : String) :
    ∃ analysis, FileOutcome.ofPath root workspace.reader path = .analyzed analysis ∧
      analysis.loc = bytes.count 0x0A + 1 ∧
      ∀ entry ∈ analysis.constructs, entry.2.loc = bytes.count 0x0A + 1 := by
  -- Decoding keeps every line feed, so the text has as many lines as the bytes.
  have text : workspace.reader path = .ok (.ofList (utf8Lossy bytes)) := by
    rw [reader, readSource, found]
    rfl
  have lines : (Analysis.ofContent (Path.relative root path) (.ofList (utf8Lossy bytes))).loc =
      bytes.count 0x0A + 1 := by
    rw [Analysis.ofContent, String.toList_ofList, lineCount_utf8Lossy]
  refine ⟨_, by rw [FileOutcome.ofPath, text], lines, fun entry member => ?_⟩
  rw [Analysis.loc_of_mem_constructs member, lines]

/-- A file is read as its text when this is what its bytes spell, and else with one replacement for
each longest invalid part: an ASCII byte keeps apart what is before it and behind it, so that the
ASCII characters and the number of lines are those of the bytes. -/
theorem readSource_keeps_ascii (found : workspace.read path = .ok bytes) (root : String) :
    workspace.readSource path = .ok (.ofList (utf8Lossy bytes)) ∧
      IsLossyText bytes (utf8Lossy bytes) ∧
      (∀ text, bytes = utf8Encode text → utf8Lossy bytes = text) ∧
      (∀ (front back : Bytes) (byte : UInt8), byte < 0x80 →
        utf8Lossy (front ++ [byte] ++ back) =
          utf8Lossy front ++ [.ofUInt8 byte] ++ utf8Lossy back) ∧
      (utf8Lossy bytes).filter (·.toNat < 0x80) = (bytes.filter (· < 0x80)).map .ofUInt8 ∧
      ∃ analysis, FileOutcome.ofPath root workspace.reader path = .analyzed analysis ∧
        analysis.loc = bytes.count 0x0A + 1 ∧
        ∀ entry ∈ analysis.constructs, entry.2.loc = bytes.count 0x0A + 1 := by
  -- The reader decodes what it reads, and all else is about the decoding.
  refine ⟨by rw [readSource, found]; rfl, isLossyText_iff.mpr rfl, ?_, ?_,
    filter_ascii_utf8Lossy bytes, exists_ofPath_of_read found root⟩
  · rintro text rfl
    exact utf8Lossy_utf8Encode text
  · intro front back byte ascii
    exact utf8Lossy_append_ascii front back ascii

/-- A workspace with a file in which characters are cut off before a line feed and a quote. -/
def withCutSource : Workspace :=
  withSource scriptName [0x63, 0xE9, 0x0A, 0xE2, 0x82, 0x27, 0x0A]

/-- Of two cut characters each is replaced once, and the lines are counted as before. -/
theorem readSource_keeps_ascii_cut :
    withCutSource.read "a.js" = .ok [0x63, 0xE9, 0x0A, 0xE2, 0x82, 0x27, 0x0A] ∧
      withCutSource.readSource "a.js" = .ok "c\ufffd\n\ufffd'\n" ∧
      ∃ analysis, FileOutcome.ofPath "." withCutSource.reader "a.js" = .analyzed analysis ∧
        analysis.loc = 3 := by
  -- The file is found as it stands, with its cut bytes.
  have found : withCutSource.read "a.js" = .ok [0x63, 0xE9, 0x0A, 0xE2, 0x82, 0x27, 0x0A] := rfl
  obtain ⟨text, _, _, _, _, analysis, outcome, lines, _⟩ := readSource_keeps_ascii found "."
  exact ⟨found, text, analysis, outcome, lines⟩

end Workspace

end Stocktake
