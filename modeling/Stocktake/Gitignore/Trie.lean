import Stocktake.Text.Utf8

/-! Words that share their beginnings, in the order in which they were added. -/

namespace Stocktake.Gitignore

/-- The ways on from the end of a beginning, those that were added last first. -/
inductive Trie
  | nowhere
  /-- A word ends here; words that go on behind it do not join those added before. -/
  | wordEnd (before : Trie)
  | arc (byte : UInt8) (below : Trie) (others : Trie)
  deriving Repr

namespace Trie

/-- No word goes on. -/
def isLeaf : Trie → Bool
  | nowhere => true
  | wordEnd before => before.isLeaf
  | arc .. => false

/-- Notes that a word ends; where no other goes on, once is enough. -/
def close : Trie → Trie
  | wordEnd nowhere => wordEnd nowhere
  | trie => wordEnd trie

/-- The ways on of a single word. -/
def ofWord (word : Bytes) : Trie :=
  word.foldr (fun byte below => arc byte below nowhere) (wordEnd nowhere)

/-- Adds a word. -/
def insert : Trie → Bytes → Trie
  | trie, [] => trie.close
  | arc other below others, byte :: word =>
    if other == byte then arc other (below.insert word) others
    else arc other below (others.insert (byte :: word))
  | trie, byte :: word => arc byte (ofWord word) trie

/-- Words in the order in which they are added. -/
def ofWords (words : List Bytes) : Trie :=
  words.foldl insert nowhere

end Trie

end Stocktake.Gitignore
