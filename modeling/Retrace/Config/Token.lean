import Retrace.Config.Quotes

/-!
# Tokens of configuration files

A configuration file is a sequence of marks, words, texts in quotes, gaps and ends of lines.
Gaps matter only where they keep things apart, and a comment is one of them.
-/

namespace Retrace

/-- A part of a configuration file. -/
inductive Token where
  /-- One of the marks `= { } [ ] , .`. -/
  | mark (c : Char)
  /-- Spaces and tabs, or a comment. -/
  | gap (cs : List Char)
  | lineEnd
  /-- A part of a key, or of a value without quotes. -/
  | word (cs : List Char)
  | text (s : String) (isTriple : Bool)
  deriving DecidableEq, Repr

namespace Token

/-- Whether a character is a mark. -/
def isMark (c : Char) : Bool :=
  ['=', ',', '.', '[', ']', '\x7b', '\x7d'].contains c

/-- Whether a character may be in a key that has no quotes. -/
def isKeyChar (c : Char) : Bool :=
  c.isAlphanum || c = '_' || c = '-'

/-- Whether a character may be in a word. -/
def isWordChar (c : Char) : Bool :=
  isKeyChar c || c = '+' || c = ':'

/-- The quotes that start with a given one, and what is behind them. -/
def quotes (mark : Char) (cs : List Char) : Quotes × List Char :=
  if cs.take 2 = [mark, mark] then (⟨mark, true⟩, cs.drop 2) else (⟨mark, false⟩, cs)

/-- A text, behind the first of its quotes, and what is behind it. -/
def text? (mark : Char) (cs : List Char) : Option (Token × List Char) :=
  let (q, inner) := quotes mark cs
  (q.read? inner).map fun (s, rest) => (text s q.isTriple, rest)

/-- The token that starts with a character in front of others, and what is behind it. -/
def next? (c : Char) (cs : List Char) : Option (Token × List Char) :=
  if isMark c then some (mark c, cs)
  else if Quotes.isSpace c then
    some (gap (c :: cs.takeWhile Quotes.isSpace), cs.dropWhile Quotes.isSpace)
  else if c = '#' then
    some (gap (c :: cs.takeWhile Quotes.isTextChar), cs.dropWhile Quotes.isTextChar)
  else if isWordChar c then
    some (word (c :: cs.takeWhile isWordChar), cs.dropWhile isWordChar)
  else if c = Quotes.escaping ∨ c = Quotes.plain then text? c cs
  else (Quotes.behindLineEnd? (c :: cs)).map fun rest => (lineEnd, rest)

theorem length_quotes (mark : Char) (cs : List Char) : (quotes mark cs).2.length ≤ cs.length := by
  unfold quotes
  split
  · simp only [List.length_drop]
    omega
  · exact Nat.le_refl _

theorem length_of_text? {mark : Char} {cs rest : List Char} {t : Token}
    (h : text? mark cs = some (t, rest)) : rest.length ≤ cs.length := by
  obtain ⟨⟨s, r⟩, hr, h⟩ := Option.map_eq_some_iff.1 h
  cases h
  exact Nat.le_trans (Quotes.length_of_read? hr) (length_quotes mark cs)

theorem length_of_next? {c : Char} {cs rest : List Char} {t : Token}
    (h : next? c cs = some (t, rest)) : rest.length ≤ cs.length := by
  unfold next? at h
  iterate 4
    split at h
    · cases h
      first | exact Nat.le_refl _ | exact (List.dropWhile_suffix _).length_le
  split at h
  · exact length_of_text? h
  · obtain ⟨r, hr, h⟩ := Option.map_eq_some_iff.1 h
    cases h
    exact Quotes.length_of_behindLineEnd? hr

/-- The tokens of a file. -/
def ofChars? : List Char → Option (List Token)
  | [] => some []
  | c :: cs =>
    match h : next? c cs with
    | none => none
    | some (t, rest) =>
      have : rest.length < (c :: cs).length := Nat.lt_succ_of_le (length_of_next? h)
      (ofChars? rest).map (t :: ·)
termination_by cs => cs.length
decreasing_by exact this

end Token

end Retrace
