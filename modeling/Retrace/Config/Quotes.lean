import Retrace.Text.Number

/-!
# Texts in configuration files

A text stands between quotes, single or double ones. Between three of them on either side it may
have several lines. Between double quotes a backslash starts an escape: a character by its letter
or its number, or, at the end of a line, nothing, up to the next character that shows.

`Quotes.read?` reads what is behind the quotes that start a text.
-/

namespace Retrace

/-- The quotes that a text stands between. -/
structure Quotes where
  mark : Char
  /-- Whether there are three of them on either side. -/
  isTriple : Bool
  deriving DecidableEq, Repr

namespace Quotes

/-- The quotes between which escapes have a meaning. -/
def escaping : Char := '"'

/-- The quotes between which all characters stand for themselves. -/
def plain : Char := '\x27'

/-! ## The end of a text -/

/-- Whether a character starts an escape. The character behind it, which is escaped, does not. -/
def startsEscape (mark : Char) (isEscaped : Bool) (c : Char) : Bool :=
  mark = escaping && c = '\\' && !isEscaped

/-- The characters before the quote that ends a text of one line, and those behind it. A quote
that is escaped does not end it. -/
def upToOne? (mark : Char) (isEscaped : Bool) : List Char → Option (List Char × List Char)
  | [] => none
  | c :: cs =>
    if c = mark ∧ !isEscaped then some ([], cs)
    else (upToOne? mark (startsEscape mark isEscaped c) cs).map fun (text, rest) =>
      (c :: text, rest)

/-- The characters before the three quotes that end a text, and those behind them. Up to two
quotes more are the end of the text itself. -/
def upToThree? (mark : Char) (isEscaped : Bool) : List Char → Option (List Char × List Char)
  | [] => none
  | c :: cs =>
    if c = mark ∧ cs.take 2 = [mark, mark] ∧ !isEscaped then
      let last := ((cs.drop 2).take 2).takeWhile (· = mark)
      some (last, (cs.drop 2).drop last.length)
    else (upToThree? mark (startsEscape mark isEscaped c) cs).map fun (text, rest) =>
      (c :: text, rest)

theorem length_of_upToOne? {mark : Char} {isEscaped : Bool} {cs text rest : List Char}
    (h : upToOne? mark isEscaped cs = some (text, rest)) : rest.length ≤ cs.length := by
  induction cs generalizing isEscaped text with
  | nil => simp [upToOne?] at h
  | cons c cs ih =>
    simp only [upToOne?] at h
    split at h
    · cases h
      exact Nat.le_succ _
    · obtain ⟨x, hx, he⟩ := Option.map_eq_some_iff.1 h
      cases he
      exact Nat.le_succ_of_le (ih hx)

theorem length_of_upToThree? {mark : Char} {isEscaped : Bool} {cs text rest : List Char}
    (h : upToThree? mark isEscaped cs = some (text, rest)) : rest.length ≤ cs.length := by
  induction cs generalizing isEscaped text with
  | nil => simp [upToThree?] at h
  | cons c cs ih =>
    simp only [upToThree?] at h
    split at h
    · cases h
      simp only [List.length_drop, List.length_cons]
      omega
    · obtain ⟨x, hx, he⟩ := Option.map_eq_some_iff.1 h
      cases he
      exact Nat.le_succ_of_le (ih hx)

/-! ## Characters and escapes -/

/-- Whether a character may stand in a text or a comment as it is: a tab, or none that controls. -/
def isTextChar (c : Char) : Bool :=
  c = '\t' || (' ' ≤ c && c ≠ '\x7f')

/-- Whether a character, in front of others, may stand between the quotes as it is. -/
def admits (q : Quotes) (c : Char) (cs : List Char) : Bool :=
  isTextChar c || (q.isTriple && (c = '\n' || (c = '\r' && cs.head? = some '\n')))

/-- Whether a character is a space or a tab. -/
def isSpace (c : Char) : Bool :=
  c = ' ' || c = '\t'

/-- The characters behind the end of a line that they start with. -/
def behindLineEnd? : List Char → Option (List Char)
  | '\n' :: cs => some cs
  | '\r' :: '\n' :: cs => some cs
  | _ => none

theorem length_of_behindLineEnd? {c : Char} {cs rest : List Char}
    (h : behindLineEnd? (c :: cs) = some rest) : rest.length ≤ cs.length := by
  unfold behindLineEnd? at h
  split at h
  · rename_i he
    cases he
    cases h
    exact Nat.le_refl _
  · rename_i he
    cases he
    cases h
    exact Nat.le_succ _
  · simp at h

/-- Whether nothing that shows is left of a line. -/
def lineEnds (cs : List Char) : Bool :=
  (behindLineEnd? (cs.dropWhile isSpace)).isSome

/-- The character that a letter behind a backslash stands for. -/
def letter? : Char → Option Char
  | '"' => some '"'
  | '\\' => some '\\'
  | 'b' => some '\x08'
  | 't' => some '\t'
  | 'n' => some '\n'
  | 'f' => some '\x0c'
  | 'r' => some '\r'
  | 'e' => some '\x1b'
  | _ => none

/-- The number of hexadecimal digits behind a letter that starts the number of a character. -/
def digitsBehind? : Char → Option Nat
  | 'x' => some 2
  | 'u' => some 4
  | 'U' => some 8
  | _ => none

/-- The character whose number has the given hexadecimal digits. -/
def ofHex? (digits : List Char) : Option Char :=
  (Text.digits? 16 digits).bind fun n => if n.isValidChar then some (Char.ofNat n) else none

/-- What an escape is read as, so far. -/
inductive Escape where
  /-- None has started. -/
  | none
  /-- A backslash has. -/
  | started
  /-- The digits of a number so far, in reverse, and how many are missing. -/
  | number (digits : List Char) (missing : Nat)
  /-- The end of a line is dropped, with all that does not show. -/
  | lineEnd

/-- The text that characters between quotes stand for, where escapes have a meaning. -/
def unescape? (q : Quotes) : Escape → List Char → Option (List Char)
  | .none, [] | .lineEnd, [] => some []
  | .started, [] | .number .., [] => none
  | .started, c :: cs =>
    match letter? c, digitsBehind? c with
    | some c, _ => (unescape? q .none cs).map (c :: ·)
    | none, some count => unescape? q (.number [] count) cs
    | none, none =>
      if q.isTriple && lineEnds (c :: cs) then unescape? q .lineEnd cs else none
  | .number digits missing, c :: cs =>
    if missing = 1 then do
      let char ← ofHex? (c :: digits).reverse
      return char :: (← unescape? q .none cs)
    else unescape? q (.number (c :: digits) (missing - 1)) cs
  | .lineEnd, c :: cs =>
    if isSpace c || (behindLineEnd? (c :: cs)).isSome then unescape? q .lineEnd cs
    else if c = '\\' then unescape? q .started cs
    else if q.admits c cs then (unescape? q .none cs).map (c :: ·)
    else none
  | .none, c :: cs =>
    if c = '\\' then unescape? q .started cs
    else if q.admits c cs then (unescape? q .none cs).map (c :: ·)
    else none

/-- The text that characters between quotes stand for, where all stand for themselves. -/
def verbatim? (q : Quotes) : List Char → Option (List Char)
  | [] => some []
  | c :: cs => if q.admits c cs then (verbatim? q cs).map (c :: ·) else none

/-! ## Texts -/

/-- The text that characters between quotes stand for. An empty first line does not count. -/
def textOf? (q : Quotes) (cs : List Char) : Option String :=
  let cs := if q.isTriple then (behindLineEnd? cs).getD cs else cs
  (if q.mark = escaping then unescape? q .none cs else verbatim? q cs).map String.ofList

/-- The characters between quotes, behind those that start the text, and those behind them. -/
def raw? (q : Quotes) (cs : List Char) : Option (List Char × List Char) :=
  if q.isTriple then upToThree? q.mark false cs else upToOne? q.mark false cs

/-- The text behind the quotes that start it, and what is behind the quotes that end it. -/
def read? (q : Quotes) (cs : List Char) : Option (String × List Char) :=
  (q.raw? cs).bind fun (raw, rest) => (q.textOf? raw).map (·, rest)

theorem length_of_read? {q : Quotes} {cs rest : List Char} {text : String}
    (h : q.read? cs = some (text, rest)) : rest.length ≤ cs.length := by
  obtain ⟨⟨raw, r⟩, hx, h⟩ := Option.bind_eq_some_iff.1 h
  obtain ⟨t, ht, h⟩ := Option.map_eq_some_iff.1 h
  cases h
  unfold raw? at hx
  split at hx
  · exact length_of_upToThree? hx
  · exact length_of_upToOne? hx

end Quotes

end Retrace
