import Retrace.Message.Basic

/-!
# Statistics

What happened in a session, in numbers.
-/

namespace Retrace

/-- How often keys were counted, in ascending order of the keys. -/
structure Tally (κ : Type) where
  counts : List (κ × Nat)
  deriving DecidableEq, Repr, Inhabited

namespace Tally

variable {κ : Type}

/-- Nothing was counted. -/
def empty : Tally κ := ⟨[]⟩

/-- Counts with one more for a key. -/
def bump [Ord κ] (key : κ) : List (κ × Nat) → List (κ × Nat)
  | [] => [(key, 1)]
  | (k, n) :: rest =>
    match compare key k with
    | .lt => (key, 1) :: (k, n) :: rest
    | .eq => (k, n + 1) :: rest
    | .gt => (k, n) :: bump key rest

/-- The tally with a key counted once more. -/
def add [Ord κ] (t : Tally κ) (key : κ) : Tally κ :=
  ⟨bump key t.counts⟩

/-- How often a key was counted. -/
def count [BEq κ] (t : Tally κ) (key : κ) : Nat :=
  (t.counts.lookup key).getD 0

/-- The sum of counts. -/
def sum : List (κ × Nat) → Nat
  | [] => 0
  | (_, n) :: rest => n + sum rest

/-- How often any key was counted. -/
def total (t : Tally κ) : Nat :=
  sum t.counts

theorem sum_bump [Ord κ] (key : κ) (counts : List (κ × Nat)) :
    sum (bump key counts) = sum counts + 1 := by
  fun_induction bump key counts with
  | case1 => rfl
  | case2 k n rest h => simp only [sum]; omega
  | case3 k n rest h => simp only [sum]; omega
  | case4 k n rest h ih => simp only [sum, ih]; omega

@[simp]
theorem total_add [Ord κ] (t : Tally κ) (key : κ) : (t.add key).total = t.total + 1 :=
  sum_bump key t.counts

end Tally

/-- What happened in a session. -/
structure Statistics where
  /-- The messages of each kind. -/
  messages : Tally MessageKind := .empty
  /-- The reconstructed instructions. -/
  executed : Nat := 0
  /-- The reconstructed instructions of each core. -/
  instructions : Tally UInt16 := .empty
  /-- The instructions of which the source is known. -/
  resolved : Nat := 0
  /-- The instructions of which it is not. -/
  unresolved : Nat := 0
  /-- The packets that could not be read. -/
  unreadable : Nat := 0
  /-- The packets of types that are not read. -/
  unsupported : Nat := 0
  /-- How often a core faulted. -/
  faults : Nat := 0
  printLines : Nat := 0
  /-- The first and the last timestamp. -/
  timestamps? : Option (UInt64 × UInt64) := none
  deriving DecidableEq, Repr, Inhabited

namespace Statistics

def addMessage (s : Statistics) (kind : MessageKind) : Statistics :=
  { s with messages := s.messages.add kind }

/-- Counts an instruction of a core, of which the source is known or not. -/
def addInstruction (s : Statistics) (core : UInt16) (isResolved : Bool) : Statistics :=
  { s with
    executed := s.executed + 1
    instructions := s.instructions.add core
    resolved := s.resolved + isResolved.toNat
    unresolved := s.unresolved + (!isResolved).toNat }

def addUnreadable (s : Statistics) : Statistics :=
  { s with unreadable := s.unreadable + 1 }

def addUnsupported (s : Statistics) : Statistics :=
  { s with unsupported := s.unsupported + 1 }

def addFaults (s : Statistics) (n : Nat) : Statistics :=
  { s with faults := s.faults + n }

def addPrintLines (s : Statistics) (n : Nat) : Statistics :=
  { s with printLines := s.printLines + n }

/-- Notes the timestamp of a message. -/
def addTimestamp (s : Statistics) (timestamp : UInt64) : Statistics :=
  { s with timestamps? := some ((s.timestamps?.map (·.1)).getD timestamp, timestamp) }

/-- The lines of the messages, by kind. Kinds without messages have none. -/
def messageLines (s : Statistics) : List String :=
  (MessageKind.all.filter (s.messages.count · ≠ 0)).map fun kind =>
    "  " ++ kind.text ++ ": " ++ toString (s.messages.count kind)

/-- The lines of the instructions, by core. -/
def instructionLines (s : Statistics) : List String :=
  s.instructions.counts.map fun (core, n) =>
    "  core " ++ toString core.toNat ++ ": " ++ toString n

/-- The line of the timestamps, if there are any. -/
def timestampLines (s : Statistics) : List String :=
  match s.timestamps? with
  | none => []
  | some (first, last) =>
    ["timestamps: " ++ toString first.toNat ++ ".." ++ toString last.toNat]

/-- The lines of the statistics. -/
def lines (s : Statistics) : List String :=
  ["messages:"] ++ s.messageLines ++
  ["instructions: " ++ toString s.executed ++ " (resolved: " ++ toString s.resolved ++
    ", correlation misses: " ++ toString s.unresolved ++ ")"] ++ s.instructionLines ++
  ["decode errors: " ++ toString s.unreadable, "unsupported messages: " ++ toString s.unsupported,
    "fault transitions: " ++ toString s.faults, "print lines: " ++ toString s.printLines] ++
  s.timestampLines

/-- The lines of the statistics, each with a newline at its end. -/
def text (s : Statistics) : String :=
  String.join (s.lines.map (· ++ "\n"))

end Statistics

end Retrace
