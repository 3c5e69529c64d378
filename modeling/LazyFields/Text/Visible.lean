import LazyFields.Text.Utf8

/-!
# Visible text

A terminal takes control characters and the sequences that an escape begins as commands and not as
text.  What is shown of a text is the rest of it.
-/
namespace LazyFields.Text

/-- Where a text stands: outside commands, after an escape, in the middle of a short command, in a
command that a letter ends, in one that a bell ends, in front of the body of a device command,
among its settings, behind them, or in a command that goes on to its terminator. -/
inductive Command where
  | plain
  | escape
  | short
  | lettered
  | belled
  | device
  | settings
  | gap
  | long
deriving DecidableEq, Repr

def isSpacing (c : Char) : Bool := ['\t', '\n', '\x0C', '\r'].contains c

def isShown (c : Char) : Bool := (' ' ≤ c ∧ c ≠ '\x7F') ∨ isSpacing c

namespace Command

def next : Command → Char → Command
  | plain, _ => plain
  | escape, c =>
    if c = '[' then lettered
    else if c = ']' then belled
    else if c = 'P' then device
    else if ['X', '^', '_'].contains c then long
    else if c < '0' then short
    else plain
  | short, c => if c < '0' then short else plain
  | lettered, c => if c < '@' then lettered else plain
  | belled, _ => belled
  | device, c =>
    if c < '0' then gap else if c ≠ ':' ∧ c < '@' then settings else long
  | settings, c => if c < '0' then gap else if c ≤ '9' ∨ c = ';' then settings else long
  | gap, c => if c < '0' then gap else long
  | long, _ => long

/-- Reads an ASCII character that is not shown.  Cancelling ends every command, and an escape begins
a new one. -/
def step (command : Command) (c : Char) : Command :=
  if c = '\x18' ∨ c = '\x1A' then plain
  else if c = '\x1B' then escape
  else if command = belled ∧ c = '\x07' then plain
  else if c < ' ' ∨ c = '\x7F' then command
  else command.next c

def isPorous : Command → Bool
  | escape | short | lettered => true
  | _ => false

/-- A character of several bytes leaves a command as it is, unless one of the bytes is the
terminator. -/
def stepOver (command : Command) (c : Char) : Command :=
  if command = long ∧ (Utf8.encode [c]).data.contains 0x9C then plain else command

end Command

/-- What is shown of a text that goes on inside a command.  Once a character is shown, all others
up to the next control character are; one of several bytes among them ends the command. -/
def visibleFrom : Command → (showing : Bool) → Text → Text
  | _, _, [] => []
  | command, showing, c :: t =>
    let showing := showing || command == .plain
    if c.utf8Size = 1 then
      if showing && isShown c || command.isPorous && isSpacing c then
        c :: visibleFrom command true t
      else visibleFrom (command.step c) false t
    else if showing then c :: visibleFrom .plain true t
    else visibleFrom (command.stepOver c) false t

def visible (t : Text) : Text := visibleFrom .plain true t

/-- A text without control characters is shown as it is. -/
theorem visible_eq_self {t : Text} (h : ∀ c ∈ t, ' ' ≤ c ∧ c ≠ '\x7F') : visible t = t := by
  unfold visible
  induction t with
  | nil => rfl
  | cons c t ih =>
    have shown : isShown c = true := by simp [isShown, h c List.mem_cons_self]
    have rest := ih fun d hd => h d (List.mem_cons_of_mem _ hd)
    unfold visibleFrom
    split <;> simp [shown, rest]

end LazyFields.Text
