import StepScript.Text

/-! Text for a terminal without styles. Control characters and control sequences are left out, and
what remains is shown as it stands. -/
namespace StepScript.Terminal

/-- What the next character belongs to. -/
inductive Mode where
  | text
  /-- The character after ESC. -/
  | escape
  /-- The end of an escape with intermediate characters. -/
  | intermediate
  /-- A control sequence, up to its final letter or sign. -/
  | control
  /-- A system command, up to BEL. -/
  | system
  /-- The head of a device string. -/
  | device
  | deviceParameter
  | deviceIntermediate
  /-- A string, up to the byte 9C. -/
  | string

/-- ESC starts a sequence and CAN and SUB end one, whatever came before. -/
def Mode.next (mode : Mode) (c : Char) : Mode :=
  let within (low high : Nat) : Bool := low ≤ c.toNat && c.toNat ≤ high
  if c == '\x1b' then .escape
  else if c == '\x18' || c == '\x1a' then .text
  else match mode with
    | .text => .text
    | .escape =>
      if c == '[' then .control
      else if c == ']' then .system
      else if c == 'P' then .device
      else if c == 'X' || c == '^' || c == '_' then .string
      else if within 0x20 0x2f then .intermediate
      else if within 0x30 0x7e then .text
      else .escape
    | .intermediate => if within 0x30 0x7e then .text else .intermediate
    | .control => if within 0x40 0x7e then .text else .control
    | .system => if c == '\x07' then .text else .system
    | .device =>
      if within 0x20 0x2f then .deviceIntermediate
      else if within 0x30 0x3f then .deviceParameter
      else if within 0x40 0x7e then .string
      else .device
    | .deviceParameter =>
      if within 0x20 0x2f then .deviceIntermediate
      else if within 0x3c 0x7e then .string
      else .deviceParameter
    | .deviceIntermediate => if within 0x30 0x7e then .string else .deviceIntermediate
    | .string => if (String.utf8EncodeChar c).contains 0x9c then .text else .string

/-- Tab, line feed, form feed, carriage return. -/
def isLayout (c : Char) : Bool :=
  c == '\t' || c == '\n' || c == '\x0c' || c == '\r'

/-- A space or a visible sign; every character beyond ASCII counts as one. -/
def isGraphic (c : Char) : Bool :=
  c == ' ' || ('!' ≤ c && c != '\x7f')

/-- The character is shown in this mode. Layout inside a sequence acts as it does in text, but for
the sequences that carry strings. -/
def Mode.shows : Mode → Char → Bool
  | .text, c => isGraphic c || isLayout c
  | .escape, c | .intermediate, c | .control, c => isLayout c
  | _, _ => false

/-- A sequence is suspended from layout inside it to the next control character. -/
structure State where
  mode : Mode
  suspended : Bool

def State.initial : State := ⟨.text, false⟩

/-- The state after a character, and whether it is shown. A character beyond ASCII ends a suspended
sequence. -/
def State.step (state : State) (c : Char) : State × Bool :=
  if state.suspended && (isGraphic c || isLayout c) then
    (if c.toNat < 0x80 then state else .initial, true)
  else if state.mode.shows c then (⟨state.mode, true⟩, true)
  else (⟨state.mode.next c, false⟩, false)

def State.visible (state : State) : Text → Text
  | [] => []
  | c :: t =>
    match state.step c with
    | (after, true) => c :: after.visible t
    | (after, false) => after.visible t

def plain (t : Text) : Text :=
  State.initial.visible t

end StepScript.Terminal
