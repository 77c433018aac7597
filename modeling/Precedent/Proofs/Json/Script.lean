import Precedent.Json.Numeral

/-!
# Precedent.Proofs.Json.Script

**JSON texts as they are written.** A script is the tree of a JSON text with everything that is
written but the white space: how a number is spelled, which characters of a text are escaped, in
which order the members of an object stand and which names are repeated. Its lexemes, with white
space before, between and behind them, are the texts that are written from it
(`Script.IsWritten`). This is the grammar of JSON, said without a reader.

A script is sound if its texts are well-formed Unicode, its numbers are not too large for a double,
and its containers are not nested deeper than there is room for; only then does it have a value.
-/

namespace Precedent.Json

/-! ### Texts -/

/-- A hexadecimal digit; letters have two cases. -/
structure HexDigit where
  value : Fin 16
  isUpper : Bool

def HexDigit.char (d : HexDigit) : Char :=
  if d.isUpper then (Nat.digitChar d.value).toUpper else Nat.digitChar d.value

/-- A 16-bit unit in four hexadecimal digits. -/
structure HexUnit where
  first : HexDigit
  second : HexDigit
  third : HexDigit
  fourth : HexDigit

namespace HexUnit

def value (u : HexUnit) : Nat :=
  ((u.first.value * 16 + u.second.value) * 16 + u.third.value) * 16 + u.fourth.value

def chars (u : HexUnit) : List Char := [u.first.char, u.second.char, u.third.char, u.fourth.char]

/-- The first half of a surrogate pair. -/
def isHigh (u : HexUnit) : Bool := 0xD800 ≤ u.value && u.value ≤ 0xDBFF

/-- The second half of a surrogate pair. -/
def isLow (u : HexUnit) : Bool := 0xDC00 ≤ u.value && u.value ≤ 0xDFFF

/-- The character of a surrogate pair. -/
def pair (high low : HexUnit) : Char :=
  Char.ofNat (0x10000 + (high.value - 0xD800) * 0x400 + (low.value - 0xDC00))

end HexUnit

/-- An escape of one letter. -/
inductive Escape where
  | quote
  | backslash
  | slash
  | backspace
  | formFeed
  | lineFeed
  | carriageReturn
  | tab

namespace Escape

/-- The letter behind the backslash. -/
def letter : Escape → Char
  | quote => '"'
  | backslash => '\\'
  | slash => '/'
  | backspace => 'b'
  | formFeed => 'f'
  | lineFeed => 'n'
  | carriageReturn => 'r'
  | tab => 't'

/-- The character that is meant. -/
def char : Escape → Char
  | quote => '"'
  | backslash => '\\'
  | slash => '/'
  | backspace => '\x08'
  | formFeed => '\x0c'
  | lineFeed => '\n'
  | carriageReturn => '\r'
  | tab => '\t'

end Escape

/-- A piece of a text between its quotes. -/
inductive Piece where
  /-- A character that stands for itself: no control character, no quote and no backslash. -/
  | plain (c : Char) (h : 0x20 ≤ c.toNat ∧ c ≠ '"' ∧ c ≠ '\\')
  | short (e : Escape)
  | unit (u : HexUnit)

def Piece.chars : Piece → List Char
  | plain c _ => [c]
  | short e => ['\\', e.letter]
  | unit u => '\\' :: 'u' :: u.chars

/-- The characters that pieces mean, none if half of a surrogate pair stands alone. -/
def meaning? : List Piece → Option (List Char)
  | [] => some []
  | .plain c _ :: rest => (meaning? rest).map (c :: ·)
  | .short e :: rest => (meaning? rest).map (e.char :: ·)
  | .unit u :: rest =>
    if u.isHigh then
      match rest with
      | .unit u' :: rest => if u'.isLow then (meaning? rest).map (u.pair u' :: ·) else none
      | _ => none
    else if u.isLow then none
    else (meaning? rest).map (Char.ofNat u.value :: ·)

/-- The text that is meant. -/
def meaning (pieces : List Piece) : String := String.ofList ((meaning? pieces).getD [])

/-! ### Numbers -/

/-- One digit or more. -/
structure Digits where
  chars : List Char
  ne_nil : chars ≠ []
  isDigit : ∀ c ∈ chars, c.isDigit = true

/-- An exponent: its letter, its sign, if there is one, and its digits. -/
structure Exponent where
  isUpper : Bool
  isNegative : Option Bool
  digits : Digits

namespace Exponent

def chars (e : Exponent) : List Char :=
  (if e.isUpper then 'E' else 'e') ::
    match e.isNegative with
    | none => e.digits.chars
    | some isNegative => (if isNegative then '-' else '+') :: e.digits.chars

def value (e : Exponent) : Int :=
  let n : Int := Nat.ofDigitChars 10 e.digits.chars 0
  if e.isNegative = some true then -n else n

end Exponent

/-- A number. -/
structure Figure where
  isNegative : Bool
  whole : Digits
  /-- A zero in front is the only digit. -/
  no_needless_zero : whole.chars.head? = some '0' → whole.chars = ['0']
  fraction : Option Digits
  exponent : Option Exponent

namespace Figure

/-- A number without its sign. -/
def magnitude (n : Figure) : List Char :=
  n.whole.chars ++ (n.fraction.elim [] fun ds => '.' :: ds.chars) ++
    n.exponent.elim [] Exponent.chars

def chars (n : Figure) : List Char := if n.isNegative then '-' :: n.magnitude else n.magnitude

def numeral (n : Figure) : Numeral :=
  ⟨n.isNegative, n.whole.chars, n.fraction.map Digits.chars, n.exponent.map Exponent.value⟩

end Figure

/-! ### Lexemes -/

/-- What white space can stand around. -/
inductive Lexeme where
  | listOpen
  | listClose
  | objectOpen
  | objectClose
  | comma
  | colon
  | null
  | bool (b : Bool)
  | number (n : Figure)
  | text (pieces : List Piece)

def Lexeme.chars : Lexeme → List Char
  | listOpen => ['[']
  | listClose => [']']
  | objectOpen => ['{']
  | objectClose => ['}']
  | comma => [',']
  | colon => [':']
  | null => ['n', 'u', 'l', 'l']
  | bool true => ['t', 'r', 'u', 'e']
  | bool false => ['f', 'a', 'l', 's', 'e']
  | number n => n.chars
  | text pieces => '"' :: pieces.flatMap Piece.chars ++ ['"']

/-- The characters of white space. -/
def whiteSpace : List Char := [' ', '\n', '\t', '\r']

/-- A text has the given lexemes, with any amount of white space around them. -/
inductive SpacedOut : List Lexeme → List Char → Prop where
  | nil {blanks : List Char} (hblanks : blanks ⊆ whiteSpace) : SpacedOut [] blanks
  | cons {blanks cs : List Char} {l : Lexeme} {ls : List Lexeme} (hblanks : blanks ⊆ whiteSpace)
      (h : SpacedOut ls cs) : SpacedOut (l :: ls) (blanks ++ l.chars ++ cs)

/-- Every list of lexemes has a text. -/
theorem spacedOut_flatMap {blanks : List Char} (hblanks : blanks ⊆ whiteSpace)
    (ls : List Lexeme) : SpacedOut ls (ls.flatMap fun l => blanks ++ l.chars) := by
  induction ls with
  | nil => exact .nil (List.nil_subset _)
  | cons l ls ih =>
      rw [List.flatMap_cons]
      exact .cons hblanks ih

/-! ### Scripts -/

/-- A JSON text, but for its white space. -/
inductive Script where
  | null
  | bool (b : Bool)
  | number (n : Figure)
  | text (pieces : List Piece)
  | list (items : List Script)
  /-- The members with their names as they are written. -/
  | object (members : List (List Piece × Script))

namespace Script

mutual
/-- The lexemes of a script in their order. -/
def lexemes : Script → List Lexeme
  | .null => [.null]
  | .bool b => [.bool b]
  | .number n => [.number n]
  | .text pieces => [.text pieces]
  | .list [] => [.listOpen, .listClose]
  | .list (t :: rest) => .listOpen :: (lexemes t ++ (lexemesOfItems rest ++ [.listClose]))
  | .object [] => [.objectOpen, .objectClose]
  | .object ((name, t) :: rest) =>
    .objectOpen :: .text name :: .colon ::
      (lexemes t ++ (lexemesOfMembers rest ++ [.objectClose]))
/-- The lexemes of the items after the first one. -/
def lexemesOfItems : List Script → List Lexeme
  | [] => []
  | t :: rest => .comma :: (lexemes t ++ lexemesOfItems rest)
/-- The lexemes of the members after the first one. -/
def lexemesOfMembers : List (List Piece × Script) → List Lexeme
  | [] => []
  | (name, t) :: rest => .comma :: .text name :: .colon :: (lexemes t ++ lexemesOfMembers rest)
end

/-- A text is written from a script. -/
def IsWritten (t : Script) (text : String) : Prop := SpacedOut t.lexemes text.toList

mutual
/-- The value that a script has if it is sound. -/
def value : Script → Json
  | .null => .null
  | .bool b => .bool b
  | .number n => n.numeral.value?.getD .null
  | .text pieces => .text (meaning pieces)
  | .list items => .list (valuesOfItems items)
  | .object members => .object (valuesOfMembers members)
def valuesOfItems : List Script → List Json
  | [] => []
  | t :: rest => value t :: valuesOfItems rest
def valuesOfMembers : List (List Piece × Script) → List (String × Json)
  | [] => []
  | (name, t) :: rest => (meaning name, value t) :: valuesOfMembers rest
end

mutual
/-- Whether a script is sound, with room for the given number of containers inside each other. -/
def isSound (room : Nat) : Script → Bool
  | .null => true
  | .bool _ => true
  | .number n => n.numeral.value?.isSome
  | .text pieces => (meaning? pieces).isSome
  | .list items => 0 < room && areSound (room - 1) items
  | .object members => 0 < room && areSoundMembers (room - 1) members
def areSound (room : Nat) : List Script → Bool
  | [] => true
  | t :: rest => isSound room t && areSound room rest
def areSoundMembers (room : Nat) : List (List Piece × Script) → Bool
  | [] => true
  | (name, t) :: rest => (meaning? name).isSome && isSound room t && areSoundMembers room rest
end

@[simp] theorem isSound_list_succ (room : Nat) (items : List Script) :
    isSound (room + 1) (.list items) = areSound room items := by
  rw [isSound, decide_eq_true (Nat.succ_pos room), Bool.true_and, Nat.add_sub_cancel]

@[simp] theorem isSound_object_succ (room : Nat) (members : List (List Piece × Script)) :
    isSound (room + 1) (.object members) = areSoundMembers room members := by
  rw [isSound, decide_eq_true (Nat.succ_pos room), Bool.true_and, Nat.add_sub_cancel]

theorem valuesOfItems_eq_map (items : List Script) : valuesOfItems items = items.map value := by
  induction items with
  | nil => rfl
  | cons t rest ih => rw [valuesOfItems, ih, List.map_cons]

theorem valuesOfMembers_eq_map (members : List (List Piece × Script)) :
    valuesOfMembers members = members.map fun m => (meaning m.1, m.2.value) := by
  induction members with
  | nil => rfl
  | cons m rest ih => rw [valuesOfMembers, ih, List.map_cons]

theorem areSound_eq_all (room : Nat) (items : List Script) :
    areSound room items = items.all (isSound room) := by
  induction items with
  | nil => rfl
  | cons t rest ih => rw [areSound, ih, List.all_cons]

theorem areSoundMembers_eq_all (room : Nat) (members : List (List Piece × Script)) :
    areSoundMembers room members =
      members.all fun m => (meaning? m.1).isSome && m.2.isSound room := by
  induction members with
  | nil => rfl
  | cons m rest ih => rw [areSoundMembers, ih, List.all_cons]

end Script

end Precedent.Json
