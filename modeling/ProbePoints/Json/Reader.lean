import ProbePoints.Json.Basic

/-!
# Reading JSON

Text becomes a value in two passes, and each pass is a fold. The first takes one character at a time and cuts the
text into tokens; the second takes one token at a time and keeps the arrays and objects that are still open.

Numbers may start with a plus sign or with zeros, and the digits on one side of the point may be missing. A number
written as an integer is one if it fits a signed word of 64 bits; any other number is the nearest double, so the
integers from `2 ^ 63` on are doubles too. A number beyond the largest double is refused, as there is no infinity among
the values. Of the members of an object that have the same key, the last one counts. Text that is not JSON is refused
as a whole: the reader says neither where nor why.
-/

namespace ProbePoints.Json

/-! ### Numbers -/

/-- The value of a list of decimal digits. -/
def digitsValue (digits : List Char) : Nat := digits.foldl (fun n c => 10 * n + (c.toNat - '0'.toNat)) 0

/-- Takes an optional part of a number that starts with one of the given characters. -/
def optionalPart {β : Type} (starts : List Char) (read : List Char → Option (β × List Char)) :
    List Char → Option (Option β × List Char)
  | [] => some (none, [])
  | c :: rest =>
    if starts.contains c then (read rest).map fun (part, rest) => (some part, rest)
    else some (none, c :: rest)

/-- Takes a run of digits, which may be empty. -/
def spanDigits (text : List Char) : List Char × List Char := text.span Char.isDigit

/-- Takes a non-empty run of digits. -/
def takeDigits (text : List Char) : Option (List Char × List Char) :=
  let (digits, rest) := spanDigits text
  if digits.isEmpty then none else some (digits, rest)

/-- Takes the digits of an exponent and their sign. -/
def takeExponent : List Char → Option (Int × List Char)
  | '-' :: rest => (takeDigits rest).map fun (digits, rest) => (-(digitsValue digits : Int), rest)
  | '+' :: rest => (takeDigits rest).map fun (digits, rest) => ((digitsValue digits : Int), rest)
  | text => (takeDigits text).map fun (digits, rest) => ((digitsValue digits : Int), rest)

/-- Reads the digits of a number after its sign. -/
def magnitude? (negative : Bool) (text : List Char) : Option Json := do
  let (whole, rest) := spanDigits text
  let (fraction, rest) ← optionalPart ['.'] (fun rest => some (spanDigits rest)) rest
  let decimals := fraction.getD []
  guard (whole ++ decimals ≠ [])
  let (exponent, rest) ← optionalPart ['e', 'E'] takeExponent rest
  guard rest.isEmpty
  let integer : Int := if negative then -(digitsValue whole : Int) else digitsValue whole
  if fraction.isNone ∧ exponent.isNone ∧ IsWord integer then
    return .int integer
  let digits := digitsValue (whole ++ decimals)
  return .real (← Binary64.ofDecimal? negative digits (exponent.getD 0 - decimals.length))

/-- Reads a number. -/
def number? : List Char → Option Json
  | '-' :: rest => magnitude? true rest
  | '+' :: rest => magnitude? false rest
  | text => magnitude? false text

/-! ### Tokens -/

/-- A token of JSON text. -/
inductive Token where
  | openArray | closeArray | openObject | closeObject | comma | colon
  | scalar (value : Json)

/-- The token of a punctuation mark. -/
def Token.ofMark? : Char → Option Token
  | '[' => some .openArray
  | ']' => some .closeArray
  | '\x7b' => some .openObject
  | '\x7d' => some .closeObject
  | ',' => some .comma
  | ':' => some .colon
  | _ => none

/-- The token of a word: a literal or a number. -/
def Token.ofWord? (word : List Char) : Option Token :=
  if word = "null".toList then some (.scalar .null)
  else if word = "true".toList then some (.scalar (.bool true))
  else if word = "false".toList then some (.scalar (.bool false))
  else (number? word).map .scalar

/-- The blanks between tokens. -/
def isBlank (c : Char) : Bool := c == ' ' || c == '\t' || c == '\n' || c == '\r'

/-- The value of a hexadecimal digit. -/
def hexDigit? (c : Char) : Option Nat :=
  if c.isDigit then some (c.toNat - '0'.toNat)
  else if 'a' ≤ c ∧ c ≤ 'f' then some (c.toNat - 'a'.toNat + 10)
  else if 'A' ≤ c ∧ c ≤ 'F' then some (c.toNat - 'A'.toNat + 10)
  else none

/-- The character of a one-letter escape. -/
def escaped? : Char → Option Char
  | '"' => some '"'
  | '\\' => some '\\'
  | '/' => some '/'
  | 'b' => some '\x08'
  | 'f' => some '\x0c'
  | 'n' => some '\n'
  | 'r' => some '\r'
  | 't' => some '\t'
  | _ => none

/-- What the character at hand belongs to. Strings are collected backwards as code units; a character that was written
plainly counts as one unit. -/
inductive Mode where
  | between
  | word (letters : List Char)
  | string (units : List Nat)
  | escape (units : List Nat)
  | unicode (units : List Nat) (value digits : Nat)

/-- Joins surrogate pairs, and puts the replacement character where a surrogate has no partner. -/
def joinUnits : List Nat → List Char
  | [] => []
  | high :: rest =>
    if 0xD800 ≤ high ∧ high < 0xDC00 then
      match rest with
      | low :: others =>
        if 0xDC00 ≤ low ∧ low < 0xE000 then
          Char.ofNat (0x10000 + (high - 0xD800) * 0x400 + (low - 0xDC00)) :: joinUnits others
        else '�' :: joinUnits (low :: others)
      | [] => ['�']
    else if 0xDC00 ≤ high ∧ high < 0xE000 then '�' :: joinUnits rest
    else Char.ofNat high :: joinUnits rest

/-- The state of the first pass: the mode, and the tokens found so far, last one first. -/
structure Lexer where
  mode : Mode
  tokens : List Token

namespace Lexer

/-- Ends the word at hand. -/
def endWord (letters : List Char) (tokens : List Token) : Option (List Token) :=
  (Token.ofWord? letters.reverse).map (· :: tokens)

/-- Takes a character that starts a new token or stands between tokens. -/
def start (tokens : List Token) (c : Char) : Lexer :=
  match Token.ofMark? c with
  | some token => ⟨.between, token :: tokens⟩
  | none =>
    if isBlank c then ⟨.between, tokens⟩
    else if c = '"' then ⟨.string [], tokens⟩
    else ⟨.word [c], tokens⟩

/-- Whether a character ends a word. -/
def isBoundary (c : Char) : Bool := isBlank c || c == '"' || (Token.ofMark? c).isSome

/-- Takes one character. -/
def step (lexer : Lexer) (c : Char) : Option Lexer :=
  match lexer.mode with
  | .between => some (start lexer.tokens c)
  | .word letters =>
    if isBoundary c then (endWord letters lexer.tokens).map (start · c)
    else some { lexer with mode := .word (c :: letters) }
  | .string units =>
    if c = '"' then
      some ⟨.between, .scalar (.str (String.ofList (joinUnits units.reverse))) :: lexer.tokens⟩
    else if c = '\\' then some { lexer with mode := .escape units }
    else if c.toNat < 32 then none
    else some { lexer with mode := .string (c.toNat :: units) }
  | .escape units =>
    if c = 'u' then some { lexer with mode := .unicode units 0 0 }
    else (escaped? c).map fun plain => { lexer with mode := .string (plain.toNat :: units) }
  | .unicode units value digits =>
    (hexDigit? c).map fun digit =>
      let value := 16 * value + digit
      if digits = 3 then { lexer with mode := .string (value :: units) }
      else { lexer with mode := .unicode units value (digits + 1) }

/-- The tokens at the end of the text. -/
def finish (lexer : Lexer) : Option (List Token) :=
  match lexer.mode with
  | .between => some lexer.tokens.reverse
  | .word letters => (endWord letters lexer.tokens).map List.reverse
  | _ => none

end Lexer

/-- Cuts text into tokens. -/
def tokens? (text : List Char) : Option (List Token) := do
  (← text.foldlM Lexer.step ⟨.between, []⟩).finish

/-! ### Values -/

/-- An array or object that is still open, its elements last one first. An object waits for the value of `key`. -/
inductive Open where
  | array (items : List Json)
  | object (members : Members) (key : String)

/-- What the token at hand may be. -/
inductive Expected where
  | value
  | itemOrClose
  | keyOrClose (members : Members)
  | key (members : Members)
  | colon (members : Members) (key : String)
  | commaOrClose (opened : Open) (value : Json)
  | nothing (value : Json)

/-- The state of the second pass: what is expected, and what is open, innermost first. -/
structure Builder where
  expected : Expected
  opened : List Open

namespace Builder

/-- Takes a finished value. -/
def complete (value : Json) : List Open → Builder
  | [] => ⟨.nothing value, []⟩
  | inner :: outer => ⟨.commaOrClose inner value, outer⟩

/-- Takes the first token of a value. -/
def begin (opened : List Open) : Token → Option Builder
  | .scalar value => some (complete value opened)
  | .openArray => some ⟨.itemOrClose, opened⟩
  | .openObject => some ⟨.keyOrClose [], opened⟩
  | _ => none

/-- Adds a member to those read before, last one first. It replaces the one with the same key. -/
def addMember (members : Members) (key : String) (value : Json) : Members :=
  (key, value) :: members.filter fun member => member.1 ≠ key

/-- Takes one token. -/
def step (builder : Builder) (token : Token) : Option Builder :=
  match builder.expected, token with
  | .value, token => begin builder.opened token
  | .itemOrClose, .closeArray => some (complete (.arr []) builder.opened)
  | .itemOrClose, token => begin (.array [] :: builder.opened) token
  | .keyOrClose _, .closeObject => some (complete (.obj []) builder.opened)
  | .keyOrClose members, .scalar (.str key) | .key members, .scalar (.str key) =>
    some ⟨.colon members key, builder.opened⟩
  | .colon members key, .colon => some ⟨.value, .object members key :: builder.opened⟩
  | .commaOrClose (.array items) value, .comma => some ⟨.value, .array (value :: items) :: builder.opened⟩
  | .commaOrClose (.array items) value, .closeArray =>
    some (complete (.arr (value :: items).reverse) builder.opened)
  | .commaOrClose (.object members key) value, .comma =>
    some ⟨.key (addMember members key value), builder.opened⟩
  | .commaOrClose (.object members key) value, .closeObject =>
    some (complete (.obj (addMember members key value).reverse) builder.opened)
  | _, _ => none

/-- The value at the end of the tokens. -/
def finish (builder : Builder) : Option Json :=
  match builder.expected with
  | .nothing value => some value
  | _ => none

end Builder

/-- Puts tokens together to a value. -/
def ofTokens? (tokens : List Token) : Option Json := do
  (← tokens.foldlM Builder.step ⟨.value, []⟩).finish

/-- Reads a JSON text. -/
def ofText? (text : String) : Option Json := do
  ofTokens? (← tokens? text.toList)

end ProbePoints.Json
