import HdlPorts.Text.Hexadecimal

/-! Texts in quotes.

Between double quotes a backslash starts an escape; between single quotes every character stands for
itself. A text in tripled quotes may go over several lines. A newline right after its opening is
dropped, a line may end in a backslash to go on at the next character that is not blank, and the
closing may follow one or two quotes that are part of the text. A newline is one character, however
it is written.

Each function starts after the opening and gives the characters and what follows the closing.
-/

set_option autoImplicit false

namespace HdlPorts.Toml

def isBlank (char : Char) : Bool := char == ' ' || char == '\t'

def skipBlanks (chars : List Char) : List Char := chars.dropWhile isBlank

/-- What follows a newline. -/
def newline? : List Char → Option (List Char)
  | '\n' :: rest => some rest
  | '\r' :: '\n' :: rest => some rest
  | _ => none

/-- A character that may stand as it is: no control character, apart from the tab. -/
def isPlain (char : Char) : Bool := char == '\t' || (0x20 ≤ char.toNat && char.toNat != 0x7F)

/-- The character that a one-letter escape stands for. -/
def unescape? : Char → Option Char
  | '\x22' => some '\x22'
  | '\x5c' => some '\x5c'
  | 'b' => some '\x08'
  | 'f' => some '\x0c'
  | 'n' => some '\x0a'
  | 'r' => some '\x0d'
  | 't' => some '\x09'
  | _ => none

/-- The character whose number is written by some digits. -/
def numbered? (digits : List Char) : Option Char :=
  Hexadecimal.number? digits >>= Hexadecimal.char?

def basic? : List Char → Option (List Char × List Char)
  | [] => none
  | '\x22' :: rest => some ([], rest)
  | '\x5c' :: 'u' :: a :: b :: c :: d :: rest => do
    let char ← numbered? [a, b, c, d]
    let (chars, rest) ← basic? rest
    return (char :: chars, rest)
  | '\x5c' :: 'U' :: a :: b :: c :: d :: e :: f :: g :: h :: rest => do
    let char ← numbered? [a, b, c, d, e, f, g, h]
    let (chars, rest) ← basic? rest
    return (char :: chars, rest)
  | '\x5c' :: letter :: rest => do
    let char ← unescape? letter
    let (chars, rest) ← basic? rest
    return (char :: chars, rest)
  | char :: rest =>
    if isPlain char && char != '\x5c' then do
      let (chars, rest) ← basic? rest
      return (char :: chars, rest)
    else
      none

def literal? : List Char → Option (List Char × List Char)
  | [] => none
  | '\x27' :: rest => some ([], rest)
  | char :: rest =>
    if isPlain char then do
      let (chars, rest) ← literal? rest
      return (char :: chars, rest)
    else
      none

/-- What is being read of a text over several lines. -/
inductive Progress where
  /-- The text itself. -/
  | text
  /-- The end of a line, after a backslash. -/
  | lineEnd
  /-- Blanks and newlines after a line that ended in a backslash. -/
  | gap

/-- A text in tripled double quotes. -/
def basicLines? : Progress → List Char → Option (List Char × List Char)
  | _, [] => none
  | .lineEnd, '\n' :: rest => basicLines? .gap rest
  | .lineEnd, '\r' :: '\n' :: rest => basicLines? .gap rest
  | .lineEnd, char :: rest => if isBlank char then basicLines? .lineEnd rest else none
  | .gap, ' ' :: rest => basicLines? .gap rest
  | .gap, '\t' :: rest => basicLines? .gap rest
  | .gap, '\n' :: rest => basicLines? .gap rest
  | .gap, '\r' :: '\n' :: rest => basicLines? .gap rest
  | _, '\x22' :: '\x22' :: '\x22' :: '\x22' :: '\x22' :: rest => some (['\x22', '\x22'], rest)
  | _, '\x22' :: '\x22' :: '\x22' :: '\x22' :: rest => some (['\x22'], rest)
  | _, '\x22' :: '\x22' :: '\x22' :: rest => some ([], rest)
  | _, '\x5c' :: 'u' :: a :: b :: c :: d :: rest => do
    let char ← numbered? [a, b, c, d]
    let (chars, rest) ← basicLines? .text rest
    return (char :: chars, rest)
  | _, '\x5c' :: 'U' :: a :: b :: c :: d :: e :: f :: g :: h :: rest => do
    let char ← numbered? [a, b, c, d, e, f, g, h]
    let (chars, rest) ← basicLines? .text rest
    return (char :: chars, rest)
  | _, '\x5c' :: letter :: rest =>
    match unescape? letter with
    | some char => do
      let (chars, rest) ← basicLines? .text rest
      return (char :: chars, rest)
    | none => basicLines? .lineEnd (letter :: rest)
  | _, '\r' :: '\n' :: rest => do
    let (chars, rest) ← basicLines? .text rest
    return ('\n' :: chars, rest)
  | _, char :: rest =>
    if (isPlain char || char == '\n') && char != '\x5c' then do
      let (chars, rest) ← basicLines? .text rest
      return (char :: chars, rest)
    else
      none

/-- A text in tripled single quotes. -/
def literalLines? : List Char → Option (List Char × List Char)
  | [] => none
  | '\x27' :: '\x27' :: '\x27' :: '\x27' :: '\x27' :: rest => some (['\x27', '\x27'], rest)
  | '\x27' :: '\x27' :: '\x27' :: '\x27' :: rest => some (['\x27'], rest)
  | '\x27' :: '\x27' :: '\x27' :: rest => some ([], rest)
  | '\r' :: '\n' :: rest => do
    let (chars, rest) ← literalLines? rest
    return ('\n' :: chars, rest)
  | char :: rest =>
    if isPlain char || char == '\n' then do
      let (chars, rest) ← literalLines? rest
      return (char :: chars, rest)
    else
      none

/-- Without a newline right at the front. -/
def dropNewline (chars : List Char) : List Char := (newline? chars).getD chars

/-- A text, if there is one, from its opening on. -/
def text? : List Char → Option (String × List Char)
  | '\x22' :: '\x22' :: '\x22' :: rest => do
    let (chars, rest) ← basicLines? .text (dropNewline rest)
    return (String.ofList chars, rest)
  | '\x22' :: rest => do
    let (chars, rest) ← basic? rest
    return (String.ofList chars, rest)
  | '\x27' :: '\x27' :: '\x27' :: rest => do
    let (chars, rest) ← literalLines? (dropNewline rest)
    return (String.ofList chars, rest)
  | '\x27' :: rest => do
    let (chars, rest) ← literal? rest
    return (String.ofList chars, rest)
  | _ => none

end HdlPorts.Toml
