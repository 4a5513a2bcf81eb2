namespace Layering

/-- The characters with the Unicode property White_Space. -/
def isBlank (c : Char) : Bool :=
  let n := c.toNat
  (9 ≤ n && n ≤ 13) || n == 0x20 || n == 0x85 || n == 0xA0 || n == 0x1680 ||
    (0x2000 ≤ n && n ≤ 0x200A) || n == 0x2028 || n == 0x2029 || n == 0x202F || n == 0x205F || n == 0x3000

namespace CodePage

/-- What the bytes from 128 on stand for in code page 437. -/
def upperHalf : List Char :=
  ("ÇüéâäàåçêëèïîìÄÅÉæÆôöòûùÿÖÜ¢£¥₧ƒáíóúñÑªº¿⌐¬½¼¡«»░▒▓│┤╡╢╖╕╣║╗╝╜╛┐" ++
    "└┴┬├─┼╞╟╚╔╩╦╠═╬╧╨╤╥╙╘╒╓╫╪┘┌█▄▌▐▀αßΓπΣσµτΦΘΩδ∞φε∩≡±≥≤⌠⌡÷≈°∙·√ⁿ²■\u00a0").toList

def decode (byte : UInt8) : Char :=
  if byte < 128 then .ofNat byte.toNat else upperHalf[byte.toNat - 128]?.getD '\ufffd'

end CodePage

def codePageText (bytes : ByteArray) : String := .ofList (bytes.data.toList.map CodePage.decode)

namespace Lenient

/-- A character that was begun: its bits so far, how many more bytes it has, and what the next one must lie between. -/
structure Begun where
  bits : Nat
  rest : Nat
  least : Nat := 0x80
  most : Nat := 0xBF

def unknown : Char := '\ufffd'

def start (byte : Nat) : List Char × Option Begun :=
  if byte < 0x80 then ([.ofNat byte], none)
  else if byte < 0xC2 then ([unknown], none)
  else if byte < 0xE0 then ([], some { bits := byte - 0xC0, rest := 1 })
  else if byte = 0xE0 then ([], some { bits := 0, rest := 2, least := 0xA0 })
  else if byte = 0xED then ([], some { bits := 0xD, rest := 2, most := 0x9F })
  else if byte < 0xF0 then ([], some { bits := byte - 0xE0, rest := 2 })
  else if byte = 0xF0 then ([], some { bits := 0, rest := 3, least := 0x90 })
  else if byte < 0xF4 then ([], some { bits := byte - 0xF0, rest := 3 })
  else if byte = 0xF4 then ([], some { bits := 4, rest := 3, most := 0x8F })
  else ([unknown], none)

def follow (b : Begun) (byte : Nat) : List Char × Option Begun :=
  let bits := 64 * b.bits + (byte - 0x80)
  if byte < b.least ∨ b.most < byte then
    let (cs, b) := start byte
    (unknown :: cs, b)
  else if b.rest = 1 then ([.ofNat bits], none)
  else ([], some { bits, rest := b.rest - 1 })

def decode : Option Begun → List UInt8 → List Char
  | none, [] => []
  | some _, [] => [unknown]
  | b, byte :: bytes =>
    let (cs, b) := (b.elim start follow) byte.toNat
    cs ++ decode b bytes

end Lenient

/-- The text of bytes in UTF-8, in which U+FFFD stands for what is no character: for each longest run of bytes that a
character could begin with, and for each other byte. -/
def lenientText (bytes : ByteArray) : String := .ofList (Lenient.decode none bytes.data.toList)

end Layering
