import AccountPool.Text.Integer

/-!
# Percent escapes

In an escaped text a percent sign and two hexadecimal digits stand for a byte; every other character
stands for its UTF-8 bytes, and so does a percent sign that two digits do not follow. An escaped zero
ends the text.
-/

namespace AccountPool.Text

/-- The bytes that an escaped text denotes, up to the first escaped zero. -/
def unescapedBytes : List Char → List UInt8
  | '%' :: high :: low :: rest =>
      match hexValue? high, hexValue? low with
      | some high, some low =>
          if 16 * high + low = 0 then []
          else UInt8.ofNat (16 * high + low) :: unescapedBytes rest
      | _, _ => String.utf8EncodeChar '%' ++ unescapedBytes (high :: low :: rest)
  | c :: rest => String.utf8EncodeChar c ++ unescapedBytes rest
  | [] => []

/-- The character that shows a byte of a text that is not UTF-8; bytes above ASCII have private
characters. -/
def byteChar (byte : UInt8) : Char :=
  if byte < 128 then Char.ofNat byte.toNat else Char.ofNat (0x10FF00 + byte.toNat)

/-- The text of bytes: their UTF-8 reading, or a character for each byte if they have none. -/
def ofBytes (bytes : List UInt8) : String :=
  (String.fromUTF8? ⟨bytes.toArray⟩).getD (String.ofList (bytes.map byteChar))

/-- The text that an escaped text denotes. -/
def unescaped (text : List Char) : String :=
  ofBytes (unescapedBytes text)

end AccountPool.Text
