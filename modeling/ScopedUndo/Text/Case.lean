/-!
# Upper case into ASCII

`asciiUpper?` gives the full Unicode upper case of a character when that upper case is made of
ASCII letters only, and nothing otherwise. Comparing a text's upper case with an ASCII keyword
needs no more: a character whose upper case leaves ASCII can never match. Besides ASCII itself
ten characters qualify, the dotless i, the long s, the sharp s and seven Latin ligatures.
-/

namespace ScopedUndo.Text

def asciiUpper? (c : Char) : Option String :=
  if c.toNat < 128 then some (String.singleton c.toUpper)
  else match c.toNat with
    | 0x131 => some "I"
    | 0x17F => some "S"
    | 0xDF => some "SS"
    | 0xFB00 => some "FF"
    | 0xFB01 => some "FI"
    | 0xFB02 => some "FL"
    | 0xFB03 => some "FFI"
    | 0xFB04 => some "FFL"
    | 0xFB05 => some "ST"
    | 0xFB06 => some "ST"
    | _ => none

def asciiUpperText? (s : String) : Option String :=
  (s.toList.mapM asciiUpper?).map String.join

end ScopedUndo.Text
