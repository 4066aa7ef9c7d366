/-!
# Blank characters

The characters that count as white space in paths, patterns and conditions:
those with the Unicode property White_Space.  Trimming removes them, or any
other class of characters, from both ends of a text.
-/

namespace DocumentStore
namespace Text

/-- The 25 code points with the Unicode property White_Space. -/
def blankCodes : List Nat :=
  [0x9, 0xA, 0xB, 0xC, 0xD, 0x20, 0x85, 0xA0, 0x1680,
   0x2000, 0x2001, 0x2002, 0x2003, 0x2004, 0x2005, 0x2006, 0x2007,
   0x2008, 0x2009, 0x200A, 0x2028, 0x2029, 0x202F, 0x205F, 0x3000]

/-- A blank is a character with the Unicode property White_Space. -/
def isBlank (c : Char) : Bool :=
  blankCodes.contains c.toNat

/-- Remove the longest run of characters of a class from the end. -/
def trimEnd
    (drop : Char → Bool)
    (cs : List Char) :
    List Char :=
  (cs.reverse.dropWhile drop).reverse

/-- Remove the longest runs of characters of a class from both ends. -/
def trim
    (drop : Char → Bool)
    (cs : List Char) :
    List Char :=
  trimEnd drop (cs.dropWhile drop)

/-- Whether a string consists of blanks only, as the empty one does. -/
def blankOnly (s : String) : Bool :=
  s.toList.all isBlank

end Text
end DocumentStore
