import PathTemplate.Unicode.Category

/-!
# Character classes

* `isAlphabetic`, `isAlphanumeric`, `isIdentifier` — the characters of names.
* `isDigit`, `isSpace`, `isWord` — the three shorthand classes of expressions.
* `isPlain` — the characters that a quoted text shows as themselves.

ASCII is decided without a table.
-/

namespace PathTemplate.Unicode

def isAsciiLetter (c : Char) : Bool := ('a' ≤ c && c ≤ 'z') || ('A' ≤ c && c ≤ 'Z')

def isAsciiDigit (c : Char) : Bool := '0' ≤ c && c ≤ '9'

/-- The code points below 128. -/
def isAscii (c : Char) : Bool := c.toNat < 128

/-- The alphabetic characters that are neither letters nor letter numbers. -/
def alphabeticMarks : Ranges := Ranges.read
  "345 363-36F 5B0-5BD 5BF 5C1-5C2 5C4-5C5 5C7 610-61A 64B-657 659-65F 670 6D6-6DC 6E1-6E4 6E7-6E8
   6ED 711 730-73F 7A6-7B0 816-817 81B-823 825-827 829-82C 897 8D4-8DF 8E3-8E9 8F0-903 93A-93B
   93E-94C 94E-94F 955-957 962-963 981-983 9BE-9C4 9C7-9C8 9CB-9CC 9D7 9E2-9E3 A01-A03 A3E-A42
   A47-A48 A4B-A4C A51 A70-A71 A75 A81-A83 ABE-AC5 AC7-AC9 ACB-ACC AE2-AE3 AFA-AFC B01-B03 B3E-B44
   B47-B48 B4B-B4C B56-B57 B62-B63 B82 BBE-BC2 BC6-BC8 BCA-BCC BD7 C00-C04 C3E-C44 C46-C48 C4A-C4C
   C55-C56 C62-C63 C81-C83 CBE-CC4 CC6-CC8 CCA-CCC CD5-CD6 CE2-CE3 CF3 D00-D03 D3E-D44 D46-D48
   D4A-D4C D57 D62-D63 D81-D83 DCF-DD4 DD6 DD8-DDF DF2-DF3 E31 E34-E3A E4D EB1 EB4-EB9 EBB-EBC ECD
   F71-F83 F8D-F97 F99-FBC 102B-1036 1038 103B-103E 1056-1059 105E-1060 1062-1064 1067-106D
   1071-1074 1082-108D 108F 109A-109D 1712-1713 1732-1733 1752-1753 1772-1773 17B6-17C8 1885-1886
   18A9 1920-192B 1930-1938 1A17-1A1B 1A55-1A5E 1A61-1A74 1ABF-1AC0 1ACC-1ACE 1B00-1B04 1B35-1B43
   1B80-1B82 1BA1-1BA9 1BAC-1BAD 1BE7-1BF1 1C24-1C36 1DD3-1DF4 24B6-24E9 2DE0-2DFF A674-A67B
   A69E-A69F A802 A80B A823-A827 A880-A881 A8B4-A8C3 A8C5 A8FF A926-A92A A947-A952 A980-A983
   A9B4-A9BF A9E5 AA29-AA36 AA43 AA4C-AA4D AA7B-AA7D AAB0 AAB2-AAB4 AAB7-AAB8 AABE AAEB-AAEF AAF5
   ABE3-ABEA FB1E 10376-1037A 10A01-10A03 10A05-10A06 10A0C-10A0F 10D24-10D27 10D69 10EAB-10EAC
   10EFA-10EFC 11000-11002 11038-11045 11073-11074 11080-11082 110B0-110B8 110C2 11100-11102
   11127-11132 11145-11146 11180-11182 111B3-111BF 111CE-111CF 1122C-11234 11237 1123E 11241
   112DF-112E8 11300-11303 1133E-11344 11347-11348 1134B-1134C 11357 11362-11363 113B8-113C0 113C2
   113C5 113C7-113CA 113CC-113CD 11435-11441 11443-11445 114B0-114C1 115AF-115B5 115B8-115BE
   115DC-115DD 11630-1163E 11640 116AB-116B5 1171D-1172A 1182C-11838 11930-11935 11937-11938
   1193B-1193C 11940 11942 119D1-119D7 119DA-119DF 119E4 11A01-11A0A 11A35-11A39 11A3B-11A3E
   11A51-11A5B 11A8A-11A97 11B60-11B67 11C2F-11C36 11C38-11C3E 11C92-11CA7 11CA9-11CB6 11D31-11D36
   11D3A 11D3C-11D3D 11D3F-11D41 11D43 11D47 11D8A-11D8E 11D90-11D91 11D93-11D96 11EF3-11EF6
   11F00-11F01 11F03 11F34-11F3A 11F3E-11F40 1611E-1612E 16F4F 16F51-16F87 16F8F-16F92 16FF0-16FF1
   1BC9E 1E000-1E006 1E008-1E018 1E01B-1E021 1E023-1E024 1E026-1E02A 1E08F 1E6E3 1E6E6 1E6EE-1E6EF
   1E6F5 1E947 1F130-1F149 1F150-1F169 1F170-1F189"

/-- The characters that extend a grapheme and are neither nonspacing nor enclosing marks. -/
def extendingOthers : Ranges := Ranges.read
  "9BE 9D7 B3E B57 BBE BD7 CC0 CC2 CC7-CC8 CCA-CCB CD5-CD6 D3E D57 DCF DDF 1715 1734 1B35 1B3B 1B3D
   1B43-1B44 1BAA 1BF2-1BF3 200C 302E-302F A953 A9C0 FF9E-FF9F 111C0 11235 1133E 1134D 11357 113B8
   113C2 113C5 113C7-113C9 113CF 114B0 114BD 115AF 116B6 11930 1193D 11F41 16FF0-16FF1 1D165-1D166
   1D16D-1D172 E0020-E007F"

/-- The uppercase characters that are no uppercase letters. -/
def uppercaseOthers : Ranges := Ranges.read
  "2160-216F 24B6-24CF 1F130-1F149 1F150-1F169 1F170-1F189"

/-- The lowercase characters that are no lowercase letters. -/
def lowercaseOthers : Ranges := Ranges.read
  "AA BA 2B0-2B8 2C0-2C1 2E0-2E4 345 37A 10FC 1D2C-1D6A 1D78 1D9B-1DBF 2071 207F 2090-209C 2170-217F
   24D0-24E9 2C7C-2C7D A69C-A69D A770 A7F1-A7F4 A7F8-A7F9 AB5C-AB5F AB69 10780 10783-10785
   10787-107B0 107B2-107BA 1E030-1E06D"

def spaces : Ranges := Ranges.read
  "9-D 20 85 A0 1680 2000-200A 2028-2029 202F 205F 3000"

def inCategories (gs : List Category) (c : Char) : Bool := gs.any fun g => g.ranges.has c.toNat

def isAlphabetic (c : Char) : Bool :=
  if isAscii c then isAsciiLetter c
  else inCategories [.lu, .ll, .lt, .lm, .lo, .nl] c || alphabeticMarks.has c.toNat

def isUppercase (c : Char) : Bool :=
  inCategories [.lu] c || uppercaseOthers.has c.toNat

def isLowercase (c : Char) : Bool :=
  inCategories [.ll] c || lowercaseOthers.has c.toNat

/-- The alphabetic characters and the numbers. -/
def isAlphanumeric (c : Char) : Bool :=
  if isAscii c then isAsciiLetter c || isAsciiDigit c
  else isAlphabetic c || inCategories [.nd, .nl, .no] c

/-- The characters of a plain name: alphanumeric ones and the low line. -/
def isIdentifier (c : Char) : Bool := isAlphanumeric c || c = '_'

def isDigit (c : Char) : Bool := if isAscii c then isAsciiDigit c else inCategories [.nd] c

def isSpace (c : Char) : Bool :=
  if isAscii c then c = ' ' || (9 ≤ c.toNat && c.toNat ≤ 13) else spaces.has c.toNat

/-- The characters of words: alphabetic ones, marks, decimal digits, connectors and joiners. -/
def isWord (c : Char) : Bool :=
  if isAscii c then isAsciiLetter c || isAsciiDigit c || c = '_'
  else isAlphabetic c || inCategories [.mn, .mc, .me, .nd, .pc] c || c.toNat = 0x200C ||
    c.toNat = 0x200D

/-- The characters that extend the grapheme before them. -/
def extendsGrapheme (c : Char) : Bool := inCategories [.mn, .me] c || extendingOthers.has c.toNat

/-- The characters that a quoted text shows as themselves: all but controls, format and private-use
characters, unassigned code points, separators other than the blank, and extenders of graphemes. -/
def isPlain (c : Char) : Bool :=
  if isAscii c then 32 ≤ c.toNat && c.toNat ≤ 126
  else !([Category.cc, .cf, .co, .cn, .zs, .zl, .zp].contains (Category.of c) || extendsGrapheme c)

end PathTemplate.Unicode
