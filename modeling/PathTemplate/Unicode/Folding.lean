import PathTemplate.Unicode.Classes

/-!
# Simple case folding

* `fold` — the simple folding of a character: one character, the same for all that differ in case
  only.
* `foldClass` — the characters with the same folding; `sameFold` — two characters of one class.

The tables hold the characters that folding moves: blocks that move as a whole, and runs in which
every second character folds to its successor.
-/

namespace PathTemplate.Unicode

/-- A block `LO-HI>TO`: `LO` folds to `TO`, the next one to the next one, and so on. -/
structure FoldBlock where
  lo : Nat
  hi : Nat
  target : Nat

def FoldBlock.read (word : Text) : FoldBlock :=
  match Text.fields '>' word with
  | [source, target] => ⟨(Ranges.interval source).1, (Ranges.interval source).2, Hex.number target⟩
  | _ => ⟨0, 0, 0⟩

/-- The blocks that move as a whole. -/
def foldBlocks : List FoldBlock := (Text.words foldBlockTable.toList).map FoldBlock.read
where
  foldBlockTable : String :=
    "41-5A>61 B5>3BC C0-D6>E0 D8-DE>F8 178>FF 17F>73 181>253 186>254 189-18A>256 18E>1DD 18F>259
     190>25B 193>260 194>263 196>269 197>268 19C>26F 19D>272 19F>275 1A6>280 1A9>283 1AE>288
     1B1-1B2>28A 1B7>292 1C4>1C6 1C7>1C9 1CA>1CC 1F1>1F3 1F6>195 1F7>1BF 220>19E 23A>2C65 23D>19A
     23E>2C66 243>180 244>289 245>28C 345>3B9 37F>3F3 386>3AC 388-38A>3AD 38C>3CC 38E-38F>3CD
     391-3A1>3B1 3A3-3AB>3C3 3CF>3D7 3D0>3B2 3D1>3B8 3D5>3C6 3D6>3C0 3F0>3BA 3F1>3C1 3F4>3B8 3F5>3B5
     3F9>3F2 3FD-3FF>37B 400-40F>450 410-42F>430 4C0>4CF 531-556>561 10A0-10C5>2D00 10C7>2D27
     10CD>2D2D 13F8-13FD>13F0 1C80>432 1C81>434 1C82>43E 1C83-1C84>441 1C85>442 1C86>44A 1C87>463
     1C88>A64B 1C90-1CBA>10D0 1CBD-1CBF>10FD 1E9B>1E61 1E9E>DF 1F08-1F0F>1F00 1F18-1F1D>1F10
     1F28-1F2F>1F20 1F38-1F3F>1F30 1F48-1F4D>1F40 1F59>1F51 1F5B>1F53 1F5D>1F55 1F5F>1F57
     1F68-1F6F>1F60 1F88-1F8F>1F80 1F98-1F9F>1F90 1FA8-1FAF>1FA0 1FB8-1FB9>1FB0 1FBA-1FBB>1F70
     1FBC>1FB3 1FBE>3B9 1FC8-1FCB>1F72 1FCC>1FC3 1FD8-1FD9>1FD0 1FDA-1FDB>1F76 1FE8-1FE9>1FE0
     1FEA-1FEB>1F7A 1FEC>1FE5 1FF8-1FF9>1F78 1FFA-1FFB>1F7C 1FFC>1FF3 2126>3C9 212A>6B 212B>E5
     2132>214E 2160-216F>2170 24B6-24CF>24D0 2C00-2C2F>2C30 2C62>26B 2C63>1D7D 2C64>27D 2C6D>251
     2C6E>271 2C6F>250 2C70>252 2C7E-2C7F>23F A77D>1D79 A78D>265 A7AA>266 A7AB>25C A7AC>261 A7AD>26C
     A7AE>26A A7B0>29E A7B1>287 A7B2>29D A7B3>AB53 A7C4>A794 A7C5>282 A7C6>1D8E A7CB>264 A7DC>19B
     AB70-ABBF>13A0 FF21-FF3A>FF41 10400-10427>10428 104B0-104D3>104D8 10570-1057A>10597
     1057C-1058A>105A3 1058C-10592>105B3 10594-10595>105BB 10C80-10CB2>10CC0 10D50-10D65>10D70
     118A0-118BF>118C0 16E40-16E5F>16E60 16EA0-16EB8>16EBB 1E900-1E921>1E922"

/-- The runs in which the first, third, fifth … code point folds to its successor. -/
def foldPairs : Ranges := Ranges.read
  "100-12E 132-136 139-147 14A-176 179-17D 182-184 187 18B 191 198 1A0-1A4 1A7 1AC 1AF 1B3-1B5 1B8
   1BC 1C5 1C8 1CB-1DB 1DE-1EE 1F2-1F4 1F8-21E 222-232 23B 241 246-24E 370-372 376 3C2 3D8-3EE 3F7
   3FA 460-480 48A-4BE 4C1-4CD 4D0-52E 1C89 1E00-1E94 1EA0-1EFE 2183 2C60 2C67-2C6B 2C72 2C75
   2C80-2CE2 2CEB-2CED 2CF2 A640-A66C A680-A69A A722-A72E A732-A76E A779-A77B A77E-A786 A78B
   A790-A792 A796-A7A8 A7B4-A7C2 A7C7-A7C9 A7CC-A7DA A7F5"

/-- Where folding moves the code point `n`. -/
def foldCode (n : Nat) : Nat :=
  match foldBlocks.find? fun b => b.lo ≤ n && n ≤ b.hi with
  | some b => b.target + (n - b.lo)
  | none =>
    if foldPairs.any fun (lo, hi) => lo ≤ n && n ≤ hi && (n - lo) % 2 = 0 then n + 1 else n

/-- The code points that folding moves to `n`. -/
def foldSources (n : Nat) : List Nat :=
  (foldBlocks.filterMap fun b =>
    if b.target ≤ n && n ≤ b.target + (b.hi - b.lo) then some (b.lo + (n - b.target)) else none) ++
  (foldPairs.filterMap fun (lo, hi) =>
    if lo < n && n ≤ hi + 1 && (n - lo) % 2 = 1 then some (n - 1) else none)

/-- The simple folding of a character. -/
def fold (c : Char) : Char :=
  if isAscii c then (if 'A' ≤ c ∧ c ≤ 'Z' then Char.ofNat (c.toNat + 32) else c)
  else Char.ofNat (foldCode c.toNat)

/-- The two characters differ in case at most. -/
def sameFold (a b : Char) : Bool := a = b || fold a = fold b

/-- The characters that differ from `c` in case at most, `c` among them. -/
def foldClass (c : Char) : List Char :=
  fold c :: (foldSources (fold c).toNat).map Char.ofNat

end PathTemplate.Unicode
