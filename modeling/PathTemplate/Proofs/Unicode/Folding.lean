import PathTemplate.Expression.Quote
import PathTemplate.Expression.Subject
import Mathlib

/-!
# Characters that case folding leaves alone

* `Unicode.foldBlocks_isApart` — what the table of blocks says about ASCII;
* `Unicode.foldCode_ascii` — outside ASCII, folding gives no ASCII character but `s` and `k`;
* `Unicode.sameFold_iff_of_isCaseless` — an ASCII character that is not a letter has no other
  form, so that it is the same whether case counts or not; `Unicode.sameFold_iff_of_isSpecial` — so
  are those that mean something in an expression;
* `matchesChar_refl`, `matchesChar_symm`, `matchesChar_trans` — which characters match each other
  is an equivalence.
-/

namespace PathTemplate

namespace Unicode

/-- The block holds ASCII characters only, or folds to none of them but `s` and `k`. -/
def FoldBlock.isApart (b : FoldBlock) : Bool :=
  b.hi < 128 || 128 ≤ b.target || (b.lo = b.hi && (b.target = 0x73 || b.target = 0x6B))

set_option maxRecDepth 30000 in
theorem exists_foldBlockTable : ∃ t, foldBlocks.foldBlockTable = String.ofList t ∧
    ((Text.words t).map FoldBlock.read).all FoldBlock.isApart = true :=
  ⟨_, rfl, by decide +kernel⟩

theorem foldBlocks_isApart : foldBlocks.all FoldBlock.isApart = true := by
  obtain ⟨t, ht, h⟩ := exists_foldBlockTable
  rw [foldBlocks, ht, String.toList_ofList]
  exact h

/-- What blocks and pairs do to a code point: `foldCode` for any tables, which are not evaluated
here. -/
def foldCodeBy (blocks : List FoldBlock) (pairs : Ranges) (n : Nat) : Nat :=
  match blocks.find? fun b => b.lo ≤ n && n ≤ b.hi with
  | some b => b.target + (n - b.lo)
  | none => if pairs.any fun (lo, hi) => lo ≤ n && n ≤ hi && (n - lo) % 2 = 0 then n + 1 else n

theorem foldCodeBy_of_foldCode (P : (Nat → Nat) → Prop) (h : P foldCode) :
    P (foldCodeBy foldBlocks foldPairs) := by
  delta foldCode at h
  delta foldCodeBy
  revert h
  generalize foldBlocks = blocks
  generalize foldPairs = pairs
  as_aux_lemma => exact id

theorem foldCode_eq : foldCode = foldCodeBy foldBlocks foldPairs :=
  foldCodeBy_of_foldCode (foldCode = ·) rfl

theorem foldCodeBy_ascii {blocks : List FoldBlock} (pairs : Ranges)
    (hb : blocks.all FoldBlock.isApart = true) {n : Nat} (hn : 128 ≤ n) :
    128 ≤ foldCodeBy blocks pairs n ∨ foldCodeBy blocks pairs n = 0x73 ∨
    foldCodeBy blocks pairs n = 0x6B := by
  unfold foldCodeBy
  split
  · rename_i b hfind
    have hin := List.find?_some hfind
    have hall := List.all_eq_true.1 hb b (List.mem_of_find?_eq_some hfind)
    simp only [FoldBlock.isApart, Bool.and_eq_true, Bool.or_eq_true, decide_eq_true_eq] at hin hall
    omega
  · split <;> omega

/-- Outside ASCII, folding gives no ASCII character but `s` and `k`. -/
theorem foldCode_ascii {n : Nat} (hn : 128 ≤ n) :
    128 ≤ foldCode n ∨ foldCode n = 0x73 ∨ foldCode n = 0x6B := by
  have h := foldCodeBy_ascii foldPairs foldBlocks_isApart hn
  rwa [← foldCode_eq] at h

/-- An ASCII character that is not a letter. -/
def isCaseless (c : Char) : Bool :=
  c.toNat < 128 && c.toNat ≠ 0 && !(65 ≤ c.toNat && c.toNat ≤ 90) &&
  !(97 ≤ c.toNat && c.toNat ≤ 122)

theorem isCaseless_iff {c : Char} :
    isCaseless c = true ↔
    c.toNat < 128 ∧ c.toNat ≠ 0 ∧ ¬(65 ≤ c.toNat ∧ c.toNat ≤ 90) ∧
      ¬(97 ≤ c.toNat ∧ c.toNat ≤ 122) := by
  simp only [isCaseless, Bool.and_eq_true, Bool.not_eq_true', decide_eq_true_eq,
    Bool.and_eq_false_iff, decide_eq_false_iff_not, not_and_or, and_assoc]

theorem fold_of_isCaseless {c : Char} (hc : isCaseless c = true) : fold c = c := by
  obtain ⟨hascii, -, hupper, -⟩ := isCaseless_iff.1 hc
  have hascii' : isAscii c = true := by simpa [isAscii] using hascii
  have hupper' : ¬('A' ≤ c ∧ c ≤ 'Z') := hupper
  simp only [fold, hascii', hupper', if_true, if_false]

theorem eq_of_fold_eq {c d : Char} (hc : isCaseless c = true) (h : fold d = c) : d = c := by
  obtain ⟨h₁, h₂, -, h₃⟩ := isCaseless_iff.1 hc
  have hofNat : ∀ n, (Char.ofNat n).toNat = if n.isValidChar then n else 0 := by
    intro n
    unfold Char.ofNat
    split <;> rfl
  unfold fold at h
  split at h
  · rename_i hd
    split at h
    · rename_i hupper
      have hlo : 65 ≤ d.toNat := hupper.1
      have hhi : d.toNat ≤ 90 := hupper.2
      rw [← h, hofNat] at h₃
      split at h₃
      · omega
      · rename_i hvalid
        exact absurd (Or.inl (by omega)) hvalid
    · exact h
  · rename_i hd
    have hd' : 128 ≤ d.toNat := by simpa [isAscii] using hd
    have hcode := foldCode_ascii hd'
    rw [← h, hofNat] at h₁ h₂ h₃
    split at h₁
    · simp_all
      omega
    · simp_all

theorem sameFold_iff_of_isCaseless {c d : Char} (hc : isCaseless c = true) :
    sameFold c d = true ↔ c = d := by
  unfold sameFold
  rw [Bool.or_eq_true, decide_eq_true_eq, decide_eq_true_eq, fold_of_isCaseless hc]
  exact ⟨fun h => h.elim id fun h => (eq_of_fold_eq hc h.symm).symm, .inl⟩

open Expression (isSpecial)

theorem sameFold_iff_of_isSpecial {c d : Char} (hc : isSpecial c = true) :
    sameFold c d = true ↔ c = d := by
  have hspecial : ['\\', '.', '+', '*', '?', '(', ')', '|', '[', ']', '{', '}', '^', '$', '#', '&',
        '-', '~'].all isCaseless = true := by
    decide
  exact sameFold_iff_of_isCaseless (List.all_eq_true.1 hspecial c (List.contains_iff_mem.1 hc))

end Unicode

theorem matchesChar_refl (c : Char) (ignoreCase : Bool) : matchesChar c ignoreCase c = true := by
  cases ignoreCase <;> simp [matchesChar, Unicode.sameFold]

theorem matchesChar_symm {c d : Char} {ignoreCase : Bool} (h : matchesChar c ignoreCase d = true) :
    matchesChar d ignoreCase c = true := by
  cases ignoreCase with
  | false => simpa [matchesChar, eq_comm] using h
  | true =>
    simp only [matchesChar, Unicode.sameFold, if_true, Bool.or_eq_true, decide_eq_true_eq] at h ⊢
    exact h.imp Eq.symm Eq.symm

theorem matchesChar_trans {c d e : Char} {ignoreCase : Bool} (h : matchesChar c ignoreCase d = true)
    (h' : matchesChar d ignoreCase e = true) : matchesChar c ignoreCase e = true := by
  cases ignoreCase with
  | false => simp_all [matchesChar]
  | true =>
    have hfold : ∀ {c d : Char}, matchesChar c true d = true → Unicode.fold c = Unicode.fold d := by
      intro c d h
      simp only [matchesChar, Unicode.sameFold, if_true, Bool.or_eq_true, decide_eq_true_eq] at h
      exact h.elim (congrArg _) id
    simp [matchesChar, Unicode.sameFold, (hfold h).trans (hfold h')]

end PathTemplate
