/-
Texts between double quotes.

What JSON writes between quotes is read as the same text in YAML: both know the escapes that are
used, and spaces stay as they are where no line ends.  Only the two halves of a pair of code units
would be read by themselves.
-/
import ApiClientGen.Proofs.Json.QuotedTexts
import ApiClientGen.Proofs.Yaml.TokenFaults

namespace ApiClientGen.Yaml

open ApiClientGen.Json ApiClientGen.Number

namespace Cursor

theorem advanceBy_add (c : Cursor) (m n : Nat) : (c.advanceBy m).advanceBy n = c.advanceBy (m + n) := by
  induction m generalizing c with
  | zero => rw [Nat.zero_add]; rfl
  | succ m ih => rw [Nat.succ_add]; exact ih c.advance

/-- No line ends at a printable character. -/
theorem lineBreak_of_not_isBreak {c : Cursor} {first : Char} {rest : List Char}
    (hc : c.rest = first :: rest) (hfirst : isBreak first = false) : c.lineBreak = ([], c) := by
  have hne : ∀ d, isBreak d = true → first ≠ d := fun d hd => (ne_of_test hd hfirst).symm
  unfold Cursor.lineBreak
  rw [hc]
  split
  · rename_i heq
    cases heq
    exact absurd rfl (hne '\r' rfl)
  · rename_i heq
    cases heq
    rw [if_neg (by simp [hne '\u2028' rfl, hne '\u2029' rfl]), hfirst]
    rfl
  · rfl

end Cursor

/-- The letter of a short escape stands for the character in YAML, too. -/
theorem shortEscape?_of_escapeLetter? {c letter : Char} (h : escapeLetter? c = some letter) :
    shortEscape? letter = some c := by
  unfold escapeLetter? at h
  split at h <;> cases h <;> rfl

/-- The character of a code unit is read back. -/
theorem charOfCode_toNat {c : Char} (hc : c.toNat < 0x10000) : charOfCode c.toNat = .ok c := by
  unfold charOfCode
  rw [if_neg (by omega), if_neg (by omega), if_neg (isCharCode c), Char.ofNat_toNat]

theorem quotedEscape_letter {c : Cursor} {ch letter : Char} {rest : List Char}
    (hletter : escapeLetter? ch = some letter) (hc : c.rest = letter :: rest) :
    quotedEscape c = .ok ([ch], c.advanceBy 1) := by
  unfold quotedEscape
  simp only [hc, Cursor.peek, List.headD_cons, shortEscape?_of_escapeLetter? hletter]
  rfl

theorem codeEscape_unit {c : Cursor} {ch : Char} (hch : ch.toNat < 0x10000) {rest : List Char}
    (hc : '\\' :: 'u' :: c.rest = unitEscape ch.toNat ++ rest) : codeEscape 4 c = .ok ch := by
  have hrest := (List.cons.inj (List.cons.inj hc).2).2
  have hdigit := fun n : Nat => digitValue?_digitChar (Nat.mod_lt n (by decide : 16 > 0))
  have htake : c.rest.take 4 = [Nat.digitChar (ch.toNat / 4096 % 16),
      Nat.digitChar (ch.toNat / 256 % 16), Nat.digitChar (ch.toNat / 16 % 16),
      Nat.digitChar (ch.toNat % 16)] := by rw [hrest]; rfl
  have hcode : ofDigits 16 ((c.rest.take 4).filterMap digitValue?) = ch.toNat := by
    rw [htake]
    simp only [List.filterMap_cons, (hdigit _).1, List.filterMap_nil]
    exact ofDigits_nibbles hch
  unfold codeEscape
  dsimp only
  rw [if_pos, hcode, charOfCode_toNat hch]
  rw [htake]
  exact ⟨rfl, by simp [(hdigit _).2]⟩

theorem quotedEscape_unit {c : Cursor} {ch : Char} (hch : ch.toNat < 0x10000) {rest : List Char}
    (hc : '\\' :: c.rest = unitEscape ch.toNat ++ rest) :
    quotedEscape c = .ok ([ch], c.advanceBy 5) := by
  obtain ⟨more, hu⟩ : ∃ more, c.rest = 'u' :: more := ⟨_, (List.cons.inj hc).2⟩
  have hdigits : '\\' :: 'u' :: c.advance.rest = unitEscape ch.toNat ++ rest := by
    rw [Cursor.advance_rest, hu, List.tail_cons, ← hu]
    exact hc
  have hcode := codeEscape_unit hch hdigits
  unfold quotedEscape
  simp only [hu, Cursor.peek, List.headD_cons]
  show (codeEscape 4 c.advance >>= fun e => pure ([e], c.advance.advanceBy 4)) = _
  rw [hcode]
  rfl

/-- What a character is written as begins with a printable one, and with a space only for a space. -/
theorem exists_escaped {c : Char} (hc : c.toNat < 0x10000) :
    ∃ first rest, escaped c = first :: rest ∧ IsPrintable first ∧ (first = ' ' → c = ' ') := by
  rcases escaped_cases hc with ⟨letter, -, heq⟩ | ⟨heq, hprintable, -⟩ | heq
  · exact ⟨_, _, heq, by decide, fun h => absurd h (by decide)⟩
  · exact ⟨_, _, heq, hprintable, id⟩
  · exact ⟨_, _, heq, by decide, fun h => absurd h (by decide)⟩

/-- Printable characters but the space neither end a line nor a word. -/
theorem isBlankOrEnd_of_isPrintable {c : Char} (hc : IsPrintable c) (hspace : c ≠ ' ') :
    isBlankOrEnd c = false :=
  of_ascii (P := fun c => IsPrintable c → c ≠ ' ' → isBlankOrEnd c = false) (by decide)
    (Nat.lt_trans hc.2 (by decide)) hc hspace

theorem not_isBreak_of_isBlankOrEnd {c : Char} (h : isBlankOrEnd c = false) : isBreak c = false := by
  simp only [isBlankOrEnd, isBreakOrEnd, Bool.or_eq_false_iff] at h
  exact h.2.2

/-- Spaces between quotes count as they are where another character follows on the line. -/
theorem quotedSpaces_spaces {c : Cursor} (n : Nat) {first : Char} {rest : List Char}
    (hc : c.rest = List.replicate n ' ' ++ first :: rest) (hfirst : isBlankOrEnd first = false) :
    quotedSpaces c = .ok (List.replicate n ' ', c.advanceBy n) := by
  have hblank : (first == ' ' || first == '\t') = false := by
    simp only [isBlankOrEnd, Bool.or_eq_false_iff] at hfirst ⊢
    exact hfirst.1
  have htake : c.rest.takeWhile (fun ch => ch == ' ' || ch == '\t') = List.replicate n ' ' := by
    rw [hc, List.takeWhile_append_of_pos fun d hd => by simp [List.eq_of_mem_replicate hd]]
    simp [hblank]
  have hrest : (c.advanceBy n).rest = first :: rest := by
    rw [Cursor.advanceBy_rest, hc, List.drop_left' (List.length_replicate ..)]
  unfold quotedSpaces Cursor.takeWhile
  dsimp only
  rw [htake, List.length_replicate, hrest,
    Cursor.lineBreak_of_not_isBreak hrest (not_isBreak_of_isBlankOrEnd hfirst)]
  rfl

theorem exists_spaces (s : List Char) :
    ∃ n s', s = List.replicate n ' ' ++ s' ∧ s'.head? ≠ some ' ' := by
  induction s with
  | nil => exact ⟨0, [], rfl, by simp⟩
  | cons c s ih =>
      by_cases hc : c = ' '
      · obtain ⟨n, s', heq, hhead⟩ := ih
        exact ⟨n + 1, s', by rw [hc, heq, List.replicate_succ, List.cons_append], hhead⟩
      · exact ⟨0, c :: s, rfl, by simp [hc]⟩

theorem flatMap_escaped_spaces (n : Nat) :
    (List.replicate n ' ').flatMap escaped = List.replicate n ' ' := by
  induction n with
  | zero => rfl
  | succ n ih =>
      rw [List.replicate_succ, List.flatMap_cons, ih]
      rfl

/-- Behind spaces, what is written goes on with a character that is none. -/
theorem exists_next {s : List Char} (hs : ∀ c ∈ s, c.toNat < 0x10000) (hhead : s.head? ≠ some ' ')
    (rest : List Char) :
    ∃ first more, s.flatMap escaped ++ '"' :: rest = first :: more
      ∧ isBlankOrEnd first = false := by
  cases s with
  | nil => exact ⟨'"', rest, rfl, by decide⟩
  | cons c s =>
      obtain ⟨first, more, heq, hprintable, hspace⟩ := exists_escaped (hs c (by simp))
      refine ⟨first, more ++ (s.flatMap escaped ++ '"' :: rest), by simp [heq],
        isBlankOrEnd_of_isPrintable hprintable fun h => ?_⟩
      exact hhead (congrArg some (hspace h))

theorem quotedText_close {c : Cursor} {rest : List Char} (hc : c.rest = '"' :: rest) (fuel : Nat)
    (done : List Char) : quotedText true (fuel + 1) done c = .ok (done.reverse, c.advanceBy 1) := by
  rw [quotedText, hc]
  rfl

theorem quotedText_escape {c : Cursor} {rest : List Char} (hc : c.rest = '\\' :: rest) (fuel : Nat)
    (done : List Char) {part : List Char} {next : Cursor}
    (hpart : quotedEscape (c.advanceBy 1) = .ok (part, next)) :
    quotedText true (fuel + 1) done c = quotedText true fuel (part.reverse ++ done) next := by
  rw [quotedText, hc]
  show (quotedEscape (c.advanceBy 1) >>= fun r => quotedText true fuel (r.1.reverse ++ done) r.2) = _
  rw [hpart]
  rfl

theorem quotedText_space {c : Cursor} {rest : List Char} (hc : c.rest = ' ' :: rest) (fuel : Nat)
    (done : List Char) {part : List Char} {next : Cursor} (hpart : quotedSpaces c = .ok (part, next)) :
    quotedText true (fuel + 1) done c = quotedText true fuel (part.reverse ++ done) next := by
  rw [quotedText, hc]
  show (quotedSpaces c >>= fun r => quotedText true fuel (r.1.reverse ++ done) r.2) = _
  rw [hpart]
  rfl

theorem quotedText_plain {c : Cursor} {ch : Char} {rest : List Char} (hc : c.rest = ch :: rest)
    (hquote : ch ≠ '"') (hback : ch ≠ '\\') (hblank : isBlankOrEnd ch = false) (fuel : Nat)
    (done : List Char) :
    quotedText true (fuel + 1) done c = quotedText true fuel (ch :: done) (c.advanceBy 1) := by
  rw [quotedText, hc]
  simp [hquote, hback, hblank]
  rfl

/-- A character other than the space is read as it was written. -/
theorem quotedText_char {c : Cursor} {ch : Char} (hch : ch.toNat < 0x10000) (hspace : ch ≠ ' ')
    {rest : List Char} (hc : c.rest = escaped ch ++ rest) (fuel : Nat) (done : List Char) :
    quotedText true (fuel + 1) done c
      = quotedText true fuel (ch :: done) (c.advanceBy (escaped ch).length) := by
  rcases escaped_cases hch with ⟨letter, hletter, heq⟩ | ⟨heq, hprintable, hquote, hback⟩ | heq
  · rw [heq] at hc ⊢
    have hpart := quotedEscape_letter (c := c.advanceBy 1) hletter
      (by rw [Cursor.advanceBy_rest, hc]; rfl)
    rw [quotedText_escape hc fuel done hpart, Cursor.advanceBy_add]
    rfl
  · rw [heq] at hc ⊢
    exact quotedText_plain hc hquote hback (isBlankOrEnd_of_isPrintable hprintable hspace) fuel done
  · rw [heq] at hc ⊢
    have hunit : '\\' :: (c.advanceBy 1).rest = unitEscape ch.toNat ++ rest := by
      rw [Cursor.advanceBy_rest, hc]
      rfl
    rw [quotedText_escape hc fuel done (quotedEscape_unit hch hunit), Cursor.advanceBy_add]
    rfl

/-- **A text between quotes** is read as it was written. -/
theorem quotedText_escaped (s : List Char) (hs : ∀ c ∈ s, c.toNat < 0x10000) {fuel : Nat}
    {done rest : List Char} {c : Cursor} (hc : c.rest = s.flatMap escaped ++ '"' :: rest)
    (hfuel : (s.flatMap escaped).length < fuel) :
    quotedText true fuel done c
      = .ok (done.reverse ++ s, c.advanceBy ((s.flatMap escaped).length + 1)) := by
  obtain ⟨fuel, rfl⟩ := Nat.exists_eq_add_one_of_ne_zero (Nat.ne_zero_of_lt hfuel)
  cases s with
  | nil => rw [quotedText_close hc]; simp
  | cons ch s =>
      by_cases hspace : ch = ' '
      · -- All spaces that stand here are taken at once.
        obtain ⟨n, s', heq, hhead⟩ := exists_spaces (ch :: s)
        obtain ⟨m, rfl⟩ : ∃ m, n = m + 1 := by
          refine Nat.exists_eq_add_one_of_ne_zero fun hzero => hhead ?_
          rw [hzero, List.replicate_zero, List.nil_append] at heq
          rw [← heq, hspace]
          rfl
        have hshort : s'.length < (ch :: s).length := by simp [heq]
        have hs' : ∀ c ∈ s', c.toNat < 0x10000 := fun c hmem => hs c (by simp [heq, hmem])
        rw [heq, List.flatMap_append, flatMap_escaped_spaces, List.append_assoc] at hc
        rw [heq, List.flatMap_append, flatMap_escaped_spaces, List.length_append,
          List.length_replicate] at hfuel
        obtain ⟨first, more, hnext, hfirst⟩ := exists_next hs' hhead rest
        have hspaces := quotedSpaces_spaces (m + 1) (hc.trans (congrArg _ hnext)) hfirst
        have hrest : (c.advanceBy (m + 1)).rest = s'.flatMap escaped ++ '"' :: rest := by
          rw [Cursor.advanceBy_rest, hc, List.drop_left' (List.length_replicate ..)]
        rw [quotedText_space (by rw [hc]; rfl) fuel done hspaces,
          quotedText_escaped s' hs' hrest (by omega), Cursor.advanceBy_add, heq]
        simp [flatMap_escaped_spaces, Nat.add_assoc]
      · obtain ⟨hch, hs⟩ := List.forall_mem_cons.mp hs
        rw [List.flatMap_cons, List.append_assoc] at hc
        have hrest : (c.advanceBy (escaped ch).length).rest = s.flatMap escaped ++ '"' :: rest := by
          rw [Cursor.advanceBy_rest, hc, List.drop_left' rfl]
        have hsome : 0 < (escaped ch).length := by
          obtain ⟨first, more, heq, -⟩ := exists_escaped hch
          rw [heq]
          exact Nat.succ_pos _
        rw [List.flatMap_cons, List.length_append] at hfuel
        rw [quotedText_char hch hspace hc, quotedText_escaped s hs hrest (by omega),
          Cursor.advanceBy_add]
        simp [Nat.add_assoc]
termination_by s.length

end ApiClientGen.Yaml
