/-
Texts between quotes.

A text that was written between quotes is read back as it is, whatever follows it, if every
character of it is one code unit.
-/
import ApiClientGen.Json.Reader
import ApiClientGen.Proofs.Json.Written

namespace ApiClientGen.Json

open ApiClientGen.Document ApiClientGen.Number

/-- The letter of a short escape stands for the character again. -/
theorem shortEscape?_of_escapeLetter? {c letter : Char} (h : escapeLetter? c = some letter) :
    shortEscape? letter = some c ∧ letter ≠ 'u' := by
  unfold escapeLetter? at h
  split at h <;> cases h <;> exact ⟨rfl, by decide⟩

theorem digitValue?_digitChar {d : Nat} (h : d < 16) :
    digitValue? (Nat.digitChar d) = some d ∧ isHexDigit (Nat.digitChar d) = true := by
  have hall : ∀ d < 16, digitValue? (Nat.digitChar d) = some d ∧
      isHexDigit (Nat.digitChar d) = true := by decide
  exact hall d h

/-- Four hexadecimal digits make the number that they were taken from. -/
theorem ofDigits_nibbles {n : Nat} (h : n < 0x10000) :
    ofDigits 16 [n / 4096 % 16, n / 256 % 16, n / 16 % 16, n % 16] = n := by
  simp only [ofDigits, List.foldl_cons, List.foldl_nil]
  omega

theorem hex4?_nibbles {n : Nat} (h : n < 0x10000) :
    hex4? (Nat.digitChar (n / 4096 % 16)) (Nat.digitChar (n / 256 % 16))
      (Nat.digitChar (n / 16 % 16)) (Nat.digitChar (n % 16)) = some n := by
  have hdigit : ∀ d < 16, (if (Nat.digitChar d).isDigit
      ∨ ('a' ≤ Nat.digitChar d ∧ Nat.digitChar d ≤ 'f')
      ∨ ('A' ≤ Nat.digitChar d ∧ Nat.digitChar d ≤ 'F')
      then digitValue? (Nat.digitChar d) else none) = some d := by decide
  unfold hex4?
  dsimp only
  rw [hdigit _ (Nat.mod_lt _ (by decide)), hdigit _ (Nat.mod_lt _ (by decide)),
    hdigit _ (Nat.mod_lt _ (by decide)), hdigit _ (Nat.mod_lt _ (by decide))]
  exact congrArg some (ofDigits_nibbles h)

/-- The code of a character is not that of half of a pair. -/
theorem isCharCode (c : Char) : ¬ (0xD800 ≤ c.toNat ∧ c.toNat < 0xE000) := by
  have hvalid := c.valid
  have hval : c.val.toNat = c.toNat := rfl
  simp [UInt32.isValidChar, Nat.isValidChar] at hvalid
  omega

/-- The character of a code unit that is one. -/
theorem charOfUnit_toNat (c : Char) : charOfUnit c.toNat = c := by
  rw [charOfUnit, if_neg (isCharCode c), Char.ofNat_toNat]

/-- **A text between quotes** is read back as it is. -/
theorem quotedRest_escaped (done s rest : List Char) (hs : ∀ c ∈ s, c.toNat < 0x10000) :
    quotedRest done (s.flatMap escaped ++ '"' :: rest)
      = .ok (String.ofList (done.reverse ++ s), rest) := by
  induction s generalizing done with
  | nil => simp [quotedRest]
  | cons c s ih =>
      have hrest := fun done => ih done fun d hd => hs d (List.mem_cons_of_mem c hd)
      have hc := hs c (by simp)
      rw [List.flatMap_cons, List.append_assoc]
      rcases escaped_cases hc with ⟨letter, hletter, heq⟩ | ⟨heq, ⟨hlow, -⟩, hquote, hback⟩ | heq
      · obtain ⟨hshort, hne⟩ := shortEscape?_of_escapeLetter? hletter
        rw [heq, List.cons_append, List.cons_append, List.nil_append, quotedRest]
        · rw [hshort]
          dsimp only
          rw [hrest]
          simp
        · exact fun _ _ _ _ _ h _ => hne h
      · rw [heq, List.cons_append, List.nil_append, quotedRest]
        · rw [if_neg (by rintro (hsmall | rfl); omega; exact hback rfl), hrest]
          simp
        · exact hquote
        · exact fun _ _ _ _ _ h _ => hback h
        · exact fun _ _ h _ => hback h
      · rw [heq, unitEscape]
        simp only [List.cons_append, List.nil_append]
        rw [quotedRest, hex4?_nibbles hc]
        dsimp only
        split
        · rw [if_neg ?_, charOfUnit_toNat, hrest]
          · simp
          · have hvalid := isCharCode c
            omega
        · rw [charOfUnit_toNat, hrest]
          simp

/-! ### What is written is printable -/

theorem isPrintable_of_isWordChar {c : Char} (h : isWordChar c = true) : IsPrintable c :=
  ⟨Nat.le_of_lt (toNat_lt_of_isWordChar h).1, (toNat_lt_of_isWordChar h).2⟩

theorem isPrintable_unitEscape (n : Nat) : ∀ c ∈ unitEscape n, IsPrintable c := by
  have hdigit : ∀ d < 16, IsPrintable (Nat.digitChar d) := by decide
  have hnibble := fun m : Nat => hdigit (m % 16) (Nat.mod_lt m (by decide))
  intro c hc
  simp only [unitEscape, List.mem_cons, List.not_mem_nil, or_false] at hc
  rcases hc with rfl | rfl | rfl | rfl | rfl | rfl
  · decide
  · decide
  all_goals exact hnibble _

theorem isPrintable_escaped {c : Char} (hc : c.toNat < 0x10000) :
    ∀ d ∈ escaped c, IsPrintable d := by
  rcases escaped_cases hc with ⟨letter, hletter, heq⟩ | ⟨heq, hprintable, -⟩ | heq
  · have hprintable : IsPrintable letter := by
      unfold escapeLetter? at hletter
      split at hletter <;> cases hletter <;> decide
    rw [heq]
    exact List.forall_mem_cons.mpr ⟨by decide, List.forall_mem_singleton.mpr hprintable⟩
  · rw [heq]
    exact List.forall_mem_singleton.mpr hprintable
  · rw [heq]
    exact isPrintable_unitEscape _

theorem isPrintable_quoted {s : String} (hs : IsBasic s) : ∀ c ∈ quoted s, IsPrintable c := by
  intro c hc
  rw [quoted, List.mem_cons, List.mem_append, List.mem_singleton, List.mem_flatMap] at hc
  rcases hc with rfl | ⟨d, hd, hc⟩ | rfl
  · decide
  · exact isPrintable_escaped (hs d hd) c hc
  · decide

theorem isPrintable_scalarWord {s : Scalar} (hs : IsPortableScalar s) :
    ∀ c ∈ scalarWord s, IsPrintable c := by
  rcases text_or_bareWord hs with ⟨text, rfl, htext⟩ | ⟨-, hbare⟩
  · exact isPrintable_quoted htext
  · exact fun c hc => isPrintable_of_isWordChar (hbare.chars c hc)

theorem isPrintable_moreItems {vs : List Value}
    (h : ∀ v ∈ vs, ∀ c ∈ written v, IsPrintable c) : ∀ c ∈ moreItems vs, IsPrintable c := by
  induction vs with
  | nil => exact nofun
  | cons v vs ih =>
      obtain ⟨hv, hvs⟩ := List.forall_mem_cons.mp h
      simp only [moreItems, List.forall_mem_cons, List.forall_mem_append]
      exact ⟨by decide, by decide, hv, ih hvs⟩

theorem isPrintable_moreFields {fs : List (String × Value)} (hkeys : ∀ e ∈ fs, IsBasic e.1)
    (h : ∀ e ∈ fs, ∀ c ∈ written e.2, IsPrintable c) : ∀ c ∈ moreFields fs, IsPrintable c := by
  induction fs with
  | nil => exact nofun
  | cons e fs ih =>
      obtain ⟨hk, hkeys⟩ := List.forall_mem_cons.mp hkeys
      obtain ⟨hv, hvs⟩ := List.forall_mem_cons.mp h
      simp only [moreFields, List.forall_mem_cons, List.forall_mem_append]
      exact ⟨by decide, by decide, isPrintable_quoted hk, by decide, by decide, hv, ih hkeys hvs⟩

/-- The text of a portable value is printable. -/
theorem isPrintable_written {v : Value} (hv : IsPortable v) : ∀ c ∈ written v, IsPrintable c := by
  induction hv with
  | scalar h => exact isPrintable_scalarWord h
  | @list items _ ih =>
      cases items with
      | nil =>
          exact List.forall_mem_cons.mpr ⟨by decide, List.forall_mem_singleton.mpr (by decide)⟩
      | cons v vs =>
          obtain ⟨hv, hvs⟩ := List.forall_mem_cons.mp ih
          simp only [written, writtenItems, List.forall_mem_cons, List.forall_mem_append]
          exact ⟨by decide, ⟨hv, isPrintable_moreItems hvs⟩, by decide, nofun⟩
  | @mapping fields _ hbasic _ _ ih =>
      cases fields with
      | nil =>
          exact List.forall_mem_cons.mpr ⟨by decide, List.forall_mem_singleton.mpr (by decide)⟩
      | cons e fs =>
          obtain ⟨hk, hkeys⟩ := List.forall_mem_cons.mp hbasic
          obtain ⟨hv, hvs⟩ := List.forall_mem_cons.mp ih
          simp only [written, writtenFields, List.forall_mem_cons, List.forall_mem_append]
          exact ⟨by decide, ⟨isPrintable_quoted hk, by decide, by decide, hv,
            isPrintable_moreFields hkeys hvs⟩, by decide, nofun⟩

end ApiClientGen.Json
