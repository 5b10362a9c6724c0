import BinaryPack.Text.Utf8

/-! # Reading a text back from its bytes

  The bytes of a character take the reader from between characters to between
  characters and complete exactly that character (`segmentsFrom_encodeChar`).
  So every text comes back from its UTF-8 bytes, whatever characters it has
  (`lossy_encode`). The last byte tells whether the text ends in a NUL.
-/

namespace BinaryPack

namespace Utf8

/-! ### One byte -/

/-- A byte of the ASCII range is a character. -/
theorem step_single {n : Nat} (h : n < 0x80) :
    step none (UInt8.ofNat n) = ([some (Char.ofNat n)], none) := by
  have hn : n % 256 = n := by omega
  simp [step, start, UInt8.lt_iff_toNat_lt, hn, h]

/-- A lead byte that owes one continuation byte. -/
theorem step_double {n : Nat} (h : 0xC2 ≤ n) (h' : n < 0xE0) :
    step none (UInt8.ofNat n) = ([], some ⟨n - 0xC0, 0, 0x80, 0xBF⟩) := by
  have hn : n % 256 = n := by omega
  have h₁ : ¬ n < 0x80 := by omega
  have h₂ : ¬ n < 0xC2 := by omega
  simp [step, start, UInt8.lt_iff_toNat_lt, hn, h₁, h₂, h']

/-- A lead byte that owes two continuation bytes. -/
theorem step_triple {n : Nat} (h : 0xE0 ≤ n) (h' : n < 0xF0) :
    step none (UInt8.ofNat n) = ([], some ⟨n - 0xE0, 1, if n = 0xE0 then 0xA0 else 0x80,
      if n = 0xED then 0x9F else 0xBF⟩) := by
  have hn : n % 256 = n := by omega
  have h₁ : ¬ n < 0x80 := by omega
  have h₂ : ¬ n < 0xC2 := by omega
  have h₃ : ¬ n < 0xE0 := by omega
  simp [step, start, UInt8.lt_iff_toNat_lt, ← UInt8.toNat_inj, hn, h₁, h₂, h₃, h']

/-- A lead byte that owes three continuation bytes. -/
theorem step_quadruple {n : Nat} (h : 0xF0 ≤ n) (h' : n < 0xF5) :
    step none (UInt8.ofNat n) = ([], some ⟨n - 0xF0, 2, if n = 0xF0 then 0x90 else 0x80,
      if n = 0xF4 then 0x8F else 0xBF⟩) := by
  have hn : n % 256 = n := by omega
  have h₁ : ¬ n < 0x80 := by omega
  have h₂ : ¬ n < 0xC2 := by omega
  have h₃ : ¬ n < 0xE0 := by omega
  have h₄ : ¬ n < 0xF0 := by omega
  simp [step, start, UInt8.lt_iff_toNat_lt, ← UInt8.toNat_inj, hn, h₁, h₂, h₃, h₄, h']

/-- A continuation byte that is not the last one owed. -/
theorem step_more {bits owed n : Nat} {low high : UInt8} (h : low.toNat ≤ n)
    (h' : n ≤ high.toNat) : step (some ⟨bits, owed + 1, low, high⟩) (UInt8.ofNat n)
      = ([], some ⟨bits * 64 + (n - 0x80), owed, 0x80, 0xBF⟩) := by
  have hn : n % 256 = n := by have := high.toNat_lt; omega
  simp [step, UInt8.le_iff_toNat_le, hn, h, h']

/-- The last continuation byte owed completes the character. -/
theorem step_last {bits n : Nat} {low high : UInt8} (h : low.toNat ≤ n)
    (h' : n ≤ high.toNat) : step (some ⟨bits, 0, low, high⟩) (UInt8.ofNat n)
      = ([some (Char.ofNat (bits * 64 + (n - 0x80)))], none) := by
  have hn : n % 256 = n := by have := high.toNat_lt; omega
  simp [step, UInt8.le_iff_toNat_le, hn, h, h']

/-! ### A character and a text -/

theorem segmentsFrom_cons {state state' : Option Pending} {b : UInt8}
    {done : List (Option Char)} (h : step state b = (done, state'))
    (found : List (Option Char)) (rest : Bytes) :
    segmentsFrom found state (b :: rest) = segmentsFrom (done.reverse ++ found) state' rest := by
  cases state <;> simp [segmentsFrom, h]

theorem ofNat_of_eq_toNat {n : Nat} {c : Char} (h : n = c.val.toNat) : Char.ofNat n = c := by
  rw [h]
  exact Char.ofNat_toNat c

/-- The bytes of a character are read back as that character, by one case for each
    length of its sequence. -/
theorem segmentsFrom_encodeChar (found : List (Option Char)) (c : Char) (rest : Bytes) :
    segmentsFrom found none (String.utf8EncodeChar c ++ rest)
      = segmentsFrom (some c :: found) none rest := by
  -- Surrogates are no characters, which the narrower second byte after 0xED rests on.
  have hv : c.val.toNat < 0xD800 ∨ 0xDFFF < c.val.toNat ∧ c.val.toNat < 0x110000 := c.valid
  have hc : ∀ {m : Nat}, m = c.val.toNat → Char.ofNat m = c := ofNat_of_eq_toNat
  unfold String.utf8EncodeChar
  generalize c.val.toNat = n at hv hc
  dsimp only
  -- One case for each length of a sequence, from one byte to four. The bounds that the
  -- second byte must keep come from the first, and from there on all are the same.
  split
  · rw [List.singleton_append, segmentsFrom_cons (step_single (by omega)), hc rfl]
    rfl
  · split
    · rw [List.cons_append, segmentsFrom_cons (step_double (by omega) (by omega)),
        List.singleton_append, segmentsFrom_cons (step_last (by simp) (by simp; omega)),
        hc (by omega)]
      rfl
    · split
      · rw [List.cons_append, segmentsFrom_cons (step_triple (by omega) (by omega)),
          List.cons_append,
          segmentsFrom_cons (step_more (by split <;> simp <;> omega) (by split <;> simp <;> omega)),
          List.singleton_append, segmentsFrom_cons (step_last (by simp) (by simp; omega)),
          hc (by omega)]
        rfl
      · rw [List.cons_append, segmentsFrom_cons (step_quadruple (by omega) (by omega)),
          List.cons_append,
          segmentsFrom_cons (step_more (by split <;> simp <;> omega) (by split <;> simp <;> omega)),
          List.cons_append, segmentsFrom_cons (step_more (by simp) (by simp; omega)),
          List.singleton_append, segmentsFrom_cons (step_last (by simp) (by simp; omega)),
          hc (by omega)]
        rfl

theorem segmentsFrom_flatMap (found : List (Option Char)) (text : List Char) :
    segmentsFrom found none (text.flatMap String.utf8EncodeChar)
      = found.reverse ++ text.map some := by
  induction text generalizing found with
  | nil => simp [segmentsFrom]
  | cons c rest ih => simp [segmentsFrom_encodeChar, ih]

/-- A text comes back from its bytes. -/
@[simp] theorem lossy_encode (text : String) : lossy (encode text) = text := by
  have h : segments (encode text) = text.toList.map some := segmentsFrom_flatMap [] text.toList
  simp [lossy, h, Function.comp_def]

/-! ### The last byte -/

/-- The last byte of a character is zero only in the one character that is zero. -/
theorem getLast?_encodeChar (c : Char) :
    ∃ b, (String.utf8EncodeChar c).getLast? = some b ∧ (b = 0 ↔ c = '\x00') := by
  have hzero : c = '\x00' ↔ c.val.toNat = 0 := by
    rw [← Char.val_inj, ← UInt32.toNat_inj]
    rfl
  rw [hzero]
  unfold String.utf8EncodeChar
  generalize c.val.toNat = n
  dsimp only
  split
  · next hn =>
    refine ⟨UInt8.ofNat n, rfl, ?_⟩
    rw [← UInt8.toNat_inj, UInt8.toNat_ofNat', UInt8.toNat_zero]
    omega
  · -- In a longer sequence the last byte has its highest bit set.
    have hlast : ∃ b, some (UInt8.ofNat (n % 64 + 128)) = some b ∧ (b = 0 ↔ n = 0) := by
      refine ⟨_, rfl, ?_⟩
      rw [← UInt8.toNat_inj, UInt8.toNat_ofNat', UInt8.toNat_zero]
      omega
    split
    · exact hlast
    · split
      · exact hlast
      · exact hlast

/-- The bytes of a text end in zero just when the text ends in a NUL. -/
theorem getLast?_encode_eq_zero_iff (text : String) :
    (encode text).getLast? = some 0 ↔ text.toList.getLast? = some '\x00' := by
  unfold encode
  rcases List.eq_nil_or_concat text.toList with hnil | ⟨front, c, hlast⟩
  · simp [hnil]
  · obtain ⟨b, hb, hzero⟩ := getLast?_encodeChar c
    have hbytes : (text.toList.flatMap String.utf8EncodeChar).getLast? = some b := by
      rw [hlast, List.concat_eq_append, List.flatMap_append, List.getLast?_append,
        List.flatMap_singleton, hb]
      rfl
    rw [hbytes, hlast, List.concat_eq_append, List.getLast?_concat, Option.some_inj,
      Option.some_inj]
    exact hzero

end Utf8

end BinaryPack
