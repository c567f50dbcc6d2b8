import DocComment.Text.Utf8

/-!
# Reading text back from its bytes

The bytes of a character are read as that character, whatever follows
(`decodeFrom_encodeChar`), so a text is read back from its bytes
(`decodeUtf8_encodeUtf8`).
-/

namespace DocComment.Text

variable {n : Nat} {begun : Begun}

/-- The bounds of the code points: the surrogates are left out. -/
theorem toNat_bounds (c : Char) :
    c.toNat < 0xd800 ∨ (0xe000 ≤ c.toNat ∧ c.toNat < 0x110000) := by
  have hvalid : c.toNat.isValidChar := c.valid
  simp only [Nat.isValidChar] at hvalid
  omega

/-! ## Bytes behind the first -/

theorem toNat_continuation (n : Nat) : (continuation n).toNat = 0x80 + n % 0x40 := by
  simp only [continuation, UInt8.toNat_ofNat']
  omega

/-- The byte may stand behind the bytes that have been read. -/
def Begun.Takes (begun : Begun) (n : Nat) : Prop :=
  begun.low ≤ continuation n ∧ continuation n ≤ begun.high

/-- A byte without bounds of its own takes every continuation. -/
theorem takes_of_bounds (hlow : begun.low = 0x80) (hhigh : begun.high = 0xbf) (n : Nat) :
    begun.Takes n := by
  have hn := toNat_continuation n
  rw [Begun.Takes, hlow, hhigh, UInt8.le_iff_toNat_le, UInt8.le_iff_toNat_le, hn]
  simp only [UInt8.reduceToNat]
  omega

/-- A byte that is not the last one adds its bits. -/
theorem decodeFrom_continuation (h : begun.Takes n) (hmissing : 1 < begun.missing)
    (position : Nat) (bs : List UInt8) :
    decodeFrom position (some begun) (continuation n :: bs) =
      decodeFrom (position + 1)
        (some ⟨begun.read + 1, begun.first, begun.bits * 0x40 + n % 0x40, begun.missing - 1,
          0x80, 0xbf⟩) bs := by
  have hbits : (continuation n).toNat - 0x80 = n % 0x40 := by
    rw [toNat_continuation]
    omega
  rw [decodeFrom, if_pos (by simpa [Begun.Takes] using h), hbits, if_neg (by omega)]

/-- The last byte ends the character. -/
theorem decodeFrom_last (h : begun.Takes n) (hmissing : begun.missing = 1)
    (position : Nat) (bs : List UInt8) :
    decodeFrom position (some begun) (continuation n :: bs) =
      (decodeFrom (position + 1) none bs).map
        (Char.ofNat (begun.bits * 0x40 + n % 0x40) :: ·) := by
  have hbits : (continuation n).toNat - 0x80 = n % 0x40 := by
    rw [toNat_continuation]
    omega
  rw [decodeFrom, if_pos (by simpa [Begun.Takes] using h), hbits, if_pos (by omega)]

/-! ## First bytes -/

/-- What a byte begins, by its number. -/
theorem beginChar?_ofNat (h : n < 0x100) :
    beginChar? (UInt8.ofNat n) =
      if n < 0xc2 then none
      else if n < 0xe0 then some ⟨1, UInt8.ofNat n, n - 0xc0, 1, 0x80, 0xbf⟩
      else if n = 0xe0 then some ⟨1, UInt8.ofNat n, 0, 2, 0xa0, 0xbf⟩
      else if n = 0xed then some ⟨1, UInt8.ofNat n, 0xd, 2, 0x80, 0x9f⟩
      else if n < 0xf0 then some ⟨1, UInt8.ofNat n, n - 0xe0, 2, 0x80, 0xbf⟩
      else if n = 0xf0 then some ⟨1, UInt8.ofNat n, 0, 3, 0x90, 0xbf⟩
      else if n < 0xf4 then some ⟨1, UInt8.ofNat n, n - 0xf0, 3, 0x80, 0xbf⟩
      else if n = 0xf4 then some ⟨1, UInt8.ofNat n, 4, 3, 0x80, 0x8f⟩
      else none := by
  have hn : (UInt8.ofNat n).toNat = n := by
    rw [UInt8.toNat_ofNat', Nat.mod_eq_of_lt h]
  simp only [beginChar?, UInt8.lt_iff_toNat_lt, ← UInt8.toNat_inj, UInt8.reduceToNat, hn]

/-- The first byte of a character of several bytes: it holds the upper bits, tells how
many bytes are missing, and takes the next one. -/
def Begins (lead bits missing next : Nat) : Prop :=
  ∃ begun, beginChar? (UInt8.ofNat lead) = some begun ∧ begun.bits = bits ∧
    begun.missing = missing ∧ begun.Takes next

/-- Which bytes a character that has been begun takes, by their numbers. -/
theorem takes_iff : begun.Takes n ↔
    begun.low.toNat ≤ 0x80 + n % 0x40 ∧ 0x80 + n % 0x40 ≤ begun.high.toNat := by
  rw [Begun.Takes, UInt8.le_iff_toNat_le, UInt8.le_iff_toNat_le, toNat_continuation]

/-- The first of two bytes does not bound the second one. -/
theorem begins_two (hlow : 0x80 ≤ n) (hhigh : n < 0x800) :
    Begins (0xc0 + n / 0x40) (n / 0x40) 1 n := by
  have hlead := beginChar?_ofNat (show 0xc0 + n / 0x40 < 0x100 by omega)
  rw [if_neg (by omega), if_pos (by omega)] at hlead
  exact ⟨_, hlead, Nat.add_sub_cancel_left .., rfl, takes_of_bounds rfl rfl n⟩

/-- The second of three bytes is bounded below if no bits stand in front of it, and
above where the surrogates begin. -/
theorem begins_three (hlow : 0x800 ≤ n) (hhigh : n < 0x10000)
    (hgap : n < 0xd800 ∨ 0xe000 ≤ n) :
    Begins (0xe0 + n / 0x1000) (n / 0x1000) 2 (n / 0x40) := by
  have hlead := beginChar?_ofNat (show 0xe0 + n / 0x1000 < 0x100 by omega)
  rw [if_neg (by omega), if_neg (by omega)] at hlead
  -- the lead decides the bounds: the one without bits, the one in front of the surrogates, and all
  -- others
  by_cases hzero : n / 0x1000 = 0
  · rw [if_pos (by omega)] at hlead
    refine ⟨_, hlead, hzero.symm, rfl, takes_iff.mpr ?_⟩
    simp only [UInt8.reduceToNat]
    omega
  · rw [if_neg (by omega)] at hlead
    by_cases hsurrogates : n / 0x1000 = 0xd
    · rw [if_pos (by omega)] at hlead
      refine ⟨_, hlead, hsurrogates.symm, rfl, takes_iff.mpr ?_⟩
      simp only [UInt8.reduceToNat]
      omega
    · rw [if_neg (by omega), if_pos (by omega)] at hlead
      exact ⟨_, hlead, Nat.add_sub_cancel_left .., rfl, takes_of_bounds rfl rfl _⟩

/-- The second of four bytes is bounded below if no bits stand in front of it, and
above behind the last code point. -/
theorem begins_four (hlow : 0x10000 ≤ n) (hhigh : n < 0x110000) :
    Begins (0xf0 + n / 0x40000) (n / 0x40000) 3 (n / 0x1000) := by
  have hlead := beginChar?_ofNat (show 0xf0 + n / 0x40000 < 0x100 by omega)
  rw [if_neg (by omega), if_neg (by omega), if_neg (by omega), if_neg (by omega),
    if_neg (by omega)] at hlead
  -- the lead decides the bounds: the one without bits, the last one, and all others
  by_cases hzero : n / 0x40000 = 0
  · rw [if_pos (by omega)] at hlead
    refine ⟨_, hlead, hzero.symm, rfl, takes_iff.mpr ?_⟩
    simp only [UInt8.reduceToNat]
    omega
  · rw [if_neg (by omega)] at hlead
    by_cases hlast : n / 0x40000 = 4
    · rw [if_neg (by omega), if_pos (by omega)] at hlead
      refine ⟨_, hlead, hlast.symm, rfl, takes_iff.mpr ?_⟩
      simp only [UInt8.reduceToNat]
      omega
    · rw [if_pos (by omega)] at hlead
      exact ⟨_, hlead, Nat.add_sub_cancel_left .., rfl, takes_of_bounds rfl rfl _⟩

/-! ## Characters -/

/-- A byte that begins nothing by itself is a character. -/
theorem decodeFrom_ascii (h : n < 0x80) (position : Nat) (bs : List UInt8) :
    decodeFrom position none (UInt8.ofNat n :: bs) =
      (decodeFrom (position + 1) none bs).map (Char.ofNat n :: ·) := by
  have hn : (UInt8.ofNat n).toNat = n := by
    rw [UInt8.toNat_ofNat', Nat.mod_eq_of_lt (by omega)]
  rw [decodeFrom, if_pos (by simpa [UInt8.lt_iff_toNat_lt, hn] using h), hn]

/-- What the first byte of a character leaves to be read. -/
theorem decodeFrom_lead {lead bits missing next : Nat} (h : Begins lead bits missing next)
    (hlow : 0x80 ≤ lead) (hhigh : lead < 0x100) (position : Nat) (bs : List UInt8) :
    ∃ begun, begun.bits = bits ∧ begun.missing = missing ∧ begun.Takes next ∧
      decodeFrom position none (UInt8.ofNat lead :: bs) =
        decodeFrom (position + 1) (some begun) bs := by
  obtain ⟨begun, hbegin, hbits, hmissing, htakes⟩ := h
  have hlead : (UInt8.ofNat lead).toNat = lead := by
    rw [UInt8.toNat_ofNat', Nat.mod_eq_of_lt hhigh]
  refine ⟨begun, hbits, hmissing, htakes, ?_⟩
  rw [decodeFrom, if_neg (by simpa [UInt8.lt_iff_toNat_lt, hlead] using hlow), hbegin]

/-- The bytes of a character are read as the character. -/
theorem decodeFrom_encodeChar (position : Nat) (c : Char) (bs : List UInt8) :
    decodeFrom position none (encodeChar c ++ bs) =
      (decodeFrom (position + (encodeChar c).length) none bs).map (c :: ·) := by
  have hbounds := toNat_bounds c
  have hofNat (n : Nat) (h : n = c.toNat) : Char.ofNat n = c := by rw [h, Char.ofNat_toNat]
  -- one case for each number of bytes: the lead first, then the continuations one by one, the last
  -- of which ends the character
  simp only [encodeChar]
  split
  · next hone =>
    rw [List.singleton_append, decodeFrom_ascii hone, hofNat _ rfl]
    rfl
  split
  · next htwo =>
    obtain ⟨begun, hbits, hmissing, htakes, hlead⟩ :=
      decodeFrom_lead (begins_two (by omega) htwo) (by omega) (by omega) position
        (continuation c.toNat :: bs)
    rw [List.cons_append, List.singleton_append, hlead, decodeFrom_last htakes hmissing, hbits,
      hofNat _ (by omega)]
    rfl
  split
  · next hthree =>
    obtain ⟨begun, hbits, hmissing, htakes, hlead⟩ :=
      decodeFrom_lead (begins_three (by omega) hthree (by omega)) (by omega) (by omega) position
        (continuation (c.toNat / 0x40) :: continuation c.toNat :: bs)
    rw [List.cons_append, List.cons_append, List.singleton_append, hlead,
      decodeFrom_continuation htakes (by omega),
      decodeFrom_last (takes_of_bounds rfl rfl _) (by simp only; omega), hofNat]
    · rfl
    · simp only [hbits]
      omega
  · obtain ⟨begun, hbits, hmissing, htakes, hlead⟩ :=
      decodeFrom_lead (@begins_four c.toNat (by omega) (by omega)) (by omega) (by omega) position
        (continuation (c.toNat / 0x1000) :: continuation (c.toNat / 0x40) ::
          continuation c.toNat :: bs)
    rw [List.cons_append, List.cons_append, List.cons_append, List.singleton_append, hlead,
      decodeFrom_continuation htakes (by omega),
      decodeFrom_continuation (takes_of_bounds rfl rfl _) (by simp only; omega),
      decodeFrom_last (takes_of_bounds rfl rfl _) (by simp only; omega), hofNat]
    · rfl
    · simp only [hbits]
      omega

/-- A text is read back from its bytes. -/
theorem decodeUtf8_encodeUtf8 (cs : List Char) : decodeUtf8 (encodeUtf8 cs) = .ok cs := by
  have hread (position : Nat) : decodeFrom position none (encodeUtf8 cs) = .ok cs := by
    induction cs generalizing position with
    | nil => rfl
    | cons c cs ih =>
      have hcons : encodeUtf8 (c :: cs) = encodeChar c ++ encodeUtf8 cs := List.flatMap_cons
      rw [hcons, decodeFrom_encodeChar, ih]
      rfl
  exact hread 0

/-- Different texts have different bytes. -/
theorem encodeUtf8_inj {cs ds : List Char} (h : encodeUtf8 cs = encodeUtf8 ds) : cs = ds := by
  have hdecode := decodeUtf8_encodeUtf8 cs
  rw [h, decodeUtf8_encodeUtf8] at hdecode
  exact (Except.ok.inj hdecode).symm

end DocComment.Text
