import Custodia.Unquote

/-! # PercentQuoting — percent encoding of URL parts

    `quote` of the standard library, under the name `url_escape` that the
    sources import it by: the UTF-8 bytes of the text, each one either a
    character that is always safe, or `'%'` and two hexadecimal digits.

    * `decodeReplace_utf8Bytes`: what is encoded is decoded as it was;
    * `quote_plain`: what characters a quoted text is made of;
    * `unquote_quote`: unquoting a quoted text gives the text, whatever
      characters other than `'%'` were kept. -/

namespace PercentQuoting

open PosixPath Unquote

/-! ## UTF-8 -/

/-- `c.encode('utf-8')`. -/
def utf8Bytes (c : Char) : List Nat := (String.utf8EncodeChar c).map UInt8.toNat

/-- An ASCII character is encoded as one octet. -/
theorem utf8Bytes_one {c : Char} (h : c.toNat < 0x80) : utf8Bytes c = [c.toNat] := by
  have hval : c.val.toNat ≤ 0x7f := Nat.le_of_lt_succ h
  simp only [utf8Bytes, String.utf8EncodeChar, if_pos hval, List.map_cons, List.map_nil,
    UInt8.toNat_ofNat']
  rw [Char.toNat_val, Nat.mod_eq_of_lt (by omega)]

/-- A character below U+0800 is encoded as two octets. -/
theorem utf8Bytes_two {c : Char} (hlow : 0x80 ≤ c.toNat) (hhigh : c.toNat < 0x800) :
    utf8Bytes c = ([0xC0 + c.toNat / 64, 0x80 + c.toNat % 64] : List Nat) := by
  rw [← Char.toNat_val] at hlow hhigh ⊢
  rw [utf8Bytes, String.utf8EncodeChar, if_neg (by omega), if_pos (by omega)]
  simp only [List.map_cons, List.map_nil, UInt8.toNat_ofNat', List.cons.injEq, and_true]
  omega

/-- A character below U+10000 is encoded as three octets. -/
theorem utf8Bytes_three {c : Char} (hlow : 0x800 ≤ c.toNat) (hhigh : c.toNat < 0x10000) :
    utf8Bytes c
      = ([0xE0 + c.toNat / 4096, 0x80 + c.toNat / 64 % 64, 0x80 + c.toNat % 64]
          : List Nat) := by
  rw [← Char.toNat_val] at hlow hhigh ⊢
  rw [utf8Bytes, String.utf8EncodeChar, if_neg (by omega), if_neg (by omega),
    if_pos (by omega)]
  simp only [List.map_cons, List.map_nil, UInt8.toNat_ofNat', List.cons.injEq, and_true]
  omega

/-- Any other character is encoded as four octets. -/
theorem utf8Bytes_four {c : Char} (hlow : 0x10000 ≤ c.toNat) (hhigh : c.toNat < 0x110000) :
    utf8Bytes c = ([0xF0 + c.toNat / 262144, 0x80 + c.toNat / 4096 % 64,
      0x80 + c.toNat / 64 % 64, 0x80 + c.toNat % 64] : List Nat) := by
  rw [← Char.toNat_val] at hlow hhigh ⊢
  rw [utf8Bytes, String.utf8EncodeChar, if_neg (by omega), if_neg (by omega),
    if_neg (by omega)]
  simp only [List.map_cons, List.map_nil, UInt8.toNat_ofNat', List.cons.injEq, and_true]
  omega

/-- A character is no surrogate, and below the end of Unicode. -/
theorem toNat_bounds (c : Char) :
    c.toNat < 0xD800 ∨ 0xDFFF < c.toNat ∧ c.toNat < 0x110000 := c.valid

/-- `lead` over plain numbers. -/
theorem lead_eq (b : Nat) :
    lead b = if b < 0x80 then .char (Char.ofNat b)
      else if b < 0xC2 then .bad
      else if b < 0xE0 then .more ⟨1, (0x80 : Nat), (0xBF : Nat), b - 0xC0⟩
      else if b = 0xE0 then .more ⟨2, (0xA0 : Nat), (0xBF : Nat), 0⟩
      else if b = 0xED then .more ⟨2, (0x80 : Nat), (0x9F : Nat), 0xD⟩
      else if b < 0xF0 then .more ⟨2, (0x80 : Nat), (0xBF : Nat), b - 0xE0⟩
      else if b = 0xF0 then .more ⟨3, (0x90 : Nat), (0xBF : Nat), 0⟩
      else if b < 0xF4 then .more ⟨3, (0x80 : Nat), (0xBF : Nat), b - 0xF0⟩
      else if b = 0xF4 then .more ⟨3, (0x80 : Nat), (0x8F : Nat), 4⟩
      else .bad := rfl

/-- The last byte of a pending character. -/
theorem decodeReplace_last {low high bits b : Nat} (hlow : low ≤ b) (hhigh : b ≤ high)
    (bs : List Byte) :
    decodeReplace (some ⟨1, low, high, bits⟩) (b :: bs)
      = Char.ofNat (bits * 64 + (b - 0x80)) :: decodeReplace none bs := by
  rw [decodeReplace, if_pos ⟨hlow, hhigh⟩, if_pos (Nat.le_refl 1)]

/-- A byte of a pending character that owes more. -/
theorem decodeReplace_more {owed low high bits b : Nat} (howed : 1 < owed) (hlow : low ≤ b)
    (hhigh : b ≤ high) (bs : List Byte) :
    decodeReplace (some ⟨owed, low, high, bits⟩) (b :: bs)
      = decodeReplace (some ⟨owed - 1, 0x80, 0xBF, bits * 64 + (b - 0x80)⟩) bs := by
  rw [decodeReplace, if_pos ⟨hlow, hhigh⟩, if_neg (Nat.not_le.mpr howed)]

/-- The first octet of a longer sequence is kept until the others have come. -/
theorem decodeReplace_first {b : Nat} {p : Pending} (h : lead b = .more p) (bs : List Byte) :
    decodeReplace none (b :: bs) = decodeReplace (some p) bs := by
  rw [decodeReplace, h]

/-- The first byte of three, and the range it sets for the second one. -/
theorem lead_three {n : Nat} (hlow : 0x800 ≤ n) (hhigh : n < 0x10000)
    (hvalid : n < 0xD800 ∨ 0xDFFF < n) :
    ∃ low high : Nat, lead (0xE0 + n / 4096) = .more ⟨2, low, high, n / 4096⟩
      ∧ low ≤ 0x80 + n / 64 % 64 ∧ 0x80 + n / 64 % 64 ≤ high := by
  by_cases hzero : n / 4096 = 0
  · exact ⟨0xA0, 0xBF, by rw [hzero]; rfl, by omega, by omega⟩
  by_cases hsurrogate : n / 4096 = 0xD
  · exact ⟨0x80, 0x9F, by rw [hsurrogate]; rfl, by omega, by omega⟩
  refine ⟨0x80, 0xBF, ?_, by omega, by omega⟩
  rw [lead_eq, if_neg (by omega), if_neg (by omega), if_neg (by omega), if_neg (by omega),
    if_neg (by omega), if_pos (by omega), Nat.add_sub_cancel_left]

/-- The first byte of four, and the range it sets for the second one. -/
theorem lead_four {n : Nat} (hlow : 0x10000 ≤ n) (hhigh : n < 0x110000) :
    ∃ low high : Nat, lead (0xF0 + n / 262144) = .more ⟨3, low, high, n / 262144⟩
      ∧ low ≤ 0x80 + n / 4096 % 64 ∧ 0x80 + n / 4096 % 64 ≤ high := by
  by_cases hzero : n / 262144 = 0
  · exact ⟨0x90, 0xBF, by rw [hzero]; rfl, by omega, by omega⟩
  by_cases hfour : n / 262144 = 4
  · exact ⟨0x80, 0x8F, by rw [hfour]; rfl, by omega, by omega⟩
  refine ⟨0x80, 0xBF, ?_, by omega, by omega⟩
  rw [lead_eq, if_neg (by omega), if_neg (by omega), if_neg (by omega), if_neg (by omega),
    if_neg (by omega), if_neg (by omega), if_neg (by omega), if_pos (by omega),
    Nat.add_sub_cancel_left]

/-- **Decoding the bytes of a character gives the character.** -/
theorem decodeReplace_utf8Bytes (c : Char) (bs : List Byte) :
    decodeReplace none (utf8Bytes c ++ bs) = c :: decodeReplace none bs := by
  -- by the number of bytes; surrogates, which are no characters, lie among three
  have hvalid := toNat_bounds c
  by_cases hone : c.toNat < 0x80
  · rw [utf8Bytes_one hone, List.singleton_append, decodeReplace, lead_eq, if_pos hone,
      Char.ofNat_toNat]
  by_cases htwo : c.toNat < 0x800
  · have hlead : lead (0xC0 + c.toNat / 64) = .more ⟨1, 0x80, 0xBF, c.toNat / 64⟩ := by
      rw [lead_eq, if_neg (by omega), if_neg (by omega), if_pos (by omega),
        Nat.add_sub_cancel_left]
    have hcode : c.toNat / 64 * 64 + (0x80 + c.toNat % 64 - 0x80) = c.toNat := by omega
    rw [utf8Bytes_two (by omega) htwo]
    simp only [List.cons_append, List.nil_append]
    rw [decodeReplace_first hlead, decodeReplace_last (by omega) (by omega), hcode,
      Char.ofNat_toNat]
  by_cases hthree : c.toNat < 0x10000
  · obtain ⟨low, high, hlead, hlow, hhigh⟩ :=
      lead_three (n := c.toNat) (by omega) hthree (by omega)
    have hcode : (c.toNat / 4096 * 64 + (0x80 + c.toNat / 64 % 64 - 0x80)) * 64
        + (0x80 + c.toNat % 64 - 0x80) = c.toNat := by omega
    rw [utf8Bytes_three (by omega) hthree]
    simp only [List.cons_append, List.nil_append]
    rw [decodeReplace_first hlead, decodeReplace_more (by omega) hlow hhigh,
      decodeReplace_last (by omega) (by omega), hcode, Char.ofNat_toNat]
  · obtain ⟨low, high, hlead, hlow, hhigh⟩ :=
      lead_four (n := c.toNat) (by omega) (by omega)
    have hcode : ((c.toNat / 262144 * 64 + (0x80 + c.toNat / 4096 % 64 - 0x80)) * 64
        + (0x80 + c.toNat / 64 % 64 - 0x80)) * 64 + (0x80 + c.toNat % 64 - 0x80)
        = c.toNat := by omega
    rw [utf8Bytes_four (by omega) (by omega)]
    simp only [List.cons_append, List.nil_append]
    rw [decodeReplace_first hlead, decodeReplace_more (by omega) hlow hhigh,
      decodeReplace_more (by omega) (by omega) (by omega),
      decodeReplace_last (by omega) (by omega), hcode, Char.ofNat_toNat]

/-- **What is encoded is decoded as it was.** -/
theorem decodeReplace_flatMap (s : Str) : decodeReplace none (s.flatMap utf8Bytes) = s := by
  induction s with
  | nil => rfl
  | cons c s ih => rw [List.flatMap_cons, decodeReplace_utf8Bytes, ih]

/-! ## Percent encoding -/

/-- `_ALWAYS_SAFE`: the letters, the digits and four marks. -/
def alwaysSafe (c : Char) : Bool :=
  c.isAlphanum || c == '_' || c == '.' || c == '-' || c == '~'

/-- They are all ASCII. -/
theorem ascii_of_alwaysSafe {c : Char} (h : alwaysSafe c = true) : c.toNat < 0x80 := by
  have hbound {n : UInt32} (hn : n.toNat < 0x80) (hle : c.val ≤ n) : c.toNat < 0x80 :=
    Nat.lt_of_le_of_lt (UInt32.le_iff_toNat_le.mp hle) hn
  have hupper (h : c.isUpper = true) : c.toNat < 0x80 :=
    hbound (by decide) (of_decide_eq_true h).2
  have hlower (h : c.isLower = true) : c.toNat < 0x80 :=
    hbound (by decide) (of_decide_eq_true (Bool.and_eq_true_iff.mp h).2)
  have hdigit (h : c.isDigit = true) : c.toNat < 0x80 :=
    hbound (by decide) (of_decide_eq_true (Bool.and_eq_true_iff.mp h).2)
  have halpha (h : c.isAlpha = true) : c.toNat < 0x80 :=
    (Bool.or_eq_true_iff.mp h).elim hupper hlower
  simp only [alwaysSafe, Bool.or_eq_true, beq_iff_eq] at h
  rcases h with (((hletter | rfl) | rfl) | rfl) | rfl
  · exact (Bool.or_eq_true_iff.mp hletter).elim halpha hdigit
  · decide
  · decide
  · decide
  · decide

/-- The digits of `'%02X'`. -/
def hexChar (n : Nat) : Char := if n < 10 then Char.ofNat (0x30 + n) else Char.ofNat (0x37 + n)

/-- One byte: itself when it is kept, its number in hexadecimal otherwise. -/
def quoteByte (safe : Str) (b : Nat) : Str :=
  if b < 0x80 ∧ (alwaysSafe (Char.ofNat b) = true ∨ Char.ofNat b ∈ safe) then [Char.ofNat b]
  else ['%', hexChar (b / 16), hexChar (b % 16)]

/-- `quote(s, safe)`. -/
def quote (safe s : Str) : Str := (s.flatMap utf8Bytes).flatMap (quoteByte safe)

/-! ## Quoting is undone -/

/-- A hexadecimal digit has the value that it was written for. -/
theorem hexDigit_hexChar : ∀ n < 16, hexDigit (hexChar n) = some n := by decide

/-- A hexadecimal digit is never quoted itself. -/
theorem hexChar_safe : ∀ n < 16, alwaysSafe (hexChar n) = true := by decide

/-- What a character is encoded as are octets. -/
theorem utf8Bytes_lt {c : Char} {b : Nat} (h : b ∈ utf8Bytes c) : b < 256 := by
  obtain ⟨byte, -, rfl⟩ := List.mem_map.mp h
  exact UInt8.toNat_lt byte

/-- A character that is no percent sign is read as it is. -/
theorem unquoteToBytes_kept {c : Char} (h : c ≠ '%') (rest : Str) :
    unquoteToBytes (c :: rest) = c.toNat :: unquoteToBytes rest := by
  match rest with
  | [] => rfl
  | [_] => rfl
  | _ :: _ :: _ => rw [unquoteToBytes, if_neg h]

/-- A quoted octet is read as the octet. -/
theorem unquoteToBytes_coded {b : Nat} (h : b < 256) (rest : Str) :
    unquoteToBytes ('%' :: hexChar (b / 16) :: hexChar (b % 16) :: rest)
      = b :: unquoteToBytes rest := by
  simp only [unquoteToBytes, if_true, hexDigit_hexChar (b / 16) (by omega),
    hexDigit_hexChar (b % 16) (by omega)]
  rw [Nat.div_add_mod]

/-- The character of an ASCII code has that code. -/
theorem toNat_ascii {b : Nat} (h : b < 0x80) : (Char.ofNat b).toNat = b := by
  have hvalid : b.isValidChar := Or.inl (Nat.lt_trans h (by decide))
  rw [Char.ofNat, dif_pos hvalid]
  rfl

section Quoted

variable {safe : Str} (hsafe : '%' ∉ safe)

include hsafe

/-- A kept byte is the number of a character other than `'%'`. -/
theorem kept_ne_percent {c : Char} (h : alwaysSafe c = true ∨ c ∈ safe) : c ≠ '%' := by
  rintro rfl
  exact h.elim (by decide) hsafe

/-- Unquoting gives every byte back. -/
theorem unquoteToBytes_quoteByte {b : Nat} (h : b < 256) (rest : Str) :
    unquoteToBytes (quoteByte safe b ++ rest) = b :: unquoteToBytes rest := by
  rw [quoteByte]
  split_ifs with hkept
  · rw [List.singleton_append, unquoteToBytes_kept (kept_ne_percent hsafe hkept.2),
      toNat_ascii hkept.1]
  · exact unquoteToBytes_coded h rest

/-- **Quoted octets are read again**, whichever of them are left as they are. -/
theorem unquoteToBytes_quoted {bs : List Nat} (h : ∀ b ∈ bs, b < 256) :
    unquoteToBytes (bs.flatMap (quoteByte safe)) = bs := by
  induction bs with
  | nil => rfl
  | cons b bs ih =>
      rw [List.flatMap_cons, unquoteToBytes_quoteByte hsafe (h b List.mem_cons_self),
        ih (fun b' hb' => h b' (List.mem_cons_of_mem b hb'))]

/-- **A quoted text is read again**: the octets of its encoding come back, and
    are decoded to the text. -/
theorem unquoteRun_quote (s : Str) : unquoteRun (quote safe s) = s := by
  have hbytes : ∀ b ∈ s.flatMap utf8Bytes, b < 256 := by
    intro b hb
    obtain ⟨c, -, hc⟩ := List.mem_flatMap.mp hb
    exact utf8Bytes_lt hc
  rw [unquoteRun, quote, unquoteToBytes_quoted hsafe hbytes, decodeReplace_flatMap]

end Quoted

/-- **No character of a quoted text is more than a sign, a safe character or
    one that was to be kept.** -/
theorem quote_plain {safe s : Str} {c : Char} (h : c ∈ quote safe s) :
    c.toNat < 0x80 ∧ (c = '%' ∨ alwaysSafe c = true ∨ c ∈ safe) := by
  obtain ⟨b, hb, hc⟩ := List.mem_flatMap.mp h
  obtain ⟨c', -, hb'⟩ := List.mem_flatMap.mp hb
  have hlt : (b : Nat) < 256 := utf8Bytes_lt hb'
  have hsafe : ∀ n < 16, (hexChar n).toNat < 0x80 := by decide
  rw [quoteByte] at hc
  split_ifs at hc with hkept
  · obtain rfl := List.mem_singleton.mp hc
    rw [toNat_ascii hkept.1]
    exact ⟨hkept.1, Or.inr hkept.2⟩
  · simp only [List.mem_cons, List.not_mem_nil, or_false] at hc
    obtain rfl | rfl | rfl := hc
    · exact ⟨by decide, Or.inl rfl⟩
    · exact ⟨hsafe _ (by omega), Or.inr (Or.inl (hexChar_safe _ (by omega)))⟩
    · exact ⟨hsafe _ (by omega), Or.inr (Or.inl (hexChar_safe _ (by omega)))⟩

/-- **What is kept is not changed.** -/
theorem quote_eq_self {safe s : Str}
    (h : ∀ c ∈ s, c.toNat < 0x80 ∧ (alwaysSafe c = true ∨ c ∈ safe)) : quote safe s = s := by
  induction s with
  | nil => rfl
  | cons c s ih =>
      obtain ⟨hascii, hkept⟩ := h c List.mem_cons_self
      have hbyte : quoteByte safe c.toNat = [c] := by
        rw [quoteByte, Char.ofNat_toNat, if_pos ⟨hascii, hkept⟩]
      have hrest : (s.flatMap utf8Bytes).flatMap (quoteByte safe) = s :=
        ih (fun d hd => h d (List.mem_cons_of_mem c hd))
      rw [quote, List.flatMap_cons, utf8Bytes_one hascii, List.singleton_append,
        List.flatMap_cons, hbyte, hrest, List.singleton_append]

/-- ASCII text is one run. -/
theorem unquoteRuns_ascii :
    ∀ (s run : Str), (∀ c ∈ s, c.toNat < 0x80) →
      unquoteRuns run s = unquoteRun (run ++ s) := by
  intro s
  induction s with
  | nil => intro run _; rw [unquoteRuns, List.append_nil]
  | cons c s ih =>
      intro run h
      rw [unquoteRuns, if_pos (h c List.mem_cons_self),
        ih (run ++ [c]) (fun d hd => h d (List.mem_cons_of_mem c hd)), List.append_assoc]
      rfl

/-- A run without `'%'` is read as it is. -/
theorem unquoteRun_plain {s : Str} (h : ∀ c ∈ s, c.toNat < 0x80 ∧ c ≠ '%') :
    unquoteRun s = s := by
  induction s with
  | nil => rfl
  | cons c s ih =>
      obtain ⟨hascii, hne⟩ := h c List.mem_cons_self
      have hlead : lead c.toNat = .char c := by rw [lead_eq, if_pos hascii, Char.ofNat_toNat]
      rw [unquoteRun, unquoteToBytes_kept hne, decodeReplace, hlead]
      exact congrArg (c :: ·) (ih (fun d hd => h d (List.mem_cons_of_mem c hd)))

/-- **Unquoting a quoted text gives the text.** -/
theorem unquote_quote {safe : Str} (hsafe : '%' ∉ safe) (s : Str) :
    unquote (quote safe s) = s := by
  have hascii : ∀ c ∈ quote safe s, c.toNat < 0x80 := fun c hc => (quote_plain hc).1
  rw [unquote]
  split_ifs with hpercent
  · rw [unquoteRuns_ascii _ _ hascii, List.nil_append, unquoteRun_quote hsafe]
  · -- nothing was coded, so that the text was kept
    have hplain : unquoteRun (quote safe s) = quote safe s :=
      unquoteRun_plain (fun c hc => ⟨hascii c hc, fun he => hpercent (he ▸ hc)⟩)
    rw [← hplain, unquoteRun_quote hsafe]

example : quote [] "/var/é".toList = "%2Fvar%2F%C3%A9".toList := by decide

end PercentQuoting
