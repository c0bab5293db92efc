import Custodia.PosixPath

/-! # Unquote — percent decoding of request paths

    `unquote` of the standard library, as the request handler applies it to
    every segment of the URL path: maximal ASCII runs are percent-decoded to
    bytes and read as UTF-8, with U+FFFD for what is not UTF-8, and all other
    characters stay.

    * `length_unquote_le`: decoding never makes a segment longer;
    * `unquote_ne_nil`: decoding never makes a segment empty. -/

namespace Unquote

open PosixPath

/-- A byte of an encoded text, as a number below 256. -/
abbrev Byte := Nat

/-- U+FFFD, what the `replace` error handler writes. -/
def replacement : Char := Char.ofNat 0xFFFD

/-! ## UTF-8 with replacement -/

/-- A character in the making: how many bytes are owed, the range of the next
    one, and the bits read so far. -/
structure Pending where
  owed : Nat
  low : Byte
  high : Byte
  bits : Nat

/-- What the first byte of a sequence says: it is a character of its own, it
    begins a longer one, of which some bytes are owed, or it begins none and is
    replaced. -/
inductive Lead where
  | char (c : Char)
  | more (p : Pending)
  | bad

/-- The first byte of a character. -/
def lead (b : Byte) : Lead :=
  if b < 0x80 then .char (Char.ofNat b)
  else if b < 0xC2 then .bad
  else if b < 0xE0 then .more ⟨1, 0x80, 0xBF, b - 0xC0⟩
  else if b = 0xE0 then .more ⟨2, 0xA0, 0xBF, 0⟩
  else if b = 0xED then .more ⟨2, 0x80, 0x9F, 0xD⟩
  else if b < 0xF0 then .more ⟨2, 0x80, 0xBF, b - 0xE0⟩
  else if b = 0xF0 then .more ⟨3, 0x90, 0xBF, 0⟩
  else if b < 0xF4 then .more ⟨3, 0x80, 0xBF, b - 0xF0⟩
  else if b = 0xF4 then .more ⟨3, 0x80, 0x8F, 4⟩
  else .bad

/-- `bytes.decode('utf-8', 'replace')`. A byte that cannot continue the
    pending character replaces what was read of it and is read again as a
    first byte. -/
def decodeReplace : Option Pending → List Byte → Str
  | none, [] => []
  | some _, [] => [replacement]
  | none, b :: bs =>
      match lead b with
      | .char c => c :: decodeReplace none bs
      | .more p => decodeReplace (some p) bs
      | .bad => replacement :: decodeReplace none bs
  | some p, b :: bs =>
      if p.low ≤ b ∧ b ≤ p.high then
        if p.owed ≤ 1 then Char.ofNat (p.bits * 64 + (b - 0x80)) :: decodeReplace none bs
        else decodeReplace (some ⟨p.owed - 1, 0x80, 0xBF, p.bits * 64 + (b - 0x80)⟩) bs
      else
        match lead b with
        | .char c => replacement :: c :: decodeReplace none bs
        | .more q => replacement :: decodeReplace (some q) bs
        | .bad => replacement :: replacement :: decodeReplace none bs

/-- Decoding writes at most one character a byte, and one for what was
    pending. -/
theorem length_decodeReplace_le :
    ∀ (bs : List Byte) (p : Option Pending),
      (decodeReplace p bs).length ≤ bs.length + (if p.isSome then 1 else 0) := by
  intro bs
  induction bs with
  | nil => intro p; cases p <;> simp [decodeReplace]
  | cons b bs ih =>
      intro p
      have hnone := ih none
      have hsome := fun q => ih (some q)
      simp only [Option.isSome_none, Option.isSome_some, Bool.false_eq_true, if_false,
        if_true, Nat.add_zero] at hnone hsome
      cases p with
      | none =>
          simp only [decodeReplace, Option.isSome_none, Bool.false_eq_true, if_false,
            Nat.add_zero, List.length_cons]
          cases lead b with
          | char c => exact Nat.succ_le_succ hnone
          | more q => exact hsome q
          | bad => exact Nat.succ_le_succ hnone
      | some p =>
          simp only [decodeReplace, Option.isSome_some, if_true, List.length_cons]
          split_ifs with hrange howed
          · exact Nat.succ_le_succ (Nat.le_succ_of_le hnone)
          · exact Nat.le_succ_of_le (hsome _)
          · -- the rejected byte also pays for the replaced characters
            cases lead b with
            | char c => exact Nat.succ_le_succ (Nat.succ_le_succ hnone)
            | more q => exact Nat.succ_le_succ (hsome q)
            | bad => exact Nat.succ_le_succ (Nat.succ_le_succ hnone)

/-- Decoding never swallows a pending character. -/
theorem decodeReplace_some_ne_nil :
    ∀ (bs : List Byte) (p : Pending), decodeReplace (some p) bs ≠ [] := by
  intro bs
  induction bs with
  | nil => intro p; exact List.cons_ne_nil _ _
  | cons b bs ih =>
      intro p
      rw [decodeReplace]
      split_ifs with hrange howed
      · exact List.cons_ne_nil _ _
      · exact ih _
      · cases lead b <;> exact List.cons_ne_nil _ _

/-- Octets are never decoded to nothing. -/
theorem decodeReplace_ne_nil {bs : List Byte} (h : bs ≠ []) :
    decodeReplace none bs ≠ [] := by
  cases bs with
  | nil => exact absurd rfl h
  | cons b bs =>
      rw [decodeReplace]
      cases lead b with
      | char c => exact List.cons_ne_nil _ _
      | more p => exact decodeReplace_some_ne_nil bs p
      | bad => exact List.cons_ne_nil _ _

/-! ## Percent decoding -/

/-- The value of a hexadecimal digit. -/
def hexDigit (c : Char) : Option Nat :=
  let n := c.toNat
  if 0x30 ≤ n ∧ n ≤ 0x39 then some (n - 0x30)
  else if 0x41 ≤ n ∧ n ≤ 0x46 then some (n - 0x37)
  else if 0x61 ≤ n ∧ n ≤ 0x66 then some (n - 0x57)
  else none

/-- `unquote_to_bytes` of ASCII text: a `'%'` that two hexadecimal digits do
    not follow stands for itself. -/
def unquoteToBytes : Str → List Byte
  | [] => []
  | [a] => [a.toNat]
  | [a, b] => [a.toNat, b.toNat]
  | a :: b :: c :: rest =>
      if a = '%' then
        match hexDigit b, hexDigit c with
        | some x, some y => (16 * x + y) :: unquoteToBytes rest
        | _, _ => a.toNat :: unquoteToBytes (b :: c :: rest)
      else a.toNat :: unquoteToBytes (b :: c :: rest)

/-- Unquoting makes no text longer. -/
theorem length_unquoteToBytes_le (s : Str) : (unquoteToBytes s).length ≤ s.length := by
  induction s using unquoteToBytes.induct with
  | case1 => exact Nat.le_refl _
  | case2 a => exact Nat.le_refl _
  | case3 a b => exact Nat.le_refl _
  | case4 b c rest x y hy hx ih =>
      simp only [unquoteToBytes, if_true, hx, hy, List.length_cons]
      omega
  | case5 b c rest hno ih =>
      rw [unquoteToBytes, if_pos rfl]
      split
      · rename_i x y hx hy
        exact absurd hy (hno x y hx)
      · exact Nat.succ_le_succ ih
  | case6 a b c rest ha ih =>
      rw [unquoteToBytes, if_neg ha]
      exact Nat.succ_le_succ ih

/-- Only the empty text is unquoted to nothing. -/
theorem unquoteToBytes_ne_nil {s : Str} (h : s ≠ []) : unquoteToBytes s ≠ [] := by
  cases s using unquoteToBytes.fun_cases with
  | case1 => exact absurd rfl h
  | case2 a => exact List.cons_ne_nil _ _
  | case3 a b => exact List.cons_ne_nil _ _
  | case4 b c rest x y hy hx => simp [unquoteToBytes, hx, hy]
  | case5 b c rest hno =>
      rw [unquoteToBytes, if_pos rfl]
      split <;> exact List.cons_ne_nil _ _
  | case6 a b c rest ha =>
      rw [unquoteToBytes, if_neg ha]
      exact List.cons_ne_nil _ _

/-- Decode one ASCII run. -/
def unquoteRun (run : Str) : Str := decodeReplace none (unquoteToBytes run)

/-- A run of ASCII characters is not longer once it is decoded. -/
theorem length_unquoteRun_le (run : Str) : (unquoteRun run).length ≤ run.length :=
  Nat.le_trans (length_decodeReplace_le (unquoteToBytes run) none)
    (length_unquoteToBytes_le run)

/-- The loop of `unquote` over ASCII runs and the characters between them;
    `run` is the run being collected. -/
def unquoteRuns : Str → Str → Str
  | run, [] => unquoteRun run
  | run, c :: s =>
      if c.toNat < 0x80 then unquoteRuns (run ++ [c]) s
      else unquoteRun run ++ c :: unquoteRuns [] s

/-- `urllib.parse.unquote(s)`. -/
def unquote (s : Str) : Str := if '%' ∈ s then unquoteRuns [] s else s

/-- No text is longer once all its runs are decoded, by induction on what is
    left of it. -/
theorem length_unquoteRuns_le :
    ∀ (s run : Str), (unquoteRuns run s).length ≤ run.length + s.length := by
  intro s
  induction s with
  | nil => intro run; exact length_unquoteRun_le run
  | cons c s ih =>
      intro run
      rw [unquoteRuns]
      split_ifs with hascii
      · have := ih (run ++ [c])
        simp only [List.length_append, List.length_cons, List.length_nil] at this ⊢
        omega
      · have hrun := length_unquoteRun_le run
        have hrest := ih []
        simp only [List.length_append, List.length_cons, List.length_nil] at hrest ⊢
        omega

/-- Only the empty text is decoded to nothing, whatever run is pending. -/
theorem unquoteRuns_ne_nil :
    ∀ (s run : Str), run ++ s ≠ [] → unquoteRuns run s ≠ [] := by
  intro s
  induction s with
  | nil =>
      intro run h
      rw [List.append_nil] at h
      exact decodeReplace_ne_nil (unquoteToBytes_ne_nil h)
  | cons c s ih =>
      intro run _
      rw [unquoteRuns]
      split_ifs with hascii
      · exact ih (run ++ [c]) (by simp)
      · simp

/-- Text without `'%'` stays. -/
theorem unquote_of_not_mem {s : Str} (h : '%' ∉ s) : unquote s = s := if_neg h

/-- **Decoding never makes a segment longer.** By induction on the scan, which
    reads three characters for every octet that it writes. -/
theorem length_unquote_le (s : Str) : (unquote s).length ≤ s.length := by
  rw [unquote]
  split_ifs with h
  · simpa using length_unquoteRuns_le s []
  · exact Nat.le_refl _

/-- **Decoding never makes a segment empty**, so that an empty segment of a
    trail was empty in the path of the request. -/
theorem unquote_ne_nil {s : Str} (h : s ≠ []) : unquote s ≠ [] := by
  rw [unquote]
  split_ifs with hmem
  · exact unquoteRuns_ne_nil s [] h
  · exact h

example : unquote "%2Fa%76%zz%".toList = "/av%zz%".toList := by decide

/-! ## Path segments -/

/-- `_parse_path`: the segments of the raw path, unquoted one by one. -/
def parsePath (path : Str) : List Str := (path.splitOn slash).map unquote

/-- Path segments are decoded independently on both sides of a slash. -/
theorem parsePath_append (p q : Str) :
    parsePath (p ++ slash :: q) = parsePath p ++ parsePath q := by
  rw [parsePath, List.splitOn_append_cons_self, List.map_append]
  rfl

/-- A path without slashes is one segment. -/
theorem parsePath_of_not_mem {p : Str} (h : slash ∉ p) : parsePath p = [unquote p] := by
  rw [parsePath, List.splitOn_eq_singleton h]
  rfl

/-- A path always has a segment, if only an empty one. -/
theorem parsePath_ne_nil (p : Str) : parsePath p ≠ [] := by
  rw [parsePath]
  intro h
  exact List.splitOn_ne_nil slash p (List.map_eq_nil_iff.mp h)

end Unquote
