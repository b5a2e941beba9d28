import Newsintel.Lib.PyUrl
import Newsintel.Lib.Utf8

/-!
# Percent-encoding and query strings (`urllib.parse`)

`quote`, `quote_plus`, `unquote_plus`, `urlencode` and `parse_qsl` with blank values
kept. Quoting twice is quoting once where `%` is safe, and parsing undoes encoding.
-/

namespace Newsintel.PyQuote

open PyText PyUrl

/-! ### `quote` -/

def alwaysSafe (c : Char) : Bool := isAlpha c || isDigit c || "_.-~".toList.contains c

def hexDigit (n : ℕ) : Char := if n < 10 then Char.ofNat (48 + n) else Char.ofNat (55 + n)

/-- `'%{:02X}'.format(b)`. -/
def percentByte (b : ℕ) : Text := ['%', hexDigit (b / 16), hexDigit (b % 16)]

/-- A character in `quote(string, safe)`. -/
def quoteChar (safe : Text) (c : Char) : Text :=
  if alwaysSafe c || safe.contains c then [c] else (Utf8.encodeChar c).flatMap percentByte

/-- `quote(string, safe)`. -/
def quote (safe t : Text) : Text := t.flatMap (quoteChar safe)

/-- `quote_plus(string)`: blanks pass `quote` and become `+`. -/
def quotePlus (t : Text) : Text := (quote [' '] t).map fun c => if c = ' ' then '+' else c

/-! ### `unquote_plus` -/

/-- The value of a hexadecimal digit. -/
def hexValue (c : Char) : ℕ :=
  if isDigit c then c.toNat - 48 else if c.toNat < 97 then c.toNat - 55 else c.toNat - 87

/-- `unquote_to_bytes` of ASCII text. -/
def unquoteToBytes : Text → List ℕ
  | [] => []
  | '%' :: a :: b :: t =>
    if isHexDigit a && isHexDigit b then (16 * hexValue a + hexValue b) :: unquoteToBytes t
    else 37 :: unquoteToBytes (a :: b :: t)
  | c :: t => c.toNat :: unquoteToBytes t

/-- The loop of `unquote` over ASCII runs (`_asciire.split`), `run` being the run at
the current position. -/
def unquoteFrom (run : Text) : Text → Text
  | [] => Utf8.decode (unquoteToBytes run)
  | c :: t =>
    if c.toNat < 128 then unquoteFrom (run ++ [c]) t
    else Utf8.decode (unquoteToBytes run) ++ c :: unquoteFrom [] t

/-- `unquote(string)`. -/
def unquote (t : Text) : Text := if t.contains '%' then unquoteFrom [] t else t

/-- `unquote_plus(string)`. -/
def unquotePlus (t : Text) : Text := unquote (t.map fun c => if c = '+' then ' ' else c)

/-! ### Query strings -/

/-- `parse_qsl(qs, keep_blank_values=True)`. -/
def parseQsl (qs : Text) : List (Text × Text) :=
  ((qs.splitOn '&').filter (· ≠ [])).map fun nameValue =>
    let (name, value) := partition '=' nameValue
    (unquotePlus name, unquotePlus (value.getD []))

/-- `urlencode(query)`. -/
def urlencode (query : List (Text × Text)) : Text :=
  ['&'].intercalate (query.map fun p => quotePlus p.1 ++ '=' :: quotePlus p.2)

/-! ### Characters of quoted text -/

variable {c d : Char} {s t safe rest : Text} {b : ℕ} {bs : List ℕ}

theorem lt_of_alwaysSafe (h : alwaysSafe c = true) : c.toNat < 128 := by
  have hle : ∀ e : Char, c ≤ e → c.toNat ≤ e.toNat := fun e he => UInt32.le_iff_toNat_le.mp he
  simp only [alwaysSafe, isAlpha, isDigit, Bool.or_eq_true, Bool.and_eq_true, decide_eq_true_eq,
    List.contains_iff_mem] at h
  rcases h with ((⟨-, h⟩ | ⟨-, h⟩) | ⟨-, h⟩) | h
  · exact lt_of_le_of_lt (hle _ h) (by decide)
  · exact lt_of_le_of_lt (hle _ h) (by decide)
  · exact lt_of_le_of_lt (hle _ h) (by decide)
  · have hall : ∀ e ∈ "_.-~".toList, e.toNat < 128 := forall_mem_of_all (by decide)
    exact hall c h

theorem hexDigit_spec {n : ℕ} (h : n < 16) : isHexDigit (hexDigit n) = true ∧
    hexValue (hexDigit n) = n ∧ alwaysSafe (hexDigit n) = true := by
  have hall : ∀ n < 16, isHexDigit (hexDigit n) = true ∧ hexValue (hexDigit n) = n ∧
      alwaysSafe (hexDigit n) = true := by decide
  exact hall n h

theorem encodeChar_lt (h : b ∈ Utf8.encodeChar c) : b < 256 := by
  have hc := Utf8.scalar c
  unfold Utf8.encodeChar at h
  simp only at h
  split at h
  · simp only [List.mem_singleton] at h
    omega
  · split at h
    · simp only [List.mem_cons, List.not_mem_nil, or_false] at h
      omega
    · split at h <;> simp only [List.mem_cons, List.not_mem_nil, or_false] at h <;> omega

theorem mem_percentBytes (hb : ∀ b ∈ bs, b < 256) (h : d ∈ bs.flatMap percentByte) :
    alwaysSafe d = true ∨ d = '%' := by
  obtain ⟨b, hbs, hd⟩ := List.mem_flatMap.mp h
  have hlt := hb b hbs
  simp only [percentByte, List.mem_cons, List.not_mem_nil, or_false] at hd
  rcases hd with rfl | rfl | rfl
  · exact Or.inr rfl
  · exact Or.inl (hexDigit_spec (by omega)).2.2
  · exact Or.inl (hexDigit_spec (by omega)).2.2

/-- Quoted text has safe characters and percent signs only. -/
theorem mem_quote (h : d ∈ quote safe t) : alwaysSafe d = true ∨ d ∈ safe ∨ d = '%' := by
  obtain ⟨c, -, hd⟩ := List.mem_flatMap.mp h
  unfold quoteChar at hd
  split at hd
  · rename_i hc
    obtain rfl := List.mem_singleton.mp hd
    rw [Bool.or_eq_true, List.contains_iff_mem] at hc
    exact hc.imp_right Or.inl
  · exact (mem_percentBytes (fun b => encodeChar_lt) hd).imp_right Or.inr

theorem quoteChar_of_safe (h : alwaysSafe c = true ∨ c ∈ safe) : quoteChar safe c = [c] := by
  have hcond : (alwaysSafe c || safe.contains c) = true := by
    rw [Bool.or_eq_true, List.contains_iff_mem]
    exact h
  rw [quoteChar, if_pos hcond]

/- An escape for each byte, and there is a first one. -/
theorem quoteChar_of_not_safe (h : ¬ (alwaysSafe c = true ∨ c ∈ safe)) :
    ∃ high low rest, quoteChar safe c = '%' :: high :: low :: rest := by
  have hcond : ¬ (alwaysSafe c || safe.contains c) = true := by
    rw [Bool.or_eq_true, List.contains_iff_mem]
    exact h
  obtain ⟨b, bs, hbytes⟩ : ∃ b bs, Utf8.encodeChar c = b :: bs := by
    unfold Utf8.encodeChar
    simp only
    split
    · exact ⟨_, _, rfl⟩
    · split
      · exact ⟨_, _, rfl⟩
      · split <;> exact ⟨_, _, rfl⟩
  rw [quoteChar, if_neg hcond, hbytes]
  exact ⟨_, _, _, rfl⟩

theorem quoteChar_ne_nil : quoteChar safe c ≠ [] := by
  by_cases h : alwaysSafe c = true ∨ c ∈ safe
  · rw [quoteChar_of_safe h]
    exact List.cons_ne_nil _ _
  · obtain ⟨high, low, rest, hquoted⟩ := quoteChar_of_not_safe h
    rw [hquoted]
    exact List.cons_ne_nil _ _

@[simp] theorem quote_nil : quote safe [] = [] := rfl

@[simp] theorem quote_cons : quote safe (c :: t) = quoteChar safe c ++ quote safe t := rfl

@[simp] theorem quote_append : quote safe (s ++ t) = quote safe s ++ quote safe t :=
  List.flatMap_append

theorem quote_eq_nil : quote safe t = [] ↔ t = [] := by
  cases t with
  | nil => simp
  | cons c t => simp [quoteChar_ne_nil]

/-- Text of safe characters is its own quotation. -/
theorem quote_eq_self (h : ∀ c ∈ t, alwaysSafe c = true ∨ c ∈ safe) : quote safe t = t := by
  induction t with
  | nil => rfl
  | cons c t ih =>
    rw [quote_cons, ih fun d hd => h d (List.mem_cons_of_mem _ hd),
      quoteChar_of_safe (h c List.mem_cons_self)]
    rfl

/- An escape is longer than the character that it stands for. -/
theorem safe_of_length_quote (h : (quote safe t).length ≤ t.length) :
    ∀ c ∈ t, alwaysSafe c = true ∨ c ∈ safe := by
  have hlength : ∀ t : Text, t.length ≤ (quote safe t).length := by
    intro t
    induction t with
    | nil => exact Nat.zero_le _
    | cons c t ih =>
      have hpos : 0 < (quoteChar safe c).length := List.length_pos_iff.mpr quoteChar_ne_nil
      rw [quote_cons, List.length_append, List.length_cons]
      omega
  induction t with
  | nil => exact List.forall_mem_nil _
  | cons c t ih =>
    rw [quote_cons, List.length_append, List.length_cons] at h
    have hrest := hlength t
    have hpos : 0 < (quoteChar safe c).length := List.length_pos_iff.mpr quoteChar_ne_nil
    refine List.forall_mem_cons.mpr ⟨?_, ih (by omega)⟩
    by_contra hunsafe
    obtain ⟨high, low, rest, hquoted⟩ := quoteChar_of_not_safe hunsafe
    simp only [hquoted, List.length_cons] at h
    omega

theorem quote_quote (h : '%' ∈ safe) : quote safe (quote safe t) = quote safe t := by
  apply quote_eq_self
  intro c hc
  rcases mem_quote hc with hc | hc | rfl
  · exact Or.inl hc
  · exact Or.inr hc
  · exact Or.inr h

/- A character that is not safe leaves a percent sign behind. -/
theorem quote_eq_self_of_noPercent (h : '%' ∉ quote safe t) : quote safe t = t := by
  apply quote_eq_self
  intro c hc
  by_contra hunsafe
  obtain ⟨high, low, rest, hquoted⟩ := quoteChar_of_not_safe hunsafe
  apply h
  refine List.mem_flatMap.mpr ⟨c, hc, ?_⟩
  rw [hquoted]
  exact List.mem_cons_self

/-! ### Unquoting undoes quoting -/

theorem unquoteToBytes_cons (h : c ≠ '%') :
    unquoteToBytes (c :: t) = c.toNat :: unquoteToBytes t := by
  rw [unquoteToBytes]
  intro a b t' hc
  exact absurd hc h

theorem unquoteToBytes_percentBytes (hb : ∀ b ∈ bs, b < 256) :
    unquoteToBytes (bs.flatMap percentByte ++ rest) = bs ++ unquoteToBytes rest := by
  induction bs with
  | nil => rfl
  | cons b bs ih =>
    have hlt := hb b List.mem_cons_self
    obtain ⟨hhex, hval, -⟩ := hexDigit_spec (n := b / 16) (by omega)
    obtain ⟨hhex', hval', -⟩ := hexDigit_spec (n := b % 16) (by omega)
    have hdiv : 16 * (b / 16) + b % 16 = b := Nat.div_add_mod b 16
    simp only [List.flatMap_cons, percentByte, List.cons_append, List.nil_append,
      unquoteToBytes, hhex, hhex', hval, hval', hdiv, Bool.and_self, if_true]
    rw [← ih fun d hd => hb d (List.mem_cons_of_mem _ hd)]

theorem unquoteToBytes_quote (h : ∀ c ∈ safe, c.toNat < 128 ∧ c ≠ '%') :
    unquoteToBytes (quote safe t) = Utf8.encode t := by
  induction t with
  | nil => rfl
  | cons c t ih =>
    rw [quote_cons, quoteChar]
    split
    · rename_i hc
      have hascii : c.toNat < 128 ∧ c ≠ '%' := by
        rw [Bool.or_eq_true, List.contains_iff_mem] at hc
        rcases hc with hc | hc
        · exact ⟨lt_of_alwaysSafe hc, by rintro rfl; revert hc; decide⟩
        · exact h c hc
      rw [List.singleton_append, unquoteToBytes_cons hascii.2, ih, Utf8.encode, Utf8.encode,
        List.flatMap_cons, Utf8.encodeChar]
      simp [hascii.1]
    · rw [unquoteToBytes_percentBytes fun b => encodeChar_lt, ih]
      rfl

theorem unquoteFrom_ascii (h : ∀ c ∈ t, c.toNat < 128) :
    unquoteFrom s t = Utf8.decode (unquoteToBytes (s ++ t)) := by
  induction t generalizing s with
  | nil => simp [unquoteFrom]
  | cons c t ih =>
    rw [unquoteFrom, if_pos (h c List.mem_cons_self), ih fun d hd => h d (List.mem_cons_of_mem _ hd)]
    simp

theorem unquote_quote (h : ∀ c ∈ safe, c.toNat < 128 ∧ c ≠ '%') : unquote (quote safe t) = t := by
  unfold unquote
  split
  · rw [unquoteFrom_ascii, List.nil_append, unquoteToBytes_quote h, Utf8.decode_encode]
    intro c hc
    rcases mem_quote hc with hc | hc | rfl
    · exact lt_of_alwaysSafe hc
    · exact (h c hc).1
    · decide
  · rename_i hp
    rw [List.contains_iff_mem] at hp
    exact quote_eq_self_of_noPercent hp

theorem unquotePlus_quotePlus : unquotePlus (quotePlus t) = t := by
  have hmap : ((quotePlus t).map fun c => if c = '+' then ' ' else c) = quote [' '] t := by
    rw [quotePlus, List.map_map]
    conv_rhs => rw [← List.map_id (quote [' '] t)]
    apply List.map_congr_left
    intro c hc
    have hplus : c ≠ '+' := by
      rintro rfl
      rcases mem_quote hc with hc | hc | hc <;> revert hc <;> decide
    by_cases hblank : c = ' '
    · simp [hblank]
    · simp [hblank, hplus]
  rw [unquotePlus, hmap]
  exact unquote_quote (forall_mem_of_all (by decide))

/-! ### Parsing undoes encoding -/

theorem mem_quotePlus (h : d ∈ quotePlus t) : alwaysSafe d = true ∨ d = '+' ∨ d = '%' := by
  obtain ⟨c, hc, rfl⟩ := List.mem_map.mp h
  split
  · exact Or.inr (Or.inl rfl)
  · rename_i hblank
    rcases mem_quote hc with hc | hc | hc
    · exact Or.inl hc
    · exact absurd (List.mem_singleton.mp hc) hblank
    · exact Or.inr (Or.inr hc)

theorem not_mem_quotePlus (hs : alwaysSafe d = false) (hd : d ≠ '+' ∧ d ≠ '%') :
    d ∉ quotePlus t := by
  intro h
  rcases mem_quotePlus h with h | h | h
  · rw [hs] at h
    contradiction
  · exact hd.1 h
  · exact hd.2 h

/-- The query string of a list of parameters parses to that list. -/
theorem parseQsl_urlencode (query : List (Text × Text)) : parseQsl (urlencode query) = query := by
  by_cases hq : query = []
  · subst hq
    decide
  have hsplit : (urlencode query).splitOn '&' =
      query.map fun p => quotePlus p.1 ++ '=' :: quotePlus p.2 := by
    apply List.splitOn_intercalate
    · intro l hl hamp
      obtain ⟨p, -, rfl⟩ := List.mem_map.mp hl
      rcases List.mem_append.mp hamp with h | h
      · exact not_mem_quotePlus (by decide) (by decide) h
      · rcases List.mem_cons.mp h with h | h
        · revert h
          decide
        · exact not_mem_quotePlus (by decide) (by decide) h
    · simpa using hq
  have hfilter : ∀ p ∈ (query.map fun p => quotePlus p.1 ++ '=' :: quotePlus p.2),
      decide (p ≠ []) = true := by
    intro l hl
    obtain ⟨p, -, rfl⟩ := List.mem_map.mp hl
    simp
  rw [parseQsl, hsplit, List.filter_eq_self.mpr hfilter, List.map_map]
  conv_rhs => rw [← List.map_id query]
  apply List.map_congr_left
  intro p _
  have heq : '=' ∉ quotePlus p.1 := not_mem_quotePlus (by decide) (by decide)
  simp [partition_append heq, unquotePlus_quotePlus]

end Newsintel.PyQuote
