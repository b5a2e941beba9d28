import Newsintel.Lib.PyUrl

/-!
# The `idna` codec (`encodings.idna`, `encodings.punycode`)

Encoding of a host name. `nameprep` is a matter of the Unicode 3.2 tables and enters
as a parameter; the rest follows the two modules. What comes out is ASCII, and has a
URL delimiter only if a label had one.
-/

namespace Newsintel.Idna

open PyText PyUrl

def isAscii (t : Text) : Bool := t.all (·.toNat < 128)

/-! ### Punycode -/

/-- `segregate`: the ASCII characters, and the other ones sorted. -/
def segregate (text : Text) : Text × List Char :=
  (text.filter (·.toNat < 128),
    ((text.filter (128 ≤ ·.toNat)).dedup).insertionSort fun c d => c.toNat ≤ d.toNat)

def selectiveLen (text : Text) (max : ℕ) : ℕ := text.countP (·.toNat < max)

/-- The loop over the occurrences of `char` (`selective_find`): the deltas, and the
last index. -/
def findDeltas (char : Char) : Text → ℤ → ℤ → ℤ → List ℕ × ℤ
  | [], _, oldIndex, _ => ([], oldIndex)
  | c :: text, index, oldIndex, delta =>
    if c = char then
      let (deltas, last) := findDeltas char text (index + 1) (index + 1) 0
      ((delta + (index + 1 - oldIndex) - 1).toNat :: deltas, last)
    else
      findDeltas char text (if c.toNat < char.toNat then index + 1 else index) oldIndex delta

/-- `insertion_unsort`, from a character on. -/
def insertionUnsort (text : Text) : List Char → ℕ → ℤ → List ℕ
  | [], _, _ => []
  | char :: extended, oldChar, oldIndex =>
    let delta : ℤ := (selectiveLen text char.toNat + 1) * (char.toNat - oldChar)
    let (deltas, last) := findDeltas char text (-1) oldIndex delta
    deltas ++ insertionUnsort text extended char.toNat last

/-- `T(j, bias)`. -/
def threshold (j bias : ℕ) : ℕ := max 1 (min 26 (36 * (j + 1) - bias))

theorem threshold_pos (j bias : ℕ) : 1 ≤ threshold j bias := le_max_left _ _

def digits : Text := "abcdefghijklmnopqrstuvwxyz0123456789".toList

def digit (n : ℕ) : Char := digits.getD n '0'

/-- `generate_generalized_integer`, from its `j`-th digit on. -/
def generalizedInteger (bias j n : ℕ) : Text :=
  let t := threshold j bias
  if n < t then [digit n]
  else digit (t + (n - t) % (36 - t)) :: generalizedInteger bias (j + 1) ((n - t) / (36 - t))
termination_by n
decreasing_by
  have ht := threshold_pos j bias
  have hle := Nat.div_le_self (n - threshold j bias) (36 - threshold j bias)
  omega

/-- The loop of `adapt`: what is left of `delta`, and `divisions`. -/
def divideDelta (delta divisions : ℕ) : ℕ × ℕ :=
  if 455 < delta then divideDelta (delta / 35) (divisions + 36) else (delta, divisions)
termination_by delta
decreasing_by exact Nat.div_lt_self (by omega) (by omega)

def adapt (delta : ℕ) (first : Bool) (numChars : ℕ) : ℕ :=
  let damped := if first then delta / 700 else delta / 2
  let (left, divisions) := divideDelta (damped + damped / numChars) 0
  divisions + 36 * left / (left + 38)

/-- `generate_integers`, from the delta number `points` on. -/
def generateIntegers (baseLen : ℕ) : ℕ → ℕ → List ℕ → Text
  | _, _, [] => []
  | points, bias, delta :: deltas =>
    generalizedInteger bias 0 delta ++
      generateIntegers baseLen (points + 1) (adapt delta (points = 0) (baseLen + points + 1)) deltas

def punycodeEncode (text : Text) : Text :=
  let parts := segregate text
  let integers := generateIntegers parts.1.length 0 72 (insertionUnsort text parts.2 0x80 (-1))
  if parts.1 ≠ [] then parts.1 ++ '-' :: integers else integers

/-! ### The codec -/

/-- `dots`. -/
def isDot (c : Char) : Bool := [0x2E, 0x3002, 0xFF0E, 0xFF61].contains c.toNat

def splitDots (host : Text) : List Text := host.splitOnP isDot

/-- `nameprep`. What `_checknetloc` lets through has no URL delimiter afterwards. -/
structure Nameprep (u : Unicode) where
  prepare : Text → Except PyError Text
  no_delimiter : ∀ r : SplitResult, r.netloc.all (!endsNetloc ·) = true →
    checkNetloc u r.netloc = true → ∀ label ∈ splitDots (hostname u r), ∀ t,
      prepare label = .ok t → ∀ c ∈ t, endsNetloc c = false

/-- No line break is mapped to, composed or decomposed to. -/
def KeepsLines (prepare : Text → Except PyError Text) : Prop :=
  ∀ label t, prepare label = .ok t → '\n' ∉ label → '\n' ∉ t

/-- For host names in ASCII, which `nameprep` never sees. -/
def asciiNameprep : Nameprep asciiUnicode where
  prepare := fun _ => .error .unicodeError
  no_delimiter := by
    intro r _ _ label _ t h
    contradiction

theorem asciiNameprep_keepsLines : KeepsLines asciiNameprep.prepare := nofun

/-- `0 < len(label) < 64`. -/
def checkSize (label : Text) : Except PyError Text :=
  if 0 < label.length && label.length < 64 then .ok label else .error .unicodeError

def toAscii (prepare : Text → Except PyError Text) (label : Text) : Except PyError Text :=
  if isAscii label then checkSize label
  else
    match prepare label with
    | .error e => .error e
    | .ok prepared =>
      if isAscii prepared then checkSize prepared
      else if "xn--".toList.isPrefixOf prepared then .error .unicodeError
      else checkSize ("xn--".toList ++ punycodeEncode prepared)

/-- The labels of a host, and its trailing dot. -/
def hostLabels (host : Text) : List Text × Text :=
  let labels := splitDots host
  if labels.getLast? = some [] then (labels.dropLast, ['.']) else (labels, [])

/-- `host.encode("idna")`, as text. -/
def encode (prepare : Text → Except PyError Text) (host : Text) : Except PyError Text :=
  if isAscii host then
    let labels := host.splitOn '.'
    if (labels.dropLast.all fun label => 0 < label.length && label.length < 64) &&
        (labels.getLastD []).length < 64 then .ok host
    else .error .unicodeError
  else
    match (hostLabels host).1.mapM (toAscii prepare) with
    | .error e => .error e
    | .ok encoded => .ok (['.'].intercalate encoded ++ (hostLabels host).2)

/-! ### Characters of an encoded host -/

/-- An ASCII character that does not end a netloc. -/
def HostChar (c : Char) : Prop := c.toNat < 128 ∧ endsNetloc c = false

instance (c : Char) : Decidable (HostChar c) := inferInstanceAs (Decidable (_ ∧ _))

variable {c : Char} {t label host : Text} {prepare : Text → Except PyError Text}

/-- The characters that the codec adds. -/
def codecText : Text := "abcdefghijklmnopqrstuvwxyz0123456789-.".toList

/-- An ASCII character that is not of a kind. -/
def AsciiExcept (bad : Char → Bool) (c : Char) : Prop := c.toNat < 128 ∧ bad c = false

variable {bad : Char → Bool}

theorem asciiExcept_codecText (hbad : codecText.all (!bad ·) = true) (hc : c ∈ codecText) :
    AsciiExcept bad c := by
  have hascii : ∀ d ∈ codecText, d.toNat < 128 := forall_mem_of_all (by decide)
  have hnot := List.all_eq_true.mp hbad c hc
  exact ⟨hascii c hc, by simpa using hnot⟩

theorem digit_mem (n : ℕ) : digit n ∈ codecText := by
  have hall : ∀ d ∈ digits, d ∈ codecText := forall_mem_of_all (by decide)
  unfold digit
  rw [List.getD_eq_getElem?_getD]
  cases h : digits[n]? with
  | none => decide
  | some d => exact hall d (List.mem_of_getElem? h)

theorem mem_generalizedInteger {bias j n : ℕ} (hc : c ∈ generalizedInteger bias j n) :
    c ∈ codecText := by
  induction j, n using generalizedInteger.induct bias with
  | case1 j n t hlt =>
    rw [generalizedInteger, if_pos hlt, List.mem_singleton] at hc
    exact hc ▸ digit_mem n
  | case2 j n t hge ih =>
    rw [generalizedInteger, if_neg hge, List.mem_cons] at hc
    rcases hc with rfl | hc
    · exact digit_mem _
    · exact ih hc

theorem mem_generateIntegers {baseLen points bias : ℕ} {deltas : List ℕ}
    (hc : c ∈ generateIntegers baseLen points bias deltas) : c ∈ codecText := by
  induction deltas generalizing points bias with
  | nil => contradiction
  | cons delta deltas ih =>
    rcases List.mem_append.mp hc with hc | hc
    · exact mem_generalizedInteger hc
    · exact ih hc

theorem asciiExcept_punycodeEncode (hbad : codecText.all (!bad ·) = true)
    (ht : ∀ c ∈ t, bad c = false) (hc : c ∈ punycodeEncode t) : AsciiExcept bad c := by
  have hbase : ∀ d ∈ (segregate t).1, AsciiExcept bad d := by
    intro d hd
    obtain ⟨hd, hascii⟩ := List.mem_filter.mp hd
    exact ⟨of_decide_eq_true hascii, ht d hd⟩
  simp only [punycodeEncode] at hc
  split at hc
  · rcases List.mem_append.mp hc with hc | hc
    · exact hbase c hc
    · rcases List.mem_cons.mp hc with rfl | hc
      · exact asciiExcept_codecText hbad (by decide)
      · exact asciiExcept_codecText hbad (mem_generateIntegers hc)
  · exact asciiExcept_codecText hbad (mem_generateIntegers hc)

theorem checkSize_ok (h : checkSize label = .ok t) :
    t = label ∧ 0 < label.length ∧ label.length < 64 := by
  unfold checkSize at h
  split at h
  · rename_i hlen
    rw [Bool.and_eq_true, decide_eq_true_eq, decide_eq_true_eq] at hlen
    exact ⟨(Except.ok.inj h).symm, hlen⟩
  · contradiction

theorem mem_of_isAscii (h : isAscii t = true) (hc : c ∈ t) : c.toNat < 128 :=
  of_decide_eq_true (List.all_eq_true.mp h c hc)

theorem asciiExcept_toAscii (hbad : codecText.all (!bad ·) = true)
    (hlabel : ∀ c ∈ label, bad c = false)
    (hprepare : ∀ p, prepare label = .ok p → ∀ c ∈ p, bad c = false)
    (h : toAscii prepare label = .ok t) (hc : c ∈ t) : AsciiExcept bad c := by
  unfold toAscii at h
  split at h
  · rename_i hascii
    obtain ⟨rfl, -⟩ := checkSize_ok h
    exact ⟨mem_of_isAscii hascii hc, hlabel c hc⟩
  · split at h
    · contradiction
    · rename_i p hp
      have hprepared := hprepare p hp
      split at h
      · rename_i hascii
        obtain ⟨rfl, -⟩ := checkSize_ok h
        exact ⟨mem_of_isAscii hascii hc, hprepared c hc⟩
      · split at h
        · contradiction
        · obtain ⟨rfl, -⟩ := checkSize_ok h
          rcases List.mem_append.mp hc with hc | hc
          · have hace : ∀ d ∈ "xn--".toList, d ∈ codecText := forall_mem_of_all (by decide)
            exact asciiExcept_codecText hbad (hace c hc)
          · exact asciiExcept_punycodeEncode hbad hprepared hc

theorem mem_intercalate {parts : List Text} {d : Char} (hc : c ∈ [d].intercalate parts) :
    c = d ∨ ∃ p ∈ parts, c ∈ p := by
  induction parts with
  | nil => contradiction
  | cons p parts ih =>
    cases parts with
    | nil => exact Or.inr ⟨p, by simpa using hc⟩
    | cons q parts =>
      rw [List.intercalate_cons_cons, List.mem_append, List.mem_append] at hc
      rcases hc with (hc | hc) | hc
      · exact Or.inr ⟨p, by simp, hc⟩
      · exact Or.inl (List.mem_singleton.mp hc)
      · exact (ih hc).imp_right fun ⟨r, hr, hcr⟩ => ⟨r, List.mem_cons_of_mem _ hr, hcr⟩

theorem mem_of_mapM_ok {α β ε : Type} {f : α → Except ε β} {xs : List α} {ys : List β}
    (h : xs.mapM f = .ok ys) : ∀ y ∈ ys, ∃ x ∈ xs, f x = .ok y := by
  induction xs generalizing ys with
  | nil =>
    rw [List.mapM_nil] at h
    obtain rfl := Except.ok.inj h
    simp
  | cons x xs ih =>
    rw [List.mapM_cons] at h
    cases hx : f x with
    | error e => rw [hx] at h; contradiction
    | ok y =>
      cases hxs : xs.mapM f with
      | error e => rw [hx, hxs] at h; contradiction
      | ok ys' =>
        rw [hx, hxs] at h
        obtain rfl := Except.ok.inj h
        intro z hz
        rcases List.mem_cons.mp hz with rfl | hz
        · exact ⟨x, by simp, hx⟩
        · obtain ⟨x', hx', hz⟩ := ih hxs z hz
          exact ⟨x', List.mem_cons_of_mem _ hx', hz⟩

/- The labels of a host are parts of it. -/
theorem mem_of_mem_splitOnP {p : Char → Bool} (hl : label ∈ t.splitOnP p) (hc : c ∈ label) :
    c ∈ t := by
  induction t generalizing label with
  | nil =>
    simp only [List.splitOnP_nil, List.mem_singleton] at hl
    exact hl ▸ hc
  | cons d t ih =>
    obtain ⟨v, vs, hv⟩ := List.exists_cons_of_ne_nil (List.splitOnP_ne_nil p t)
    rw [List.splitOnP_cons_eq_if_modifyHead, hv, List.modifyHead_cons] at hl
    split at hl
    · rcases List.mem_cons.mp hl with rfl | hl
      · contradiction
      · exact List.mem_cons_of_mem _ (ih (hv ▸ hl) hc)
    · rcases List.mem_cons.mp hl with rfl | hl
      · rcases List.mem_cons.mp hc with rfl | hc
        · exact List.mem_cons_self
        · exact List.mem_cons_of_mem _ (ih (by simp [hv]) hc)
      · exact List.mem_cons_of_mem _ (ih (by simp [hv, hl]) hc)

theorem hostLabels_spec (host : Text) : (∀ label ∈ (hostLabels host).1, label ∈ splitDots host) ∧
    ∀ d ∈ (hostLabels host).2, d = '.' := by
  unfold hostLabels
  simp only
  split
  · exact ⟨fun label hl => List.dropLast_subset _ hl, by simp⟩
  · exact ⟨fun label hl => hl, by simp⟩

/-- An encoded host is ASCII, and without characters of a kind that no label has or gets. -/
theorem asciiExcept_encode (hbad : codecText.all (!bad ·) = true)
    (hhost : ∀ c ∈ host, bad c = false)
    (hprepare : ∀ label ∈ splitDots host, ∀ p, prepare label = .ok p → ∀ c ∈ p, bad c = false)
    (h : encode prepare host = .ok t) (hc : c ∈ t) : AsciiExcept bad c := by
  unfold encode at h
  split at h
  · rename_i hascii
    simp only at h
    split at h
    · obtain rfl := Except.ok.inj h
      exact ⟨mem_of_isAscii hascii hc, hhost c hc⟩
    · contradiction
  · split at h
    · contradiction
    · rename_i encoded henc
      obtain rfl := Except.ok.inj h
      have hpoint : AsciiExcept bad '.' := asciiExcept_codecText hbad (by decide)
      obtain ⟨hlabels, hdot⟩ := hostLabels_spec host
      rcases List.mem_append.mp hc with hc | hc
      · rcases mem_intercalate hc with rfl | ⟨p, hp, hcp⟩
        · exact hpoint
        · obtain ⟨label, hl, hascii⟩ := mem_of_mapM_ok henc p hp
          have hmem := hlabels label hl
          exact asciiExcept_toAscii hbad (fun d hd => hhost d (mem_of_mem_splitOnP hmem hd))
            (hprepare label hmem) hascii hcp
      · exact hdot c hc ▸ hpoint

theorem hostChar_encode (hhost : ∀ c ∈ host, endsNetloc c = false)
    (hprepare : ∀ label ∈ splitDots host, ∀ p, prepare label = .ok p →
      ∀ c ∈ p, endsNetloc c = false)
    (h : encode prepare host = .ok t) (hc : c ∈ t) : HostChar c :=
  asciiExcept_encode (by decide) hhost hprepare h hc

end Newsintel.Idna
