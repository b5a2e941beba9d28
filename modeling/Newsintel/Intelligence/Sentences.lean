import Mathlib.Data.List.SplitBy
import Newsintel.Intelligence.Claims
import Newsintel.Lib.Delimited

/-!
# Sentences as runs of words (domain/intelligence/claims.py:85-111)

In a normalised text the pattern cuts at gaps between words: behind a word that ends with one of
`.!?`, before a word that begins with a capital letter, a digit or a quotation mark.
-/

namespace Newsintel.Intelligence

open PyText Regex

/-- `(?<=[.!?])`. -/
def endsSentence (before : Option Char) : Bool := (before.map ".!?".toList.contains).getD false

/-- `(?=[A-Z0-9\"'])`. -/
def opensSentence (after : Option Char) : Bool :=
  (after.map fun c => isUpper c || ('0' ≤ c && c ≤ '9') || "\"'".toList.contains c).getD false

/-- The gap between the two words is no boundary. -/
def sameSentence (v w : Text) : Bool := !(endsSentence v.getLast? && opensSentence w.head?)

/-! ### The pattern at a position -/

section pattern

variable {c d : Char} {t : Text} {prev : Option Char}

theorem run_space (hc : isSpace c = false) (n : ℕ) (prev : Option Char) :
    repeatFrom (run space) n (prev, c :: t) = [(prev, c :: t)] := by
  cases n with
  | zero => rfl
  | succ n => simp [repeatFrom, space, run, hc]

theorem sentenceBoundaryPattern_eq : sentenceBoundaryPattern =
    .seq (.between fun before _ => endsSentence before)
      (.seq (plus space) (.seq (.between fun _ after => opensSentence after) .empty)) := rfl

theorem matchAt_of_no_gap (h : run (plus space) (prev, t) = []) :
    matchAt sentenceBoundaryPattern (prev, t) = none := by
  rw [matchAt, sentenceBoundaryPattern_eq, run, run]
  cases endsSentence prev with
  | false => rfl
  | true =>
    rw [if_pos rfl, List.flatMap_singleton, run, h]
    rfl

theorem matchAt_nil : matchAt sentenceBoundaryPattern (prev, []) = none := matchAt_of_no_gap rfl

theorem matchAt_word (hc : isSpace c = false) :
    matchAt sentenceBoundaryPattern (prev, c :: t) = none := by
  apply matchAt_of_no_gap
  simp [plus, space, run, hc]

/- A single blank before a word. -/
theorem matchAt_gap (hd : isSpace d = false) :
    matchAt sentenceBoundaryPattern (prev, ' ' :: d :: t) =
      if endsSentence prev && opensSentence (some d) then some (some ' ', d :: t) else none := by
  have hblank : isSpace ' ' = true := by decide
  have hgap : run (plus space) (prev, ' ' :: d :: t) = [(some ' ', d :: t)] := by
    have hchar : run space (prev, ' ' :: d :: t) = [(some ' ', d :: t)] := by
      simp [space, run, hblank]
    rw [plus, run, hchar, List.flatMap_singleton, run, run_space hd]
  rw [matchAt, sentenceBoundaryPattern_eq, run, run]
  cases hends : endsSentence prev with
  | false => rfl
  | true =>
    rw [if_pos rfl, List.flatMap_singleton, run, hgap, List.flatMap_singleton, run, run,
      List.head?_cons]
    cases opensSentence (some d) <;> rfl

end pattern

/-! ### The cuts of a text -/

section cuts

variable {w : Text} {ws : List Text}

/-- A text as `split` yields it. -/
def IsWord (w : Text) : Prop := w ≠ [] ∧ ∀ c ∈ w, isSpace c = false

theorem isWord_of_mem_words {text : Text} (h : w ∈ words text) : IsWord w :=
  ⟨ne_nil_of_mem_words h, not_of_mem_splitOnP (List.mem_filter.mp h).1⟩

/- A scan takes a word as a whole. -/
theorem scan_word (hw : ∀ c ∈ w, isSpace c = false) (n : ℕ) (piece : Text) (prev : Option Char)
    (rest : Text) :
    scan sentenceBoundaryPattern (n + w.length) piece (prev, w ++ rest) =
      scan sentenceBoundaryPattern n (w.reverse ++ piece) (w.getLast?.or prev, rest) := by
  induction w generalizing piece prev with
  | nil => rfl
  | cons c w ih =>
    obtain ⟨hc, hw⟩ := List.forall_mem_cons.mp hw
    rw [List.length_cons, ← Nat.add_assoc, List.cons_append, scan, matchAt_word hc]
    simp only
    rw [ih hw, Delimited.getLast?_cons_or, List.reverse_cons, List.append_assoc]
    rfl

theorem splitBy_cons_cons {α : Type*} (r : α → α → Bool) (a b : α) (l : List α) :
    (a :: b :: l).splitBy r =
      if r a b then ((b :: l).splitBy r).modifyHead (a :: ·) else [a] :: (b :: l).splitBy r := by
  cases hr : r a b with
  | false =>
    have hcut := List.splitBy_append_cons (r := r) (l := [a]) (a := b) l (by simpa using hr)
    rw [List.splitBy_of_isChain (List.cons_ne_nil a []) (List.isChain_singleton a)] at hcut
    exact hcut
  | true =>
    have hgroups := List.splitBy_eq_iff.mp (rfl : (b :: l).splitBy r = _)
    obtain ⟨hflat, hnil, hchain, hcuts⟩ := hgroups
    cases hl : (b :: l).splitBy r with
    | nil => exact absurd hl (List.splitBy_ne_nil.mpr (List.cons_ne_nil b l))
    | cons g gs =>
      rw [hl] at hflat hnil hchain hcuts
      obtain ⟨c, g, rfl⟩ :=
        List.exists_cons_of_ne_nil fun hg : g = [] => hnil (hg ▸ List.mem_cons_self)
      rw [List.flatten_cons, List.cons_append, List.cons.injEq] at hflat
      obtain ⟨rfl, hrest⟩ := hflat
      rw [if_pos rfl, List.modifyHead_cons, List.splitBy_eq_iff]
      obtain ⟨hfirst, hothers⟩ := List.forall_mem_cons.mp hchain
      refine ⟨by rw [hrest]; rfl, ?_, ?_, ?_⟩
      · intro hmem
        obtain hmem | hmem := List.mem_cons.mp hmem
        · cases hmem
        · exact hnil (List.mem_cons_of_mem _ hmem)
      · exact List.forall_mem_cons.mpr
          ⟨List.isChain_cons_cons.mpr ⟨by simpa using hr, hfirst⟩, hothers⟩
      · cases gs with
        | nil => exact List.isChain_singleton _
        | cons g' gs =>
          obtain ⟨⟨_, hb, hlast⟩, htail⟩ := List.isChain_cons_cons.mp hcuts
          refine List.isChain_cons_cons.mpr ⟨⟨List.cons_ne_nil _ _, hb, ?_⟩, htail⟩
          rw [List.getLast_cons (List.cons_ne_nil _ _)]
          exact hlast

theorem join_cons_head {d : Char} (w : Text) (ws : List Text) :
    ∃ t, join ((d :: w) :: ws) = d :: t := by
  cases ws with
  | nil => exact ⟨w, join_singleton (d :: w)⟩
  | cons w' ws => exact ⟨w ++ ' ' :: join (w' :: ws), join_cons (d :: w) (List.cons_ne_nil _ _)⟩

/- By induction over the words: a gap ends the piece, or goes on with it. -/
theorem scan_join (hword : IsWord w) (hws : ∀ v ∈ ws, IsWord v) (piece : Text)
    (prev : Option Char) {n : ℕ} (hn : (join (w :: ws)).length < n) :
    (scan sentenceBoundaryPattern n piece (prev, join (w :: ws))).map Prod.fst =
      (((w :: ws).splitBy sameSentence).map join).modifyHead (piece.reverse ++ ·) := by
  induction ws generalizing w piece prev n with
  | nil =>
    rw [join_singleton] at hn ⊢
    obtain ⟨m, rfl⟩ : ∃ m, n = m + 1 + w.length := ⟨n - 1 - w.length, by omega⟩
    have hscan := scan_word hword.2 (m + 1) piece prev []
    rw [List.append_nil] at hscan
    rw [hscan, scan, matchAt_nil,
      List.splitBy_of_isChain (List.cons_ne_nil w []) (List.isChain_singleton w)]
    simp [join_singleton]
  | cons w' ws ih =>
    obtain ⟨hword', hwords⟩ := List.forall_mem_cons.mp hws
    obtain ⟨d, w'', rfl⟩ := List.exists_cons_of_ne_nil hword'.1
    obtain ⟨t, ht⟩ := join_cons_head (d := d) w'' ws
    have hd : isSpace d = false := hword'.2 d List.mem_cons_self
    have hjoin : join (w :: (d :: w'') :: ws) = w ++ ' ' :: join ((d :: w'') :: ws) :=
      join_cons w (List.cons_ne_nil _ _)
    rw [hjoin, List.length_append, List.length_cons] at hn
    obtain ⟨m, rfl⟩ : ∃ m, n = m + 1 + w.length := ⟨n - 1 - w.length, by omega⟩
    have hne : w ≠ [] := hword.1
    have hlast : w.getLast?.or prev = w.getLast? := by
      rw [List.getLast?_eq_some_getLast hne, Option.some_or]
    rw [hjoin, scan_word hword.2, hlast, splitBy_cons_cons, scan, ht, matchAt_gap hd, ← ht]
    cases hcut : endsSentence w.getLast? && opensSentence (some d) with
    | true =>
      have hsame : sameSentence w (d :: w'') = false := by
        rw [sameSentence, List.head?_cons, hcut]
        rfl
      have hrest := ih hword' hwords [] (some ' ') (n := m) (by omega)
      simp only [if_true, List.length_cons, Nat.lt_succ_self, hsame, Bool.false_eq_true, if_false,
        List.map_cons, List.modifyHead_cons, join_singleton, List.reverse_append,
        List.reverse_reverse]
      rw [hrest]
      congr 1
      cases ((d :: w'') :: ws).splitBy sameSentence <;> rfl
    | false =>
      have hsame : sameSentence w (d :: w'') = true := by
        rw [sameSentence, List.head?_cons, hcut]
        rfl
      have hrest := ih hword' hwords (' ' :: (w.reverse ++ piece)) (some ' ') (n := m) (by omega)
      simp only [Bool.false_eq_true, if_false, hsame, if_true]
      rw [hrest]
      cases hgroups : ((d :: w'') :: ws).splitBy sameSentence with
      | nil => exact absurd hgroups (List.splitBy_ne_nil.mpr (List.cons_ne_nil _ _))
      | cons g gs =>
        have hg : g ≠ [] :=
          List.ne_nil_of_mem_splitBy (hgroups ▸ List.mem_cons_self)
        simp [join_cons w hg]

theorem words_join_eq (h : ∀ v ∈ ws, IsWord v) : words (join ws) = ws := by
  rw [words_join]
  induction ws with
  | nil => rfl
  | cons w ws ih =>
    obtain ⟨hw, hws⟩ := List.forall_mem_cons.mp h
    rw [List.flatMap_cons, words_eq_singleton hw.1 hw.2, ih hws]
    rfl

theorem join_flatten {groups : List (List Text)} (h : ∀ g ∈ groups, g ≠ []) (hne : groups ≠ []) :
    join (groups.map join) = join groups.flatten := by
  induction groups with
  | nil => exact absurd rfl hne
  | cons g gs ih =>
    obtain ⟨hg, hgs⟩ := List.forall_mem_cons.mp h
    cases gs with
    | nil => rw [List.map_singleton, join_singleton, List.flatten_singleton]
    | cons g' gs =>
      have hflat : (g' :: gs).flatten ≠ [] := by
        rw [List.flatten_cons]
        exact List.append_ne_nil_of_left_ne_nil (hgs g' List.mem_cons_self) _
      have hcons : (g :: g' :: gs).flatten = g ++ (g' :: gs).flatten := List.flatten_cons
      rw [List.map_cons, join_cons (join g) (by simp), ih hgs (List.cons_ne_nil _ _), hcons,
        join_append hg hflat]

end cuts

/-! ### Sentences -/

section sentences

variable {text s : Text} {g : List Text}

/-- The sentences of a text, as runs of words. -/
def sentenceWords (text : Text) : List (List Text) := (words text).splitBy sameSentence

theorem mem_sentenceWords (h : g ∈ sentenceWords text) :
    g ≠ [] ∧ (∀ w ∈ g, IsWord w) ∧ g.IsChain fun v w => sameSentence v w = true := by
  refine ⟨List.ne_nil_of_mem_splitBy h, ?_, List.isChain_of_mem_splitBy h⟩
  intro w hw
  have hmem : w ∈ words text := by
    rw [← List.flatten_splitBy sameSentence (words text)]
    exact List.mem_flatten.mpr ⟨g, h, hw⟩
  exact isWord_of_mem_words hmem

theorem splitSentences_eq (text : Text) :
    splitSentences text = (sentenceWords text).map join := by
  have hpieces : ∀ t ∈ (sentenceWords text).map join, normalizeText t = t ∧ t ≠ [] := by
    intro t ht
    obtain ⟨g, hg, rfl⟩ := List.mem_map.mp ht
    obtain ⟨hne, hwords, _⟩ := mem_sentenceWords hg
    refine ⟨by rw [normalizeText_eq, words_join_eq hwords], ?_⟩
    rw [Ne, join_eq_nil fun w hw => (hwords w hw).1]
    exact hne
  have hall : ∀ w ∈ words text, IsWord w := fun w => isWord_of_mem_words
  have hempty := join_eq_nil fun w hw => (hall w hw).1
  unfold splitSentences
  rw [normalizeText_eq]
  by_cases hne : words text = []
  · rw [if_pos (hempty.mpr hne), sentenceWords, hne]
    rfl
  · rw [if_neg (mt hempty.mp hne)]
    obtain ⟨w, ws, hsplit⟩ := List.exists_cons_of_ne_nil hne
    have hcuts : split sentenceBoundaryPattern (join (words text)) =
        (sentenceWords text).map join := by
      rw [hsplit] at hall
      obtain ⟨hw, hws⟩ := List.forall_mem_cons.mp hall
      rw [split, sentenceWords, hsplit, scan_join hw hws [] none (Nat.lt_succ_self _)]
      cases ((w :: ws).splitBy sameSentence).map join <;> rfl
    have hnormal : ((sentenceWords text).map join).map normalizeText =
        (sentenceWords text).map join := by
      conv_rhs => rw [← List.map_id ((sentenceWords text).map join)]
      exact List.map_congr_left fun t ht => (hpieces t ht).1
    rw [hcuts, hnormal, List.filter_eq_self]
    exact fun t ht => decide_eq_true (hpieces t ht).2

theorem join_splitSentences (text : Text) : join (splitSentences text) = normalizeText text := by
  rw [splitSentences_eq, normalizeText_eq]
  by_cases hnil : words text = []
  · rw [sentenceWords, hnil]
    rfl
  · rw [join_flatten (fun g hg => (mem_sentenceWords hg).1) (List.splitBy_ne_nil.mpr hnil),
      sentenceWords, List.flatten_splitBy]

/- No gap inside a sentence is a boundary. -/
theorem splitSentences_of_mem (h : s ∈ splitSentences text) : splitSentences s = [s] := by
  rw [splitSentences_eq] at h
  obtain ⟨g, hg, rfl⟩ := List.mem_map.mp h
  obtain ⟨hne, hwords, hchain⟩ := mem_sentenceWords hg
  rw [splitSentences_eq, sentenceWords, words_join_eq hwords, List.splitBy_of_isChain hne hchain]
  rfl

end sentences

/-! ### Quotations -/

/-- `extract_claims(text, max_claims=max_claims)`. -/
def extractClaimsUpTo (u : Unicode) (maxClaims : ℕ) (text : Text) : List ExtractedClaim :=
  extractFrom u maxClaims 0 [] (splitSentences text)

/-- The candidate sentences with their indices. -/
def candidateSentences (u : Unicode) (text : Text) : List (Text × ℕ) :=
  (splitSentences text).zipIdx.filter fun s => (claimFeatures u s.1).isClaimCandidate

theorem extractClaimsUpTo_eq {u : Unicode} {maxClaims : ℕ} {text : Text} (h : 1 ≤ maxClaims) :
    extractClaimsUpTo u maxClaims text =
      ((candidateSentences u text).take maxClaims).map (claimOf u) :=
  extractFrom_eq h

/- An article is stored with the claims of its first 25 candidates. -/
theorem extractClaims_eq (u : Unicode) (text : Text) :
    extractClaims u text = ((candidateSentences u text).take 25).map (claimOf u) :=
  extractClaimsUpTo_eq (by decide)

/- Sentences are lossless and stable, and claims are the first candidates, quoted with their
indices. -/
theorem sentences_quoted (u : Unicode) (text : Text) (maxClaims : ℕ) (h : 1 ≤ maxClaims) :
    join (splitSentences text) = normalizeText text ∧
      (∀ s ∈ splitSentences text, splitSentences s = [s]) ∧
      extractClaimsUpTo u maxClaims text =
        ((candidateSentences u text).take maxClaims).map (claimOf u) ∧
      (∀ c ∈ extractClaimsUpTo u maxClaims text,
        (splitSentences text)[c.sentenceIndex]? = some c.text) ∧
      ((extractClaimsUpTo u maxClaims text).map (·.sentenceIndex)).Pairwise (· < ·) := by
  refine ⟨join_splitSentences text, fun s => splitSentences_of_mem, extractClaimsUpTo_eq h, ?_, ?_⟩
  · intro c hc
    rw [extractClaimsUpTo_eq h] at hc
    obtain ⟨s, hs, rfl⟩ := List.mem_map.mp hc
    exact List.mem_zipIdx_iff_getElem?.mp (List.mem_filter.mp (List.mem_of_mem_take hs)).1
  · rw [extractClaimsUpTo_eq h, List.map_map]
    have hindices : ((splitSentences text).zipIdx.map Prod.snd).Pairwise (· < ·) := by
      rw [List.zipIdx_map_snd]
      exact List.pairwise_lt_range'
    have hsub := ((List.take_sublist maxClaims (candidateSentences u text)).trans
      List.filter_sublist).map Prod.snd
    exact hindices.sublist hsub

/-- Three sentences, of which the last two are candidates. -/
def newsText : Text :=
  ("Talks stalled.  The company reported revenue of 18 crore in June this year. " ++
    "A court in Delhi ordered the firm to pay 40 lakh.").toList

/- With a limit of one the first candidate is quoted, and no other. -/
theorem newsText_quoted :
    (splitSentences newsText).length = 3 ∧
      (candidateSentences asciiUnicode newsText).map Prod.snd = [1, 2] ∧
      (extractClaimsUpTo asciiUnicode 1 newsText).map (fun c => (c.text, c.sentenceIndex)) =
        [("The company reported revenue of 18 crore in June this year.".toList, 1)] := by
  have hquoted := sentences_quoted asciiUnicode newsText 1 le_rfl
  have hcandidates : (candidateSentences asciiUnicode newsText).map Prod.snd = [1, 2] := by
    decide +kernel
  refine ⟨by decide +kernel, hcandidates, ?_⟩
  rw [hquoted.2.2.1]
  decide +kernel

end Newsintel.Intelligence
