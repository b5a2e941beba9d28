import Newsintel.Acquisition.Canonicalization

/-!
# Netlocs that read back

The netloc of a canonical URL is written from a host and a port and read again by
`urlsplit`. Bracketed hosts lose their brackets on the way out, and a host may get
dots and brackets from the `idna` codec; which netlocs read back as themselves is
said here exactly.
-/

namespace Newsintel.Acquisition

open PyText PyUrl

/-- Labels of admitted length, and no character that means something in a netloc. -/
structure PlainHost (host : Text) : Prop where
  labels : ∀ label ∈ host.splitOn '.', 0 < label.length ∧ label.length < 64
  chars : ∀ c ∈ "[]@:\t\r\n".toList, c ∉ host

/-- A plain host, with a port that the scheme keeps. -/
def ReadsBack (scheme netloc : Text) : Prop :=
  ∃ host port, netloc = canonicalNetloc host port ∧ PlainHost host ∧
    keptPort scheme port = port ∧ ∀ p ∈ port, p ≤ 65535

variable {c : Char} {t host netloc scheme : Text} {labels : List Text} {port : Option ℕ} {p : ℕ}

/-! ### Ports -/

theorem decimalValue_toDigits (p : ℕ) : decimalValue (Nat.toDigits 10 p) = p :=
  Nat.ofDigitChars_ten_toDigits

theorem isDigit_toDigits (hc : c ∈ Nat.toDigits 10 p) : isDigit c = true := by
  have hdigit := Nat.isDigit_of_mem_toDigits (by decide) (by decide) hc
  simp only [Char.isDigit, Bool.and_eq_true, decide_eq_true_eq] at hdigit
  simp only [isDigit, Bool.and_eq_true, decide_eq_true_eq]
  exact hdigit

theorem keptPort_some (h : keptPort scheme port = some p) : port = some p ∧ p ≠ 0 := by
  obtain ⟨hp, hkeep⟩ := Option.filter_eq_some_iff.mp h
  rw [Bool.and_eq_true, decide_eq_true_eq] at hkeep
  exact ⟨hp, hkeep.1⟩

theorem keptPort_idem : keptPort scheme (keptPort scheme port) = keptPort scheme port := by
  cases h : keptPort scheme port with
  | none => rfl
  | some p =>
    obtain ⟨rfl, -⟩ := keptPort_some h
    exact h

/-! ### Trailing dots -/

theorem rstripDots_sublist : (rstripDots t).Sublist t := by
  have h := (List.dropWhile_sublist (fun d => decide (d = '.')) (l := t.reverse)).reverse
  rw [List.reverse_reverse] at h
  exact h

theorem rstripDots_append_of_ne (h : c ≠ '.') : rstripDots (t ++ [c]) = t ++ [c] := by
  simp [rstripDots, h]

theorem rstripDots_append_dot : rstripDots (t ++ ['.']) = rstripDots t := by
  simp [rstripDots]

theorem splitOn_getLast_ne_nil (labels : List Text) (h : c ≠ '.')
    (hl : t ++ [c] = ['.'].intercalate (labels ++ [[]])) : False := by
  have hends : ∀ labels : List Text, ['.'].intercalate (labels ++ [[]]) = [] ∨
      ∃ init, ['.'].intercalate (labels ++ [[]]) = init ++ ['.'] := by
    intro labels
    induction labels with
    | nil => exact Or.inl rfl
    | cons label labels ih =>
      right
      rw [List.cons_append, List.intercalate_cons_of_ne_nil (by simp)]
      rcases ih with hnil | ⟨init, hinit⟩
      · exact ⟨label, by rw [hnil, List.append_nil]⟩
      · exact ⟨label ++ ['.'] ++ init, by simp [hinit]⟩
  rcases hends labels with hnil | ⟨init, hinit⟩
  · rw [hnil] at hl
    simp at hl
  · rw [hinit] at hl
    exact h (by simpa using congrArg List.getLast? hl)

/- A host without empty labels does not end with a dot. -/
theorem rstripDots_eq_self (h : ∀ label ∈ t.splitOn '.', label ≠ []) : rstripDots t = t := by
  rcases List.eq_nil_or_concat t with rfl | ⟨init, c, rfl⟩
  · exact absurd rfl (h [] (by simp))
  · by_cases hc : c = '.'
    · subst hc
      have hlabels := List.splitOn_append_cons_self (a := '.') init []
      exact absurd rfl (h [] (by simp [hlabels]))
    · rw [List.concat_eq_append]
      exact rstripDots_append_of_ne hc

/- The labels that the fast path of the codec lets through, the trailing dot gone. -/
theorem labels_rstripDots (hne : t ≠ [])
    (hinit : ∀ label ∈ (t.splitOn '.').dropLast, 0 < label.length ∧ label.length < 64)
    (hlast : ((t.splitOn '.').getLastD []).length < 64) :
    ∀ label ∈ (rstripDots t).splitOn '.', 0 < label.length ∧ label.length < 64 := by
  rcases List.eq_nil_or_concat t with rfl | ⟨init, c, rfl⟩
  · exact absurd rfl hne
  · by_cases hc : c = '.'
    · subst hc
      have hlabels : (init ++ ['.']).splitOn '.' = init.splitOn '.' ++ [[]] := by
        simpa using List.splitOn_append_cons_self (a := '.') init []
      rw [List.concat_eq_append, hlabels, List.dropLast_concat] at hinit
      rw [List.concat_eq_append, rstripDots_append_dot, rstripDots_eq_self]
      · exact hinit
      · intro label hl hnil
        have := (hinit label hl).1
        simp [hnil] at this
    · rw [List.concat_eq_append] at *
      rw [rstripDots_append_of_ne hc]
      obtain ⟨labels, last, hlabels⟩ := List.eq_nil_or_concat'
        ((init ++ [c]).splitOn '.') |>.resolve_left (List.splitOn_ne_nil _ _)
      rw [hlabels] at hinit hlast ⊢
      rw [List.dropLast_concat] at hinit
      intro label hl
      rcases List.mem_append.mp hl with hl | hl
      · exact hinit label hl
      · obtain rfl := List.mem_singleton.mp hl
        refine ⟨?_, by simpa using hlast⟩
        rw [List.length_pos_iff]
        rintro rfl
        apply splitOn_getLast_ne_nil labels hc
        rw [← hlabels, List.intercalate_splitOn]

/-! ### Host information -/

theorem hostInfo_plain (h : '[' ∉ netloc) :
    hostInfo netloc = ((partition ':' (afterLast '@' netloc)).1,
      ((partition ':' (afterLast '@' netloc)).2).getD []) := by
  have hlast : '[' ∉ afterLast '@' netloc := fun hc => h (afterLast_sublist.subset hc)
  unfold hostInfo
  rw [partition_of_not_mem hlast]

/- A host read between brackets ends at the first closing one. -/
theorem hostInfo_brackets :
    ¬ ('[' ∈ (hostInfo netloc).1 ∧ ']' ∈ (hostInfo netloc).1) := by
  rintro ⟨hopen, hclose⟩
  cases hp : (partition '[' (afterLast '@' netloc)).2 with
  | none =>
    obtain ⟨hfst, hnot⟩ := partition_none hp
    unfold hostInfo at hopen
    rw [partition_of_not_mem hnot] at hopen
    exact hnot (partition_fst_sublist.subset hopen)
  | some bracketed =>
    have hpair : partition '[' (afterLast '@' netloc) =
        ((partition '[' (afterLast '@' netloc)).1, some bracketed) := by rw [← hp]
    unfold hostInfo at hclose
    rw [hpair] at hclose
    exact not_mem_partition_fst hclose

theorem hostInfo_subset : ∀ c ∈ (hostInfo netloc).1, c ∈ netloc := by
  intro c hc
  apply afterLast_sublist.subset
  unfold hostInfo at hc
  cases hp : (partition '[' (afterLast '@' netloc)).2 with
  | none =>
    rw [partition_of_not_mem (partition_none hp).2] at hc
    exact partition_fst_sublist.subset hc
  | some bracketed =>
    have hpair : partition '[' (afterLast '@' netloc) =
        ((partition '[' (afterLast '@' netloc)).1, some bracketed) := by rw [← hp]
    rw [hpair] at hc
    rw [partition_some hp]
    exact List.mem_append_right _ (List.mem_cons_of_mem _ (partition_fst_sublist.subset hc))

/- The host of a netloc without brackets has no character of the netloc syntax. -/
theorem hostInfo_chars (hopen : '[' ∉ netloc) (hclose : ']' ∉ netloc)
    (hsafe : ∀ c ∈ netloc, isUnsafe c = false) :
    ∀ c ∈ "[]@:\t\r\n".toList, c ∉ (hostInfo netloc).1 := by
  have hcases : ∀ c ∈ "[]@:\t\r\n".toList,
      c = '[' ∨ c = ']' ∨ c = '@' ∨ c = ':' ∨ isUnsafe c = true :=
    forall_mem_of_all (by decide)
  intro c hc hmem
  rcases hcases c hc with rfl | rfl | rfl | rfl | hunsafe
  · exact hopen (hostInfo_subset _ hmem)
  · exact hclose (hostInfo_subset _ hmem)
  · rw [hostInfo_plain hopen] at hmem
    exact not_mem_afterLast (partition_fst_sublist.subset hmem)
  · rw [hostInfo_plain hopen] at hmem
    exact not_mem_partition_fst hmem
  · rw [hsafe c (hostInfo_subset _ hmem)] at hunsafe
    cases hunsafe

theorem port_le {r : SplitResult} (h : PyUrl.port r = .ok (some p)) : p ≤ 65535 := by
  unfold PyUrl.port at h
  simp only at h
  split at h
  · exact absurd (Except.ok.inj h) (by simp)
  · split at h
    · rename_i hok
      rw [Bool.and_eq_true, decide_eq_true_eq] at hok
      obtain rfl := Option.some.inj (Except.ok.inj h)
      exact hok.2
    · contradiction

theorem lower_eq_self {u : Unicode} (h : ∀ c ∈ t, c.toNat < 128 ∧ c.toLower = c) :
    u.lower t = t := by
  rw [u.lower_ascii t fun c hc => (h c hc).1]
  exact map_toLower_eq_self fun c hc => (h c hc).2

/- A host in lower case is its own name. -/
theorem hostname_eq {u : Unicode} {r : SplitResult}
    (h : ∀ c ∈ (hostInfo r.netloc).1, c.toNat < 128 ∧ c.toLower = c) :
    hostname u r = (hostInfo r.netloc).1 := by
  rw [hostname_parts, lower_eq_self fun c hc => h c (partition_fst_sublist.subset hc)]
  exact partition_parts

/-- The size checks of the codec's fast path. -/
def LabelsOk (host : Text) : Prop :=
  (∀ label ∈ (host.splitOn '.').dropLast, 0 < label.length ∧ label.length < 64) ∧
    ((host.splitOn '.').getLastD []).length < 64

theorem encode_ascii (prepare : Text → Except PyError Text) (h : ∀ c ∈ host, c.toNat < 128) :
    Idna.encode prepare host = .ok t ↔ LabelsOk host ∧ t = host := by
  have hascii : Idna.isAscii host = true :=
    List.all_eq_true.mpr fun c hc => decide_eq_true (h c hc)
  unfold Idna.encode LabelsOk
  rw [if_pos hascii]
  simp only
  split
  · rename_i hok
    simp only [Bool.and_eq_true, List.all_eq_true, decide_eq_true_eq] at hok
    refine ⟨fun h => ⟨hok, (Except.ok.inj h).symm⟩, ?_⟩
    rintro ⟨-, rfl⟩
    rfl
  · rename_i hbad
    simp only [Bool.and_eq_true, List.all_eq_true, decide_eq_true_eq] at hbad
    refine ⟨fun h => by contradiction, ?_⟩
    rintro ⟨hok, -⟩
    exact absurd hok hbad

/- A canonical host is what the codec makes of the host name, lower-cased and cut at its ends. -/
theorem canonicalHost_encoded {u : Unicode} {nameprep : Idna.Nameprep u} {parsed : SplitResult}
    {stripWww : Bool} {host : Text} (h : canonicalHost u nameprep stripWww parsed = .ok host) :
    ∃ encoded, Idna.encode nameprep.prepare (hostname u parsed) = .ok encoded ∧
      ∀ c ∈ host, c ∈ u.lower encoded := by
  unfold canonicalHost at h
  split at h
  · contradiction
  · rename_i encoded hencoded
    obtain rfl := Except.ok.inj h
    refine ⟨encoded, hencoded, fun c hc => rstripDots_sublist.subset ?_⟩
    split at hc
    · exact (List.drop_sublist _ _).subset hc
    · exact hc

/- A host name in ASCII is lower-cased once more. -/
theorem canonicalHost_lower {u : Unicode} {nameprep : Idna.Nameprep u} {parsed : SplitResult}
    (h : ∀ c ∈ hostname u parsed, c.toNat < 128) :
    canonicalHost u nameprep false parsed = .ok t ↔
      LabelsOk (hostname u parsed) ∧ t = rstripDots ((hostname u parsed).map Char.toLower) := by
  unfold canonicalHost
  cases hencoded : Idna.encode nameprep.prepare (hostname u parsed) with
  | error e =>
    refine iff_of_false nofun ?_
    rintro ⟨hok, -⟩
    rw [(encode_ascii _ h).mpr ⟨hok, rfl⟩] at hencoded
    cases hencoded
  | ok encoded =>
    obtain ⟨hok, rfl⟩ := (encode_ascii _ h).mp hencoded
    simp only [Bool.false_and, Bool.false_eq_true, if_false, u.lower_ascii _ h]
    exact ⟨fun h => ⟨hok, (Except.ok.inj h).symm⟩, fun h => by rw [h.2]⟩

theorem canonicalHost_ascii {u : Unicode} {nameprep : Idna.Nameprep u} {r : SplitResult}
    (h : ∀ c ∈ hostname u r, c.toNat < 128 ∧ c.toLower = c) :
    canonicalHost u nameprep false r = .ok t ↔
      LabelsOk (hostname u r) ∧ t = rstripDots (hostname u r) := by
  rw [canonicalHost_lower fun c hc => (h c hc).1, map_toLower_eq_self fun c hc => (h c hc).2]

/-! ### Reading a netloc back -/

section readBack

variable {u : Unicode} {nameprep : Idna.Nameprep u} {r : SplitResult}

theorem mem_canonicalNetloc (hc : c ∈ canonicalNetloc host port) :
    c ∈ host ∨ c = ':' ∨ isDigit c = true := by
  cases port with
  | none => exact Or.inl hc
  | some p =>
    rcases List.mem_append.mp hc with hc | hc
    · exact Or.inl hc
    · rcases List.mem_cons.mp hc with rfl | hc
      · exact Or.inr (Or.inl rfl)
      · exact Or.inr (Or.inr (isDigit_toDigits hc))

theorem not_mem_canonicalNetloc (hhost : c ∉ host) (hcolon : c ≠ ':') (hdigit : isDigit c = false) :
    c ∉ canonicalNetloc host port := by
  intro hc
  rcases mem_canonicalNetloc hc with h | h | h
  · exact hhost h
  · exact hcolon h
  · rw [hdigit] at h
    contradiction

theorem PlainHost.ne_nil (h : PlainHost host) : host ≠ [] := by
  rintro rfl
  have := (h.labels [] (by simp)).1
  simp at this

theorem PlainHost.labelsOk (h : PlainHost host) : LabelsOk host := by
  refine ⟨fun label hl => h.labels label (List.dropLast_subset _ hl), ?_⟩
  obtain ⟨labels, last, hl⟩ := (List.eq_nil_or_concat' (host.splitOn '.')).resolve_left
    (List.splitOn_ne_nil _ _)
  have hmem : last ∈ host.splitOn '.' := by simp [hl]
  simpa [hl] using (h.labels last hmem).2

/- Writing a plain host and a kept port, and reading them. -/
theorem PlainHost.readsBack (nameprep : Idna.Nameprep u) (h : PlainHost host)
    (hport : keptPort scheme port = port) (hle : ∀ p ∈ port, p ≤ 65535)
    (hnetloc : r.netloc = canonicalNetloc host port)
    (hchars : ∀ c ∈ host, c.toNat < 128 ∧ c.toLower = c) :
    bracketsValid r.netloc = true ∧ hostname u r = host ∧
      canonicalHost u nameprep false r = .ok host ∧ PyUrl.port r = .ok port := by
  have hnot : ∀ c ∈ "[]@".toList, c ∉ r.netloc := by
    intro c hc
    have hspecial : ∀ c ∈ "[]@".toList, c ∈ "[]@:\t\r\n".toList ∧ c ≠ ':' ∧ isDigit c = false :=
      forall_mem_of_all (by decide)
    obtain ⟨hmem, hcolon, hdigit⟩ := hspecial c hc
    rw [hnetloc]
    exact not_mem_canonicalNetloc (h.chars c hmem) hcolon hdigit
  have hopen : '[' ∉ r.netloc := hnot '[' (by decide)
  have hclose : ']' ∉ r.netloc := hnot ']' (by decide)
  have hat : '@' ∉ r.netloc := hnot '@' (by decide)
  have hcolon : ':' ∉ host := h.chars ':' (by decide)
  have hinfo : hostInfo r.netloc = (host, (port.map (Nat.toDigits 10)).getD []) := by
    rw [hostInfo_plain hopen, afterLast_of_not_mem hat, hnetloc]
    cases port with
    | none => rw [canonicalNetloc, partition_of_not_mem hcolon]; rfl
    | some p => rw [canonicalNetloc, partition_append hcolon]; rfl
  have hhost : hostname u r = host := by
    rw [hostname_eq (by rw [hinfo]; exact hchars), hinfo]
  refine ⟨?_, hhost, ?_, ?_⟩
  · unfold bracketsValid
    rw [if_neg]
    simp [hopen, hclose]
  · rw [canonicalHost_ascii (by rw [hhost]; exact hchars), hhost]
    exact ⟨h.labelsOk, (rstripDots_eq_self fun label hl =>
      List.length_pos_iff.mp (h.labels label hl).1).symm⟩
  · unfold PyUrl.port
    rw [hinfo]
    cases port with
    | none => rfl
    | some p =>
      have hdigits : (Nat.toDigits 10 p).all isDigit = true :=
        List.all_eq_true.mpr fun c hc => isDigit_toDigits hc
      have hp := hle p rfl
      simp [hdigits, decimalValue_toDigits, hp, Nat.toDigits_ne_nil]

/- A netloc that is read back as itself has no brackets: what is read between
brackets loses them. -/
theorem no_brackets (hvalid : bracketsValid r.netloc = true)
    (hread : ∀ c ∈ "[]".toList, c ∈ r.netloc → c ∈ (hostInfo r.netloc).1) :
    '[' ∉ r.netloc ∧ ']' ∉ r.netloc := by
  by_cases hany : r.netloc.contains '[' || r.netloc.contains ']'
  · unfold bracketsValid at hvalid
    rw [if_pos hany, Bool.and_eq_true, Bool.and_eq_true, List.contains_iff_mem,
      List.contains_iff_mem] at hvalid
    obtain ⟨⟨hopen, hclose⟩, -⟩ := hvalid
    exact absurd ⟨hread '[' (by decide) hopen, hread ']' (by decide) hclose⟩ hostInfo_brackets
  · simpa using hany

theorem unsafe_spec (h : isUnsafe c = true) :
    c ∈ "[]@:\t\r\n".toList ∧ c ≠ ':' ∧ isDigit c = false := by
  simp only [isUnsafe, Bool.or_eq_true, beq_iff_eq] at h
  rcases h with (rfl | rfl) | rfl <;> decide

/-- Which netlocs are read back as themselves. -/
theorem readsBack_iff (nameprep : Idna.Nameprep u) (scheme : Text)
    (hascii : ∀ c ∈ netloc, c.toNat < 128) (hlower : ∀ c ∈ netloc, c.toLower = c)
    (hnetloc : r.netloc = netloc.filter (!isUnsafe ·)) :
    (bracketsValid r.netloc = true ∧ hostname u r ≠ [] ∧
      ∃ host port, canonicalHost u nameprep false r = .ok host ∧ PyUrl.port r = .ok port ∧
        canonicalNetloc host (keptPort scheme port) = netloc) ↔ ReadsBack scheme netloc := by
  constructor
  · rintro ⟨hvalid, hne, host, port, hhost, hport, hwrite⟩
    have hsub : ∀ c ∈ r.netloc, c ∈ netloc := by
      intro c hc
      rw [hnetloc] at hc
      exact (List.mem_filter.mp hc).1
    have hinfo : ∀ c ∈ (hostInfo r.netloc).1, c.toNat < 128 ∧ c.toLower = c := by
      intro c hc
      have hmem := hsub c (hostInfo_subset c hc)
      exact ⟨hascii c hmem, hlower c hmem⟩
    have hname : hostname u r = (hostInfo r.netloc).1 := hostname_eq hinfo
    obtain ⟨hlabels, hdots⟩ := (canonicalHost_ascii (by rw [hname]; exact hinfo)).mp hhost
    have hhostSub : ∀ c ∈ host, c ∈ (hostInfo r.netloc).1 := by
      intro c hc
      rw [hdots] at hc
      exact hname ▸ rstripDots_sublist.subset hc
    obtain ⟨hopen, hclose⟩ := no_brackets hvalid fun c hc hmem => by
      have hwritten := hwrite.symm ▸ hsub c hmem
      have hspecial : ∀ c ∈ "[]".toList, c ≠ ':' ∧ isDigit c = false :=
        forall_mem_of_all (by decide)
      by_contra hnot
      exact not_mem_canonicalNetloc (fun h => hnot (hhostSub c h)) (hspecial c hc).1
        (hspecial c hc).2 hwritten
    refine ⟨host, keptPort scheme port, hwrite.symm, ⟨?_, ?_⟩, keptPort_idem, ?_⟩
    · rw [hdots]
      exact labels_rstripDots hne hlabels.1 hlabels.2
    · intro c hc hmem
      refine hostInfo_chars hopen hclose ?_ c hc (hhostSub c hmem)
      intro d hd
      rw [hnetloc] at hd
      simpa using (List.mem_filter.mp hd).2
    · intro p hp
      obtain ⟨rfl, -⟩ := keptPort_some hp
      exact port_le hport
  · rintro ⟨host, port, rfl, hplain, hkept, hle⟩
    have hsame : r.netloc = canonicalNetloc host port := by
      rw [hnetloc, List.filter_eq_self]
      intro c hc
      by_contra hunsafe
      obtain ⟨hmem, hcolon, hdigit⟩ := unsafe_spec (by simpa using hunsafe)
      exact not_mem_canonicalNetloc (hplain.chars c hmem) hcolon hdigit hc
    have hchars : ∀ c ∈ host, c.toNat < 128 ∧ c.toLower = c := by
      intro c hc
      have hmem : c ∈ canonicalNetloc host port := by
        cases port with
        | none => exact hc
        | some p => exact List.mem_append_left _ hc
      exact ⟨hascii c hmem, hlower c hmem⟩
    obtain ⟨hvalid, hname, hhost, hport⟩ := hplain.readsBack nameprep
      hkept hle hsame hchars
    exact ⟨hvalid, hname ▸ hplain.ne_nil, host, port, hhost, hport, by rw [hkept]⟩

end readBack

end Newsintel.Acquisition
