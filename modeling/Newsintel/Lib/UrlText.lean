import Newsintel.Lib.PyUrl

/-!
# URLs as they are written

What `urlsplit` makes sure of in its results, and that it finds the parts of a URL with a netloc
again, once they are written one after the other.
-/

namespace Newsintel.PyUrl

open PyText

variable {u : Unicode} {t scheme netloc path : Text} {query fragment : Option Text} {c : Char}
  {parsed : SplitResult}

/-! ### What is read -/

/-- The parts of a URL are free of the delimiters behind them and of unsafe characters. -/
structure Parts (u : Unicode) (parsed : SplitResult) : Prop where
  netloc_delims : ∀ c ∈ parsed.netloc, endsNetloc c = false
  brackets : bracketsValid parsed.netloc = true
  check : checkNetloc u parsed.netloc = true
  path_head : parsed.netloc ≠ [] → parsed.path = [] ∨ parsed.path.head? = some '/'
  path_delims : ∀ c ∈ parsed.path, c ≠ '?' ∧ c ≠ '#'
  query_delims : '#' ∉ parsed.query
  clean : ∀ part ∈ [parsed.netloc, parsed.path, parsed.query], ∀ c ∈ part, isUnsafe c = false

theorem splitNetloc_spec (t : Text) : (∀ c ∈ (splitNetloc t).1, endsNetloc c = false) ∧
    ((splitNetloc t).1 ≠ [] → (splitNetloc t).2 = [] ∨
      ∃ c rest, (splitNetloc t).2 = c :: rest ∧ endsNetloc c = true) := by
  unfold splitNetloc
  split
  · rename_i rest
    refine ⟨fun c hc => by simpa using List.mem_takeWhile_imp hc, fun _ => ?_⟩
    cases hdrop : rest.dropWhile (!endsNetloc ·) with
    | nil => exact Or.inl rfl
    | cons c tail =>
      have hhead := List.head?_dropWhile_not (!endsNetloc ·) rest
      rw [hdrop] at hhead
      exact Or.inr ⟨c, tail, rfl, by simpa using hhead⟩
  · exact ⟨by simp, fun h => absurd rfl h⟩

theorem splitNetloc_sublist (t : Text) :
    (splitNetloc t).1.Sublist t ∧ (splitNetloc t).2.Sublist t := by
  unfold splitNetloc
  split
  · exact ⟨((List.takeWhile_sublist _).trans (List.sublist_cons_self _ _)).trans
      (List.sublist_cons_self _ _), ((List.dropWhile_sublist _).trans
        (List.sublist_cons_self _ _)).trans (List.sublist_cons_self _ _)⟩
  · exact ⟨List.nil_sublist _, List.Sublist.refl _⟩

theorem partition_snd_sublist : ((partition c t).2.getD []).Sublist t := by
  cases h : (partition c t).2 with
  | none => exact List.nil_sublist _
  | some rest =>
    conv_rhs => rw [partition_some h]
    exact (List.sublist_cons_self _ _).trans (List.sublist_append_right _ _)

theorem splitScheme_sublist : (splitScheme scheme t).2.Sublist t := by
  unfold splitScheme
  split
  · rename_i c s rest hpartition
    split
    · have hrest : rest = (partition ':' t).2.getD [] := by rw [hpartition, Option.getD_some]
      rw [hrest]
      exact partition_snd_sublist
    · exact List.Sublist.refl _
  · exact List.Sublist.refl _

theorem urlsplit_parts (h : urlsplit u t scheme = .ok parsed) : Parts u parsed := by
  unfold urlsplit at h
  simp only at h
  have hclean : ∀ c ∈ (splitScheme scheme (cleaned t)).2, isUnsafe c = false := by
    intro c hc
    have hmem := (List.mem_filter.mp (splitScheme_sublist.subset hc)).2
    simpa using hmem
  generalize (splitScheme scheme (cleaned t)).2 = rest at h hclean
  obtain ⟨hchars, hhead⟩ := splitNetloc_spec rest
  obtain ⟨hnetloc, hrest⟩ := splitNetloc_sublist rest
  split at h
  · cases h
  · rename_i hbrackets
    split at h
    · cases h
    · rename_i hcheck
      obtain rfl := Except.ok.inj h
      refine ⟨hchars, by simpa using hbrackets, by simpa using hcheck, fun hne => ?_, ?_, ?_, ?_⟩
      · obtain hnil | ⟨c, tail, hcons, hends⟩ := hhead hne
        · left
          simp only [hnil]
          rfl
        · simp only [hcons, partition_fst_cons]
          simp only [endsNetloc, Bool.or_eq_true, beq_iff_eq] at hends
          obtain (rfl | rfl) | rfl := hends
          · right
            rw [if_neg (by decide), partition_fst_cons, if_neg (by decide)]
            rfl
          · left
            rw [if_neg (by decide), partition_fst_cons, if_pos rfl]
          · left
            rw [if_pos rfl]
            rfl
      · intro c hc
        refine ⟨?_, ?_⟩
        · rintro rfl
          exact not_mem_partition_fst hc
        · rintro rfl
          exact not_mem_partition_fst (partition_fst_sublist.subset hc)
      · intro hc
        exact not_mem_partition_fst (partition_snd_sublist.subset hc)
      · simp only [List.forall_mem_cons]
        refine ⟨fun c hc => hclean c (hnetloc.subset hc), fun c hc => ?_, fun c hc => ?_,
          List.forall_mem_nil _⟩
        · exact hclean c (hrest.subset (partition_fst_sublist.subset
            (partition_fst_sublist.subset hc)))
        · exact hclean c (hrest.subset (partition_fst_sublist.subset
            (partition_snd_sublist.subset hc)))

/-! ### What is written -/

/-- A scheme that is read back as itself. -/
def PlainScheme (scheme : Text) : Prop :=
  (∃ c rest, scheme = c :: rest ∧ isAlpha c = true) ∧
    ∀ c ∈ scheme, isSchemeChar c = true ∧ c.toLower = c

/-- What stands behind the path. -/
def writtenTail (query fragment : Option Text) : Text :=
  query.elim [] ('?' :: ·) ++ fragment.elim [] ('#' :: ·)

/-- A URL with a netloc. -/
def written (scheme netloc path : Text) (query fragment : Option Text) : Text :=
  scheme ++ ':' :: '/' :: '/' :: (netloc ++ (path ++ writtenTail query fragment))

theorem schemeChar_spec (h : isSchemeChar c = true) :
    c ≠ ':' ∧ isControlOrSpace c = false ∧ isUnsafe c = false := by
  have hle : ∀ e : Char, c ≤ e → c.toNat ≤ e.toNat := fun e he => UInt32.le_iff_toNat_le.mp he
  have hascii : c.toNat < 128 := by
    have hcases := h
    simp only [isSchemeChar, isAlpha, isDigit, Bool.or_eq_true, Bool.and_eq_true,
      decide_eq_true_eq, beq_iff_eq] at hcases
    obtain ((((⟨-, hc⟩ | ⟨-, hc⟩) | ⟨-, hc⟩) | rfl) | rfl) | rfl := hcases
    · exact lt_of_le_of_lt (hle _ hc) (by decide)
    · exact lt_of_le_of_lt (hle _ hc) (by decide)
    · exact lt_of_le_of_lt (hle _ hc) (by decide)
    · decide
    · decide
    · decide
  exact ascii_cases (P := fun c => isSchemeChar c = true →
    c ≠ ':' ∧ isControlOrSpace c = false ∧ isUnsafe c = false) (by decide) hascii h

theorem cleaned_written (hscheme : PlainScheme scheme)
    (hclean : ∀ c ∈ netloc ++ (path ++ writtenTail query fragment), isUnsafe c = false) :
    cleaned (written scheme netloc path query fragment) =
      written scheme netloc path query fragment := by
  obtain ⟨⟨c, rest, hcons, -⟩, hchars⟩ := hscheme
  have hcontrol := (schemeChar_spec (hchars c (hcons ▸ List.mem_cons_self)).1).2.1
  have hdrop : (written scheme netloc path query fragment).dropWhile isControlOrSpace =
      written scheme netloc path query fragment := by
    rw [written, hcons, List.cons_append, List.dropWhile_cons_of_neg (by simp [hcontrol])]
  rw [cleaned, hdrop, List.filter_eq_self]
  intro d hd
  rw [Bool.not_eq_true']
  obtain hd | hd := List.mem_append.mp hd
  · exact (schemeChar_spec (hchars d hd).1).2.2
  · simp only [List.mem_cons] at hd
    obtain rfl | rfl | rfl | hd := hd
    · decide
    · decide
    · decide
    · exact hclean d hd

theorem splitScheme_written (hscheme : PlainScheme scheme) (rest : Text) :
    splitScheme t (scheme ++ ':' :: rest) = (scheme, rest) := by
  obtain ⟨⟨c, s, rfl, halpha⟩, hchars⟩ := hscheme
  have hcolon : ':' ∉ c :: s := fun h => (schemeChar_spec (hchars _ h).1).1 rfl
  have hall : (c :: s).all isSchemeChar = true :=
    List.all_eq_true.mpr fun d hd => (hchars d hd).1
  have hlower : (c :: s).map Char.toLower = c :: s :=
    map_toLower_eq_self fun d hd => (hchars d hd).2
  unfold splitScheme
  rw [partition_append hcolon]
  simp only [halpha, hall, hlower, Bool.and_self, if_true]

theorem splitNetloc_written (hnetloc : ∀ c ∈ netloc, endsNetloc c = false)
    (hrest : ∀ c ∈ t.head?, endsNetloc c = true) :
    splitNetloc ('/' :: '/' :: (netloc ++ t)) = (netloc, t) := by
  have hall : ∀ c ∈ netloc, (!endsNetloc c) = true := by
    intro c hc
    rw [hnetloc c hc]
    rfl
  simp only [splitNetloc, List.takeWhile_append_of_pos hall, List.dropWhile_append_of_pos hall]
  cases t with
  | nil => simp
  | cons c t =>
    have hends := hrest c rfl
    simp [hends]

/- The parts are found again. -/
theorem urlsplit_written (hscheme : PlainScheme scheme)
    (hnetloc : ∀ c ∈ netloc, endsNetloc c = false)
    (hpath : path = [] ∨ path.head? = some '/') (hdelims : ∀ c ∈ path, c ≠ '?' ∧ c ≠ '#')
    (hquery : ∀ q ∈ query, '#' ∉ q)
    (hclean : ∀ c ∈ netloc ++ (path ++ writtenTail query fragment), isUnsafe c = false) :
    urlsplit u (written scheme netloc path query fragment) t =
      if bracketsValid netloc && checkNetloc u netloc then
        .ok ⟨scheme, netloc, path, query.getD [], fragment.getD []⟩
      else .error .valueError := by
  have hends : ∀ c ∈ (path ++ writtenTail query fragment).head?, endsNetloc c = true := by
    obtain rfl | hpath := hpath
    · rw [List.nil_append, writtenTail]
      cases query with
      | some q =>
        rintro c ⟨⟩
        decide
      | none =>
        cases fragment with
        | some f =>
          rintro c ⟨⟩
          decide
        | none => rintro c ⟨⟩
    · obtain ⟨rest, rfl⟩ := List.head?_eq_some_iff.mp hpath
      rintro c ⟨⟩
      decide
  have hmark : '?' ∉ path := fun h => (hdelims _ h).1 rfl
  have hhash : '#' ∉ path := fun h => (hdelims _ h).2 rfl
  have hfragment : partition '#' (path ++ writtenTail query fragment) =
      (path ++ query.elim [] ('?' :: ·), fragment) := by
    have hbefore : '#' ∉ path ++ query.elim [] ('?' :: ·) := by
      intro h
      obtain h | h := List.mem_append.mp h
      · exact hhash h
      · cases query with
        | none => cases h
        | some q =>
          obtain h | h := List.mem_cons.mp h
          · revert h
            decide
          · exact hquery q rfl h
    rw [writtenTail, ← List.append_assoc]
    cases fragment with
    | none => simpa using partition_of_not_mem hbefore
    | some f => exact partition_append hbefore
  have hquery' : partition '?' (path ++ query.elim [] ('?' :: ·)) = (path, query) := by
    cases query with
    | none => simpa using partition_of_not_mem hmark
    | some q => exact partition_append hmark
  unfold urlsplit
  rw [cleaned_written hscheme hclean, written, splitScheme_written hscheme]
  simp only [splitNetloc_written hnetloc hends, hfragment, hquery']
  cases bracketsValid netloc <;> cases checkNetloc u netloc <;> rfl

end Newsintel.PyUrl
