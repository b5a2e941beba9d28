import Mathlib.Data.List.Basic
import Mathlib.Data.List.Nodup
import Mathlib.Data.List.Perm.Basic
import Newsintel.Lib.Runs

/-!
# Transactions under READ COMMITTED

A transaction is a program of statements. Each statement sees what is committed at that
moment and what its own transaction has written; an insertion under a unique index also meets
the entries of the other open transactions, and waits for them. The rows that a transaction
has written become visible with its commit, and vanish when it aborts.
-/

namespace Newsintel.ReadCommitted

/-- What one statement of a transaction comes to. -/
inductive Outcome (τ : Type*) where
  /-- for another transaction -/
  | waits
  | raises
  | continues (t : τ)
  | commits

/-- `ε`: what happens beside the transactions. `ω`: the calls that open one. -/
structure System (δ τ ε ω : Type*) where
  /-- `none`: the call raises before its first statement -/
  opening : ω → Option τ
  other : ε → δ → δ
  /-- of a transaction, with the committed state and the other open transactions -/
  statement : δ → List τ → τ → Outcome τ
  commit : τ → δ → δ

structure State (δ τ : Type*) where
  committed : δ
  opened : List τ

inductive Label (ε ω : Type*) where
  | other (e : ε)
  | start (call : ω)
  | advance (place : ℕ)
  | abort (place : ℕ)

variable {δ τ ε ω : Type*}

def sessionStep (S : System δ τ ε ω) (s : State δ τ) : Label ε ω → Option (State δ τ)
  | .other e => some { s with committed := S.other e s.committed }
  | .start call => (S.opening call).map fun t => { s with opened := s.opened ++ [t] }
  | .advance place =>
    s.opened[place]?.bind fun t =>
      match S.statement s.committed (s.opened.eraseIdx place) t with
      | .waits => none
      | .raises => some { s with opened := s.opened.eraseIdx place }
      | .continues t' => some { s with opened := s.opened.set place t' }
      | .commits => some ⟨S.commit t s.committed, s.opened.eraseIdx place⟩
  | .abort place => s.opened[place]?.map fun _ => { s with opened := s.opened.eraseIdx place }

variable {S : System δ τ ε ω} {s s' : State δ τ} {label : Label ε ω}

/- Everything that a step can do. -/
theorem step_cases (h : sessionStep S s label = some s') :
    (∃ e, label = .other e ∧ s' = { s with committed := S.other e s.committed }) ∨
      (∃ call t, label = .start call ∧ S.opening call = some t ∧
        s' = { s with opened := s.opened ++ [t] }) ∨
      ∃ place t, s.opened[place]? = some t ∧
        (s' = { s with opened := s.opened.eraseIdx place } ∨
          (∃ t', S.statement s.committed (s.opened.eraseIdx place) t = .continues t' ∧
            s' = { s with opened := s.opened.set place t' }) ∨
          S.statement s.committed (s.opened.eraseIdx place) t = .commits ∧
            s' = ⟨S.commit t s.committed, s.opened.eraseIdx place⟩) := by
  cases label with
  | other e =>
    cases h
    exact Or.inl ⟨e, rfl, rfl⟩
  | start call =>
    obtain ⟨t, ht, rfl⟩ := Option.map_eq_some_iff.mp h
    exact Or.inr (Or.inl ⟨call, t, rfl, ht, rfl⟩)
  | advance place =>
    obtain ⟨t, ht, h⟩ := Option.bind_eq_some_iff.mp h
    refine Or.inr (Or.inr ⟨place, t, ht, ?_⟩)
    split at h
    · cases h
    · cases h
      exact Or.inl rfl
    · rename_i t' hstatement
      cases h
      exact Or.inr (Or.inl ⟨t', hstatement, rfl⟩)
    · rename_i hstatement
      cases h
      exact Or.inr (Or.inr ⟨hstatement, rfl⟩)
  | abort place =>
    obtain ⟨t, ht, rfl⟩ := Option.map_eq_some_iff.mp h
    exact Or.inr (Or.inr ⟨place, t, ht, Or.inl rfl⟩)

/- A property of each transaction on its own. -/
theorem forall_opened_step {P : τ → Prop} (hopening : ∀ call t, S.opening call = some t → P t)
    (hstatement : ∀ place t t', s.opened[place]? = some t → P t →
      S.statement s.committed (s.opened.eraseIdx place) t = .continues t' → P t')
    (hP : ∀ t ∈ s.opened, P t) (h : sessionStep S s label = some s') : ∀ t ∈ s'.opened, P t := by
  obtain ⟨e, _, rfl⟩ | ⟨call, t, _, ht, rfl⟩ | ⟨place, t, ht, hdone⟩ := step_cases h
  · exact hP
  · exact List.forall_mem_append.mpr ⟨hP, List.forall_mem_singleton.mpr (hopening call t ht)⟩
  · have hrest : ∀ o ∈ s.opened.eraseIdx place, P o :=
      fun o ho => hP o (List.mem_of_mem_eraseIdx ho)
    obtain rfl | ⟨t', ht', rfl⟩ | ⟨_, rfl⟩ := hdone
    · exact hrest
    · intro o ho
      obtain ho | rfl := List.mem_or_eq_of_mem_set ho
      · exact hP o ho
      · exact hstatement place t o ht (hP t (List.mem_of_getElem? ht)) ht'
    · exact hrest

/-! ### A transaction without others -/

/-- From its present statement the transaction runs to its commit, which leaves `d'`. -/
inductive Alone (S : System δ τ ε ω) (d : δ) : τ → δ → Prop where
  | commits {t : τ} (h : S.statement d [] t = .commits) : Alone S d t (S.commit t d)
  | continues {t t' : τ} {d' : δ} (h : S.statement d [] t = .continues t')
      (hrest : Alone S d t' d') : Alone S d t d'

theorem exec_of_alone {d d' : δ} {t : τ} (h : Alone S d t d') :
    ∃ n, Runs.exec (sessionStep S) ⟨d, [t]⟩ (List.replicate n (.advance 0)) = some ⟨d', []⟩ := by
  induction h with
  | @commits t h =>
    refine ⟨1, Runs.exec_cons_some.mpr ⟨⟨S.commit t d, []⟩, ?_, rfl⟩⟩
    simp only [sessionStep, List.getElem?_cons_zero, Option.bind_some, List.eraseIdx_cons_zero, h]
  | @continues t t' d' h _ ih =>
    obtain ⟨n, hn⟩ := ih
    refine ⟨n + 1, Runs.exec_cons_some.mpr ⟨⟨d, [t']⟩, ?_, hn⟩⟩
    simp only [sessionStep, List.getElem?_cons_zero, Option.bind_some, List.eraseIdx_cons_zero, h,
      List.set_cons_zero]

theorem exec_call_of_alone {d d' : δ} {t : τ} {call : ω} (hopening : S.opening call = some t)
    (h : Alone S d t d') : ∃ n, Runs.exec (sessionStep S) ⟨d, []⟩
      (.start call :: List.replicate n (.advance 0)) = some ⟨d', []⟩ := by
  obtain ⟨n, hn⟩ := exec_of_alone h
  refine ⟨n, Runs.exec_cons_some.mpr ⟨⟨d, [t]⟩, ?_, hn⟩⟩
  rw [sessionStep, hopening]
  rfl

/- All that is open may crash, and leaves nothing. -/
theorem exec_aborts (s : State δ τ) : Runs.exec (sessionStep S) s
    (List.replicate s.opened.length (.abort 0)) = some ⟨s.committed, []⟩ := by
  obtain ⟨d, opened⟩ := s
  induction opened with
  | nil => rfl
  | cons t opened ih => exact Runs.exec_cons_some.mpr ⟨⟨d, opened⟩, rfl, ih⟩

/-! ### Keys that one transaction takes at a time -/

section taken

variable {κ : Type*} (keys : δ → List κ) (held : τ → List κ)

/-- The keys that are taken: of the committed state, and by the open transactions. -/
def taken (s : State δ τ) : List κ := keys s.committed ++ s.opened.flatMap held

/-- A statement of a transaction that meets `P` takes one key at most, which nobody has; a commit
keeps or releases what the transaction has taken. -/
structure Reserves (P : δ → τ → Prop) (S : System δ τ ε ω) : Prop where
  opening : ∀ call t, S.opening call = some t → held t = []
  other : ∀ e d, keys (S.other e d) = keys d
  commit : ∀ t d, ∃ kept, kept.Sublist (held t) ∧ keys (S.commit t d) = keys d ++ kept
  statement : ∀ d others t t', P d t → S.statement d others t = .continues t' → held t' = held t ∨
    ∃ kept k, kept.Sublist (held t) ∧ held t' = kept ++ [k] ∧ k ∉ kept ∧ k ∉ keys d ∧
      ∀ o ∈ others, k ∉ held o

variable {keys held} {P : δ → τ → Prop}

/- The keys of one transaction apart from the others. -/
theorem taken_perm {place : ℕ} {t : τ} (ht : s.opened[place]? = some t) :
    (taken keys held s).Perm
      (keys s.committed ++ (held t ++ (s.opened.eraseIdx place).flatMap held)) := by
  obtain ⟨hlt, rfl⟩ := List.getElem?_eq_some_iff.mp ht
  have hperm := (List.getElem_cons_eraseIdx_perm hlt).symm.flatMap_right held
  exact hperm.append_left _

/- No key is taken twice. -/
theorem nodup_taken_step (hS : Reserves keys held P S) (hP : ∀ t ∈ s.opened, P s.committed t)
    (hd : (taken keys held s).Nodup) (h : sessionStep S s label = some s') :
    (taken keys held s').Nodup := by
  obtain ⟨e, _, rfl⟩ | ⟨call, t, _, ht, rfl⟩ | ⟨place, t, ht, hdone⟩ := step_cases h
  · rw [taken, hS.other]
    exact hd
  · rw [taken, List.flatMap_append, List.flatMap_singleton, hS.opening call t ht, List.append_nil]
    exact hd
  · have hd := (taken_perm ht).nodup_iff.mp hd
    have hothers (kept : List κ) (hkept : kept.Sublist (held t)) : (keys s.committed ++
        (kept ++ (s.opened.eraseIdx place).flatMap held)).Nodup :=
      hd.sublist ((hkept.append_right _).append_left _)
    obtain rfl | ⟨t', ht', rfl⟩ | ⟨_, rfl⟩ := hdone
    · exact hothers [] (List.nil_sublist _)
    · -- The statement leaves the keys of its transaction alone, or takes one more.
      have hplace : (s.opened.set place t')[place]? = some t' := by
        obtain ⟨hlt, _⟩ := List.getElem?_eq_some_iff.mp ht
        exact List.getElem?_set_self hlt
      have herase : (s.opened.set place t').eraseIdx place = s.opened.eraseIdx place :=
        List.eraseIdx_set_eq
      refine (taken_perm (s := { s with opened := s.opened.set place t' })
        hplace).nodup_iff.mpr ?_
      rw [herase]
      obtain hsame | ⟨kept, k, hkept, htaken, hown, hcommitted, hopened⟩ :=
        hS.statement _ _ _ _ (hP t (List.mem_of_getElem? ht)) ht'
      · rw [hsame]
        exact hd
      · have hfresh : k ∉ keys s.committed ++
            (kept ++ (s.opened.eraseIdx place).flatMap held) := by
          intro hmem
          obtain hmem | hmem := List.mem_append.mp hmem
          · exact hcommitted hmem
          · obtain hmem | hmem := List.mem_append.mp hmem
            · exact hown hmem
            · obtain ⟨o, ho, hmem⟩ := List.mem_flatMap.mp hmem
              exact hopened o ho hmem
        have hcons := List.nodup_cons.mpr ⟨hfresh, hothers kept hkept⟩
        rw [htaken]
        refine List.Perm.nodup ?_ hcons
        rw [List.append_assoc kept]
        exact (List.perm_middle.symm.trans (List.perm_middle.symm.append_left _))
    · obtain ⟨kept, hkept, hkeys⟩ := hS.commit t s.committed
      rw [taken, hkeys, List.append_assoc]
      exact hothers kept hkept

theorem nodup_held {place : ℕ} {t : τ} (ht : s.opened[place]? = some t)
    (hd : (taken keys held s).Nodup) : (held t).Nodup := by
  obtain ⟨_, hheld, _⟩ := List.nodup_append.mp ((taken_perm ht).nodup_iff.mp hd)
  exact (List.nodup_append.mp hheld).1

/- What a transaction has taken, nobody else has. -/
theorem not_taken {place : ℕ} {t : τ} (ht : s.opened[place]? = some t)
    (hd : (taken keys held s).Nodup) {k : κ} (hk : k ∈ held t) :
    k ∉ keys s.committed ∧ ∀ o ∈ s.opened.eraseIdx place, k ∉ held o := by
  obtain ⟨_, hheld, hcommitted⟩ := List.nodup_append.mp ((taken_perm ht).nodup_iff.mp hd)
  refine ⟨fun hmem => hcommitted k hmem k (List.mem_append_left _ hk) rfl, ?_⟩
  intro o ho hmem
  exact (List.nodup_append.mp hheld).2.2 k hk k (List.mem_flatMap.mpr ⟨o, ho, hmem⟩) rfl

end taken

/-! ### A unique index -/

section index

variable {β κ : Type*} (rows : δ → List β) (own : τ → List β) (key : β → κ)

/-- The entries of the index: of the committed rows, and of those that are not committed. -/
def entries (s : State δ τ) : List κ :=
  (rows s.committed).map key ++ s.opened.flatMap fun t => (own t).map key

/-- The statements respect the index: a new row has a key that has no entry. -/
structure Indexed (S : System δ τ ε ω) : Prop where
  opening : ∀ call t, S.opening call = some t → own t = []
  other : ∀ e d, (rows (S.other e d)).map key = (rows d).map key
  commit : ∀ t d, (rows (S.commit t d)).map key = (rows d).map key ++ (own t).map key
  statement : ∀ d others t t', S.statement d others t = .continues t' → own t' = own t ∨
    ∃ r, own t' = [r] ∧ key r ∉ (rows d).map key ∧ ∀ o ∈ others, key r ∉ (own o).map key

variable {rows own key}

theorem Indexed.reserves (hS : Indexed rows own key S) :
    Reserves (fun d => (rows d).map key) (fun t => (own t).map key) (fun _ _ => True) S where
  opening call t ht := by rw [hS.opening call t ht, List.map_nil]
  other := hS.other
  commit t d := ⟨_, List.Sublist.refl _, hS.commit t d⟩
  statement d others t t' _ h := by
    obtain hown | ⟨r, hown, hcommitted, hopened⟩ := hS.statement d others t t' h
    · exact Or.inl (congrArg _ hown)
    · refine Or.inr ⟨[], key r, List.nil_sublist _, ?_, List.not_mem_nil, hcommitted, hopened⟩
      rw [hown, List.map_singleton, List.nil_append]

/- No two rows have one key, whether they are committed or not. -/
theorem nodup_entries_step (hS : Indexed rows own key S) (hd : (entries rows own key s).Nodup)
    (h : sessionStep S s label = some s') : (entries rows own key s').Nodup :=
  nodup_taken_step hS.reserves (fun _ _ => trivial) hd h

theorem nodup_committed (hd : (entries rows own key s).Nodup) :
    ((rows s.committed).map key).Nodup := (List.nodup_append.mp hd).1

/- What a transaction has written is not committed. -/
theorem not_committed {place : ℕ} {t : τ} (ht : s.opened[place]? = some t)
    (hd : (entries rows own key s).Nodup) {k : κ} (hk : k ∈ (own t).map key) :
    k ∉ (rows s.committed).map key := by
  have hd : (taken (fun d => (rows d).map key) (fun t => (own t).map key) s).Nodup := hd
  exact (not_taken ht hd hk).1

end index

end Newsintel.ReadCommitted
