import Newsintel.Outbox.DeliveredOnce

/-!
# The order of publication within an aggregate

A relay takes the oldest rows that it can lock. What it leaves out, because another relay has
locked it or because it was committed after the snapshot, may be older than what it publishes.
-/

namespace Newsintel.Outbox

open ReadCommitted

/-- An earlier event of one aggregate. -/
def Older (e e' : OutboxEventModel) : Prop :=
  e.aggregateId = e'.aggregateId ∧ e.occurredAt < e'.occurredAt

instance (e e' : OutboxEventModel) : Decidable (Older e e') := inferInstanceAs (Decidable (_ ∧ _))

/-- No event is published before an older one. -/
def InOrder (db : OutboxTables) : Prop :=
  ∀ e ∈ db.outbox, ∀ e' ∈ db.outbox, Older e e' →
    e'.publishedAt.isSome = true → e.publishedAt.isSome = true

/-- The events of the transaction can be committed in order: a producer brings nothing older than
what is published, and a relay leaves out nothing older that is pending. -/
def CommitsInOrder (db : OutboxTables) : Transaction → Prop
  | .producer p => ∀ e ∈ p.added, ∀ e' ∈ db.outbox, Older e e' → e'.publishedAt = none
  | .relay r => ∀ e' ∈ r.events, ∀ e ∈ db.outbox, Older e e' → e.publishedAt = none →
      e ∈ r.events

/-- If the step is a commit, it is one in order. -/
def KeepsOrder (s : State OutboxTables Transaction) : Label Empty Call → Prop
  | .advance place => ∀ t ∈ s.opened[place]?, t.Done → CommitsInOrder s.committed t
  | _ => True

variable {db : OutboxTables} {others : List Transaction} {r : Relay} {p : Producer}
  {s s' : State OutboxTables Transaction} {e e' : OutboxEventModel}

theorem Relay.older_mark : Older (r.mark e) (r.mark e') ↔ Older e e' := by
  have hcolumns (e : OutboxEventModel) : (r.mark e).aggregateId = e.aggregateId ∧
      (r.mark e).occurredAt = e.occurredAt := by
    unfold Relay.mark
    split <;> exact ⟨rfl, rfl⟩
  simp only [Older, hcolumns]

theorem Relay.mark_published :
    (r.mark e).publishedAt.isSome = true ↔ e.publishedAt.isSome = true ∨ e.id ∈ r.marked := by
  unfold Relay.mark
  split
  · rename_i hmem
    exact iff_of_true rfl (Or.inr hmem)
  · rename_i hmem
    rw [or_iff_left hmem]

/- The events of a relay that is done are the rows with its marks. -/
theorem Relay.Holds.mem_events_iff (h : r.Holds db) (hids : (db.outbox.map (·.id)).Nodup)
    (hdone : r.stage = .inserting []) (he : e ∈ db.outbox) : e.id ∈ r.marked ↔ e ∈ r.events := by
  rw [(h.all_handled hdone).1]
  constructor
  · intro hmem
    obtain ⟨e', he', hid⟩ := List.mem_map.mp hmem
    rw [← List.inj_on_of_nodup_map hids (h.events e' he').1 he hid]
    exact he'
  · intro hmem
    exact List.mem_map_of_mem hmem

/-! ### Commits -/

theorem relay_commit_inOrder (hids : (db.outbox.map (·.id)).Nodup) (h : r.Holds db)
    (hdone : r.stage = .inserting []) (horder : InOrder db) :
    InOrder (r.commit db) ↔ CommitsInOrder db (.relay r) := by
  constructor
  · intro hafter e' he' e he holder hpending
    obtain ⟨hadded, _⟩ := h.events e' he'
    have hpublished : (r.mark e).publishedAt.isSome = true := by
      refine hafter _ (List.mem_map_of_mem he) _ (List.mem_map_of_mem hadded)
        (Relay.older_mark.mpr holder) (Relay.mark_published.mpr (Or.inr ?_))
      exact (h.mem_events_iff hids hdone hadded).mpr he'
    obtain hbefore | hmarked := Relay.mark_published.mp hpublished
    · rw [hpending] at hbefore
      contradiction
    · exact (h.mem_events_iff hids hdone he).mp hmarked
  · intro hleaves _ hmark _ hmark' holder hpublished
    obtain ⟨e, he, rfl⟩ := List.mem_map.mp hmark
    obtain ⟨e', he', rfl⟩ := List.mem_map.mp hmark'
    have holder := Relay.older_mark.mp holder
    rw [Relay.mark_published] at hpublished ⊢
    obtain hbefore | hmarked := hpublished
    · exact Or.inl (horder e he e' he' holder hbefore)
    · cases hpending : e.publishedAt with
      | some _ => exact Or.inl rfl
      | none =>
        have hevent := (h.mem_events_iff hids hdone he').mp hmarked
        exact Or.inr ((h.mem_events_iff hids hdone he).mpr (hleaves e' hevent e he holder hpending))

theorem producer_commit_inOrder (h : ∀ e ∈ p.added, e.publishedAt = none) (horder : InOrder db) :
    InOrder { db with outbox := db.outbox ++ p.added } ↔ CommitsInOrder db (.producer p) := by
  constructor
  · intro hafter e he e' he' holder
    cases hpublished : e'.publishedAt with
    | none => rfl
    | some time =>
      have hboth := hafter e (List.mem_append_right _ he) e' (List.mem_append_left _ he') holder
        (by rw [hpublished]; rfl)
      rw [h e he] at hboth
      contradiction
  · intro hbrings e he e' he' holder hpublished
    obtain he' | he' := List.mem_append.mp he'
    · obtain he | he := List.mem_append.mp he
      · exact horder e he e' he' holder hpublished
      · rw [hbrings e he e' he' holder] at hpublished
        contradiction
    · rw [h e' he'] at hpublished
      contradiction

theorem commit_inOrder {t : Transaction} (hids : (db.outbox.map (·.id)).Nodup) (h : t.Holds db)
    (hdone : t.Done) (horder : InOrder db) : InOrder (t.commit db) ↔ CommitsInOrder db t := by
  cases t with
  | producer p => exact producer_commit_inOrder h horder
  | relay r => exact relay_commit_inOrder hids h hdone horder

/-! ### Runs -/

/- A step keeps the order exactly if it does not commit out of order. -/
theorem inOrder_iff_keepsOrder {label : Label Empty Call} (h : RelayInvariant s)
    (horder : InOrder s.committed) (hstep : sessionStep outboxSystem s label = some s') :
    InOrder s'.committed ↔ KeepsOrder s label := by
  cases label with
  | other e => exact nomatch e
  | start call =>
    obtain ⟨t, _, rfl⟩ := Option.map_eq_some_iff.mp hstep
    exact iff_of_true horder trivial
  | abort place =>
    obtain ⟨t, _, rfl⟩ := Option.map_eq_some_iff.mp hstep
    exact iff_of_true horder trivial
  | advance place =>
    obtain ⟨t, ht, hstatement⟩ := Option.bind_eq_some_iff.mp hstep
    have hkeeps : KeepsOrder s (.advance place) ↔ (t.Done → CommitsInOrder s.committed t) := by
      constructor
      · intro hall
        exact hall t ht
      · rintro hone t' ht'
        obtain rfl := Option.some.inj (ht.symm.trans ht')
        exact hone
    have hcommits : Transaction.statement s.committed (s.opened.eraseIdx place) t = .commits ↔
        t.Done := commits_iff
    rw [hkeeps, ← hcommits]
    have hholds := h.holds t (List.mem_of_getElem? ht)
    cases hnext : Transaction.statement s.committed (s.opened.eraseIdx place) t with
    | waits =>
      simp only [outboxSystem, hnext] at hstatement
      cases hstatement
    | raises =>
      simp only [outboxSystem, hnext] at hstatement
      cases hstatement
      exact iff_of_true horder nofun
    | continues t' =>
      simp only [outboxSystem, hnext] at hstatement
      cases hstatement
      exact iff_of_true horder nofun
    | commits =>
      simp only [outboxSystem, hnext] at hstatement
      cases hstatement
      rw [imp_iff_right rfl]
      exact commit_inOrder h.booked.ids hholds (commits_iff.mp hnext) horder

/- Exact condition, over every run of interleaved producers and relays. -/
theorem inOrder_iff_every_keepsOrder {labels : List (Label Empty Call)}
    (h : Runs.exec (sessionStep outboxSystem) emptyOutbox labels = some s) :
    Runs.Throughout (sessionStep outboxSystem) (fun m => InOrder m.committed) emptyOutbox labels ↔
      Runs.Every (sessionStep outboxSystem) KeepsOrder emptyOutbox labels := by
  apply Runs.throughout_iff_every relayInvariant_empty (I := RelayInvariant) _ _ _ h
  · exact fun _ he => absurd he List.not_mem_nil
  · exact fun m label n hm _ _ hn => (relayInvariant_step hm hn).1
  · exact fun m label n hm horder hn => inOrder_iff_keepsOrder hm horder hn

/-! ### Two relays, again -/

instance (t : Transaction) : Decidable t.Done :=
  match t with
  | .producer p => inferInstanceAs (Decidable (p.events = []))
  | .relay r => inferInstanceAs (Decidable (r.stage = .inserting []))

instance (db : OutboxTables) (t : Transaction) : Decidable (CommitsInOrder db t) :=
  match t with
  | .producer p => inferInstanceAs (Decidable (∀ e ∈ p.added, _))
  | .relay r => inferInstanceAs (Decidable (∀ e' ∈ r.events, _))

instance (s : State OutboxTables Transaction) (label : Label Empty Call) :
    Decidable (KeepsOrder s label) :=
  match label with
  | .advance place => inferInstanceAs (Decidable (∀ t ∈ s.opened[place]?, _))
  | .other _ | .start _ | .abort _ => inferInstanceAs (Decidable True)

/-- One relay after the other. -/
def relaysInTurn : List (Label Empty Call) :=
  .start (.produce sampleEvents) :: List.replicate 3 (.advance 0) ++
    sampleRelay 100 :: List.replicate 6 (.advance 0) ++
    sampleRelay 200 :: List.replicate 6 (.advance 0)

theorem relaysInTurn_inOrder : ∃ s,
    Runs.exec (sessionStep outboxSystem) emptyOutbox relaysInTurn = some s ∧
      s.committed.counts = [1, 1] ∧
      (Runs.Throughout (sessionStep outboxSystem) (fun m => InOrder m.committed) emptyOutbox
          relaysInTurn ↔
        Runs.Every (sessionStep outboxSystem) KeepsOrder emptyOutbox relaysInTurn) ∧
      Runs.Every (sessionStep outboxSystem) KeepsOrder emptyOutbox relaysInTurn := by
  have hcounts : (Runs.exec (sessionStep outboxSystem) emptyOutbox relaysInTurn).map
      (·.committed.counts) = some [1, 1] := by
    decide +kernel
  obtain ⟨s, hs, hsum⟩ := Option.map_eq_some_iff.mp hcounts
  exact ⟨s, hs, hsum, inOrder_iff_every_keepsOrder hs, Runs.every_of_decide (by decide +kernel)⟩

/- The second event is published while the first one is locked. -/
theorem passedOver_not_inOrder : ¬ ∀ (labels : List (Label Empty Call))
    (s : State OutboxTables Transaction),
    Runs.exec (sessionStep outboxSystem) emptyOutbox labels = some s → InOrder s.committed := by
  intro h
  have hlast : (Runs.exec (sessionStep outboxSystem) emptyOutbox passedOver).map
      (fun s => s.committed.outbox.map fun e => (e.aggregateId, e.occurredAt, e.publishedAt)) =
      some [(7, 10, none), (7, 20, some 30)] := by
    decide +kernel
  obtain ⟨s, hs, hrows⟩ := Option.map_eq_some_iff.mp hlast
  obtain ⟨e, rest, houtbox, he, hrest⟩ := List.map_eq_cons_iff.mp hrows
  obtain ⟨e', rest', rfl, he', _⟩ := List.map_eq_cons_iff.mp hrest
  simp only [Prod.mk.injEq] at he he'
  have hpublished := h passedOver s hs e (houtbox ▸ List.mem_cons_self) e'
    (houtbox ▸ List.mem_cons_of_mem _ List.mem_cons_self)
    ⟨he.1.trans he'.1.symm, by rw [he.2.1, he'.2.1]; decide⟩ (by rw [he'.2.2]; rfl)
  rw [he.2.2] at hpublished
  exact Bool.false_ne_true hpublished

end Newsintel.Outbox
