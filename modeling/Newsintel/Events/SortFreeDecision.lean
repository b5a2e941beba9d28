import Mathlib.Data.List.Forall2
import Newsintel.Events.FeatureBounds

/-!
# The decision without sorting

What `decide_event_assignment` says of the candidates of all references: which scores are compared
with which thresholds. Neither the order of the references nor the truncation of the ranking has a
part in it.
-/

namespace Newsintel.Events

open PyText ArticleStore Ranking

/-- The decision in terms of all candidates, the best one apart from the others. -/
structure Decides (all : List EventCandidate) (d : EventAssignmentDecision) : Prop where
  provisional : d.state = .provisional ↔ ∀ c ∈ all, c.score < 62 / 100
  unselected : d.state = .provisional → d.selectedEventId = none ∧ d.selectedScore = none
  selected : d.state ≠ .provisional → ∃ best others, (best :: others).Perm all ∧
    (∀ c ∈ others, c.score ≤ best.score) ∧ d.selectedEventId = some best.eventId ∧
    d.selectedScore = some best.score ∧
    (d.state = .confirmed ↔
      78 / 100 ≤ best.score ∧ ∀ c ∈ others, c.score ≤ best.score - 5 / 100)

/-- One candidate scores more than all others. -/
def UniqueBest (all : List EventCandidate) : Prop :=
  ∃ best others, (best :: others).Perm all ∧ ∀ c ∈ others, c.score < best.score

/-- The decisions agree, on the event if one candidate is best. -/
def Agree (all : List EventCandidate) (d d' : EventAssignmentDecision) : Prop :=
  d.state = d'.state ∧ d.selectedScore = d'.selectedScore ∧
    (UniqueBest all → d.selectedEventId = d'.selectedEventId)

variable {u : Unicode} {incoming : ArticleEventProfile}
  {references references' : List EventReference} {all all' others rest : List EventCandidate}
  {best : EventCandidate} {limit : ℕ} {d d' : EventAssignmentDecision}

/-! ### One ranking -/

/- Only the second one of the ranking is compared, for all others. -/
theorem ambiguous_iff (policy : AssignmentPolicy)
    (hsorted : rest.Pairwise fun a b => b.score ≤ a.score) :
    ambiguous policy best rest = false ↔
      ∀ c ∈ rest, c.score ≤ best.score - policy.ambiguityMargin := by
  cases rest with
  | nil => exact iff_of_true rfl (List.forall_mem_nil _)
  | cons second rest =>
    rw [List.pairwise_cons] at hsorted
    rw [ambiguous, decide_eq_false_iff_not, not_lt, List.forall_mem_cons]
    constructor
    · intro hsecond
      refine ⟨by linarith, ?_⟩
      intro c hc
      have hc := hsorted.1 c hc
      linarith
    · rintro ⟨hsecond, _⟩
      linarith

theorem ambiguous_take (policy : AssignmentPolicy) (best : EventCandidate) (n : ℕ) :
    ambiguous policy best (rest.take (n + 1)) = ambiguous policy best rest := by
  cases rest with
  | nil => rfl
  | cons second rest => rfl

/- Two candidates of the ranking are enough to decide. -/
theorem decides_take (hlimit : 2 ≤ limit) :
    Decides all (decideEventAssignment defaultAssignmentPolicy
      ((ranked EventCandidate.score all).take limit)) := by
  obtain ⟨n, rfl⟩ : ∃ n, limit = n + 1 + 1 := ⟨limit - 2, by omega⟩
  have hperm := ranked_perm EventCandidate.score all
  have hsorted := ranked_pairwise EventCandidate.score all
  unfold decideEventAssignment
  rw [ranked_take]
  cases hranked : ranked EventCandidate.score all with
  | nil =>
    rw [hranked] at hperm
    obtain rfl := hperm.nil_eq
    exact ⟨iff_of_true rfl (List.forall_mem_nil _), fun _ => ⟨rfl, rfl⟩, fun h => absurd rfl h⟩
  | cons best rest =>
    rw [hranked] at hperm hsorted
    rw [List.pairwise_cons] at hsorted
    obtain ⟨hbest, hrest⟩ := hsorted
    simp only [List.take_succ_cons, ambiguous_take]
    have hall : (∀ c ∈ all, c.score < 62 / 100) ↔ best.score < 62 / 100 := by
      constructor
      · intro h
        exact h best (hperm.mem_iff.mp List.mem_cons_self)
      · intro h c hc
        obtain rfl | hc := List.mem_cons.mp (hperm.mem_iff.mpr hc)
        · exact h
        · exact (hbest c hc).trans_lt h
    by_cases hlow : best.score < 62 / 100
    · have hlow' : best.score < defaultAssignmentPolicy.candidateThreshold := hlow
      rw [if_pos hlow']
      exact ⟨iff_of_true rfl (hall.mpr hlow), fun _ => ⟨rfl, rfl⟩, fun h => absurd rfl h⟩
    · have hlow' : ¬ best.score < defaultAssignmentPolicy.candidateThreshold := hlow
      rw [if_neg hlow']
      have hconfirmed : (defaultAssignmentPolicy.confirmedThreshold ≤ best.score &&
          !ambiguous defaultAssignmentPolicy best rest) = true ↔
          78 / 100 ≤ best.score ∧ ∀ c ∈ rest, c.score ≤ best.score - 5 / 100 := by
        rw [Bool.and_eq_true, decide_eq_true_eq, Bool.not_eq_true', ambiguous_iff _ hrest]
        rfl
      have hstate : (if (defaultAssignmentPolicy.confirmedThreshold ≤ best.score &&
          !ambiguous defaultAssignmentPolicy best rest) = true then
          EventAssignmentState.confirmed else .candidate) ≠ .provisional := by
        split <;> exact nofun
      refine ⟨iff_of_false hstate fun h => hlow (hall.mp h), fun h => absurd h hstate, ?_⟩
      intro _
      refine ⟨best, rest, hperm, hbest, rfl, rfl, ?_⟩
      rw [← hconfirmed]
      split
      · rename_i h
        exact iff_of_true rfl h
      · rename_i h
        exact iff_of_false nofun h

/-! ### The order of the references -/

/- How many of the others come near the best score does not depend on which one is set apart. -/
theorem near_iff {best' : EventCandidate} {others' : List EventCandidate} {bound : ℚ}
    (hperm : (best :: others).Perm (best' :: others')) (hscore : best.score = best'.score) :
    (∀ c ∈ others, c.score ≤ bound) ↔ ∀ c ∈ others', c.score ≤ bound := by
  have hcount := hperm.countP_eq fun c => decide (bound < c.score)
  rw [List.countP_cons, List.countP_cons, hscore] at hcount
  have hothers := Nat.add_right_cancel hcount
  have hzero (l : List EventCandidate) : (∀ c ∈ l, c.score ≤ bound) ↔
      l.countP (fun c => decide (bound < c.score)) = 0 := by
    simp only [List.countP_eq_zero, decide_eq_true_eq, not_lt]
  rw [hzero, hzero, hothers]

/- A decision in terms of all candidates depends on them as a multiset only. -/
theorem Decides.agree (h : Decides all d) (h' : Decides all' d') (hperm : all'.Perm all) :
    Agree all d d' := by
  have hprovisional : d.state = .provisional ↔ d'.state = .provisional := by
    rw [h.provisional, h'.provisional]
    constructor
    · exact fun hall c hc => hall c (hperm.mem_iff.mp hc)
    · exact fun hall c hc => hall c (hperm.mem_iff.mpr hc)
  by_cases hstate : d.state = .provisional
  · obtain ⟨hid, hscore⟩ := h.unselected hstate
    obtain ⟨hid', hscore'⟩ := h'.unselected (hprovisional.mp hstate)
    exact ⟨hstate.trans (hprovisional.mp hstate).symm, hscore.trans hscore'.symm,
      fun _ => hid.trans hid'.symm⟩
  · have hstate' : d'.state ≠ .provisional := fun h => hstate (hprovisional.mpr h)
    obtain ⟨best, others, hall, hbest, hid, hscore, hconfirmed⟩ := h.selected hstate
    obtain ⟨best', others', hall', hbest', hid', hscore', hconfirmed'⟩ := h'.selected hstate'
    have hboth : (best :: others).Perm (best' :: others') :=
      hall.trans (hperm.symm.trans hall'.symm)
    have hle : ∀ c ∈ best :: others, c.score ≤ best.score :=
      List.forall_mem_cons.mpr ⟨le_rfl, hbest⟩
    have hle' : ∀ c ∈ best' :: others', c.score ≤ best'.score :=
      List.forall_mem_cons.mpr ⟨le_rfl, hbest'⟩
    have heq : best.score = best'.score := le_antisymm
      (hle' best (hboth.mem_iff.mp List.mem_cons_self))
      (hle best' (hboth.mem_iff.mpr List.mem_cons_self))
    refine ⟨?_, ?_, ?_⟩
    · have hsame : d.state = .confirmed ↔ d'.state = .confirmed := by
        rw [hconfirmed, hconfirmed', heq, near_iff hboth heq]
      cases hs : d.state <;> cases hs' : d'.state <;> simp_all
    · rw [hscore, hscore', heq]
    · rintro ⟨top, lower, htop, hlower⟩
      have hunique : ∀ c ∈ all, (∀ b ∈ all, b.score ≤ c.score) → c = top := by
        intro c hc hmax
        obtain rfl | hc := List.mem_cons.mp (htop.mem_iff.mpr hc)
        · rfl
        · exact absurd (hmax top (htop.mem_iff.mp List.mem_cons_self)) (not_le.mpr (hlower c hc))
      have hbesttop : best = top := hunique best (hall.mem_iff.mp List.mem_cons_self)
        fun b hb => hle b (hall.mem_iff.mpr hb)
      have hbesttop' : best' = top := hunique best'
        (hperm.mem_iff.mp (hall'.mem_iff.mp List.mem_cons_self))
        fun b hb => hle' b (hall'.mem_iff.mpr (hperm.mem_iff.mpr hb))
      rw [hid, hid', hbesttop, hbesttop']

theorem candidatesForReferences_iff :
    candidatesForReferences u incoming references = .ok all ↔
      List.Forall₂ (fun r c => candidateForReference u incoming r = .ok c) references all := by
  induction references generalizing all with
  | nil =>
    constructor
    · intro h
      cases h
      exact .nil
    · rintro ⟨⟩
      rfl
  | cons reference references ih =>
    rw [candidatesForReferences]
    constructor
    · intro h
      obtain ⟨c, hc, h⟩ := bind_ok h
      obtain ⟨cs, hcs, h⟩ := bind_ok h
      cases h
      exact .cons hc (ih.mp hcs)
    · rintro (_ | ⟨hc, hcs⟩)
      rw [hc, ih.mpr hcs]
      rfl

theorem candidatesForReferences_perm
    (hall : candidatesForReferences u incoming references = .ok all)
    (hperm : references'.Perm references) :
    ∃ all', candidatesForReferences u incoming references' = .ok all' ∧ all'.Perm all := by
  obtain ⟨all', hall', hperm'⟩ :=
    List.perm_comp_forall₂ hperm (candidatesForReferences_iff.mp hall)
  exact ⟨all', candidatesForReferences_iff.mpr hall', hperm'⟩

/-! ### The decision -/

/- For candidates that could be computed, in any order of the references. -/
theorem decision_sortFree (u : Unicode) (incoming : ArticleEventProfile)
    (references : List EventReference) (all : List EventCandidate) (limit : ℕ)
    (hall : candidatesForReferences u incoming references = .ok all) (hlimit : 2 ≤ limit) :
    ∃ candidates, buildEventCandidates u incoming references limit = .ok candidates ∧
      Decides all (decideEventAssignment defaultAssignmentPolicy candidates) ∧
      ∀ references' limit', references'.Perm references → 2 ≤ limit' →
        ∃ candidates', buildEventCandidates u incoming references' limit' = .ok candidates' ∧
          Agree all (decideEventAssignment defaultAssignmentPolicy candidates)
            (decideEventAssignment defaultAssignmentPolicy candidates') := by
  refine ⟨(ranked EventCandidate.score all).take limit, ?_, decides_take hlimit, ?_⟩
  · rw [buildEventCandidates, hall]
    rfl
  · intro references' limit' hperm hlimit'
    obtain ⟨all', hall', hperm'⟩ := candidatesForReferences_perm hall hperm
    refine ⟨(ranked EventCandidate.score all').take limit', ?_, ?_⟩
    · rw [buildEventCandidates, hall']
      rfl
    · exact (decides_take hlimit).agree (decides_take hlimit') hperm'

/-! ### Three references -/

/-- The launch twice, under different events, and a story that has nothing to do with it. -/
def launchReferences : List EventReference :=
  [launchReference, { launchReference with eventId := 2 },
    { launchReference with eventId := 3, title := "Rains".toList, text := "Rains".toList }]

theorem launchReferences_sortFree : ∃ all candidates,
    candidatesForReferences asciiUnicode launchArticle launchReferences = .ok all ∧
      buildEventCandidates asciiUnicode launchArticle launchReferences 2 = .ok candidates ∧
      Decides all (decideEventAssignment defaultAssignmentPolicy candidates) := by
  have htimes : ∀ r ∈ launchReferences, TimesRepresentable launchArticle r := by
    simp only [launchReferences, List.forall_mem_cons]
    exact ⟨launch_times _ _ _, launch_times _ _ _, launch_times _ _ _, List.forall_mem_nil _⟩
  obtain ⟨all, hall⟩ := candidatesForReferences_ok asciiUnicode htimes
  obtain ⟨candidates, hcandidates, hdecides, _⟩ := decision_sortFree asciiUnicode launchArticle
    launchReferences all 2 hall le_rfl
  exact ⟨all, candidates, hall, hcandidates, hdecides⟩

end Newsintel.Events
