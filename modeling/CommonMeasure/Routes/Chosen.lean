import CommonMeasure.Routes.Selection
import Mathlib.Data.List.Perm.Basic
import Mathlib.Order.Lattice

/-!
# The plan an objective selects

What each arm compares, when it names a plan and which: the least of the arm's figure, and of equals the least plan id.
-/

namespace CommonMeasure.Routes

inductive Term where
  | quality | coverage | freshness | cost | latency | policy_risk
deriving DecidableEq

def Objective.weight : Objective → Term → ℚ
  | .maximiseQuality, .quality => 1
  | .minimiseCost, .cost => 1
  | .minimiseLatency, .latency => 1
  | .weighted quality _ _ _ _ _, .quality => quality
  | .weighted _ coverage _ _ _ _, .coverage => coverage
  | .weighted _ _ freshness _ _ _, .freshness => freshness
  | .weighted _ _ _ cost _ _, .cost => cost
  | .weighted _ _ _ _ latency _, .latency => latency
  | .weighted _ _ _ _ _ policy_risk, .policy_risk => policy_risk
  | _, _ => 0

def Objective.Weighs (objective : Objective) (term : Term) : Prop := objective.weight term ≠ 0

instance (objective : Objective) (term : Term) : Decidable (objective.Weighs term) := by
  unfold Objective.Weighs
  infer_instance

def Objective.OnFractions (objective : Objective) : Prop := objective.Weighs .coverage ∨ objective.Weighs .freshness

instance (objective : Objective) : Decidable objective.OnFractions := by
  unfold Objective.OnFractions
  infer_instance

def compared (objective : Objective) (candidates : List Candidate) : List Candidate :=
  if objective.OnFractions then candidates else done candidates

def Measured (candidate : Candidate) : Term → Prop
  | .quality => False
  | .policy_risk => False
  | .coverage => candidate.coverage.isSome
  | .freshness => candidate.freshness.isSome
  | .cost => candidate.observed_cost.isSome
  | .latency => candidate.latency_ms.isSome

def gauge (objective : Objective) (candidate : Candidate) : ℚ :=
  if objective.OnFractions then -score (objective.weight .coverage) (objective.weight .freshness) candidate
  else if objective.Weighs .cost then ((candidate.observed_cost.map Money.micros).getD 0 : Nat)
  else (candidate.latency_ms.getD 0 : Nat)

def Least (figure : Candidate → ℚ) (candidates : List Candidate) (plan_id : String) : Prop :=
  ∃ winner ∈ candidates, winner.plan_id = plan_id ∧
    ∀ candidate ∈ candidates, figure winner < figure candidate ∨
      figure winner = figure candidate ∧ winner.plan_id ≤ candidate.plan_id

structure Comparable (objective : Objective) (candidates : List Candidate) (replayed : Bool) : Prop where
  measured : ∀ candidate ∈ compared objective candidates, ∀ term, objective.Weighs term → Measured candidate term
  one_currency : objective.Weighs .cost → ∀ first ∈ compared objective candidates, ∀ second ∈ compared objective candidates,
    first.observed_cost.map Money.currency = second.observed_cost.map Money.currency
  one_rubric : objective.Weighs .coverage → ∀ first ∈ compared objective candidates, ∀ second ∈ compared objective candidates,
    first.coverage.map MeasuredCoverage.rubric = second.coverage.map MeasuredCoverage.rubric
  one_unit : ¬(objective.OnFractions ∧ (objective.Weighs .cost ∨ objective.Weighs .latency)) ∧
    ¬(objective.Weighs .cost ∧ objective.Weighs .latency)
  weighed : ∃ term, objective.Weighs term
  live : objective.Weighs .latency → replayed = false

variable {objective : Objective} {candidates : List Candidate} {replayed : Bool} {plan_id : String}

/-! ### Lists of measurements -/

theorem mapM_measured {α β : Type} (f : α → Option β) (listed : List α) :
    listed.mapM f = if ∀ a ∈ listed, (f a).isSome then some (listed.filterMap f) else none := by
  induction listed with
  | nil => simp
  | cons a rest ih =>
    rw [List.mapM_cons, ih]
    cases measured : f a with
    | none => simp [measured]
    | some b =>
      have both : (∀ c ∈ a :: rest, (f c).isSome) ↔ ∀ c ∈ rest, (f c).isSome := by simp [measured]
      by_cases later : ∀ c ∈ rest, (f c).isSome
      · rw [if_pos later, if_pos (both.mpr later), List.filterMap_cons_some measured]
        rfl
      · rw [if_neg later, if_neg (later ∘ both.mp)]
        rfl

theorem filterMap_length_iff {α β : Type} (f : α → Option β) (listed : List α) :
    (listed.filterMap f).length = listed.length ↔ ∀ a ∈ listed, (f a).isSome := by
  induction listed with
  | nil => simp
  | cons a rest ih =>
    have short := List.length_filterMap_le f rest
    cases measured : f a with
    | none =>
      simp only [List.filterMap_cons_none measured, List.length_cons, List.forall_mem_cons, measured]
      simp
      omega
    | some b => simp [List.filterMap_cons_some measured, measured, ih]

theorem neighbours_differ_iff (texts : List String) :
    neighbours_differ texts = false ↔ ∀ first ∈ texts, ∀ second ∈ texts, first = second := by
  induction texts with
  | nil => simp [neighbours_differ]
  | cons a rest ih =>
    cases rest with
    | nil => simp [neighbours_differ]
    | cons b rest =>
      rw [neighbours_differ, Bool.or_eq_false_iff, ih]
      constructor
      · rintro ⟨same, alike⟩
        obtain rfl : a = b := by simpa using same
        intro first member second listed
        have within {text : String} (member : text ∈ a :: a :: rest) : text ∈ a :: rest := by simpa using member
        exact alike first (within member) second (within listed)
      · intro alike
        refine ⟨by simpa using alike a (by simp) b (by simp), ?_⟩
        intro first member second listed
        exact alike first (List.mem_cons_of_mem _ member) second (List.mem_cons_of_mem _ listed)

theorem mem_dedup (text : String) (texts : List String) : text ∈ dedup texts ↔ text ∈ texts := by
  induction texts using dedup.induct with
  | case1 a rest ih =>
    rw [dedup, if_pos rfl, ih]
    simp
  | case2 a b rest apart ih => rw [dedup, if_neg apart, List.mem_cons, ih, List.mem_cons (b := a)]
  | case3 texts short => rw [dedup]; exact short

theorem dedup_one (texts : List String) :
    (dedup texts).length ≤ 1 ↔ ∀ first ∈ texts, ∀ second ∈ texts, first = second := by
  constructor
  · intro short first member second listed
    rw [← mem_dedup] at member listed
    match same : dedup texts, short with
    | [], _ => rw [same] at member; cases member
    | [only], _ =>
      rw [same, List.mem_singleton] at member listed
      rw [member, listed]
  · intro alike
    induction texts using dedup.induct with
    | case1 a rest ih =>
      rw [dedup, if_pos rfl]
      apply ih
      intro first member second listed
      exact alike first (List.mem_cons_of_mem _ member) second (List.mem_cons_of_mem _ listed)
    | case2 a b rest apart ih => exact (apart (alike a (by simp) b (by simp))).elim
    | case3 texts short =>
      match texts, short with
      | [], _ => simp [dedup]
      | [only], _ => simp [dedup]
      | a :: b :: rest, short => exact (short a b rest rfl).elim

theorem alike_measured {read : Candidate → Option String} {listed : List Candidate}
    (all : ∀ candidate ∈ listed, (read candidate).isSome) :
    (∀ first ∈ listed.filterMap read, ∀ second ∈ listed.filterMap read, first = second) ↔
      ∀ first ∈ listed, ∀ second ∈ listed, read first = read second := by
  constructor
  · intro alike first member second listed_
    obtain ⟨a, one⟩ := Option.isSome_iff_exists.mp (all first member)
    obtain ⟨b, other⟩ := Option.isSome_iff_exists.mp (all second listed_)
    have same := alike a (List.mem_filterMap.mpr ⟨first, member, one⟩) b (List.mem_filterMap.mpr ⟨second, listed_, other⟩)
    rw [one, other, same]
  · intro alike a member b listed_
    obtain ⟨first, among, one⟩ := List.mem_filterMap.mp member
    obtain ⟨second, also, other⟩ := List.mem_filterMap.mp listed_
    have same := alike first among second also
    rw [one, other] at same
    exact Option.some.inj same

theorem min_least (key : Candidate → Option Nat) {listed : List Candidate}
    (all : ∀ candidate ∈ listed, (key candidate).isSome) :
    (∃ least, (listed.filterMap fun candidate => (key candidate).map fun n => toLex (n, candidate.plan_id)).min? = some least ∧
      (ofLex least).2 = plan_id) ↔ Least (fun candidate => ((key candidate).getD 0 : Nat)) listed plan_id := by
  have read {candidate : Candidate} (member : candidate ∈ listed) : key candidate = some ((key candidate).getD 0) := by
    obtain ⟨n, same⟩ := Option.isSome_iff_exists.mp (all candidate member)
    rw [same]
    rfl
  have among (candidate : Candidate) (member : candidate ∈ listed) : toLex ((key candidate).getD 0, candidate.plan_id) ∈
      listed.filterMap fun candidate => (key candidate).map fun n => toLex (n, candidate.plan_id) := by
    apply List.mem_filterMap.mpr
    refine ⟨candidate, member, ?_⟩
    rw [read member]
    rfl
  constructor
  · rintro ⟨least, same, rfl⟩
    obtain ⟨member, smallest⟩ := List.min?_eq_some_iff.mp same
    obtain ⟨winner, listed_, is⟩ := List.mem_filterMap.mp member
    rw [read listed_] at is
    cases is
    refine ⟨winner, listed_, rfl, ?_⟩
    intro candidate member
    have above := Prod.Lex.toLex_le_toLex.mp (smallest _ (among candidate member))
    simpa using above
  · rintro ⟨winner, member, rfl, smallest⟩
    refine ⟨toLex ((key winner).getD 0, winner.plan_id), List.min?_eq_some_iff.mpr ⟨among winner member, ?_⟩, rfl⟩
    intro other listed_
    obtain ⟨candidate, member, is⟩ := List.mem_filterMap.mp listed_
    rw [read member] at is
    cases is
    apply Prod.Lex.toLex_le_toLex.mpr
    simpa using smallest candidate member

theorem not_least_nil (figure : Candidate → ℚ) : ¬Least figure [] plan_id := by
  rintro ⟨winner, member, _⟩
  cases member

theorem latency_named :
    (select_on_latency candidates replayed).plan_id = some plan_id ↔
      replayed = false ∧ (∀ candidate ∈ done candidates, candidate.latency_ms.isSome) ∧
        Least (fun candidate => (candidate.latency_ms.getD 0 : Nat)) (done candidates) plan_id := by
  unfold select_on_latency
  cases replayed with
  | true => simp [abstain]
  | false =>
    rw [if_neg Bool.false_ne_true]
    split
    · rename_i none_
      simp [none_, no_candidates, not_least_nil]
    · have timings : (∀ candidate ∈ done candidates, (timed candidate).isSome) ↔
          ∀ candidate ∈ done candidates, candidate.latency_ms.isSome := by simp [timed]
      rw [mapM_measured]
      by_cases all : ∀ candidate ∈ done candidates, candidate.latency_ms.isSome
      · rw [if_pos (timings.mpr all), Option.bind_some, ← min_least _ all]
        unfold timed
        cases ((done candidates).filterMap fun candidate => candidate.latency_ms.map fun n => toLex (n, candidate.plan_id)).min? with
        | none => simp [abstain]
        | some least => simpa using fun _ => all
      · rw [if_neg (all ∘ timings.mp), Option.bind_none]
        simp only [abstain, reduceCtorEq, false_iff]
        exact fun named => all named.2.1

theorem cost_named :
    (select_on_cost candidates).plan_id = some plan_id ↔
      (∀ candidate ∈ done candidates, candidate.observed_cost.isSome) ∧
        (∀ first ∈ done candidates, ∀ second ∈ done candidates,
          first.observed_cost.map Money.currency = second.observed_cost.map Money.currency) ∧
        Least (fun candidate => ((candidate.observed_cost.map Money.micros).getD 0 : Nat)) (done candidates) plan_id := by
  unfold select_on_cost
  split
  · rename_i none_
    simp [none_, no_candidates, not_least_nil]
  · have charged : (∀ candidate ∈ done candidates, (candidate.observed_cost.map Money.currency).isSome) ↔
        ∀ candidate ∈ done candidates, candidate.observed_cost.isSome := by simp
    dsimp only
    split
    · rename_i silent
      rw [ne_eq, filterMap_length_iff, charged] at silent
      simp only [abstain, reduceCtorEq, false_iff]
      exact fun named => silent named.1
    · rename_i all
      rw [ne_eq, not_not, filterMap_length_iff, charged] at all
      have alike : neighbours_differ ((done candidates).filterMap fun candidate => candidate.observed_cost.map Money.currency) = false ↔
          ∀ first ∈ done candidates, ∀ second ∈ done candidates,
            first.observed_cost.map Money.currency = second.observed_cost.map Money.currency := by
        rw [neighbours_differ_iff]
        exact alike_measured fun candidate member => by simpa using all candidate member
      split
      · rename_i differ
        simp only [abstain, reduceCtorEq, false_iff]
        intro named
        rw [alike.mpr named.2.1] at differ
        cases differ
      · rename_i same
        have keyed : ∀ candidate ∈ done candidates, (candidate.observed_cost.map Money.micros).isSome := by simpa using all
        have pairs : priced = fun candidate =>
            (candidate.observed_cost.map Money.micros).map fun n => toLex (n, candidate.plan_id) := by
          funext candidate
          rw [priced, Option.map_map]
          rfl
        rw [← min_least _ keyed, ← pairs]
        have one := alike.mp (by simpa using same)
        cases ((done candidates).filterMap priced).min? with
        | none => simp [abstain]
        | some least =>
          constructor
          · rintro ⟨⟩
            exact ⟨all, one, least, rfl, rfl⟩
          · rintro ⟨_, _, _, ⟨⟩, rfl⟩
            rfl

theorem ranks_total (a b : ℚ × Candidate) : (ranks a b || ranks b a) = true := by
  rcases lt_trichotomy a.1 b.1 with below | same | above
  · simp [ranks, below]
  · rcases le_total a.2.plan_id b.2.plan_id with first | second
    · simp [ranks, same, first]
    · simp [ranks, same, second]
  · simp [ranks, above]

theorem ranks_iff (a b : ℚ × Candidate) : ranks a b = true ↔ b.1 < a.1 ∨ a.1 = b.1 ∧ a.2.plan_id ≤ b.2.plan_id := by
  simp [ranks]

theorem ranks_trans (a b c : ℚ × Candidate) (first : ranks a b = true) (second : ranks b c = true) : ranks a c = true := by
  rw [ranks_iff] at *
  rcases first with above | ⟨same, before⟩ <;> rcases second with higher | ⟨alike, ahead⟩
  · exact Or.inl (higher.trans above)
  · exact Or.inl (alike ▸ above)
  · exact Or.inl (same ▸ higher)
  · exact Or.inr ⟨same.trans alike, before.trans ahead⟩

theorem ranked_least (coverage freshness : ℚ) (candidates : List Candidate) :
    (∃ top winner rest, (candidates.map fun candidate => (score coverage freshness candidate, candidate)).mergeSort ranks =
      (top, winner) :: rest ∧ winner.plan_id = plan_id) ↔
      Least (fun candidate => -score coverage freshness candidate) candidates plan_id := by
  have perm := List.mergeSort_perm (candidates.map fun candidate => (score coverage freshness candidate, candidate)) ranks
  have ordered := List.pairwise_mergeSort ranks_trans ranks_total
    (candidates.map fun candidate => (score coverage freshness candidate, candidate))
  have listed {candidate : Candidate} (member : candidate ∈ candidates) : (score coverage freshness candidate, candidate) ∈
      (candidates.map fun candidate => (score coverage freshness candidate, candidate)).mergeSort ranks :=
    perm.mem_iff.mpr (List.mem_map_of_mem member)
  constructor
  · rintro ⟨top, winner, rest, sorted, rfl⟩
    rw [sorted] at ordered perm
    obtain ⟨chosen, member, is⟩ := List.mem_map.mp (perm.mem_iff.mp List.mem_cons_self)
    cases is
    refine ⟨winner, member, rfl, ?_⟩
    intro candidate among
    have found := listed among
    rw [sorted] at found
    rcases List.mem_cons.mp found with same | later
    · obtain rfl := (Prod.mk.inj same).2
      exact Or.inr ⟨rfl, le_refl _⟩
    · have ahead := (ranks_iff _ _).mp ((List.pairwise_cons.mp ordered).1 _ later)
      simpa using ahead
  · rintro ⟨winner, member, rfl, smallest⟩
    match sorted : (candidates.map fun candidate => (score coverage freshness candidate, candidate)).mergeSort ranks with
    | [] =>
      have found := listed member
      rw [sorted] at found
      cases found
    | (top, first) :: rest =>
      refine ⟨top, first, rest, rfl, ?_⟩
      rw [sorted] at ordered perm
      obtain ⟨chosen, among, is⟩ := List.mem_map.mp (perm.mem_iff.mp List.mem_cons_self)
      cases is
      have found := listed member
      rw [sorted] at found
      rcases List.mem_cons.mp found with same | later
      · rw [(Prod.mk.inj same).2]
      · have ahead := (ranks_iff _ _).mp ((List.pairwise_cons.mp ordered).1 _ later)
        have behind := smallest first among
        simp only [neg_lt_neg_iff, neg_inj] at behind
        rcases ahead with above | ⟨same, before⟩
        · rcases behind with below | ⟨alike, _⟩
          · exact (lt_asymm above below).elim
          · exact (ne_of_lt above alike).elim
        · rcases behind with below | ⟨_, after⟩
          · exact (ne_of_lt below same).elim
          · exact le_antisymm before after

theorem fractions_named (coverage freshness : ℚ) (all : coverage ≠ 0 → ∀ candidate ∈ candidates, candidate.coverage.isSome) :
    (rank_on_fractions candidates coverage freshness).plan_id = some plan_id ↔
      (coverage ≠ 0 → ∀ first ∈ candidates, ∀ second ∈ candidates,
        first.coverage.map MeasuredCoverage.rubric = second.coverage.map MeasuredCoverage.rubric) ∧
      Least (fun candidate => -score coverage freshness candidate) candidates plan_id := by
  have alike (weighed : coverage ≠ 0) :
      (dedup ((candidates.filterMap fun candidate => candidate.coverage.map MeasuredCoverage.rubric).mergeSort (· ≤ ·))).length ≤ 1 ↔
        ∀ first ∈ candidates, ∀ second ∈ candidates,
          first.coverage.map MeasuredCoverage.rubric = second.coverage.map MeasuredCoverage.rubric := by
    rw [dedup_one]
    simp only [List.mem_mergeSort]
    exact alike_measured fun candidate member => by simpa using all weighed candidate member
  unfold rank_on_fractions
  dsimp only
  split
  · rename_i mixed
    simp only [abstain, reduceCtorEq, false_iff]
    intro named
    have one := (alike mixed.1).mpr (named.1 mixed.1)
    omega
  · rename_i single
    have one : coverage ≠ 0 → ∀ first ∈ candidates, ∀ second ∈ candidates,
        first.coverage.map MeasuredCoverage.rubric = second.coverage.map MeasuredCoverage.rubric := by
      intro weighed
      apply (alike weighed).mp
      by_contra several
      exact single ⟨weighed, by omega⟩
    rw [← ranked_least]
    split
    · rename_i none_
      simp [no_candidates, none_]
    · rename_i top winner rest sorted
      constructor
      · rintro ⟨⟩
        exact ⟨one, top, winner, rest, sorted, rfl⟩
      · rintro ⟨_, top', winner', rest', other, rfl⟩
        rw [sorted] at other
        cases other
        rfl

theorem without_nil (candidates : List Candidate) (has : Candidate → Bool) :
    without candidates has = [] ↔ ∀ candidate ∈ candidates, has candidate = true := by
  simp [without]

theorem absent_nil (quality coverage freshness policy_risk : ℚ) :
    absent candidates quality coverage freshness policy_risk = [] ↔
      quality = 0 ∧ policy_risk = 0 ∧ (coverage ≠ 0 → ∀ candidate ∈ candidates, candidate.coverage.isSome) ∧
        (freshness ≠ 0 → ∀ candidate ∈ candidates, candidate.freshness.isSome) := by
  unfold absent
  simp only [List.append_eq_nil_iff, ← without_nil]
  constructor
  · rintro ⟨⟨⟨first, second⟩, third⟩, fourth⟩
    refine ⟨?_, ?_, ?_, ?_⟩
    · by_contra weighed
      simp [weighed] at first
    · by_contra weighed
      simp [weighed] at fourth
    · intro weighed
      by_contra some_
      simp [weighed, some_] at second
    · intro weighed
      by_contra some_
      simp [weighed, some_] at third
  · rintro ⟨rfl, rfl, covered, dated⟩
    refine ⟨⟨⟨by simp, ?_⟩, ?_⟩, by simp⟩
    · rw [if_neg fun both => both.2 (covered both.1)]
    · rw [if_neg fun both => both.2 (dated both.1)]

theorem compared_fractions (on : objective.OnFractions) : compared objective candidates = candidates := if_pos on

theorem compared_done (off : ¬objective.OnFractions) : compared objective candidates = done candidates := if_neg off

theorem named_latency (off : ¬objective.OnFractions) (only : ∀ term, objective.Weighs term ↔ term = .latency) :
    (select_on_latency candidates replayed).plan_id = some plan_id ↔
      Comparable objective candidates replayed ∧ Least (gauge objective) (compared objective candidates) plan_id := by
  have figure : gauge objective = fun candidate => ((candidate.latency_ms.getD 0 : Nat) : ℚ) := by
    funext candidate
    rw [gauge, if_neg off, if_neg (by simp [only])]
  rw [latency_named, figure, compared_done off]
  constructor
  · rintro ⟨rfl, all, least⟩
    refine ⟨⟨?_, ?_, ?_, ?_, ⟨.latency, (only _).mpr rfl⟩, fun _ => rfl⟩, least⟩
    · intro candidate member term weighs
      rw [compared_done off] at member
      obtain rfl := (only term).mp weighs
      exact all candidate member
    · simp [only]
    · simp [only]
    · exact ⟨fun both => off both.1, by simp [only]⟩
  · rintro ⟨comparable, least⟩
    have weighs := (only .latency).mpr rfl
    refine ⟨comparable.live weighs, ?_, least⟩
    intro candidate member
    exact comparable.measured candidate (by rwa [compared_done off]) .latency weighs

theorem named_cost (off : ¬objective.OnFractions) (only : ∀ term, objective.Weighs term ↔ term = .cost) :
    (select_on_cost candidates).plan_id = some plan_id ↔
      Comparable objective candidates replayed ∧ Least (gauge objective) (compared objective candidates) plan_id := by
  have weighs := (only .cost).mpr rfl
  have figure : gauge objective = fun candidate => (((candidate.observed_cost.map Money.micros).getD 0 : Nat) : ℚ) := by
    funext candidate
    rw [gauge, if_neg off, if_pos weighs]
  rw [cost_named, figure, compared_done off]
  constructor
  · rintro ⟨all, one, least⟩
    refine ⟨⟨?_, ?_, ?_, ?_, ⟨.cost, weighs⟩, by simp [only]⟩, least⟩
    · intro candidate member term weighs
      rw [compared_done off] at member
      obtain rfl := (only term).mp weighs
      exact all candidate member
    · rw [compared_done off]
      exact fun _ => one
    · simp [only]
    · exact ⟨fun both => off both.1, by simp [only]⟩
  · rintro ⟨comparable, least⟩
    have currencies := comparable.one_currency weighs
    rw [compared_done off] at currencies
    refine ⟨?_, currencies, least⟩
    intro candidate member
    exact comparable.measured candidate (by rwa [compared_done off]) .cost weighs

theorem named_fractions (on : objective.OnFractions)
    (only : ∀ term, objective.Weighs term → term = .coverage ∨ term = .freshness)
    (covered : objective.Weighs .coverage → ∀ candidate ∈ candidates, candidate.coverage.isSome)
    (dated : objective.Weighs .freshness → ∀ candidate ∈ candidates, candidate.freshness.isSome) :
    (rank_on_fractions candidates (objective.weight .coverage) (objective.weight .freshness)).plan_id = some plan_id ↔
      Comparable objective candidates replayed ∧ Least (gauge objective) (compared objective candidates) plan_id := by
  have figure : gauge objective =
      fun candidate => -score (objective.weight .coverage) (objective.weight .freshness) candidate := by
    funext candidate
    rw [gauge, if_pos on]
  have unpriced : ¬objective.Weighs .cost := fun weighs => by simpa using only _ weighs
  have untimed : ¬objective.Weighs .latency := fun weighs => by simpa using only _ weighs
  rw [fractions_named _ _ covered, figure, compared_fractions on]
  constructor
  · rintro ⟨one, least⟩
    refine ⟨⟨?_, fun weighs => (unpriced weighs).elim, ?_, ?_, ?_, fun weighs => (untimed weighs).elim⟩, least⟩
    · intro candidate member term weighs
      rw [compared_fractions on] at member
      rcases only term weighs with rfl | rfl
      · exact covered weighs candidate member
      · exact dated weighs candidate member
    · rw [compared_fractions on]
      exact one
    · exact ⟨fun both => both.2.elim unpriced untimed, fun both => unpriced both.1⟩
    · rcases on with weighs | weighs
      · exact ⟨_, weighs⟩
      · exact ⟨_, weighs⟩
  · rintro ⟨comparable, least⟩
    have rubrics := comparable.one_rubric
    rw [compared_fractions on] at rubrics
    exact ⟨rubrics, least⟩

theorem named_absent {quality coverage freshness cost latency policy_risk : ℚ}
    (comparable : Comparable (.weighted quality coverage freshness cost latency policy_risk) candidates replayed)
    (some_ : compared (.weighted quality coverage freshness cost latency policy_risk) candidates ≠ []) :
    absent candidates quality coverage freshness policy_risk = [] := by
  obtain ⟨winner, member⟩ := List.exists_mem_of_ne_nil _ some_
  rw [absent_nil]
  refine ⟨?_, ?_, ?_, ?_⟩
  · by_contra weighs
    exact comparable.measured winner member .quality weighs
  · by_contra weighs
    exact comparable.measured winner member .policy_risk weighs
  · intro weighs candidate among
    have on : (Objective.weighted quality coverage freshness cost latency policy_risk).OnFractions := Or.inl weighs
    exact comparable.measured candidate (by rwa [compared_fractions on]) .coverage weighs
  · intro weighs candidate among
    have on : (Objective.weighted quality coverage freshness cost latency policy_risk).OnFractions := Or.inr weighs
    exact comparable.measured candidate (by rwa [compared_fractions on]) .freshness weighs

theorem unnamed {selection : Selection} (none_ : selection.plan_id = none)
    (apart : Comparable objective candidates replayed → Least (gauge objective) (compared objective candidates) plan_id →
      False) :
    selection.plan_id = some plan_id ↔
      Comparable objective candidates replayed ∧ Least (gauge objective) (compared objective candidates) plan_id := by
  rw [none_]
  constructor
  · intro same
    cases same
  · intro both
    exact (apart both.1 both.2).elim

theorem Least.some_ {figure : Candidate → ℚ} (least : Least figure candidates plan_id) : candidates ≠ [] := by
  rintro rfl
  exact not_least_nil figure least

theorem select_named : (select objective candidates replayed).plan_id = some plan_id ↔
    Comparable objective candidates replayed ∧ Least (gauge objective) (compared objective candidates) plan_id := by
  unfold select
  split
  · rename_i none_
    subst none_
    have nothing : compared objective [] = [] := by
      unfold compared done
      split <;> rfl
    apply unnamed rfl
    rw [nothing]
    exact fun _ least => not_least_nil _ least
  · cases objective with
    | minimiseLatency =>
      apply named_latency
      · simp [Objective.OnFractions, Objective.Weighs, Objective.weight]
      · intro term
        cases term <;> simp [Objective.Weighs, Objective.weight]
    | minimiseCost =>
      apply named_cost
      · simp [Objective.OnFractions, Objective.Weighs, Objective.weight]
      · intro term
        cases term <;> simp [Objective.Weighs, Objective.weight]
    | maximiseQuality =>
      apply unnamed rfl
      intro comparable least
      obtain ⟨winner, member, _⟩ := least
      exact comparable.measured winner member .quality one_ne_zero
    | weighted quality coverage freshness cost latency policy_risk =>
      dsimp only
      split
      · rename_i missing
        exact unnamed rfl fun comparable least => missing (named_absent comparable least.some_)
      · rename_i whole
        obtain ⟨rfl, rfl, covered, dated⟩ := (absent_nil _ _ _ _).mp (not_not.mp whole)
        split
        · rename_i on
          split
          · rename_i observed
            exact unnamed rfl fun comparable _ => comparable.one_unit.1 ⟨on, observed⟩
          · rename_i unobserved
            rw [not_or, not_not, not_not] at unobserved
            obtain ⟨rfl, rfl⟩ := unobserved
            refine @named_fractions (.weighted 0 coverage freshness 0 0 0) _ _ _ on ?_ covered dated
            intro term
            cases term <;> simp [Objective.Weighs, Objective.weight]
        · rename_i off
          rw [not_or, not_not, not_not] at off
          obtain ⟨rfl, rfl⟩ := off
          split
          · rename_i priced
            split
            · rename_i timed
              exact unnamed rfl fun comparable _ => comparable.one_unit.2 ⟨priced, timed⟩
            · rename_i untimed
              obtain rfl := not_not.mp untimed
              apply named_cost
              · simp [Objective.OnFractions, Objective.Weighs, Objective.weight]
              · intro term
                cases term <;> simp [Objective.Weighs, Objective.weight, priced]
          · rename_i unpriced
            obtain rfl := not_not.mp unpriced
            split
            · rename_i timed
              apply named_latency
              · simp [Objective.OnFractions, Objective.Weighs, Objective.weight]
              · intro term
                cases term <;> simp [Objective.Weighs, Objective.weight, timed]
            · rename_i untimed
              obtain rfl := not_not.mp untimed
              apply unnamed rfl
              rintro ⟨_, _, _, _, ⟨term, weighs⟩, _⟩ _
              cases term <;> exact weighs rfl

/-! ### Order, replays and abstention -/

theorem done_perm {first second : List Candidate} (perm : first.Perm second) : (done first).Perm (done second) := perm.filter _

theorem compared_perm {first second : List Candidate} (perm : first.Perm second) :
    (compared objective first).Perm (compared objective second) := by
  unfold compared
  split
  · exact perm
  · exact done_perm perm

theorem comparable_perm {first second : List Candidate} (perm : first.Perm second)
    (comparable : Comparable objective first replayed) : Comparable objective second replayed := by
  have same : ∀ candidate, candidate ∈ compared objective first ↔ candidate ∈ compared objective second :=
    fun _ => (compared_perm perm).mem_iff
  obtain ⟨measured, currency, rubric, unit, weighed, live⟩ := comparable
  simp only [same] at measured currency rubric
  exact ⟨measured, currency, rubric, unit, weighed, live⟩

theorem least_perm {figure : Candidate → ℚ} {first second : List Candidate} (perm : first.Perm second)
    (least : Least figure first plan_id) : Least figure second plan_id := by
  obtain ⟨winner, member, is, smallest⟩ := least
  exact ⟨winner, perm.mem_iff.mp member, is, fun candidate among => smallest candidate (perm.mem_iff.mpr among)⟩

theorem select_perm {first second : List Candidate} (perm : first.Perm second) :
    (select objective first replayed).plan_id = (select objective second replayed).plan_id := by
  have named {a b : List Candidate} (perm : a.Perm b) {plan_id : String}
      (is : (select objective a replayed).plan_id = some plan_id) : (select objective b replayed).plan_id = some plan_id := by
    obtain ⟨comparable, least⟩ := select_named.mp is
    exact select_named.mpr ⟨comparable_perm perm comparable, least_perm (compared_perm perm) least⟩
  cases one : (select objective first replayed).plan_id with
  | some plan_id => rw [named perm one]
  | none =>
    cases other : (select objective second replayed).plan_id with
    | none => rfl
    | some plan_id =>
      rw [named perm.symm other] at one
      cases one

def untimed (candidate : Candidate) : Candidate := { candidate with latency_ms := none }

theorem done_untimed (candidates : List Candidate) : done (candidates.map untimed) = (done candidates).map untimed := by
  unfold done
  rw [List.filter_map]
  rfl

theorem without_untimed (candidates : List Candidate) {has : Candidate → Bool}
    (same : ∀ candidate, has (untimed candidate) = has candidate) :
    without (candidates.map untimed) has = without candidates has := by
  simp only [without, List.filter_map, List.map_map, Function.comp_def, same]
  rfl

theorem cost_untimed (candidates : List Candidate) : select_on_cost (candidates.map untimed) = select_on_cost candidates := by
  unfold select_on_cost
  simp only [done_untimed, List.map_eq_nil_iff, List.filterMap_map, List.length_map]
  rw [without_untimed]
  · rfl
  · exact fun _ => rfl

theorem fractions_untimed (candidates : List Candidate) (coverage freshness : ℚ) :
    rank_on_fractions (candidates.map untimed) coverage freshness = rank_on_fractions candidates coverage freshness := by
  have sorted : ((candidates.map untimed).map fun candidate => (score coverage freshness candidate, candidate)).mergeSort ranks =
      ((candidates.map fun candidate => (score coverage freshness candidate, candidate)).mergeSort ranks).map
        fun entry => (entry.1, untimed entry.2) := by
    rw [List.map_mergeSort]
    · simp only [List.map_map]
      rfl
    · exact fun _ _ _ _ => rfl
  unfold rank_on_fractions
  simp only [sorted, List.filterMap_map]
  cases (candidates.map fun candidate => (score coverage freshness candidate, candidate)).mergeSort ranks with
  | nil => rfl
  | cons head rest =>
    simp only [List.filter_map, List.map_map]
    rfl

theorem select_untimed (objective : Objective) (candidates : List Candidate) :
    select objective (candidates.map untimed) true = select objective candidates true := by
  unfold select
  by_cases none_ : candidates = []
  · subst none_
    rfl
  · rw [if_neg none_, if_neg (by simpa using none_)]
    cases objective with
    | minimiseLatency => rfl
    | minimiseCost => exact cost_untimed candidates
    | maximiseQuality => rfl
    | weighted quality coverage freshness cost latency policy_risk =>
      have missing : absent (candidates.map untimed) quality coverage freshness policy_risk =
          absent candidates quality coverage freshness policy_risk := by
        have uncovered : without (candidates.map untimed) (fun candidate => candidate.coverage.isSome) =
            without candidates fun candidate => candidate.coverage.isSome := without_untimed candidates fun _ => rfl
        have undated : without (candidates.map untimed) (fun candidate => candidate.freshness.isSome) =
            without candidates fun candidate => candidate.freshness.isSome := without_untimed candidates fun _ => rfl
        simp only [absent, uncovered, undated]
      simp only [missing, cost_untimed, fractions_untimed]
      rfl

theorem latency_silent (unnamed : (select_on_latency candidates replayed).plan_id = none)
    (silent : (select_on_latency candidates replayed).unavailable_inputs = []) : done candidates = [] := by
  unfold select_on_latency at unnamed silent
  split at silent
  · cases silent
  · rename_i live
    rw [if_neg live] at unnamed
    split at silent
    · assumption
    · rename_i some_
      rw [if_neg some_] at unnamed
      split at silent
      · rename_i same
        rw [same] at unnamed
        cases unnamed
      · cases silent

theorem cost_silent (unnamed : (select_on_cost candidates).plan_id = none)
    (silent : (select_on_cost candidates).unavailable_inputs = []) : done candidates = [] := by
  unfold select_on_cost at unnamed silent
  split at silent
  · assumption
  · rename_i some_
    rw [if_neg some_] at unnamed
    dsimp only at unnamed silent
    split at silent
    · cases silent
    · rename_i all
      rw [if_neg all] at unnamed
      split at silent
      · cases silent
      · rename_i one
        rw [if_neg one] at unnamed
        split at silent
        · rename_i same
          rw [same] at unnamed
          cases unnamed
        · cases silent

theorem fractions_silent {coverage freshness : ℚ} (unnamed : (rank_on_fractions candidates coverage freshness).plan_id = none)
    (silent : (rank_on_fractions candidates coverage freshness).unavailable_inputs = []) : candidates = [] := by
  unfold rank_on_fractions at unnamed silent
  dsimp only at unnamed silent
  split at silent
  · cases silent
  · rename_i single
    rw [if_neg single] at unnamed
    split at unnamed
    · rename_i sorted
      have length := congrArg List.length sorted
      rw [List.length_mergeSort, List.length_map] at length
      exact List.eq_nil_of_length_eq_zero length
    · cases unnamed

theorem select_silent (some_ : candidates ≠ []) (unnamed : (select objective candidates replayed).plan_id = none)
    (silent : (select objective candidates replayed).unavailable_inputs = []) :
    done candidates = [] ∨ ∀ term, ¬objective.Weighs term := by
  unfold select at unnamed silent
  rw [if_neg some_] at unnamed silent
  cases objective with
  | minimiseLatency => exact Or.inl (latency_silent unnamed silent)
  | minimiseCost => exact Or.inl (cost_silent unnamed silent)
  | maximiseQuality => cases silent
  | weighted quality coverage freshness cost latency policy_risk =>
    dsimp only at unnamed silent
    split at silent
    · rename_i missing
      exact (missing (List.map_eq_nil_iff.mp silent)).elim
    · rename_i whole
      rw [if_neg whole] at unnamed
      obtain ⟨rfl, rfl, _, _⟩ := (absent_nil _ _ _ _).mp (not_not.mp whole)
      split at silent
      · rename_i on
        rw [if_pos on] at unnamed
        split at silent
        · rename_i observed
          rcases observed with weighed | weighed
          · simp [abstain, weighed] at silent
          · simp [abstain, weighed] at silent
        · rename_i unobserved
          rw [if_neg unobserved] at unnamed
          exact (some_ (fractions_silent unnamed silent)).elim
      · rename_i off
        rw [if_neg off] at unnamed
        split at silent
        · rename_i priced
          rw [if_pos priced] at unnamed
          split at silent
          · cases silent
          · rename_i untimed
            rw [if_neg untimed] at unnamed
            exact Or.inl (cost_silent unnamed silent)
        · rename_i unpriced
          rw [if_neg unpriced] at unnamed
          split at silent
          · rename_i timed
            rw [if_pos timed] at unnamed
            exact Or.inl (latency_silent unnamed silent)
          · rename_i untimed
            rw [not_or, not_not, not_not] at off
            obtain ⟨rfl, rfl⟩ := off
            obtain rfl := not_not.mp unpriced
            obtain rfl := not_not.mp untimed
            right
            intro term weighs
            cases term <;> exact weighs rfl

/-- A plan is named where everything the arm compares is measured on one scale, and is the least of it; the candidates' order
does not count, nor a replayed run's latencies. Where there are candidates and none is named, an input is unavailable unless no
plan completed or nothing carries weight. -/
theorem selects_the_best (objective : Objective) (candidates : List Candidate) (replayed : Bool) :
    (∀ other, candidates.Perm other → (select objective other replayed).plan_id = (select objective candidates replayed).plan_id) ∧
    (∀ plan_id, (select objective candidates replayed).plan_id = some plan_id ↔
      Comparable objective candidates replayed ∧ Least (gauge objective) (compared objective candidates) plan_id) ∧
    (∀ other, other.map untimed = candidates.map untimed → select objective other true = select objective candidates true) ∧
    (candidates ≠ [] → (select objective candidates replayed).plan_id = none →
      (select objective candidates replayed).unavailable_inputs = [] →
      done candidates = [] ∨ ∀ term, ¬objective.Weighs term) := by
  refine ⟨fun _ perm => (select_perm perm).symm, fun _ => select_named, ?_, select_silent⟩
  intro other same
  rw [← select_untimed objective other, same, select_untimed]

/-- Two plans of one score, in either order. -/
theorem selects_the_best_tied :
    let measured (plan_id : String) : Candidate := ⟨plan_id, false, none, none, some ⟨1 / 2, "docs/1"⟩, none⟩
    let objective := Objective.weighted 0 1 0 0 0 0
    (select objective [measured "b", measured "a"] false).plan_id =
      (select objective [measured "a", measured "b"] false).plan_id := by
  intro measured objective
  exact (selects_the_best objective [measured "a", measured "b"] false).1 _ (List.Perm.swap _ _ [])

end CommonMeasure.Routes
