import Mathlib.Data.Finset.Card
import Mathlib.Data.List.Nodup

/-!
# A queue of what was last used

The items last used, newest last, no more than a bound.
-/

namespace CommonMeasure.Recency

variable {α : Type*} [DecidableEq α]

def touch (bound : Nat) (queue : List α) (a : α) : List α :=
  let more := queue.erase a ++ [a]
  more.drop (more.length - bound)

def run (bound : Nat) (used : List α) : List α := used.foldl (touch bound) []

theorem run_snoc (bound : Nat) (used : List α) (a : α) : run bound (used ++ [a]) = touch bound (run bound used) a := by
  rw [run, List.foldl_append]
  rfl

theorem touch_length (bound : Nat) (queue : List α) (a : α) : (touch bound queue a).length ≤ bound := by
  rw [touch, List.length_drop]
  omega

theorem erase_nodup {queue : List α} (nodup : queue.Nodup) (a : α) : (queue.erase a ++ [a]).Nodup := by
  rw [List.nodup_append]
  refine ⟨nodup.erase a, List.nodup_singleton a, ?_⟩
  rintro b listed _ last rfl
  rw [List.mem_singleton] at last
  exact (nodup.mem_erase_iff.mp listed).1 last

theorem touch_nodup {bound : Nat} {queue : List α} (nodup : queue.Nodup) (a : α) : (touch bound queue a).Nodup :=
  (erase_nodup nodup a).sublist (List.drop_sublist _ _)

theorem run_nodup (bound : Nat) (used : List α) : (run bound used).Nodup := by
  induction used using List.reverseRecOn with
  | nil => exact List.nodup_nil
  | append_singleton used a ih =>
    rw [run_snoc]
    exact touch_nodup ih a

theorem run_length (bound : Nat) (used : List α) : (run bound used).length ≤ bound := by
  cases used using List.reverseRecOn with
  | nil => exact Nat.zero_le _
  | append_singleton used a =>
    rw [run_snoc]
    exact touch_length _ _ _

theorem touch_last {bound : Nat} (positive : 0 < bound) (queue : List α) (a : α) :
    touch bound queue a = (queue.erase a).drop ((queue.erase a).length + 1 - bound) ++ [a] := by
  rw [touch]
  rw [List.length_append, List.length_singleton, List.drop_append_of_le_length (by omega)]

/-- The item is in the queue with nothing behind it but those, or as many others of those as the bound. -/
def Within (bound : Nat) (queue : List α) (a : α) (after : List α) : Prop :=
  (∃ older newer, queue = older ++ a :: newer ∧ newer ⊆ after) ∨ bound ≤ (after.toFinset.erase a).card

theorem touch_within {bound : Nat} (positive : 0 < bound) {queue : List α} (nodup : queue.Nodup)
    (short : queue.length ≤ bound) {a : α} {after : List α} (within : Within bound queue a after) (b : α) :
    Within bound (touch bound queue b) a (after ++ [b]) := by
  have more : after.toFinset.erase a ⊆ (after ++ [b]).toFinset.erase a := by
    apply Finset.erase_subset_erase
    rw [List.toFinset_append]
    exact Finset.subset_union_left
  rcases within with ⟨older, newer, rfl, after_⟩ | many
  · by_cases same : b = a
    · subst same
      left
      rw [touch_last positive]
      exact ⟨_, [], rfl, List.nil_subset _⟩
    · -- Whatever is behind the item is still, and the item used with it.
      have apart := List.nodup_append.mp nodup
      have newerErased : newer.erase b ++ [b] ⊆ after ++ [b] := by
        intro c listed
        rcases List.mem_append.mp listed with earlier | last
        · exact List.mem_append_left _ (after_ (List.mem_of_mem_erase earlier))
        · exact List.mem_append_right _ last
      obtain ⟨front, erased⟩ : ∃ front, (older ++ a :: newer).erase b ++ [b] = front ++ a :: (newer.erase b ++ [b]) := by
        by_cases old : b ∈ older
        · have unlisted : b ∉ newer := fun new =>
            apart.2.2 b old b (List.mem_cons_of_mem _ new) rfl
          refine ⟨older.erase b, ?_⟩
          rw [List.erase_append_left _ old, List.erase_of_not_mem unlisted, List.append_assoc, List.cons_append]
        · refine ⟨older, ?_⟩
          rw [List.erase_append_right _ old, List.erase_cons_tail (by simpa using fun is => same is.symm), List.append_assoc,
            List.cons_append]
      have whole := erase_nodup nodup b
      have count : ((older ++ a :: newer).erase b ++ [b]).length ≤ bound + 1 := by
        have fewer := List.length_erase_le (l := older ++ a :: newer) (a := b)
        rw [List.length_append, List.length_singleton]
        omega
      rw [erased] at whole count
      rw [touch, erased]
      by_cases room : (front ++ a :: (newer.erase b ++ [b])).length - bound ≤ front.length
      · left
        rw [List.drop_append_of_le_length room]
        exact ⟨_, _, rfl, newerErased⟩
      · right
        have behind := (List.nodup_append.mp whole).2.1
        rw [List.nodup_cons] at behind
        have listed : (newer.erase b ++ [b]).toFinset ⊆ (after ++ [b]).toFinset.erase a := by
          intro c found
          rw [List.mem_toFinset] at found
          rw [Finset.mem_erase, List.mem_toFinset]
          refine ⟨?_, newerErased found⟩
          rintro rfl
          exact behind.1 found
        have size := Finset.card_le_card listed
        rw [List.toFinset_card_of_nodup behind.2] at size
        rw [List.length_append, List.length_cons] at room count
        omega
  · exact .inr (many.trans (Finset.card_le_card more))

theorem kept {bound : Nat} (positive : 0 < bound) (before : List α) (a : α) (after : List α) :
    Within bound (run bound (before ++ a :: after)) a after := by
  induction after using List.reverseRecOn with
  | nil =>
    left
    rw [run_snoc, touch_last positive]
    exact ⟨_, [], rfl, List.nil_subset _⟩
  | append_singleton after b ih =>
    rw [← List.cons_append, ← List.append_assoc, run_snoc]
    exact touch_within positive (run_nodup _ _) (run_length _ _) ih b

theorem mem_run {bound : Nat} {used : List α} {a : α} (listed : a ∈ run bound used) : a ∈ used := by
  induction used using List.reverseRecOn with
  | nil => cases listed
  | append_singleton used b ih =>
    rw [run_snoc, touch] at listed
    rcases List.mem_append.mp (List.mem_of_mem_drop listed) with earlier | last
    · exact List.mem_append_left _ (ih (List.mem_of_mem_erase earlier))
    · exact List.mem_append_right _ last

end CommonMeasure.Recency
