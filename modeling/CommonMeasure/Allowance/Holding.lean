import CommonMeasure.Allowance.Sums

namespace CommonMeasure.Allowance

section

variable {Uuid Time : Type} {platform : Platform Uuid Time} [DecidableEq Uuid]

def holding (entries : List (LedgerEntry platform)) (principal : String) (declared : AllowanceDeclaration platform)
    (key : String) (now : Time) : Nat :=
  committedSum entries principal declared key + reservedSum (resolvedIds entries) entries principal declared key now

def Bound (account : Account platform) (entries : List (LedgerEntry platform)) (now : Time) : Prop :=
  ∀ declared ∈ account.declarations, ∀ key,
    min (holding entries account.principal declared key now) maxMicros ≤ declared.amount.micros.toNat

theorem held_toNat (entries : List (LedgerEntry platform)) (principal : String)
    (declared : AllowanceDeclaration platform) (key : String) (now : Time) :
    (saturatingAdd (spent entries principal declared key now).1 (spent entries principal declared key now).2).toNat =
      min (holding entries principal declared key now) maxMicros := by
  rw [toNat_saturatingAdd, spent_committed, spent_reserved, holding]
  unfold maxMicros
  omega

section

variable {principal : String} {declared : AllowanceDeclaration platform} {key : String} {now later : Time}
  {resolved more : List Uuid} {entries added : List (LedgerEntry platform)}

theorem reservedSum_append :
    reservedSum resolved (entries ++ added) principal declared key now =
      reservedSum resolved entries principal declared key now + reservedSum resolved added principal declared key now := by
  simp [reservedSum]

omit [DecidableEq Uuid] in
theorem resolvedIds_append : resolvedIds (entries ++ added) = resolvedIds entries ++ resolvedIds added := by
  simp [resolvedIds]

theorem live_mono (fewer : resolved ⊆ more) (passed : platform.stamp now ≤ platform.stamp later)
    {entry : Reserved platform} (still : live more later entry = true) : live resolved now entry = true := by
  simp only [live, decide_eq_true_eq] at still ⊢
  exact ⟨fun member => still.1 (fewer member), lt_of_le_of_lt passed still.2⟩

theorem reservedMicros_mono (fewer : resolved ⊆ more) (passed : platform.stamp now ≤ platform.stamp later)
    (entry : LedgerEntry platform) :
    reservedMicros more principal declared key later entry ≤ reservedMicros resolved principal declared key now entry := by
  cases entry with
  | reserved entry =>
    dsimp only [reservedMicros]
    split
    · rename_i still
      rw [if_pos ⟨still.1, live_mono fewer passed still.2⟩]
    · exact Nat.zero_le _
  | _ => exact Nat.le_refl _

theorem reservedSum_mono (fewer : resolved ⊆ more) (passed : platform.stamp now ≤ platform.stamp later) :
    reservedSum more entries principal declared key later ≤ reservedSum resolved entries principal declared key now :=
  List.sum_le_sum fun entry _ => reservedMicros_mono fewer passed entry

theorem reservedSum_resolve {entry : Reserved platform} (member : .reserved entry ∈ entries)
    (counted : counts principal declared key entry.principal entry.amount entry.periodKeys = true)
    (still : live resolved now entry = true) :
    reservedSum (resolved ++ [entry.id]) entries principal declared key now + entry.amount.micros.toNat ≤
      reservedSum resolved entries principal declared key now := by
  obtain ⟨before, after, rfl⟩ := List.append_of_mem member
  have fewer : resolved ⊆ resolved ++ [entry.id] := List.subset_append_left _ _
  have first : reservedSum (resolved ++ [entry.id]) before principal declared key now ≤
      reservedSum resolved before principal declared key now := reservedSum_mono fewer le_rfl
  have last : reservedSum (resolved ++ [entry.id]) after principal declared key now ≤
      reservedSum resolved after principal declared key now := reservedSum_mono fewer le_rfl
  have held : reservedMicros resolved principal declared key now (.reserved entry) = entry.amount.micros.toNat :=
    if_pos ⟨counted, still⟩
  have ended : reservedMicros (resolved ++ [entry.id]) principal declared key now (.reserved entry) = 0 := by
    apply if_neg
    simp [live]
  simp only [reservedSum, List.map_append, List.map_cons, List.sum_append, List.sum_cons, held, ended] at first last ⊢
  omega

end

section

variable {account : Account platform} {now : Time} {entries added : List (LedgerEntry platform)}

theorem Bound.later {then_ : Time} (bound : Bound account entries now) (passed : platform.stamp now ≤ platform.stamp then_) :
    Bound account entries then_ := by
  intro declared listed key
  have before := bound declared listed key
  have less : reservedSum (resolvedIds entries) entries account.principal declared key then_ ≤
      reservedSum (resolvedIds entries) entries account.principal declared key now :=
    reservedSum_mono (List.Subset.refl _) passed
  simp only [holding] at before ⊢
  omega

theorem holding_append_le (declared : AllowanceDeclaration platform) (key : String) :
    holding (entries ++ added) account.principal declared key now ≤
      holding entries account.principal declared key now + committedSum added account.principal declared key +
        reservedSum (resolvedIds (entries ++ added)) added account.principal declared key now := by
  have fewer : resolvedIds entries ⊆ resolvedIds (entries ++ added) := by
    rw [resolvedIds_append]
    exact List.subset_append_left _ _
  have less : reservedSum (resolvedIds (entries ++ added)) entries account.principal declared key now ≤
      reservedSum (resolvedIds entries) entries account.principal declared key now := reservedSum_mono fewer le_rfl
  have committed : committedSum (entries ++ added) account.principal declared key =
      committedSum entries account.principal declared key + committedSum added account.principal declared key := by
    simp [committedSum]
  rw [holding, holding, reservedSum_append, committed]
  omega

theorem Bound.release (bound : Bound account entries now)
    (releases : ∀ entry ∈ added, ∃ released, entry = .released released) : Bound account (entries ++ added) now := by
  intro declared listed key
  have before := bound declared listed key
  have committed : committedSum added account.principal declared key = 0 := by
    apply List.sum_eq_zero
    intro micros member
    obtain ⟨entry, inside, rfl⟩ := List.mem_map.mp member
    obtain ⟨released, rfl⟩ := releases entry inside
    rfl
  have reserved : reservedSum (resolvedIds (entries ++ added)) added account.principal declared key now = 0 := by
    apply List.sum_eq_zero
    intro micros member
    obtain ⟨entry, inside, rfl⟩ := List.mem_map.mp member
    obtain ⟨released, rfl⟩ := releases entry inside
    rfl
  have grown : holding (entries ++ added) account.principal declared key now ≤ _ := holding_append_le declared key
  omega

def Fits (account : Account platform) (entries : List (LedgerEntry platform)) (now : Time) (amount : Money platform) :
    Prop :=
  ∀ declared ∈ account.declarations, ∃ key, declared.periodKey now = .ok key ∧
    min (holding entries account.principal declared key now + amount.micros.toNat) maxMicros ≤
      declared.amount.micros.toNat

def KeysAt (account : Account platform) (now : Time) (keys : PeriodKeys) : Prop :=
  ∀ declared ∈ account.declarations, ∃ key, declared.periodKey now = .ok key ∧ keys.get declared.period = some key

theorem Bound.hold (bound : Bound account entries now) {entry : Reserved platform}
    (fits : Fits account entries now entry.amount)
    (keys : KeysAt account now entry.periodKeys) : Bound account (entries ++ [.reserved entry]) now := by
  intro declared listed key
  have before := bound declared listed key
  have grown : holding (entries ++ [.reserved entry]) account.principal declared key now ≤ _ :=
    holding_append_le declared key
  have committed : committedSum [.reserved entry] account.principal declared key = 0 := rfl
  by_cases counted : counts account.principal declared key entry.principal entry.amount entry.periodKeys
  · obtain ⟨room, found, fit⟩ := fits declared listed
    obtain ⟨own, foundOwn, get⟩ := keys declared listed
    obtain rfl := Except.ok.inj (found.symm.trans foundOwn)
    have same : entry.periodKeys.get declared.period = some key := by
      simp only [counts, decide_eq_true_eq] at counted
      exact counted.2.2
    obtain rfl := Option.some.inj (get.symm.trans same)
    have reserved : reservedSum (resolvedIds (entries ++ [.reserved entry])) [.reserved entry] account.principal declared
        room now ≤ entry.amount.micros.toNat := by
      simp only [reservedSum, reservedMicros, List.map_cons, List.map_nil, List.sum_cons, List.sum_nil]
      split <;> omega
    omega
  · have reserved : reservedSum (resolvedIds (entries ++ [.reserved entry])) [.reserved entry] account.principal declared
        key now = 0 := by
      simp [reservedSum, reservedMicros, counted]
    omega

theorem Bound.commit (bound : Bound account entries now) {reserved : Reserved platform} {committed : Committed platform}
    (member : .reserved reserved ∈ entries) (still : live (resolvedIds entries) now reserved = true)
    (ends : committed.reservedId = some reserved.id) (principals : reserved.principal = committed.principal)
    (keys : reserved.periodKeys = committed.periodKeys) (currency : committed.amount.currency = reserved.amount.currency)
    (within : committed.amount.micros ≤ reserved.amount.micros) :
    Bound account (entries ++ [.committed committed]) now := by
  intro declared listed key
  have before := bound declared listed key
  have resolved : resolvedIds (entries ++ [.committed committed]) = resolvedIds entries ++ [reserved.id] := by
    rw [resolvedIds_append]
    simp [resolvedIds, ends]
  have within := UInt64.le_iff_toNat_le.mp within
  have sameCount : counts account.principal declared key committed.principal committed.amount committed.periodKeys =
      counts account.principal declared key reserved.principal reserved.amount reserved.periodKeys := by
    rw [counts, counts, principals, keys, currency]
  simp only [holding, resolved, reservedSum_append] at before ⊢
  have committedIs : committedSum (entries ++ [.committed committed]) account.principal declared key =
      committedSum entries account.principal declared key +
        if counts account.principal declared key reserved.principal reserved.amount reserved.periodKeys then
          committed.amount.micros.toNat
        else 0 := by
    simp [committedSum, committedMicros, sameCount]
  have none : reservedSum (resolvedIds entries ++ [reserved.id]) [.committed committed] account.principal declared key now =
      0 := rfl
  rw [committedIs, none]
  split
  · rename_i counted
    have freed := reservedSum_resolve member counted still
    omega
  · have less : reservedSum (resolvedIds entries ++ [reserved.id]) entries account.principal declared key now ≤
        reservedSum (resolvedIds entries) entries account.principal declared key now :=
      reservedSum_mono (List.subset_append_left _ _) le_rfl
    omega

end

end

end CommonMeasure.Allowance
