import CommonMeasure.Relay.Recovered

/-!
# Every batch of the spool accounted for
-/

namespace CommonMeasure.Relay.Spool

variable {Uuid : Type} {format : UuidText Uuid} [DecidableEq Uuid] {held : Held} {disk : Disk}

/-! ### No batch is lost -/

def enqueued (acts : List Act) : List SpoolEntry :=
  acts.filterMap fun act => match act with
    | .added entry => some entry
    | _ => none

def pruned (acts : List Act) : List Nat :=
  acts.flatMap fun act => match act with
    | .dropped indices => indices
    | _ => []

def accepted (acts : List Act) : List Nat :=
  acts.filterMap fun act => match act with
    | .set index state => if state.status = .delivered then some index else none
    | _ => none

structure Accounts (acts : List Act) (held : Held) : Prop where
  next : held.nextIndex = (enqueued acts).length
  lines : ∀ index entry, (index, entry) ∈ held.lines ↔ (enqueued acts)[index]? = some entry ∧ index ∉ pruned acts
  nodup : (pruned acts).Nodup
  count : held.prunedDelivered = (pruned acts).length
  once : (accepted acts).Nodup
  accepted : ∀ index, index ∈ accepted acts ↔ index ∈ pruned acts ∨ held.Has index ∧ (held.state index).status = .delivered
  new : ∀ index, held.nextIndex ≤ index → held.state index = .queued
  below : ∀ index ∈ pruned acts, index < held.nextIndex

theorem Moves.live {old new : DeliveryState} (moves : Moves old new) : old.status ≠ .delivered := by
  intro delivered
  cases moves <;> simp_all

theorem has_iff {index : Nat} : held.Has index ↔ ∃ entry, (index, entry) ∈ held.lines := by
  refine getAt_isSome.trans ⟨?_, ?_⟩
  · rintro ⟨line, listed, rfl⟩
    exact ⟨line.2, listed⟩
  · rintro ⟨entry, listed⟩
    exact ⟨_, listed, rfl⟩

theorem Accounts.act {acts : List Act} (accounts : Accounts acts held) {act : Act} (allows : held.Allows act) :
    Accounts (acts ++ [act]) (held.act act) := by
  obtain ⟨next, lines, nodup, count, once, accepted_, new, below⟩ := accounts
  have known : ∀ index, held.Has index → index < held.nextIndex ∧ index ∉ pruned acts := by
    intro index has
    obtain ⟨entry, listed⟩ := has_iff.mp has
    obtain ⟨is, kept⟩ := (lines index entry).mp listed
    exact ⟨next ▸ (List.getElem?_eq_some_iff.mp is).1, kept⟩
  cases act with
  | added entry =>
    have enqueued_ : enqueued (acts ++ [.added entry]) = enqueued acts ++ [entry] := by simp [enqueued]
    have pruned_ : pruned (acts ++ [.added entry]) = pruned acts := by simp [pruned]
    have accepts : Spool.accepted (acts ++ [.added entry]) = Spool.accepted acts := by simp [Spool.accepted]
    have listed : ∀ index other, (index, other) ∈ (held.act (.added entry)).lines ↔
        (index, other) ∈ held.lines ∨ index = held.nextIndex ∧ other = entry := by
      intro index other
      exact List.mem_append.trans (or_congr_right (by simp))
    refine ⟨?_, fun index other => ?_, pruned_ ▸ nodup, pruned_ ▸ count, accepts ▸ once, fun index => ?_, fun index above => ?_,
      fun index member => Nat.lt_succ_of_lt (below index (pruned_ ▸ member))⟩
    · rw [enqueued_, List.length_append, ← next]
      rfl
    · rw [listed, lines, enqueued_, pruned_, List.getElem?_append]
      by_cases old : index < (enqueued acts).length
      · simp [old, show index ≠ held.nextIndex by omega]
      · have kept : index ∉ pruned acts := fun member => by have := below index member; omega
        rw [if_neg old, List.getElem?_eq_none (by omega)]
        by_cases last : index = held.nextIndex
        · have first : index - (enqueued acts).length = 0 := by omega
          rw [first]
          simp [last, show held.nextIndex ∉ pruned acts from last ▸ kept, eq_comm]
        · have beyond : 1 ≤ index - (enqueued acts).length := by omega
          simp [last, List.getElem?_eq_none, beyond]
    · rw [accepts, pruned_, accepted_]
      apply or_congr_right
      rw [has_iff, has_iff]
      constructor
      · rintro ⟨⟨other, member⟩, delivered⟩
        exact ⟨⟨other, (listed index other).mpr (Or.inl member)⟩, delivered⟩
      · rintro ⟨⟨other, member⟩, delivered⟩
        rcases (listed index other).mp member with old | ⟨rfl, _⟩
        · exact ⟨⟨other, old⟩, delivered⟩
        · have queued : (held.state held.nextIndex).status = .delivered := delivered
          rw [new _ (Nat.le_refl _)] at queued
          cases queued
    · exact new index (Nat.le_of_succ_le above)
  | set index state =>
    obtain ⟨has, moves⟩ := allows
    have enqueued_ : enqueued (acts ++ [.set index state]) = enqueued acts := by simp [enqueued]
    have pruned_ : pruned (acts ++ [.set index state]) = pruned acts := by simp [pruned]
    have accepts : Spool.accepted (acts ++ [.set index state]) =
        Spool.accepted acts ++ if state.status = .delivered then [index] else [] := by
      simp only [Spool.accepted, List.filterMap_append, List.filterMap_cons, List.filterMap_nil]
      split
      · simp_all
      · simp_all
    obtain ⟨small, kept⟩ := known index has
    have unaccepted : index ∉ Spool.accepted acts := by
      intro member
      rcases (accepted_ index).mp member with gone | ⟨_, delivered⟩
      · exact kept gone
      · exact moves.live delivered
    have own : (held.act (.set index state)).state index = state := by simp [Held.act]
    have others : ∀ other ≠ index, (held.act (.set index state)).state other = held.state other :=
      fun other apart => Function.update_of_ne apart _ _
    refine ⟨enqueued_ ▸ next, enqueued_ ▸ pruned_ ▸ lines, pruned_ ▸ nodup, pruned_ ▸ count, ?_, fun other => ?_,
      fun other above => ?_,
      pruned_ ▸ below⟩
    · rw [accepts]
      split
      · exact List.nodup_append_comm.mp (List.nodup_cons.mpr ⟨unaccepted, once⟩)
      · rwa [List.append_nil]
    · rw [accepts, pruned_, List.mem_append, accepted_]
      by_cases same : other = index
      · subst same
        rw [own]
        have old : ¬(held.Has other ∧ (held.state other).status = .delivered) := fun both => moves.live both.2
        by_cases delivered : state.status = .delivered
        · simp [delivered, kept, has_set, has]
        · simp [delivered, kept, old]
      · rw [others other same]
        split
        · simp [same, has_set]
        · simp [has_set]
    · have apart : other ≠ index := by
        rintro rfl
        have : held.nextIndex ≤ other := above
        omega
      exact (others other apart).trans (new other above)
  | dropped indices =>
    obtain ⟨distinct, delivered⟩ := allows
    have enqueued_ : enqueued (acts ++ [.dropped indices]) = enqueued acts := by simp [enqueued]
    have pruned_ : pruned (acts ++ [.dropped indices]) = pruned acts ++ indices := by simp [pruned]
    have accepts : Spool.accepted (acts ++ [.dropped indices]) = Spool.accepted acts := by simp [Spool.accepted]
    have listed : ∀ index entry, (index, entry) ∈ (held.act (.dropped indices)).lines ↔
        (index, entry) ∈ held.lines ∧ index ∉ indices := fun index entry => List.mem_filter.trans (and_congr_right (by simp))
    have has : ∀ index, (held.act (.dropped indices)).Has index ↔ held.Has index ∧ index ∉ indices := by
      intro index
      rw [has_iff, has_iff]
      simp [listed]
    refine ⟨enqueued_ ▸ next, fun index entry => ?_, ?_, ?_, accepts ▸ once, fun index => ?_, fun index above => ?_, ?_⟩
    · rw [listed, lines, enqueued_, pruned_, List.mem_append, not_or, and_assoc]
    · rw [pruned_]
      exact nodup.append distinct fun index old member => (known index (delivered index member).1).2 old
    · rw [pruned_, List.length_append, ← count]
      rfl
    · rw [accepts, pruned_, accepted_, has, List.mem_append]
      by_cases member : index ∈ indices
      · simp [member, delivered index member]
      · change _ ↔ _ ∨ _ ∧ (if index ∈ indices then DeliveryState.queued else held.state index).status = .delivered
        simp [member]
    · change (if index ∈ indices then DeliveryState.queued else held.state index) = .queued
      rw [new index above, ite_self]
    · rw [pruned_]
      intro index member
      rcases List.mem_append.mp member with old | dropped
      · exact below index old
      · exact (known index (delivered index dropped).1).1

theorem accounts {acts : List Act} (along : AlongRun Held.act Held.Allows .nothing acts) :
    Accounts acts (Held.nothing.after acts) := by
  induction acts using List.reverseRecOn with
  | nil =>
    refine ⟨rfl, fun index entry => ?_, List.nodup_nil, rfl, List.nodup_nil, fun index => ?_, fun _ _ => rfl,
      fun _ member => ?_⟩
    · simp [Held.after, Held.nothing, enqueued]
    · simp [Spool.accepted, pruned, Held.Has, Held.after, Held.nothing, getAt]
    · cases member
  | append_singleton acts last ih =>
    obtain ⟨before, allows⟩ := AlongRun.snoc.mp along
    rw [Held.after, runWith_append]
    exact (ih before).act allows

def Held.delivered (held : Held) : List Nat :=
  (held.lines.filter fun line => decide ((held.state line.1).status = .delivered)).map Prod.fst

theorem ordered_lines (stood : Stood disk held) : Ordered held.lines := by
  obtain ⟨stored, journal, stands⟩ := stood
  exact stands.lines ▸ stands.ascending.filter _

/-- A batch stays under the index its enqueue gave it until it is pruned, only accepted batches are pruned, none is
accepted twice, and what is retained delivered and what is pruned make up the acceptances. -/
theorem none_lost (events : List (Event Uuid)) :
    let acts := log format start events
    let held := Held.nothing.after acts
    held.nextIndex = (enqueued acts).length ∧
      (∀ index entry, (index, entry) ∈ held.lines ↔ (enqueued acts)[index]? = some entry ∧ index ∉ pruned acts) ∧
      (∀ index ∈ pruned acts, index ∈ accepted acts) ∧ (accepted acts).Nodup ∧ held.prunedDelivered = (pruned acts).length ∧
      held.delivered.length + held.prunedDelivered = (accepted acts).length := by
  intro acts held
  obtain ⟨along, stood, _⟩ := run_holds format start_holds events
  obtain ⟨next, lines, nodup, count, once, accepted_, new, below⟩ := accounts along
  refine ⟨next, lines, fun index member => (accepted_ index).mpr (Or.inl member), once, count, ?_⟩
  have retained : held.delivered.Nodup := Ordered.nodup ((ordered_lines stood).filter _)
  have mem : ∀ index, index ∈ held.delivered ↔ held.Has index ∧ (held.state index).status = .delivered := by
    intro index
    rw [has_iff]
    simp [Held.delivered]
  have apart : ∀ index ∈ held.delivered, index ∉ pruned acts := by
    intro index member gone
    obtain ⟨entry, listed⟩ := has_iff.mp ((mem index).mp member).1
    exact ((lines index entry).mp listed).2 gone
  have perm := (List.perm_ext_iff_of_nodup (retained.append nodup fun index one other => apart index one other) once).mpr
    fun index => by rw [List.mem_append, mem, accepted_, or_comm]
  rw [count, ← List.length_append]
  exact perm.length_eq

/-! ### The delivery schedule -/

def trail (index : Nat) (acts : List Act) : List DeliveryState :=
  .queued :: acts.filterMap fun act => match act with
    | .set other state => if other = index then some state else none
    | _ => none

def claims : List DeliveryState → List (Nat × Int)
  | old :: new :: rest =>
    (if old.attempts < new.attempts then [(new.attempts, new.lastAttemptAt.getD 0)] else []) ++ claims (new :: rest)
  | _ => []

def Spaced (one next : Nat × Int) : Prop := next.1 = one.1 + 1 ∧ one.2 + retryDelay one.1 ≤ next.2

theorem trail_snoc (index : Nat) (acts : List Act) (act : Act) :
    trail index (acts ++ [act]) = trail index acts ++ match act with
      | .set other state => if other = index then [state] else []
      | _ => [] := by
  cases act with
  | set other state =>
    by_cases same : other = index
    · simp [trail, same]
    · simp [trail, same]
  | _ => simp [trail]

theorem trail_moves {acts : List Act} (along : AlongRun Held.act Held.Allows .nothing acts) (index : Nat) :
    (trail index acts).IsChain Moves ∧
      (index ∉ pruned acts → (trail index acts).getLast? = some ((Held.nothing.after acts).state index)) := by
  induction acts using List.reverseRecOn with
  | nil => exact ⟨List.IsChain.singleton _, fun _ => rfl⟩
  | append_singleton acts last ih =>
    obtain ⟨before, allows⟩ := AlongRun.snoc.mp along
    obtain ⟨chain, ends⟩ := ih before
    have books := accounts before
    rw [trail_snoc, Held.after, runWith_append]
    cases last with
    | added entry =>
      have same : pruned (acts ++ [.added entry]) = pruned acts := by simp [pruned]
      rw [List.append_nil, same]
      exact ⟨chain, ends⟩
    | dropped indices =>
      have more : pruned (acts ++ [.dropped indices]) = pruned acts ++ indices := by simp [pruned]
      rw [List.append_nil, more]
      refine ⟨chain, fun kept => ?_⟩
      obtain ⟨kept, stays⟩ := not_or.mp (mt List.mem_append.mpr kept)
      exact (ends kept).trans (congrArg some (if_neg stays).symm)
    | set other state =>
      have same : pruned (acts ++ [.set other state]) = pruned acts := by simp [pruned]
      rw [same]
      by_cases own : other = index
      · subst own
        obtain ⟨has, moves⟩ := allows
        obtain ⟨entry, listed⟩ := has_iff.mp has
        have last := ends ((books.lines other entry).mp listed).2
        refine ⟨?_, fun _ => by simp [Held.act]⟩
        dsimp only
        rw [if_pos rfl]
        refine List.isChain_append.mpr ⟨chain, List.IsChain.singleton _, ?_⟩
        intro old is new first
        rw [last] at is
        obtain rfl := Option.some.inj is
        obtain rfl := Option.some.inj first
        exact moves
      · dsimp only
        rw [if_neg own, List.append_nil]
        exact ⟨chain, fun kept => (ends kept).trans (congrArg some (Function.update_of_ne (Ne.symm own) _ _).symm)⟩

theorem claims_spaced {old : DeliveryState} {rest : List DeliveryState} (chain : (old :: rest).IsChain Moves)
    (alive : ∀ state ∈ (old :: rest).dropLast, state.status ≠ .dead) :
    (claims (old :: rest)).length ≤ MAX_ATTEMPTS - old.attempts ∧ (claims (old :: rest)).IsChain Spaced ∧
      ∀ first ∈ (claims (old :: rest)).head?, first.1 = old.attempts + 1 ∧ ∀ due ∈ old.nextAttemptAt, due ≤ first.2 := by
  induction rest generalizing old with
  | nil => exact ⟨Nat.zero_le _, List.IsChain.nil, by simp [claims]⟩
  | cons new rest ih =>
    obtain ⟨moves, chain⟩ := List.isChain_cons_cons.mp chain
    have later : ∀ state ∈ (new :: rest).dropLast, state.status ≠ .dead := fun state member =>
      alive state (List.mem_cons_of_mem _ member)
    have living : old.status ≠ .dead := alive old List.mem_cons_self
    obtain ⟨length, spaced, first⟩ := ih chain later
    have quiet (attempts : new.attempts ≤ old.attempts) : claims (old :: new :: rest) = claims (new :: rest) := by
      rw [claims, if_neg (by omega), List.nil_append]
    cases moves with
    | @claimed now queued due left =>
      rw [claims, if_pos (Nat.lt_succ_self _)]
      refine ⟨?_, ?_, ?_⟩
      · rw [List.length_append, List.length_singleton]
        dsimp only at length
        omega
      · refine List.isChain_append.mpr ⟨List.IsChain.singleton _, spaced, ?_⟩
        intro one is next begins
        obtain rfl := Option.some.inj is
        obtain ⟨attempt, after⟩ := first next begins
        exact ⟨attempt, after _ rfl⟩
      · intro one is
        obtain rfl := Option.some.inj is
        exact ⟨rfl, due⟩
    | expired queued spent =>
      rw [quiet (Nat.le_refl _)]
      cases rest with
      | nil => exact ⟨Nat.zero_le _, List.IsChain.nil, by simp [claims]⟩
      | cons next rest => exact absurd rfl (later _ List.mem_cons_self)
    | noted queued =>
      rw [quiet (Nat.le_refl _)]
      exact ⟨length, spaced, first⟩
    | accepted queued claimed =>
      rw [quiet (Nat.le_refl _)]
      cases rest with
      | nil => exact ⟨Nat.zero_le _, List.IsChain.nil, by simp [claims]⟩
      | cons next rest => exact absurd rfl (List.isChain_cons_cons.mp chain).1.live
    | requeued dead => exact absurd dead living

/-- Over every run, in every stretch of a batch's states in which nothing requeues it: at most `MAX_ATTEMPTS` claims, each
numbered after the one before and no earlier than its deadline. A delivered batch never changes again, and a dead
one only to be queued with no attempts. -/
theorem delivery_schedule (events : List (Event Uuid)) (index : Nat) :
    (∀ stretch, stretch <:+: trail index (log format start events) → (∀ state ∈ stretch.dropLast, state.status ≠ .dead) →
      (claims stretch).length ≤ MAX_ATTEMPTS ∧ (claims stretch).IsChain Spaced) ∧
    ∀ before old new after, trail index (log format start events) = before ++ old :: new :: after →
      old.status ≠ .delivered ∧ (old.status = .dead → new.status = .queued ∧ new.attempts = 0) ∧
      (new.status = .dead → old.status = .queued ∧ MAX_ATTEMPTS ≤ old.attempts) ∧
      (new.status = .delivered → old.status = .queued ∧ 0 < old.attempts) ∧
      (old.attempts < new.attempts → new.attempts = old.attempts + 1 ∧ old.status = .queued ∧
        ∃ now, (∀ due ∈ old.nextAttemptAt, due ≤ now) ∧ new.lastAttemptAt = some now ∧
          new.nextAttemptAt = some (now + min (60 * 2 ^ old.attempts) 3600 * second)) := by
  obtain ⟨chain, _⟩ := trail_moves (run_holds format start_holds events).1 index
  refine ⟨fun stretch within alive => ?_, fun before old new after split_ => ?_⟩
  · cases stretch with
    | nil => exact ⟨Nat.zero_le _, List.IsChain.nil⟩
    | cons old rest =>
      have inner := List.IsChain.infix chain within
      obtain ⟨length, spaced, _⟩ := claims_spaced inner alive
      exact ⟨by omega, spaced⟩
  · rw [split_] at chain
    obtain ⟨moves, _⟩ := List.isChain_cons_cons.mp (List.isChain_append.mp chain).2.1
    refine ⟨moves.live, ?_⟩
    cases moves with
    | @claimed now queued due left =>
      refine ⟨by simp [queued], by simp [queued], by simp [queued], fun _ => ⟨rfl, queued, now, due, rfl, ?_⟩⟩
      rfl
    | expired queued spent => simp [queued, spent]
    | noted queued => simp [queued]
    | accepted queued claimed => simp [queued, claimed]
    | requeued dead => simp [dead]

/-! ### What a close prunes -/

/-- Its age releases a delivered batch, or a thousand delivered above it where no member was withheld. -/
def Releases (states : States) (now : Int) (index : Nat) (state : DeliveryState) : Prop :=
  (∃ at_ ∈ state.lastAttemptAt, RETAIN_DELIVERED_DAYS * 86400 * second ≤ now - at_) ∨
    state.instanceReferencesWithheld.getD 0 = 0 ∧ RETAIN_DELIVERED_BATCHES ≤
      (states.filter fun entry => decide (entry.2.status = .delivered ∧ index < entry.1)).length

theorem released_rule {states : States} (ordered : Ordered states) {now : Int} {index : Nat}
    (member : index ∈ released states now) :
    ∃ state, getAt states index = some state ∧ state.status = .delivered ∧ Releases states now index state := by
  obtain ⟨⟨entry, position⟩, chosen, rfl⟩ := List.mem_map.mp member
  obtain ⟨placed, rule⟩ := List.mem_filter.mp chosen
  have is := List.mk_mem_zipIdx_iff_getElem?.mp placed
  have listed := List.mem_filter.mp (List.mem_of_getElem? is)
  refine ⟨entry.2, ordered.getAt_of_mem listed.1, of_decide_eq_true listed.2, ?_⟩
  rcases Bool.or_eq_true_iff.mp rule with beyond | old
  · obtain ⟨beyond, whole⟩ := of_decide_eq_true beyond
    have above := Ordered.above (List.Pairwise.filter _ ordered) is
    rw [List.filter_filter] at above
    refine Or.inr ⟨whole, ?_⟩
    simp only [Bool.decide_and, Bool.and_comm] at above ⊢
    omega
  · obtain ⟨at_, is, old⟩ := (Option.any_eq_true ..).mp old
    exact Or.inl ⟨at_, is, of_decide_eq_true old⟩

theorem prunable_rule {view : View} {now : Int} {pins : Except String (List Uuid)} {prune : List Nat}
    (ok : prunable format view (fullStates view) now pins = .ok prune) :
    prune = [] ∨ ∃ pinned, pins = .ok pinned ∧ ∀ index ∈ prune, index ∈ released (fullStates view) now ∧
      ∃ entry, getAt view.lines index = some entry ∧ unpinned format pinned entry.document = false := by
  unfold prunable at ok
  dsimp only at ok
  split at ok
  · cases ok
    exact Or.inl rfl
  · obtain ⟨pinned, known, ok⟩ := bind_ok.mp ok
    split at ok
    · rename_i listed
      cases ok
      split
      · exact Or.inl rfl
      · refine Or.inr ⟨pinned, known, fun index member => ?_⟩
        obtain ⟨chosen, stays⟩ := List.mem_filter.mp member
        obtain ⟨entry, is⟩ := Option.isSome_iff_exists.mp (listed index chosen)
        exact ⟨chosen, entry, is, by simpa [is] using stays⟩
    · cases ok

theorem compact_pruned {view : View} {now : Int} {pins : Except String (List Uuid)} {plan : Plan}
    (ok : compact format view now pins = .ok plan) :
    prunable format view (fullStates view) now pins = .ok (pruned (plan.writes.flatMap Write.acts)) := by
  obtain ⟨prune, chosen, ok⟩ := bind_ok.mp ok
  rw [chosen]
  split at ok
  · rename_i none_
    cases ok
    split
    · rw [none_]
      rfl
    · rw [none_, fold_acts]
      rfl
  · cases ok
    rw [List.flatMap_append, fold_acts, appendToJournal]
    split
    · simp [replaceJournal, Write.acts, JournalRecord.act, pruned]
    · simp [Write.acts, JournalRecord.act, pruned]

/-- A close prunes only delivered batches that the retention rule releases and whose session is pinned. -/
theorem retained (events : List (Event Uuid)) (now : Int) (pins : Except String (List Uuid)) (cut : Option Cut) :
    let dropped := pruned (acts format (runWith (step format) start events) ⟨.close now pins, cut⟩)
    dropped = [] ∨ ∃ writer ∈ (runWith (step format) start events).writer, ∃ pinned, pins = .ok pinned ∧
      ∀ index ∈ dropped, ∃ state entry, getAt (fullStates writer.view) index = some state ∧ state.status = .delivered ∧
        Releases (fullStates writer.view) now index state ∧ getAt writer.view.lines index = some entry ∧
        unpinned format pinned entry.document = false := by
  obtain ⟨_, _, writers⟩ := run_holds format start_holds events
  generalize runWith (step format) start events = system at writers
  intro dropped
  have is : dropped = pruned (acts format system ⟨.close now pins, cut⟩) := rfl
  unfold acts at is
  split at is
  · rename_i plan ok
    obtain ⟨writer, known, alive, ok⟩ := plan_close ok
    obtain ⟨_, _, _, _, _, _, _, ready⟩ := writers writer known
    have ordered := (ready alive).shows_.full.ordered
    obtain ⟨rest, whole⟩ := landedActs_first plan.writes cut
    have chosen := compact_pruned ok
    rw [← whole, pruned, List.flatMap_append, ← pruned, ← is] at chosen
    rcases prunable_rule chosen with none_ | ⟨pinned, pins_, rule⟩
    · exact Or.inl (List.append_eq_nil_iff.mp none_).1
    · refine Or.inr ⟨writer, known, pinned, pins_, fun index member => ?_⟩
      obtain ⟨chosen, entry, listed, kept⟩ := rule index (List.mem_append_left _ member)
      obtain ⟨state, stated, delivered, releases⟩ := released_rule ordered chosen
      exact ⟨state, entry, stated, delivered, releases, listed, kept⟩
  · exact Or.inl is

end CommonMeasure.Relay.Spool
