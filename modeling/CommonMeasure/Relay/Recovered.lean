import CommonMeasure.Relay.Journalled

/-!
# What a run of the spool leaves
-/

namespace CommonMeasure.Relay.Spool

variable {Uuid : Type} {view : View} {disk : Disk} {held : Held} {stored : Lines} {journal : Journal}

/-! ### What each operation leaves -/

theorem Ready.appended (ready : Ready view disk held stored journal) (records : List JournalRecord) :
    ∃ before begun journal, (appendToJournal view records).writes = before ++ [.append records] ∧
      before.flatMap Write.acts = [] ∧ before.foldl Disk.write disk = begun ∧ Safe disk held before ∧
      Ready (appendToJournal view records).view begun held stored journal ∧
      (appendToJournal view records).view.generation ≠ none := by
  unfold appendToJournal
  by_cases first : view.generation = none
  · rw [if_pos first]
    obtain ⟨_, _, initial⟩ := ready.stands.fresh (ready.generation ▸ first)
    have state := ready.stands.state
    have named := ready.stands.named
    rw [initial] at state named
    obtain ⟨safe, journal, begun⟩ := Ready.start_journal ready.stands ready.queue ready.shows_ (ready.stands.kept ready.settled)
      (fun index => state index (by simp)) fun index => named index (by simp)
    exact ⟨_, _, journal, rfl, rfl, rfl, safe, begun, by simp [replaceJournal]⟩
  · rw [if_neg first]
    exact ⟨[], disk, journal, rfl, rfl, rfl, ⟨_, _, ready.stands⟩, ready, first⟩

theorem appendToJournal_view (view : View) (records : List JournalRecord) :
    (appendToJournal view records).view.lines = view.lines ∧
      (appendToJournal view records).view.nextIndex = view.nextIndex := by
  unfold appendToJournal
  split
  · exact ⟨rfl, rfl⟩
  · exact ⟨rfl, rfl⟩

theorem Ready.record (ready : Ready view disk held stored journal) {changes : States}
    (has : ∀ change ∈ changes, held.Has change.1) :
    Safe disk held (record view changes).writes ∧ (record view changes).writes.flatMap Write.acts = Spool.setAll changes ∧
      ∃ journal, Ready (record view changes).view ((record view changes).writes.foldl Disk.write disk)
        (held.after (Spool.setAll changes)) stored journal := by
  unfold Spool.record
  split
  · rename_i nothing_
    subst nothing_
    exact ⟨⟨_, _, ready.stands⟩, rfl, journal, ready⟩
  · obtain ⟨before, begun, started, writes, quiet, rfl, safe, inner, generation⟩ :=
      ready.appended (changes.map fun change => .state change.1 change.2)
    obtain ⟨journal, done⟩ := inner.setAll generation changes has
    dsimp only
    rw [writes, List.flatMap_append, quiet, List.foldl_append]
    refine ⟨safe.append ?_, by simp [Write.acts, flatMap_setAll], journal, done.stands, done.queue, done.clean, done.settled,
      { done.shows_ with }, done.generation⟩
    rw [quiet]
    exact inner.safe_sets generation has

theorem stateOf_ok (shows_ : view.Shows held) {index : Nat} {state : DeliveryState} (found : stateOf view index = .ok state) :
    held.Has index ∧ held.state index = state := by
  unfold stateOf at found
  have shown := shows_.state index
  split at found
  · rename_i present
    rw [present] at shown
    refine ⟨shows_.named index (by rw [present]; rfl), ?_⟩
    rw [← shown]
    exact Except.ok.inj found
  · rename_i absent
    rw [absent] at shown
    split at found
    · rename_i listed
      refine ⟨(shows_.lines ▸ listed : (getAt held.lines index).isSome), ?_⟩
      rw [← shown]
      exact Except.ok.inj found
    · cases found

def Allowed (held : Held) (changes : States) : Prop :=
  (∀ change ∈ changes, held.Has change.1 ∧ Moves (held.state change.1) change.2) ∧ (changes.map Prod.fst).Nodup

theorem Allowed.one {index : Nat} {state : DeliveryState} (has : held.Has index) (moves : Moves (held.state index) state) :
    Allowed held [(index, state)] := by
  refine ⟨?_, List.nodup_singleton index⟩
  intro change member
  rw [List.mem_singleton.mp member]
  exact ⟨has, moves⟩

theorem Allowed.none : Allowed held [] := ⟨by simp, List.nodup_nil⟩

theorem claim_allowed (shows_ : view.Shows held) {index : Nat} {now : Int} {answer : Bool × States}
    (ok : claim view index now = .ok answer) : Allowed held answer.2 := by
  obtain ⟨state, found, ok⟩ := bind_ok.mp ok
  obtain ⟨has, rfl⟩ := stateOf_ok shows_ found
  split at ok
  · cases ok
    exact Allowed.none
  · rename_i due
    have queued : (held.state index).status = .queued := by
      by_contra other
      exact due (Or.inl other)
    have passed : ∀ at_ ∈ (held.state index).nextAttemptAt, at_ ≤ now := by
      intro at_ is
      by_contra later
      exact due (Or.inr (by rw [Option.mem_def.mp is]; simpa using later))
    split at ok
    · rename_i spent
      cases ok
      exact Allowed.one has (.expired queued spent)
    · rename_i left
      split at ok
      · cases ok
      · cases ok
        exact Allowed.one has (.claimed queued passed (by omega))

theorem recordFailure_allowed (shows_ : view.Shows held) {index : Nat} {error : String} {changes : States}
    (ok : recordFailure view index error = .ok changes) : Allowed held changes := by
  obtain ⟨state, found, ok⟩ := bind_ok.mp ok
  obtain ⟨has, rfl⟩ := stateOf_ok shows_ found
  split at ok
  · cases ok
  · rename_i queued
    have queued := not_not.mp queued
    split at ok
    · rename_i spent
      cases ok
      exact Allowed.one has (.expired queued spent)
    · cases ok
      exact Allowed.one has (.noted queued)

theorem hold_allowed (shows_ : view.Shows held) {index : Nat} {reason : String} {changes : States}
    (ok : hold view index reason = .ok changes) : Allowed held changes := by
  obtain ⟨state, found, ok⟩ := bind_ok.mp ok
  obtain ⟨has, rfl⟩ := stateOf_ok shows_ found
  split at ok
  · cases ok
  · rename_i queued
    split at ok
    · cases ok
      exact Allowed.none
    · cases ok
      exact Allowed.one has (.noted (not_not.mp queued))

theorem recordAcceptance_allowed (format : UuidText Uuid) [DecidableEq Uuid] (shows_ : view.Shows held) {index withheld : Nat}
    {accepted : List Uuid} {changes : States} (ok : recordAcceptance format view index accepted withheld = .ok changes) :
    Allowed held changes := by
  unfold recordAcceptance at ok
  split at ok
  · cases ok
  · split at ok
    · cases ok
    · obtain ⟨state, found, ok⟩ := bind_ok.mp ok
      obtain ⟨has, rfl⟩ := stateOf_ok shows_ found
      split at ok
      · rename_i claimed
        cases ok
        exact Allowed.one has (.accepted claimed.1 claimed.2)
      · cases ok

theorem requeue_allowed (shows_ : view.Shows held) {index : Option Nat} {now : Int} {changes : States}
    (ok : requeue view index now = .ok changes) : Allowed held changes := by
  have dead {some_ : States} (part : some_.Sublist (view.explicit.filter fun entry => decide (entry.2.status = .dead))) :
      Allowed held (requeued now some_) := by
    refine ⟨?_, ?_⟩
    · intro change member
      obtain ⟨entry, listed, rfl⟩ := List.mem_map.mp member
      obtain ⟨explicit, is⟩ := List.mem_filter.mp (part.subset listed)
      have known := shows_.ordered.getAt_of_mem explicit
      have shown := shows_.state entry.1
      rw [known] at shown
      refine ⟨shows_.named _ (by rw [known]; rfl), ?_⟩
      rw [← shown]
      exact .requeued (of_decide_eq_true is)
    · have same : (requeued now some_).map Prod.fst = some_.map Prod.fst := by simp [requeued]
      rw [same]
      exact ((part.trans List.filter_sublist).map _).nodup shows_.ordered.nodup
  unfold requeue at ok
  dsimp only at ok
  split at ok
  · cases ok
    exact dead (List.Sublist.refl _)
  · split at ok
    · cases ok
    · split at ok
      · cases ok
        exact dead List.filter_sublist
      · cases ok

theorem changes_allowed (format : UuidText Uuid) [DecidableEq Uuid] (shows_ : view.Shows held) {operation : Operation Uuid}
    {made : States} (ok : changes format view operation = .ok made) : Allowed held made := by
  cases operation with
  | enqueue entry =>
    cases ok
    exact Allowed.none
  | claim index now =>
    cases answered : claim view index now with
    | error => simp [changes, answered, Except.map] at ok
    | ok answer =>
      simp only [changes, answered, Except.map, Except.ok.injEq] at ok
      exact ok ▸ claim_allowed shows_ answered
  | recordFailure index error => exact recordFailure_allowed shows_ ok
  | hold index reason => exact hold_allowed shows_ ok
  | recordAcceptance index accepted withheld => exact recordAcceptance_allowed format shows_ ok
  | requeue index now => exact requeue_allowed shows_ ok

theorem Allowed.along {changes : States} (allowed : Allowed held changes) :
    AlongRun Held.act Held.Allows held (setAll changes) := by
  induction changes generalizing held with
  | nil => trivial
  | cons change changes ih =>
    obtain ⟨each, nodup⟩ := allowed
    obtain ⟨apart, nodup⟩ := List.nodup_cons.mp nodup
    refine ⟨each change List.mem_cons_self, ih ⟨fun later member => ?_, nodup⟩⟩
    obtain ⟨has, moves⟩ := each later (List.mem_cons_of_mem _ member)
    have other : later.1 ≠ change.1 := fun same => apart (same ▸ List.mem_map_of_mem member)
    refine ⟨has, ?_⟩
    have same : (held.act (.set change.1 change.2)).state later.1 = held.state later.1 := Function.update_of_ne other _ _
    rw [same]
    exact moves

theorem prunable_ok {format : UuidText Uuid} [DecidableEq Uuid] (shows_ : view.Shows held) {now : Int}
    {pins : Except String (List Uuid)} {prune : List Nat} (ok : prunable format view (fullStates view) now pins = .ok prune) :
    prune.Nodup ∧ ∀ index ∈ prune, held.Has index ∧ (held.state index).status = .delivered := by
  have full := shows_.full
  have inner (states : States) (p : (Nat × DeliveryState) × Nat → Bool) :
      ((states.zipIdx.filter p).map Prod.fst).Sublist states := by
    have kept : (states.zipIdx.filter p).Sublist states.zipIdx := List.filter_sublist
    have part := kept.map Prod.fst
    rwa [List.zipIdx_map_fst] at part
  have part : (released (fullStates view) now).Sublist
      (((fullStates view).filter fun entry => decide (entry.2.status = .delivered)).map Prod.fst) := by
    unfold released
    dsimp only
    rw [show (fun entry : (Nat × DeliveryState) × Nat => entry.1.1) = Prod.fst ∘ Prod.fst from rfl, ← List.map_map]
    exact (inner _ _).map Prod.fst
  have whole : prune.Sublist (released (fullStates view) now) := by
    unfold prunable at ok
    dsimp only at ok
    split at ok
    · cases ok
      exact List.nil_sublist _
    · obtain ⟨pins, _, ok⟩ := bind_ok.mp ok
      split at ok
      · cases ok
        split
        · exact List.nil_sublist _
        · exact List.filter_sublist
      · cases ok
  have kept := whole.trans part
  refine ⟨(kept.trans (List.filter_sublist.map _)).nodup full.ordered.nodup, ?_⟩
  intro index member
  obtain ⟨entry, listed, rfl⟩ := List.mem_map.mp (kept.subset member)
  obtain ⟨listed, delivered⟩ := List.mem_filter.mp listed
  have known := full.ordered.getAt_of_mem listed
  have shown := full.state entry.1
  rw [known] at shown
  exact ⟨full.named _ (by rw [known]; rfl), shown ▸ of_decide_eq_true delivered⟩

theorem View.Shows.without (shows_ : view.Shows held) (prune : List Nat) :
    (view.without prune).Shows (held.act (.dropped prune)) := by
  refine ⟨?_, fun index => ?_, shows_.nextIndex, ?_, fun index present => ?_, shows_.ordered.filter _⟩
  · rw [View.without, shows_.lines]
    rfl
  · rw [View.without, getAt_without]
    change _ = if index ∈ prune then _ else held.state index
    split
    · rfl
    · exact shows_.state index
  · rw [View.without, shows_.prunedDelivered]
    rfl
  · rw [View.without, getAt_without] at present
    change (getAt (held.lines.filter _) index).isSome
    rw [getAt_without]
    split at present
    · cases present
    · rename_i stays
      rw [if_neg stays]
      exact shows_.named index present

theorem fold_acts (view : View) (pruning : Bool) : (fold view pruning).writes.flatMap Write.acts = [] := by
  cases pruning with
  | true => rfl
  | false => rfl

theorem Stood.one {record : JournalRecord} (before : Stood disk held)
    (after : Stood (disk.write (.append [record])) (held.after record.act)) (part : LineFile.Part) :
    Stood (disk.writePart part (.append [record])) (held.after ((Write.append [record]).actsPart part)) := by
  cases count : part.lines with
  | zero =>
    rw [Write.actsPart, count]
    apply before.journal_lines
    rw [LineFile.appendPart_lines, count]
    rfl
  | succ count_ =>
    have acts : (Write.append [record]).actsPart part = record.act := by simp [Write.actsPart, count]
    rw [acts]
    apply after.journal_lines
    rw [LineFile.appendPart_lines, count, List.take_succ_cons, List.take_nil]
    rfl

theorem Ready.compact {format : UuidText Uuid} [DecidableEq Uuid] (ready : Ready view disk held stored journal) {now : Int}
    {pins : Except String (List Uuid)} {plan : Plan} (ok : compact format view now pins = .ok plan) :
    Safe disk held plan.writes ∧ AlongRun Held.act Held.Allows held (plan.writes.flatMap Write.acts) := by
  obtain ⟨prune, chosen, ok⟩ := bind_ok.mp ok
  obtain ⟨nodup, delivered⟩ := prunable_ok ready.shows_ chosen
  split at ok
  · cases ok
    split
    · exact ⟨⟨_, _, ready.stands⟩, trivial⟩
    · have kept := ready.stands.kept ready.settled
      subst kept
      exact ⟨(ready.stands.fold_last ready.queue ready.shows_).1, trivial⟩
  · cases ok
    obtain ⟨before, begun, journal, writes, quiet, rfl, safe, inner, generation⟩ := ready.appended [.prune prune view.nextIndex]
    have next : held.nextIndex = view.nextIndex := ready.shows_.nextIndex.symm
    obtain ⟨after, has, stands⟩ := inner.prune generation nodup
    rw [next] at stands
    have folded := (stands.fold (inner.shows_.without prune) has).1
    dsimp only
    rw [writes, List.append_assoc, List.flatMap_append, List.flatMap_append, quiet, fold_acts]
    refine ⟨safe.append ?_, ⟨nodup, delivered⟩, trivial⟩
    rw [quiet]
    exact ⟨fun part => Stood.one ⟨_, _, inner.stands⟩ ⟨_, _, stands⟩ part, folded⟩

/-! ### What a run leaves -/

def InStep (writer : Writer) (disk : Disk) (held : Held) : Prop :=
  ∃ stored journal, Stands disk held stored journal ∧ disk.queue.tail = .nothing ∧ journal.prune = [] ∧
    writer.view.lines = held.lines ∧ writer.view.nextIndex = held.nextIndex ∧
    (writer.failed = false → Ready writer.view disk held stored journal)

theorem Ready.inStep (ready : Ready view disk held stored journal) (failed : Bool) : InStep ⟨view, failed⟩ disk held :=
  ⟨stored, journal, ready.stands, ready.queue, ready.settled, ready.shows_.lines, ready.shows_.nextIndex, fun _ => ready⟩

theorem InStep.enqueue {writer : Writer} (inStep : InStep writer disk held) (entry : SpoolEntry) :
    Safe disk held (enqueue writer.view entry).writes ∧
      InStep ⟨(enqueue writer.view entry).view, writer.failed⟩ (disk.write (.line writer.view.nextIndex entry))
        (held.act (.added entry)) := by
  obtain ⟨stored, journal, stands, queue, settled, lines, next, live⟩ := inStep
  unfold Spool.enqueue
  rw [next, lines]
  have appended := LineFile.append_lines queue [(held.nextIndex, entry)]
  have clean : (disk.queue.append [(held.nextIndex, entry)]).tail = .nothing := by rw [appended]
  have after := stands.line queue settled entry (disk.queue.append [(held.nextIndex, entry)]) (by rw [appended]; rfl)
  refine ⟨stands.safe_line queue settled entry, _, journal, after, clean, settled, rfl, rfl, fun alive => ?_⟩
  have ready := live alive
  refine ⟨after, clean, ready.clean, settled, ⟨rfl, ready.shows_.state, rfl, ready.shows_.prunedDelivered,
    fun index present => ?_, ready.shows_.ordered⟩, ready.generation⟩
  obtain ⟨line, listed, is⟩ := getAt_isSome.mp (ready.shows_.named index present)
  exact getAt_isSome.mpr ⟨line, List.mem_append_left _ listed, is⟩

theorem openSpool_ok {plan : Plan} (stood : Stood disk held) (ok : openSpool disk = .ok plan) :
    Safe disk held plan.writes ∧ plan.writes.flatMap Write.acts = [] ∧
      ∃ stored journal, Ready plan.view (plan.writes.foldl Disk.write disk) held stored journal := by
  obtain ⟨stored, journal, stands⟩ := stood
  obtain ⟨view, loaded, shows_, generation⟩ := stands.load
  unfold openSpool at ok
  rw [loaded] at ok
  cases ok
  have whole : disk.queue.repaired.repaired.lines = stored.map some := by
    rw [← stands.queue, LineFile.repaired, LineFile.repaired_tail]
  have first : Stands (disk.write .repairQueue) held stored journal := { stands with queue := whole }
  have both : Stands ((disk.write .repairQueue).write .repairJournal) held stored journal :=
    { stands with queue := whole, parsed := stands.parsed }
  have repaired {writes : List Write} (safe : Safe ((disk.write .repairQueue).write .repairJournal) held writes) :
      Safe disk held ([.repairQueue, .repairJournal] ++ writes) := by
    apply Safe.cons_quiet ⟨_, _, stands⟩ (fun _ => rfl) rfl (fun _ => rfl)
    exact Safe.cons_quiet ⟨_, _, first⟩ (fun _ => rfl) rfl (fun _ => rfl) safe
  dsimp only
  split
  · rename_i settled
    exact ⟨repaired ⟨_, _, both⟩, rfl, _, _, both, LineFile.repaired_tail _, rfl, settled, shows_, generation⟩
  · rename_i announced
    have begun : journal.generation ≠ none := by
      intro none_
      obtain ⟨_, _, initial⟩ := stands.fresh none_
      exact announced (by rw [initial])
    obtain ⟨safe, last, ready⟩ := both.fold shows_ begun
    exact ⟨repaired safe, fold_acts view true, _, last, ready⟩

def Holds (system : System) (held : Held) : Prop :=
  Stood system.disk held ∧ ∀ writer ∈ system.writer, InStep writer system.disk held

theorem operate_ok {format : UuidText Uuid} [DecidableEq Uuid] {writer : Writer} {operation : Operation Uuid} {plan : Plan}
    (ok : operate format writer operation = .ok plan) :
    (∃ entry, plan = enqueue writer.view entry) ∨
      ∃ made, changes format writer.view operation = .ok made ∧ ¬(writer.failed = true ∧ made ≠ []) ∧
        plan = record writer.view made := by
  cases operation with
  | enqueue entry =>
    cases ok
    exact Or.inl ⟨entry, rfl⟩
  | _ =>
    obtain ⟨made, is, ok⟩ := bind_ok.mp ok
    split at ok
    · cases ok
    · rename_i live
      cases ok
      exact Or.inr ⟨made, is, live, rfl⟩

theorem InStep.operate {format : UuidText Uuid} [DecidableEq Uuid] {writer : Writer} {operation : Operation Uuid} {plan : Plan}
    (inStep : InStep writer disk held) (ok : operate format writer operation = .ok plan) :
    Safe disk held plan.writes ∧ AlongRun Held.act Held.Allows held (plan.writes.flatMap Write.acts) ∧
      InStep ⟨plan.view, writer.failed⟩ (plan.writes.foldl Disk.write disk) (held.after (plan.writes.flatMap Write.acts)) ∧
      ∀ before records part, plan.writes = before ++ [.append records] →
        InStep ⟨{ writer.view with generation := plan.view.generation }, true⟩
          ((before.foldl Disk.write disk).writePart part (.append records))
          (held.after (before.flatMap Write.acts ++ (Write.append records).actsPart part)) := by
  rcases operate_ok ok with ⟨entry, rfl⟩ | ⟨made, is, live, rfl⟩
  · obtain ⟨safe, after⟩ := inStep.enqueue entry
    refine ⟨safe, ⟨trivial, trivial⟩, after, ?_⟩
    intro before records part ends
    have last := congrArg List.getLast? ends
    simp [Spool.enqueue] at last
  · by_cases none_ : made = []
    · subst none_
      obtain ⟨stored, journal, stands, _⟩ := id inStep
      refine ⟨⟨_, _, stands⟩, trivial, inStep, ?_⟩
      intro before records part ends
      simp [record] at ends
    · have alive : writer.failed = false := by simpa [none_] using live
      obtain ⟨stored, journal, _, _, _, _, _, ready⟩ := inStep
      have ready := ready alive
      have allowed := changes_allowed format ready.shows_ is
      have has : ∀ change ∈ made, held.Has change.1 := fun change member => (allowed.1 change member).1
      obtain ⟨safe, acts, last, done⟩ := ready.record has
      refine ⟨safe, acts ▸ allowed.along, acts ▸ done.inStep _, ?_⟩
      intro before records part ends
      obtain ⟨first, begun, started, writes, quiet, rfl, _, inner, generation⟩ :=
        ready.appended (made.map fun change => .state change.1 change.2)
      rw [record, if_neg none_] at ends
      dsimp only at ends
      obtain ⟨rfl, same⟩ := List.append_inj' (ends.symm.trans writes) rfl
      obtain rfl := Write.append.inj (List.cons.inj same).1
      obtain ⟨lines, next⟩ := appendToJournal_view writer.view (made.map fun change => .state change.1 change.2)
      obtain ⟨last, cut⟩ := inner.setAll generation (made.take part.lines) fun change member =>
        has change (List.mem_of_mem_take member)
      rw [quiet, List.nil_append, Write.actsPart, ← List.map_take, flatMap_setAll]
      refine ⟨stored, last, { cut.stands with parsed := ?_ }, cut.queue, cut.settled, lines.symm.trans cut.shows_.lines,
        next.symm.trans cut.shows_.nextIndex, fun failed => by cases failed⟩
      rw [← cut.stands.parsed]
      dsimp only
      rw [Disk.writePart, LineFile.appendPart_lines, List.map_take]

theorem actsPart_first (write : Write) (part : LineFile.Part) : write.actsPart part <+: write.acts := by
  cases write with
  | line index entry =>
    change (if _ then [] else [Act.added entry]) <+: [Act.added entry]
    split
    · exact List.nil_prefix
    · exact List.prefix_refl _
  | append records =>
    refine ⟨(records.drop part.lines).flatMap JournalRecord.act, ?_⟩
    rw [Write.actsPart, ← List.flatMap_append, List.take_append_drop]
    rfl
  | _ => exact List.prefix_refl _

theorem landedActs_none (writes : List Write) : landedActs writes none = writes.flatMap Write.acts := List.append_nil _

theorem landedActs_first (writes : List Write) (cut : Option Cut) : landedActs writes cut <+: writes.flatMap Write.acts := by
  cases cut with
  | none => rw [landedActs_none]
  | some cut =>
    obtain ⟨count, part, survived⟩ := cut
    induction count generalizing writes with
    | zero =>
      cases writes with
      | nil => exact List.prefix_refl _
      | cons write writes => exact (actsPart_first write part).trans (List.prefix_append _ _)
    | succ count ih =>
      cases writes with
      | nil => exact List.prefix_refl _
      | cons write writes =>
        obtain ⟨rest, whole⟩ := ih writes
        refine ⟨rest, ?_⟩
        rw [List.flatMap_cons, ← whole, ← List.append_assoc]
        exact congrArg (· ++ rest) (List.append_assoc _ _ _)

variable {format : UuidText Uuid} [DecidableEq Uuid] {system : System}

theorem plan_open {made : Plan} (ok : plan format system .open_ = .ok made) : openSpool system.disk = .ok made := by
  unfold plan at ok
  dsimp only at ok
  split at ok
  · cases ok
  · exact ok

theorem plan_operate {operation : Operation Uuid} {made : Plan} (ok : plan format system (.operate operation) = .ok made) :
    ∃ writer ∈ system.writer, operate format writer operation = .ok made := by
  unfold plan at ok
  dsimp only at ok
  split at ok
  · cases ok
  · exact ⟨_, by assumption, ok⟩

theorem plan_close {now : Int} {pins : Except String (List Uuid)} {made : Plan}
    (ok : plan format system (.close now pins) = .ok made) :
    ∃ writer ∈ system.writer, writer.failed = false ∧ compact format writer.view now pins = .ok made := by
  unfold plan at ok
  dsimp only at ok
  split at ok
  · cases ok
  · rename_i writer is
    split at ok
    · cases ok
    · rename_i alive
      exact ⟨writer, is, by simpa using alive, ok⟩

theorem plan_safe (holds : Holds system held) {action : Action Uuid} {made : Plan}
    (ok : plan format system action = .ok made) :
    Safe system.disk held made.writes ∧ AlongRun Held.act Held.Allows held (made.writes.flatMap Write.acts) := by
  obtain ⟨stood, writers⟩ := holds
  cases action with
  | open_ =>
    obtain ⟨safe, acts, _⟩ := openSpool_ok stood (plan_open ok)
    exact ⟨safe, acts ▸ trivial⟩
  | operate operation =>
    obtain ⟨writer, is, ok⟩ := plan_operate ok
    obtain ⟨safe, along, _⟩ := (writers writer is).operate ok
    exact ⟨safe, along⟩
  | close now pins =>
    obtain ⟨writer, is, alive, ok⟩ := plan_close ok
    obtain ⟨_, _, _, _, _, _, _, ready⟩ := writers writer is
    exact (ready alive).compact ok

theorem writer_after (holds : Holds system held) {event : Event Uuid} {plan : Plan}
    (ok : Spool.plan format system event.action = .ok plan) {writer : Writer}
    (is : writer ∈ writerAfter system.writer plan event) :
    InStep writer (landed system.disk plan.writes event.cut) (held.after (landedActs plan.writes event.cut)) := by
  obtain ⟨stood, writers⟩ := holds
  obtain ⟨action, cut⟩ := event
  cases action with
  | close now pins => cases is
  | open_ =>
    cases cut with
    | some cut => cases is
    | none =>
      obtain rfl := Option.some.inj is
      obtain ⟨_, acts, stored, journal, ready⟩ := openSpool_ok stood (plan_open ok)
      rw [landedActs_none, acts]
      exact ready.inStep _
  | operate operation =>
    obtain ⟨before, known, ok⟩ := plan_operate ok
    obtain ⟨_, _, done, survived⟩ := (writers before known).operate ok
    rw [Option.mem_def] at known
    cases cut with
    | none =>
      rw [writerAfter, known] at is
      obtain rfl := Option.some.inj is
      rw [landedActs_none]
      exact done
    | some cut =>
      rw [writerAfter] at is
      dsimp only at is
      split at is
      · rename_i records remaining
        split at is
        · rw [known] at is
          obtain rfl := Option.some.inj is
          have cut_ := survived (plan.writes.take cut.writes) records cut.part (by
            rw [← remaining, List.take_append_drop])
          have step : plan.writes[cut.writes]? = some (.append records) := by rw [← List.head?_drop, remaining]; rfl
          simp only [landed, landedActs, finished, begun, Option.map_some, Option.getD_some, Option.bind_some, step,
            Option.elim_some]
          exact cut_
        · cases is
      · cases is

def acts (format : UuidText Uuid) (system : System) (event : Event Uuid) : List Act :=
  match plan format system event.action with
  | .ok plan => landedActs plan.writes event.cut
  | .error _ => []

variable (format) in
theorem step_holds (holds : Holds system held) (event : Event Uuid) :
    AlongRun Held.act Held.Allows held (acts format system event) ∧
      Holds (step format system event) (held.after (acts format system event)) := by
  unfold step acts
  cases ok : plan format system event.action with
  | ok plan =>
    obtain ⟨safe, along⟩ := plan_safe holds ok
    obtain ⟨rest, whole⟩ := landedActs_first plan.writes event.cut
    rw [← whole] at along
    exact ⟨(AlongRun.append.mp along).1, safe.landed _, fun writer is => writer_after holds ok is⟩
  | error refused =>
    refine ⟨trivial, ?_⟩
    dsimp only
    split
    · exact ⟨holds.1, by simp⟩
    · exact holds

def log (format : UuidText Uuid) : System → List (Event Uuid) → List Act
  | _, [] => []
  | system, event :: events => acts format system event ++ log format (step format system event) events

theorem log_snoc (system : System) (events : List (Event Uuid)) (event : Event Uuid) :
    log format system (events ++ [event]) =
      log format system events ++ acts format (runWith (step format) system events) event := by
  induction events generalizing system with
  | nil => exact List.append_nil _
  | cons first events ih => simp [log, ih]

theorem start_holds : Holds start .nothing := by
  refine ⟨⟨[], ⟨none, 0, some 0, [], []⟩, rfl, rfl, List.Pairwise.nil, rfl, fun _ _ => rfl, fun _ _ => rfl, ?_,
    List.Pairwise.nil, rfl, rfl, fun _ => ⟨rfl, rfl, rfl⟩⟩, by simp [start]⟩
  intro index _ present
  cases present

variable (format) in
theorem run_holds (holds : Holds system held) (events : List (Event Uuid)) :
    AlongRun Held.act Held.Allows held (log format system events) ∧
      Holds (runWith (step format) system events) (held.after (log format system events)) := by
  induction events generalizing system held with
  | nil => exact ⟨trivial, holds⟩
  | cons event events ih =>
    obtain ⟨along, next⟩ := step_holds format holds event
    obtain ⟨later, last⟩ := ih next
    rw [log, Held.after, runWith_append]
    exact ⟨AlongRun.append.mpr ⟨along, later⟩, last⟩

theorem recovered (events : List (Event Uuid)) :
    (∃ loaded, load (runWith (step format) start events).disk = .ok loaded ∧
      loaded.view.Shows (Held.nothing.after (log format start events))) ∧
    (∀ writer ∈ (runWith (step format) start events).writer, writer.failed = false →
      writer.view.Shows (Held.nothing.after (log format start events))) ∧
    ∀ event plan_, plan format (runWith (step format) start events) event.action = .ok plan_ →
      log format start (events ++ [event]) = log format start events ++ landedActs plan_.writes event.cut ∧
        landedActs plan_.writes event.cut <+: plan_.writes.flatMap Write.acts ∧
        (event.cut = none → landedActs plan_.writes event.cut = plan_.writes.flatMap Write.acts) := by
  obtain ⟨_, ⟨stored, journal, stands⟩, writers⟩ := run_holds format start_holds events
  obtain ⟨view, loaded, shows_, _⟩ := stands.load
  refine ⟨⟨_, loaded, shows_⟩, fun writer is alive => ?_, fun event plan_ ok => ⟨?_, landedActs_first _ _, fun whole => ?_⟩⟩
  · obtain ⟨_, _, _, _, _, _, _, ready⟩ := writers writer is
    exact (ready alive).shows_
  · rw [log_snoc, acts, ok]
  · rw [whole, landedActs_none]

end CommonMeasure.Relay.Spool
