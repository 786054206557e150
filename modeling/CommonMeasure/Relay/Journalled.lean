import CommonMeasure.Foundation.Runs
import CommonMeasure.Relay.Spool

/-!
# What the spool's files hold

Each durable step, and each part of one, keeps what the files are read as.
-/

namespace CommonMeasure.Relay.Spool

/-! ### What is held -/

inductive Act where
  | added (entry : SpoolEntry)
  | set (index : Nat) (state : DeliveryState)
  | dropped (indices : List Nat)

structure Held where
  lines : Lines
  state : Nat → DeliveryState
  nextIndex : Nat
  prunedDelivered : Nat

def Held.nothing : Held := ⟨[], fun _ => .queued, 0, 0⟩

def Held.act (held : Held) : Act → Held
  | .added entry => { held with lines := held.lines ++ [(held.nextIndex, entry)], nextIndex := held.nextIndex + 1 }
  | .set index state => { held with state := Function.update held.state index state }
  | .dropped indices => { held with
      lines := held.lines.filter fun line => decide (line.1 ∉ indices)
      state := fun index => if index ∈ indices then .queued else held.state index
      prunedDelivered := held.prunedDelivered + indices.length }

def Held.Has (held : Held) (index : Nat) : Prop := (getAt held.lines index).isSome

inductive Moves (old : DeliveryState) : DeliveryState → Prop where
  | claimed {now : Int} : old.status = .queued → (∀ due ∈ old.nextAttemptAt, due ≤ now) → old.attempts < MAX_ATTEMPTS →
    Moves old { old with
      holdReason := none, attempts := old.attempts + 1, lastAttemptAt := some now
      nextAttemptAt := some (now + retryDelay (old.attempts + 1))
      lastError := some "Attempt claimed; receiver acceptance has not been recorded." }
  | expired {error : Option String} : old.status = .queued → MAX_ATTEMPTS ≤ old.attempts →
    Moves old { old with lastError := error, status := .dead, nextAttemptAt := none }
  | noted {error hold : Option String} : old.status = .queued → Moves old { old with lastError := error, holdReason := hold }
  | accepted {subset : Bool} {withheld : Nat} : old.status = .queued → 0 < old.attempts →
    Moves old { old with
      status := .delivered, deliveredSubset := some subset, instanceReferencesWithheld := some withheld
      nextAttemptAt := none, lastError := none, holdReason := none }
  | requeued {now : Int} : old.status = .dead →
    Moves old { old with status := .queued, attempts := 0, nextAttemptAt := some now }

def Held.Allows (held : Held) : Act → Prop
  | .added _ => True
  | .set index state => held.Has index ∧ Moves (held.state index) state
  | .dropped indices => indices.Nodup ∧ ∀ index ∈ indices, held.Has index ∧ (held.state index).status = .delivered

def JournalRecord.act : JournalRecord → List Act
  | .header .. => []
  | .state index change => [.set index change]
  | .prune indices _ => [.dropped indices]

def Write.acts : Write → List Act
  | .line _ entry => [.added entry]
  | .append records => records.flatMap JournalRecord.act
  | _ => []

def Write.actsPart (part : LineFile.Part) : Write → List Act
  | .line _ entry => if part.lines = 0 ∧ part.rest ≠ .all then [] else [.added entry]
  | .append records => (records.take part.lines).flatMap JournalRecord.act
  | _ => []

def landedActs (writes : List Write) (cut : Option Cut) : List Act :=
  (finished writes cut).flatMap Write.acts ++ (begun writes cut).elim [] fun step => step.1.actsPart step.2

structure View.Shows (view : View) (held : Held) : Prop where
  lines : view.lines = held.lines
  state : ∀ index, (getAt view.explicit index).getD .queued = held.state index
  nextIndex : view.nextIndex = held.nextIndex
  prunedDelivered : view.prunedDelivered = some held.prunedDelivered
  named : ∀ index, (getAt view.explicit index).isSome → held.Has index
  ordered : Ordered view.explicit

structure Stands (disk : Disk) (held : Held) (stored : Lines) (journal : Journal) : Prop where
  queue : disk.queue.repaired.lines = stored.map some
  parsed : parseJournal disk.journal.lines = .ok journal
  ascending : Ordered stored
  lines : stored.filter (fun line => decide (line.1 ∉ journal.prune)) = held.lines
  state : ∀ index ∉ journal.prune, (getAt (putAll disk.snapshot journal.states) index).getD .queued = held.state index
  gone : ∀ index ∈ journal.prune, held.state index = .queued
  named : ∀ index ∉ journal.prune, (getAt (putAll disk.snapshot journal.states) index).isSome → held.Has index
  ordered : Ordered disk.snapshot
  nextIndex : max journal.nextIndex (follows held.lines) = held.nextIndex
  counted : journal.prunedDelivered.map (· + journal.prune.dedup.length) = some held.prunedDelivered
  fresh : journal.generation = none →
    disk.pruned = false ∧ pruningEvident 0 stored = false ∧ journal = ⟨none, 0, some 0, [], []⟩

def Held.after (held : Held) (acts : List Act) : Held := runWith Held.act held acts

def Stood (disk : Disk) (held : Held) : Prop := ∃ stored journal, Stands disk held stored journal

def Safe : Disk → Held → List Write → Prop
  | disk, held, [] => Stood disk held
  | disk, held, write :: writes =>
    (∀ part, Stood (disk.writePart part write) (held.after (write.actsPart part))) ∧
      Safe (disk.write write) (held.after write.acts) writes

variable {view : View} {disk : Disk} {held : Held} {stored : Lines} {journal : Journal}

/-! ### Reading what stands -/

theorem parseLines_some {stored : Lines} (ascending : Ordered stored) (last : Option Nat)
    (after : ∀ index ∈ last, ∀ line ∈ stored, index < line.1) : parseLines last (stored.map some) = .ok stored := by
  induction stored generalizing last with
  | nil => rfl
  | cons line rest ih =>
    obtain ⟨least, inner⟩ := List.pairwise_cons.mp ascending
    have increases : ¬last.any (line.1 ≤ ·) = true := by
      cases last with
      | none => simp
      | some index => simpa using after index rfl line List.mem_cons_self
    have rest_ok := ih inner (some line.1) fun index is => Option.mem_some.mp is ▸ least
    rw [List.map_cons, parseLines, if_neg increases, rest_ok]
    rfl

theorem Stands.load (stands : Stands disk held stored journal) :
    ∃ view, load disk = .ok ⟨view, journal.prune⟩ ∧ view.Shows held ∧ view.generation = journal.generation := by
  obtain ⟨explicit, is⟩ : ∃ explicit, explicit = (putAll disk.snapshot journal.states).filter fun entry =>
    decide (entry.1 ∉ journal.prune) := ⟨_, rfl⟩
  have lookup : ∀ index, getAt explicit index =
      if index ∈ journal.prune then none else getAt (putAll disk.snapshot journal.states) index := fun index =>
    is ▸ getAt_without _ _ index
  have named : ∀ index, (getAt explicit index).isSome → held.Has index := by
    intro index present
    rw [lookup] at present
    split at present
    · cases present
    · exact stands.named index (by assumption) present
  have known : ¬(journal.generation = none ∧ (pruningEvident 0 stored ∨ disk.pruned)) := by
    rintro ⟨none_, evident⟩
    obtain ⟨unmarked, whole, _⟩ := stands.fresh none_
    simp [unmarked, whole] at evident
  refine ⟨⟨held.lines, explicit, journal.generation, held.nextIndex, some held.prunedDelivered, journal.states.length⟩, ?_,
    ⟨rfl, ?_, rfl, rfl, named, is ▸ (stands.ordered.putAll _).filter _⟩, rfl⟩
  · unfold Spool.load
    rw [stands.parsed, stands.queue]
    simp only [bind, Except.bind]
    rw [parseLines_some stands.ascending none (by simp)]
    simp only [stands.lines, if_neg known, stands.nextIndex, stands.counted, ← is]
    apply if_pos
    intro entry member
    exact named entry.1 (getAt_isSome.mpr ⟨entry, member, rfl⟩)
  · intro index
    rw [lookup]
    split
    · exact (stands.gone index (by assumption)).symm
    · exact stands.state index (by assumption)

/-! ### What each step leaves -/

theorem follows_le {lines : Lines} {next : Nat} (below : ∀ line ∈ lines, line.1 < next) :
    follows lines ≤ next := by
  unfold follows
  cases ends : lines.getLast? with
  | none => exact Nat.zero_le next
  | some last => exact below last (List.mem_of_getLast? ends)

theorem lt_follows {lines : Lines} (ordered : Ordered lines) {line : Nat × SpoolEntry}
    (listed : line ∈ lines) : line.1 < follows lines := by
  obtain ⟨before, last, cut⟩ := (List.eq_nil_or_concat lines).resolve_left (List.ne_nil_of_mem listed)
  rw [cut, List.concat_eq_append] at listed ordered ⊢
  have ends : follows (before ++ [last]) = last.1 + 1 := by simp [follows]
  rcases List.mem_append.mp listed with earlier | last_
  · have increases := (List.pairwise_append.mp ordered).2.2 line earlier last (by simp)
    omega
  · rw [List.mem_singleton.mp last_]
    omega

theorem Stands.below (stands : Stands disk held stored journal) {line : Nat × SpoolEntry} (listed : line ∈ held.lines) :
    line.1 < held.nextIndex := by
  have ordered : Ordered held.lines := stands.lines ▸ stands.ascending.filter _
  have := lt_follows ordered listed
  have := stands.nextIndex
  omega

theorem Stands.kept (stands : Stands disk held stored journal) (settled : journal.prune = []) : stored = held.lines := by
  rw [← stands.lines, settled]
  simp

theorem pruningEvident_append (lines : Lines) (line : Nat × SpoolEntry) (next : Nat) :
    pruningEvident next (lines ++ [line]) =
      (pruningEvident next lines || decide ((lines.getLast?.map (·.1 + 1)).getD next < line.1)) := by
  induction lines generalizing next with
  | nil => exact Bool.or_false _
  | cons first rest ih =>
    rw [List.cons_append, pruningEvident, ih, pruningEvident, Bool.or_assoc, List.getLast?_cons]
    cases rest.getLast? with
    | none => rfl
    | some last => rfl

theorem Stood.journal_lines (stood : Stood disk held) {journal : LineFile JournalRecord}
    (same : journal.lines = disk.journal.lines) : Stood { disk with journal := journal } held := by
  obtain ⟨stored, parsed, stands⟩ := stood
  exact ⟨stored, parsed, { stands with parsed := by rw [← stands.parsed, ← same] }⟩

theorem Safe.cons_quiet {write : Write} {writes : List Write} (stood : Stood disk held)
    (part : ∀ part, disk.writePart part write = disk) (acts : write.acts = []) (parts : ∀ part, write.actsPart part = [])
    (safe : Safe (disk.write write) held writes) : Safe disk held (write :: writes) := by
  refine ⟨fun cut => ?_, ?_⟩
  · rw [part, parts]
    exact stood
  · rw [acts]
    exact safe

theorem Safe.append {writes more : List Write} (safe : Safe disk held writes)
    (then_ : Safe (writes.foldl Disk.write disk) (held.after (writes.flatMap Write.acts)) more) :
    Safe disk held (writes ++ more) := by
  induction writes generalizing disk held with
  | nil => exact then_
  | cons write writes ih =>
    refine ⟨safe.1, ih safe.2 ?_⟩
    rw [List.flatMap_cons, Held.after, runWith_append] at then_
    exact then_

theorem Safe.whole {writes : List Write} (safe : Safe disk held writes) :
    Stood (writes.foldl Disk.write disk) (held.after (writes.flatMap Write.acts)) := by
  induction writes generalizing disk held with
  | nil => exact safe
  | cons write writes ih =>
    rw [List.flatMap_cons, Held.after, runWith_append]
    exact ih safe.2

theorem Safe.landed {writes : List Write} (safe : Safe disk held writes) (cut : Option Cut) :
    Stood (landed disk writes cut) (held.after (landedActs writes cut)) := by
  cases cut with
  | none =>
    have whole := safe.whole
    rw [← List.append_nil (writes.flatMap Write.acts)] at whole
    exact whole
  | some cut =>
    obtain ⟨count, part, survived⟩ := cut
    induction count generalizing disk held writes with
    | zero =>
      cases writes with
      | nil => exact safe
      | cons write writes => exact safe.1 part
    | succ count ih =>
      cases writes with
      | nil => exact safe
      | cons write writes =>
        have rest := ih safe.2
        rw [Held.after, Held.after, ← runWith_append, landedActs, ← List.append_assoc] at rest
        exact rest

structure Ready (view : View) (disk : Disk) (held : Held) (stored : Lines) (journal : Journal) : Prop where
  stands : Stands disk held stored journal
  queue : disk.queue.tail = .nothing
  clean : disk.journal.tail = .nothing
  settled : journal.prune = []
  shows_ : view.Shows held
  generation : view.generation = journal.generation

theorem has_set {index other : Nat} {state : DeliveryState} : (held.act (.set index state)).Has other ↔ held.Has other :=
  Iff.rfl

theorem Stands.parse_append (stands : Stands disk held stored journal) (clean : disk.journal.tail = .nothing)
    (record : JournalRecord) : parseJournal (disk.journal.append [record]).lines = parseRecord journal (some record) := by
  rw [LineFile.append_lines clean]
  change parseJournal (disk.journal.lines ++ [some record]) = _
  rw [parseJournal, List.foldlM_append, ← parseJournal, stands.parsed]
  change [some record].foldlM parseRecord journal = _
  rw [List.foldlM_cons]
  exact bind_pure _

theorem Ready.set (ready : Ready view disk held stored journal) (started : view.generation ≠ none) {index : Nat}
    (has : held.Has index)
    (state : DeliveryState) :
    Ready { view with explicit := put index state view.explicit }
      { disk with journal := disk.journal.append [.state index state] } (held.act (.set index state)) stored
      { journal with states := journal.states ++ [(index, state)] } := by
  obtain ⟨stands, queue, clean, settled, shows_, generation⟩ := ready
  have begun : journal.generation ≠ none := generation ▸ started
  have lookup : ∀ other, getAt (putAll disk.snapshot (journal.states ++ [(index, state)])) other =
      if index = other then some state else getAt (putAll disk.snapshot journal.states) other := by
    intro other
    rw [putAll, List.foldl_append]
    exact getAt_put index other state _
  refine ⟨⟨stands.queue, ?_, stands.ascending, stands.lines, ?_, ?_, ?_, stands.ordered, stands.nextIndex, stands.counted,
    fun none_ => absurd none_ begun⟩, queue, ?_, settled, ⟨shows_.lines, ?_, shows_.nextIndex, shows_.prunedDelivered, ?_, ?_⟩,
    generation⟩
  · exact (stands.parse_append clean _).trans (if_neg begun)
  · intro other kept
    rw [lookup]
    by_cases same : index = other
    · subst same
      simp [Held.act]
    · rw [if_neg same, stands.state other kept]
      exact (Function.update_of_ne (Ne.symm same) _ _).symm
  · simp [settled]
  · intro other kept present
    rw [lookup] at present
    by_cases same : index = other
    · exact same ▸ has
    · rw [if_neg same] at present
      exact stands.named other kept present
  · rw [LineFile.append_lines clean]
  · intro other
    rw [getAt_put]
    by_cases same : index = other
    · subst same
      simp [Held.act]
    · rw [if_neg same, shows_.state other]
      exact (Function.update_of_ne (Ne.symm same) _ _).symm
  · intro other present
    rw [getAt_put] at present
    by_cases same : index = other
    · exact same ▸ has
    · rw [if_neg same] at present
      exact shows_.named other present
  · exact shows_.ordered.put

def setAll (changes : States) : List Act := changes.map fun change => .set change.1 change.2

theorem Ready.setAll (ready : Ready view disk held stored journal) (started : view.generation ≠ none) (changes : States)
    (has : ∀ change ∈ changes, held.Has change.1) :
    ∃ journal, Ready { view with explicit := putAll view.explicit changes }
      { disk with journal := disk.journal.append (changes.map fun change => .state change.1 change.2) }
      (held.after (setAll changes)) stored journal := by
  induction changes generalizing view disk held journal with
  | nil => exact ⟨journal, ready⟩
  | cons change changes ih =>
    obtain ⟨last, done⟩ := ih (ready.set started (has change List.mem_cons_self) change.2) started
      fun later member => has later (List.mem_cons_of_mem _ member)
    refine ⟨last, ?_⟩
    dsimp only at done
    rw [LineFile.append_append ready.clean] at done
    exact done

theorem flatMap_setAll (changes : States) :
    (changes.map fun change => JournalRecord.state change.1 change.2).flatMap JournalRecord.act = setAll changes := by
  rw [List.flatMap_map, setAll, List.map_eq_flatMap]
  rfl

theorem Ready.safe_sets (ready : Ready view disk held stored journal) (started : view.generation ≠ none) {changes : States}
    (has : ∀ change ∈ changes, held.Has change.1) :
    Safe disk held [.append (changes.map fun change => .state change.1 change.2)] := by
  have stood {some_ : States} (part : some_ <+: changes) :
      Stood { disk with journal := disk.journal.append (some_.map fun change => .state change.1 change.2) }
        (held.after (Spool.setAll some_)) := by
    obtain ⟨journal, done⟩ := ready.setAll started some_ fun change member => has change (part.subset member)
    exact ⟨stored, journal, done.stands⟩
  refine ⟨fun part => ?_, ?_⟩
  · have first := stood (List.take_prefix part.lines changes)
    rw [Write.actsPart, ← List.map_take, flatMap_setAll]
    apply first.journal_lines
    rw [LineFile.appendPart_lines, List.map_take]
  · rw [Write.acts, flatMap_setAll]
    exact stood (List.prefix_refl _)

theorem Ready.start_journal (stands : Stands disk held stored journal) (queue : disk.queue.tail = .nothing)
    (shows_ : view.Shows held) (kept : stored = held.lines)
    (state : ∀ index, (getAt disk.snapshot index).getD .queued = held.state index)
    (named : ∀ index, (getAt disk.snapshot index).isSome → held.Has index) :
    Safe disk held (replaceJournal view).writes ∧
      ∃ journal, Ready (replaceJournal view).view ((replaceJournal view).writes.foldl Disk.write disk) held stored journal := by
  have next : max held.nextIndex (follows held.lines) = held.nextIndex := by
    have := stands.nextIndex
    omega
  have header : (replaceJournal view).writes =
      [.journal (.header JOURNAL_VERSION (view.generation.getD 0 + 1) held.nextIndex (some held.prunedDelivered))] := by
    rw [replaceJournal, shows_.nextIndex, shows_.prunedDelivered]
  have ready : Ready (replaceJournal view).view ((replaceJournal view).writes.foldl Disk.write disk) held stored
      ⟨some (view.generation.getD 0 + 1), held.nextIndex, some held.prunedDelivered, [], []⟩ := by
    rw [header]
    refine ⟨⟨stands.queue, rfl, stands.ascending, by simp [kept], fun index _ => state index, by simp,
      fun index _ => named index, stands.ordered, next, rfl, by simp⟩, queue, rfl, rfl, { shows_ with }, rfl⟩
  refine ⟨?_, _, ready⟩
  have done : Stood ((replaceJournal view).writes.foldl Disk.write disk) held := ⟨_, _, ready.stands⟩
  rw [header] at done ⊢
  exact Safe.cons_quiet ⟨stored, journal, stands⟩ (fun _ => rfl) rfl (fun _ => rfl) done

theorem Stands.line (stands : Stands disk held stored journal) (queue : disk.queue.tail = .nothing)
    (settled : journal.prune = [])
    (entry : SpoolEntry) (file : LineFile (Nat × SpoolEntry))
    (lines : file.repaired.lines = disk.queue.lines ++ [some (held.nextIndex, entry)]) :
    Stands { disk with queue := file } (held.act (.added entry)) (stored ++ [(held.nextIndex, entry)]) journal := by
  have whole : disk.queue.lines = stored.map some := by
    rw [← stands.queue, LineFile.repaired, queue]
  have kept := stands.kept settled
  have has : ∀ index, held.Has index → (held.act (.added entry)).Has index := by
    intro index present
    obtain ⟨line, listed, is⟩ := getAt_isSome.mp present
    exact getAt_isSome.mpr ⟨line, List.mem_append_left _ listed, is⟩
  refine ⟨?_, stands.parsed, ?_, ?_, stands.state, stands.gone,
    fun index apart present => has index (stands.named index apart present),
    stands.ordered, ?_, stands.counted, ?_⟩
  · rw [lines, whole, List.map_append, List.map_singleton]
  · apply List.pairwise_append.mpr
    refine ⟨stands.ascending, List.pairwise_singleton _ _, ?_⟩
    intro line listed last is
    rw [List.mem_singleton.mp is]
    exact stands.below (kept ▸ listed)
  · rw [List.filter_append, stands.lines, settled]
    rfl
  · have ends : follows (held.act (.added entry)).lines = held.nextIndex + 1 := by simp [Held.act, follows]
    have := stands.nextIndex
    rw [ends]
    change max _ _ = held.nextIndex + 1
    omega
  · intro none_
    obtain ⟨unmarked, whole, initial⟩ := stands.fresh none_
    refine ⟨unmarked, ?_, initial⟩
    have next := stands.nextIndex
    rw [initial, ← kept] at next
    rw [pruningEvident_append, whole, Bool.false_or, decide_eq_false]
    change ¬follows stored < held.nextIndex
    dsimp only at next
    omega

theorem Stands.safe_line (stands : Stands disk held stored journal) (queue : disk.queue.tail = .nothing)
    (settled : journal.prune = []) (entry : SpoolEntry) : Safe disk held [.line held.nextIndex entry] := by
  have whole : disk.queue.lines = stored.map some := by
    rw [← stands.queue, LineFile.repaired, queue]
  refine ⟨fun part => ?_, _, _, stands.line queue settled entry _ (by rw [LineFile.append_lines queue]; rfl)⟩
  have repaired := LineFile.appendPart_repaired queue (held.nextIndex, entry) part
  rw [Write.actsPart]
  split
  · rename_i early
    rw [if_pos early, List.append_nil, whole] at repaired
    exact ⟨stored, journal, { stands with queue := repaired }⟩
  · rename_i late
    rw [if_neg late] at repaired
    exact ⟨_, _, stands.line queue settled entry _ repaired⟩

theorem getAt_fullStates (view : View) (index : Nat) :
    getAt (fullStates view) index =
      (getAt view.explicit index).or (if (getAt view.lines index).isSome then some .queued else none) := by
  unfold fullStates
  generalize view.explicit = states
  induction view.lines generalizing states with
  | nil => simp [getAt]
  | cons line lines ih =>
    rw [List.foldl_cons, ih, getAt_cons]
    by_cases same : line.1 = index
    · subst same
      cases known : getAt states line.1 with
      | some state => simp [known]
      | none => simp [getAt_put]
    · rw [if_neg same]
      split
      · rfl
      · rw [getAt_put, if_neg same]

theorem ordered_fullStates (ordered : Ordered view.explicit) : Ordered (fullStates view) := by
  unfold fullStates
  generalize view.explicit = states at ordered
  induction view.lines generalizing states with
  | nil => exact ordered
  | cons line lines ih =>
    apply ih
    dsimp only
    split
    · exact ordered
    · exact ordered.put

theorem View.Shows.full (shows_ : view.Shows held) :
    View.Shows { view with explicit := fullStates view } held := by
  refine ⟨shows_.lines, fun index => ?_, shows_.nextIndex, shows_.prunedDelivered, fun index present => ?_,
    ordered_fullStates shows_.ordered⟩
  · rw [← shows_.state index, getAt_fullStates]
    cases getAt view.explicit index with
    | some state => rfl
    | none =>
      rw [Option.none_or]
      split
      · rfl
      · rfl
  · rw [getAt_fullStates, Option.isSome_or] at present
    rcases Bool.or_eq_true_iff.mp present with explicit | listed
    · exact shows_.named index explicit
    · by_cases known : (getAt view.lines index).isSome
      · exact (shows_.lines ▸ known : (getAt held.lines index).isSome)
      · rw [if_neg known] at listed
        cases listed

theorem Stands.fold_last (stands : Stands disk held held.lines journal) (queue : disk.queue.tail = .nothing)
    (shows_ : view.Shows held) :
    Safe disk held (fold view false).writes ∧
      ∃ journal, Ready (fold view false).view ((fold view false).writes.foldl Disk.write disk) held held.lines journal := by
  have full := shows_.full
  have snapshot : Stands (disk.write (.snapshot (fullStates view))) held held.lines journal := by
    refine ⟨stands.queue, stands.parsed, stands.ascending, stands.lines, fun index kept => ?_, stands.gone,
      fun index kept present => ?_,
      full.ordered, stands.nextIndex, stands.counted, stands.fresh⟩
    · change (getAt (putAll (fullStates view) journal.states) index).getD .queued = _
      have before := stands.state index kept
      rw [getAt_putAll] at before ⊢
      cases journalled : getAt (putAll [] journal.states) index with
      | some state =>
        rw [journalled] at before
        exact before
      | none => exact full.state index
    · change (getAt (putAll (fullStates view) journal.states) index).isSome at present
      have before := stands.named index kept
      rw [getAt_putAll, Option.isSome_or] at before present
      rcases Bool.or_eq_true_iff.mp present with journalled | listed
      · exact before (by rw [journalled]; rfl)
      · exact full.named index listed
  obtain ⟨safe, journal, ready⟩ := Ready.start_journal snapshot queue full rfl full.state full.named
  exact ⟨Safe.cons_quiet ⟨held.lines, _, stands⟩ (fun _ => rfl) rfl (fun _ => rfl) safe, journal, ready⟩

theorem Stands.fold (stands : Stands disk held stored journal) (shows_ : view.Shows held) (begun : journal.generation ≠ none) :
    Safe disk held (fold view true).writes ∧
      ∃ journal, Ready (fold view true).view ((fold view true).writes.foldl Disk.write disk) held held.lines journal := by
  have marked : Stands (disk.write .marker) held stored journal := { stands with fresh := fun none_ => absurd none_ begun }
  have rewritten : Stands ((disk.write .marker).write (.queue view.lines)) held held.lines journal := by
    refine { marked with queue := ?_, ascending := ?_, lines := ?_, fresh := fun none_ => absurd none_ begun }
    · rw [shows_.lines]
      rfl
    · exact stands.lines ▸ stands.ascending.filter _
    · rw [← stands.lines, List.filter_filter]
      simp
  obtain ⟨safe, journal, ready⟩ := rewritten.fold_last rfl shows_
  refine ⟨?_, journal, ready⟩
  apply Safe.cons_quiet ⟨_, _, stands⟩ (fun _ => rfl) rfl (fun _ => rfl)
  exact Safe.cons_quiet ⟨_, _, marked⟩ (fun _ => rfl) rfl (fun _ => rfl) safe

theorem Ready.prune (ready : Ready view disk held stored journal) (started : view.generation ≠ none) {indices : List Nat}
    (nodup : indices.Nodup) :
    ∃ journal, journal.generation ≠ none ∧
      Stands { disk with journal := disk.journal.append [.prune indices held.nextIndex] } (held.act (.dropped indices)) stored
        journal := by
  obtain ⟨stands, queue, clean, settled, shows_, generation⟩ := ready
  have begun : journal.generation ≠ none := generation ▸ started
  have lookup (index : Nat) : getAt (held.act (.dropped indices)).lines index =
      if index ∈ indices then none else getAt held.lines index := getAt_without _ _ index
  refine ⟨{ journal with prune := indices, nextIndex := max journal.nextIndex held.nextIndex }, begun, stands.queue, ?_,
    stands.ascending, ?_, fun index kept => ?_, fun index member => if_pos member, fun index kept present => ?_, stands.ordered,
    ?_, ?_, fun none_ => absurd none_ begun⟩
  · rw [stands.parse_append clean, parseRecord, if_neg begun, settled, List.nil_append]
  · rw [stands.kept settled]
    rfl
  · exact (stands.state index (by simp [settled])).trans (if_neg kept).symm
  · have listed : (getAt held.lines index).isSome := stands.named index (by simp [settled]) present
    rw [Held.Has, lookup, if_neg kept]
    exact listed
  · have fits : follows (held.act (.dropped indices)).lines ≤ held.nextIndex :=
      follows_le fun line member => stands.below (List.mem_filter.mp member).1
    have := stands.nextIndex
    change max (max journal.nextIndex held.nextIndex) _ = held.nextIndex
    omega
  · have counted := stands.counted
    rw [settled] at counted
    rw [nodup.dedup]
    cases count : journal.prunedDelivered with
    | none => simp [count] at counted
    | some count_ =>
      rw [count] at counted
      exact congrArg some (congrArg (· + indices.length) (Option.some.inj counted))

end CommonMeasure.Relay.Spool
