import CommonMeasure.CrawlDelay.Holders

/-!
# One sender holds the host

Whoever takes the host has read, under the lock, a record whose end had passed, and while a reservation's deadline
has not passed the record's end has not either.
-/

namespace CommonMeasure.CrawlDelay

section

variable {ι : Type*}

def World.Place (world : World ι) (sender : Sender) : Prop :=
  match sender.doing with
  | .idle => True
  | .looking _ _ => True
  | .looked read _ _ => sender.lastRead = read.found.map Backoff.until_
  | .locking read _ _ => read.until_ ≤ world.clock
  | .answering _ _ now reservation => now ≤ world.clock ∧ reservation = sender.reserved.map Holding.id
  | .recording _ _ now reservation early =>
    now ≤ world.clock ∧ reservation = sender.reserved.map Holding.id ∧
      ∀ id, reservation = some id → early.holds id = false → world.kept.holds id = false
  | .releasing id now =>
    now ≤ world.clock ∧ id ∈ world.drawn ∧ ∀ i holding, (world.senders i).reserved = some holding → holding.id ≠ id

structure World.Safe (world : World ι) : Prop where
  named : ∀ id, world.kept.holds id = true → id ∈ world.drawn
  drawn : ∀ i holding, (world.senders i).reserved = some holding → holding.id ∈ world.drawn
  apart : ∀ i j first second, (world.senders i).reserved = some first → (world.senders j).reserved = some second →
    first.id = second.id → i = j
  stands : ∀ i holding, (world.senders i).reserved = some holding → world.clock < holding.deadline →
    world.kept.Stands holding
  ended : ∀ id ∈ world.ended, id ∈ world.drawn ∧ world.kept.holds id = false
  sent : ∀ sent ∈ world.sent, ∀ until_, sent.lastRead = some until_ → until_ ≤ sent.at_
  placed : ∀ i, world.Place (world.senders i)

variable {world : World ι} {i : ι} {sender : Sender} {kept : Kept} {drawn ended : List String} {sent : List (Sent ι)}

theorem World.Safe.place (safe : world.Safe) (i : ι) {after : World ι} (clock : world.clock ≤ after.clock)
    (grows : ∀ id ∈ world.drawn, id ∈ after.drawn)
    (lost : ∀ id ∈ world.drawn, after.kept.holds id = true → world.kept.holds id = true)
    (taken : ∀ j holding, (after.senders j).reserved = some holding →
      (world.senders j).reserved = some holding ∨ holding.id ∉ world.drawn) :
    after.Place (world.senders i) := by
  have placed := safe.placed i
  unfold World.Place at placed ⊢
  split at placed
  · trivial
  · trivial
  · exact placed
  · exact placed.trans clock
  · exact ⟨placed.1.trans clock, placed.2⟩
  · obtain ⟨before, named, gone⟩ := placed
    refine ⟨before.trans clock, named, ?_⟩
    intro id same quiet
    obtain ⟨holding, reserved, rfl⟩ := Option.map_eq_some_iff.mp (named.symm.trans same)
    apply Bool.eq_false_iff.mpr
    intro holds
    exact absurd (lost _ (safe.drawn i holding reserved) holds) (Bool.eq_false_iff.mp (gone _ same quiet))
  · obtain ⟨before, listed, apart⟩ := placed
    refine ⟨before.trans clock, grows _ listed, ?_⟩
    intro j holding reserved
    rcases taken j holding reserved with same | fresh
    · exact apart j holding same
    · rintro rfl
      exact fresh listed

theorem World.Safe.ticked (safe : world.Safe) (duration : Nat) :
    World.Safe { world with clock := world.clock + duration } where
  named := safe.named
  drawn := safe.drawn
  apart := safe.apart
  stands i holding reserved early := safe.stands i holding reserved (by dsimp only at early; omega)
  ended := safe.ended
  sent := safe.sent
  placed i := safe.place i (by dsimp only; omega) (fun _ listed => listed) (fun _ _ holds => holds)
    fun _ _ reserved => Or.inl reserved

theorem World.Safe.swept (safe : world.Safe) : World.Safe { world with kept := world.kept.swept (some world.clock) } where
  named id holds := safe.named id (holds_swept _ holds)
  drawn := safe.drawn
  apart := safe.apart
  stands i holding reserved early := by
    have stands := safe.stands i holding reserved early
    dsimp only at early ⊢
    have same : world.kept.swept (some world.clock) = world.kept := swept_stands (by simp) early stands
    rw [same]
    exact stands
  ended id listed := by
    refine ⟨(safe.ended id listed).1, Bool.eq_false_iff.mpr fun holds => ?_⟩
    exact absurd (holds_swept _ holds) (Bool.eq_false_iff.mp (safe.ended id listed).2)
  sent := safe.sent
  placed i := safe.place i (le_refl _) (fun _ listed => listed) (fun _ _ holds => holds_swept _ holds)
    fun _ _ reserved => Or.inl reserved

theorem World.swept_now (world : World ι) (sweeps : Bool) : ∀ instant ∈ world.swept sweeps, instant ≤ world.clock := by
  unfold World.swept
  intro instant listed
  split at listed
  · exact (Option.mem_some_iff.mp listed).ge
  · cases listed

structure World.Starts (world : World ι) : Prop where
  named : ∀ id, world.kept.holds id = true → id ∈ world.drawn
  idle : ∀ i, (world.senders i).reserved = none ∧ (world.senders i).doing = .idle
  ended : world.ended = []
  sent : world.sent = []

theorem World.Starts.safe (starts : world.Starts) : world.Safe where
  named := starts.named
  drawn i holding reserved := by
    rw [(starts.idle i).1] at reserved
    cases reserved
  apart i j first second reserved := by
    rw [(starts.idle i).1] at reserved
    cases reserved
  stands i holding reserved := by
    rw [(starts.idle i).1] at reserved
    cases reserved
  ended id listed := by
    rw [starts.ended] at listed
    cases listed
  sent one listed := by
    rw [starts.sent] at listed
    cases listed
  placed i := by
    unfold World.Place
    rw [(starts.idle i).2]
    trivial

structure World.Exclusive (world : World ι) : Prop where
  /-- At most one sender holds a reservation whose deadline has not passed. -/
  alone : ∀ i j first second, (world.senders i).reserved = some first → (world.senders j).reserved = some second →
    world.clock < first.deadline → world.clock < second.deadline → i = j
  /-- No send is let go before the end last read. -/
  waited : ∀ sent ∈ world.sent, ∀ until_, sent.lastRead = some until_ → until_ ≤ sent.at_
  /-- A reservation that was answered or given back is gone. -/
  gone : ∀ id ∈ world.ended, world.kept.holds id = false
  /-- What a record waits for is a failure's end, or one whose answer is not recorded. -/
  unblocked : ∀ found, world.kept = .backoff found →
    found.until_ = found.failureEnd ∨ ∃ held, found.reservation = some held ∧ held.id ∉ world.ended

theorem World.Safe.exclusive (safe : world.Safe) : world.Exclusive where
  alone i j first second reserved other early late :=
    safe.apart i j first second reserved other ((safe.stands i first reserved early).same (safe.stands j second other late))
  waited := safe.sent
  gone id listed := (safe.ended id listed).2
  unblocked found kept := by
    cases reserved : found.reservation with
    | none => exact Or.inl (failureEnd_fresh reserved).symm
    | some held =>
      refine Or.inr ⟨held, rfl, fun listed => ?_⟩
      have gone := (safe.ended held.id listed).2
      rw [kept] at gone
      have names : found.ownedBy (some held.id) = true := ownedBy_iff.mpr (by rw [reserved]; rfl)
      exact absurd names (Bool.eq_false_iff.mp gone)

variable [DecidableEq ι]

theorem World.Safe.updated (safe : world.Safe) (grows : ∀ id ∈ world.drawn, id ∈ drawn)
    (lost : ∀ id ∈ world.drawn, kept.holds id = true → world.kept.holds id = true)
    (named : ∀ id, kept.holds id = true → id ∈ drawn)
    (others : ∀ j holding, j ≠ i → (world.senders j).reserved = some holding → world.clock < holding.deadline →
      kept.Stands holding)
    (own : ∀ holding, sender.reserved = some holding →
      ((world.senders i).reserved = some holding ∨ holding.id ∉ world.drawn ∧ holding.id ∈ drawn) ∧
        (world.clock < holding.deadline → kept.Stands holding))
    (settled : ∀ id ∈ ended, id ∈ world.ended ∨ id ∈ drawn ∧ kept.holds id = false)
    (sends : ∀ one ∈ sent, one ∈ world.sent ∨ ∀ until_, one.lastRead = some until_ → until_ ≤ one.at_)
    (placed : World.Place ⟨kept, world.clock, Function.update world.senders i sender, drawn, ended, sent⟩ sender) :
    World.Safe ⟨kept, world.clock, Function.update world.senders i sender, drawn, ended, sent⟩ := by
  have senders : ∀ j holding, (Function.update world.senders i sender j).reserved = some holding →
      (world.senders j).reserved = some holding ∨ j = i ∧ holding.id ∉ world.drawn ∧ holding.id ∈ drawn := by
    intro j holding reserved
    by_cases same : j = i
    · subst same
      rw [Function.update_self] at reserved
      exact (own holding reserved).1.imp_right fun fresh => ⟨rfl, fresh⟩
    · rw [Function.update_of_ne same] at reserved
      exact Or.inl reserved
  refine ⟨named, ?_, ?_, ?_, ?_, ?_, ?_⟩
  · intro j holding reserved
    rcases senders j holding reserved with before | ⟨_, _, listed⟩
    · exact grows _ (safe.drawn j holding before)
    · exact listed
  · intro j k first second one other same
    rcases senders j first one with before | ⟨rfl, fresh, _⟩
    · rcases senders k second other with too | ⟨rfl, fresh, _⟩
      · exact safe.apart j k first second before too same
      · exact absurd (same ▸ safe.drawn j first before) fresh
    · rcases senders k second other with too | ⟨rfl, _⟩
      · exact absurd (same ▸ safe.drawn k second too) fresh
      · rfl
  · intro j holding reserved early
    by_cases same : j = i
    · subst same
      change (Function.update world.senders j sender j).reserved = some holding at reserved
      rw [Function.update_self] at reserved
      exact (own holding reserved).2 early
    · change (Function.update world.senders i sender j).reserved = some holding at reserved
      rw [Function.update_of_ne same] at reserved
      exact others j holding same reserved early
  · intro id listed
    rcases settled id listed with before | now
    · obtain ⟨known, gone⟩ := safe.ended id before
      refine ⟨grows id known, Bool.eq_false_iff.mpr fun holds => ?_⟩
      exact absurd (lost id known holds) (Bool.eq_false_iff.mp gone)
    · exact now
  · intro one listed
    rcases sends one listed with before | now
    · exact safe.sent one before
    · exact now
  · intro j
    by_cases same : j = i
    · subst same
      change World.Place _ (Function.update world.senders j sender j)
      rw [Function.update_self]
      exact placed
    · change World.Place _ (Function.update world.senders i sender j)
      rw [Function.update_of_ne same]
      exact safe.place j (le_refl _) grows lost fun k holding reserved =>
        (senders k holding reserved).imp_right fun fresh => fresh.2.1

theorem World.Safe.moved (safe : world.Safe) (reserved : sender.reserved = none ∨ sender.reserved = (world.senders i).reserved)
    (placed : (world.set i sender).Place sender) : (world.set i sender).Safe := by
  apply safe.updated (fun _ listed => listed) (fun _ _ holds => holds) safe.named
    (fun j holding _ reserved early => safe.stands j holding reserved early) ?_ (fun _ listed => Or.inl listed)
    (fun _ listed => Or.inl listed) placed
  intro holding named
  rcases reserved with none_reserved | same
  · rw [none_reserved] at named
    cases named
  · rw [same] at named
    exact ⟨Or.inl named, safe.stands i holding named⟩

theorem World.Safe.sends (safe : world.Safe)
    (reserved : sender.reserved = none ∨ sender.reserved = (world.senders i).reserved)
    (lapsed : ∀ until_, sender.lastRead = some until_ → until_ ≤ world.clock) : (world.sends i sender).Safe := by
  refine safe.updated (fun _ listed => listed) (fun _ _ holds => holds) safe.named
    (fun j holding _ reserved early => safe.stands j holding reserved early) ?_ (fun _ listed => Or.inl listed) ?_ ?_
  · intro holding named
    rcases reserved with none_reserved | same
    · change sender.reserved = _ at named
      rw [none_reserved] at named
      cases named
    · change sender.reserved = _ at named
      rw [same] at named
      exact ⟨Or.inl named, safe.stands i holding named⟩
  · intro one listed
    rcases List.mem_append.mp listed with before | new
    · exact Or.inl before
    · rw [List.mem_singleton.mp new]
      exact Or.inr lapsed
  · trivial

variable {dates : Dates} {store : Store} {host : String} {pace : Pace}

/-! ### One lemma for each act -/

theorem World.Safe.reads (safe : world.Safe) (i : ι) (timeout : Option Nat) (allowance : Nat) :
    (world.reads host i (world.senders i) timeout allowance).Safe := by
  unfold World.reads
  cases read : world.kept.read host with
  | error reason => exact safe.moved (Or.inr rfl) trivial
  | ok previous =>
    cases previous with
    | none => exact safe.sends (Or.inr rfl) (fun _ none_read => by cases none_read)
    | some found =>
      refine safe.moved ?_ ?_
      · exact Or.inr rfl
      · change some found.until_ = world.kept.found.map Backoff.until_
        rw [← (read_found read).1]
        rfl

theorem decision_cases (store : Store) (host : String) (pace : Pace) (backoff : Backoff) (now : Int) (timeout : Option Nat)
    (budget : Nat) :
    (store.decision host pace backoff now timeout budget = .sends ∧ backoff.until_ ≤ now) ∨
      (∃ limit, timeout = some limit ∧ store.decision host pace backoff now timeout budget = .reserves backoff limit ∧
        backoff.until_ ≤ now) ∨
      (∃ sleep, store.decision host pace backoff now timeout budget = .sleeps sleep) ∨
      ∃ reason, store.decision host pace backoff now timeout budget = .refused reason := by
  unfold Store.decision
  dsimp only
  by_cases lapsed : (backoff.until_ - now).toNat = 0
  · rw [if_pos lapsed]
    have passed : backoff.until_ ≤ now := by omega
    split
    · exact Or.inl ⟨rfl, passed⟩
    · cases timeout with
      | none => exact Or.inl ⟨rfl, passed⟩
      | some limit => exact Or.inr (Or.inl ⟨limit, rfl, rfl, passed⟩)
  · rw [if_neg lapsed]
    by_cases refuses : if backoff.held.isSome then budget = 0 else budget < (backoff.until_ - now).toNat
    · rw [if_pos refuses]
      exact Or.inr (Or.inr (Or.inr ⟨_, rfl⟩))
    · rw [if_neg refuses]
      exact Or.inr (Or.inr (Or.inl ⟨_, rfl⟩))

theorem World.Safe.decides (safe : world.Safe) (i : ι) {backoff : Backoff} {timeout : Option Nat} {allowance : Nat}
    (doing : (world.senders i).doing = .looked (.backoff backoff) timeout allowance) (left : Nat) :
    (world.decides store host pace i (world.senders i) backoff timeout allowance left).Safe := by
  have lastRead : (world.senders i).lastRead = some backoff.until_ := by
    have placed := safe.placed i
    unfold World.Place at placed
    rw [doing] at placed
    exact placed
  unfold World.decides
  rcases decision_cases store host pace backoff world.clock timeout (min (min (world.senders i).budget left) allowance)
    with ⟨decided, passed⟩ | ⟨limit, _, decided, passed⟩ | ⟨sleep, decided⟩ | ⟨reason, decided⟩
  · rw [decided]
    refine safe.sends (Or.inr rfl) ?_
    intro until_ read
    rw [lastRead] at read
    exact Option.some.inj read ▸ passed
  · rw [decided]
    exact safe.moved (Or.inr rfl) passed
  · rw [decided]
    exact safe.moved (Or.inr rfl) trivial
  · rw [decided]
    exact safe.moved (Or.inr rfl) trivial

theorem World.Safe.reserves (safe : world.Safe) (i : ι) {read : Backoff} {timeout allowance : Nat}
    (doing : (world.senders i).doing = .locking read timeout allowance) {id : String} (fresh : id ∉ world.drawn)
    (left : Nat) (sweeps : Bool) (files : Files) :
    (world.reserves store host i (world.senders i) read timeout allowance id left sweeps files).Safe := by
  have passed : read.until_ ≤ world.clock := by
    have placed := safe.placed i
    unfold World.Place at placed
    rw [doing] at placed
    exact placed
  have now := world.swept_now sweeps
  unfold World.reserves
  dsimp only
  cases done : store.reserve host read id world.clock (min timeout left) (world.swept sweeps) files world.kept with
  | mk result after =>
    -- Where the host is not taken the record is the same, or swept; where it is, no deadline was running.
    have stands : ∀ j holding, (world.senders j).reserved = some holding → world.clock < holding.deadline →
        after.Stands holding := by
      intro j holding reserved early
      have before := safe.stands j holding reserved early
      have same := swept_stands now early before
      rcases reserve_cases done with ⟨rfl | rfl, _⟩ | ⟨swept, _⟩
      · exact before
      · rw [same]
        exact before
      · rw [same] at swept
        obtain ⟨found, is, _, later⟩ := before
        obtain rfl := Kept.backoff.inj (swept.symm.trans is)
        omega
    have holds : ∀ other, after.holds other = true → world.kept.holds other = true ∨ other = id := by
      intro other named
      rcases reserve_cases done with ⟨rfl | rfl, _⟩ | ⟨swept, rfl | rfl, _⟩
      · exact Or.inl named
      · exact Or.inl (holds_swept _ named)
      · rw [← swept] at named
        exact Or.inl (holds_swept _ named)
      · have same : id = other := by simpa [Kept.holds, Kept.found, Backoff.ownedBy] using named
        exact Or.inr same.symm
    have lost : ∀ other ∈ world.drawn, after.holds other = true → world.kept.holds other = true := by
      intro other known named
      exact (holds other named).resolve_right fun same => fresh (same ▸ known)
    have named : ∀ other, after.holds other = true → other ∈ id :: world.drawn := by
      intro other named
      rcases holds other named with before | same
      · exact List.mem_cons_of_mem _ (safe.named other before)
      · exact same ▸ List.mem_cons_self
    have updated : ∀ {sender : Sender} {sent : List (Sent ι)},
        (sender.reserved = (world.senders i).reserved ∨ ∃ holding, sender.reserved = some holding ∧ holding.id = id ∧
          after.Stands holding) →
        (∀ one ∈ sent, one ∈ world.sent ∨ ∀ until_, one.lastRead = some until_ → until_ ≤ one.at_) →
        World.Place ⟨after, world.clock, Function.update world.senders i sender, id :: world.drawn, world.ended, sent⟩ sender →
        World.Safe ⟨after, world.clock, Function.update world.senders i sender, id :: world.drawn, world.ended, sent⟩ := by
      intro sender sent own sends placed
      apply safe.updated (fun _ known => List.mem_cons_of_mem _ known) lost named (fun j holding _ => stands j holding) ?_
        (fun _ listed => Or.inl listed) sends placed
      intro holding reserved
      rcases own with same | ⟨taken, takes, rfl, standing⟩
      · rw [same] at reserved
        exact ⟨Or.inl reserved, stands i holding reserved⟩
      · rw [takes] at reserved
        obtain rfl := Option.some.inj reserved
        exact ⟨Or.inr ⟨fresh, List.mem_cons_self⟩, fun _ => standing⟩
    have sends : ∀ lastRead : Option Int, (∀ until_, lastRead = some until_ → until_ ≤ world.clock) →
        ∀ one ∈ world.sent ++ [⟨i, world.clock, lastRead⟩],
          one ∈ world.sent ∨ ∀ until_, one.lastRead = some until_ → until_ ≤ one.at_ := by
      intro lastRead lapsed one listed
      rcases List.mem_append.mp listed with before | new
      · exact Or.inl before
      · rw [List.mem_singleton.mp new]
        exact Or.inr lapsed
    cases result with
    | error fault =>
      refine updated ?_ ?_ ?_
      · exact Or.inl rfl
      · exact fun _ listed => Or.inl listed
      · trivial
    | ok outcome =>
      cases outcome with
      | free =>
        refine updated ?_ ?_ ?_
        · exact Or.inl rfl
        · exact sends none fun _ none_read => by cases none_read
        · trivial
      | changed =>
        refine updated ?_ ?_ ?_
        · exact Or.inl rfl
        · exact fun _ listed => Or.inl listed
        · trivial
      | reserved =>
        obtain ⟨_, other⟩ | ⟨swept, _, taken, _⟩ := reserve_cases done
        · exact absurd rfl other
        · obtain rfl := taken rfl
          refine updated ?_ (sends _ ?_) ?_
          · exact Or.inr ⟨_, rfl, rfl, _, rfl, rfl, le_refl _⟩
          · intro until_ lastRead
            rw [swept] at lastRead
            exact Option.some.inj lastRead ▸ passed
          · trivial

theorem World.Safe.records (safe : world.Safe) (i : ι) {status : Nat} {retryAfter : Option String} {now : Int}
    {reservation : Option String} {early : Kept}
    (doing : (world.senders i).doing = .recording status retryAfter now reservation early) (sweeps : Bool) {files : Files}
    (whole : isFailure status = false → ∀ error, files ≠ .write error true) :
    (world.records dates store host i (world.senders i) status retryAfter now reservation early sweeps files).Safe := by
  have placed := safe.placed i
  unfold World.Place at placed
  rw [doing] at placed
  obtain ⟨before, named, read⟩ := placed
  have swept := world.swept_now sweeps
  let event : Event := ⟨.answer status retryAfter reservation early, now, world.swept sweeps, files⟩
  unfold World.records
  cases done : store.answer dates host status retryAfter now reservation early (world.swept sweeps) files world.kept with
  | mk result after =>
    have stepped : event.step dates store host world.kept = after := congrArg Prod.snd done
    have lost : ∀ id, after.holds id = true → world.kept.holds id = true := by
      intro id holds
      rw [← stepped] at holds
      rcases step_holds holds with same | ⟨_, _, change⟩
      · exact same
      · cases change
    have others : ∀ j holding, j ≠ i → (world.senders j).reserved = some holding → world.clock < holding.deadline →
        after.Stands holding := by
      intro j holding other reserved unexpired
      rw [← stepped]
      refine step_stands (Or.inl ⟨_, _, _, _, rfl, ?_⟩) before swept unexpired (safe.stands j holding reserved unexpired)
      rintro same
      obtain ⟨own, owned, is⟩ := Option.map_eq_some_iff.mp (named.symm.trans same)
      exact other (safe.apart j i holding own reserved owned is.symm)
    cases result with
    | ok answer =>
      refine safe.updated (fun _ known => known) (fun id _ => lost id) (fun id holds => safe.named id (lost id holds)) others
        (fun _ reserved => nomatch reserved) ?_ (fun _ listed => Or.inl listed) ?_
      · intro id listed
        rcases List.mem_append.mp listed with settled | before
        · obtain rfl := Option.mem_toList.mp settled
          obtain ⟨own, owned, rfl⟩ := Option.map_eq_some_iff.mp named.symm
          exact Or.inr ⟨safe.drawn i own owned, answer_settles (read _ rfl) done⟩
        · exact Or.inl before
      · trivial
    | error fault =>
      refine safe.updated (fun _ known => known) (fun id _ => lost id) (fun id holds => safe.named id (lost id holds)) others
        ?_ (fun _ listed => Or.inl listed) (fun _ listed => Or.inl listed) ?_
      · intro holding reserved
        change (if isFailure status then none else (world.senders i).reserved) = _ at reserved
        cases succeeds : isFailure status with
        | true =>
          rw [succeeds] at reserved
          cases reserved
        | false =>
          rw [succeeds] at reserved
          refine ⟨Or.inl reserved, fun unexpired => ?_⟩
          have stands := safe.stands i holding reserved unexpired
          have same := swept_stands swept unexpired stands
          rcases answer_error succeeds (whole succeeds) done with rfl | rfl
          · exact stands
          · rw [same]
            exact stands
      · trivial

theorem World.Safe.releases (safe : world.Safe) (i : ι) {id : String} {now : Int}
    (doing : (world.senders i).doing = .releasing id now) (sweeps : Bool) (files : Files) :
    (world.releases host i (world.senders i) id now sweeps files).Safe := by
  have placed := safe.placed i
  unfold World.Place at placed
  rw [doing] at placed
  obtain ⟨before, listed, apart⟩ := placed
  have swept := world.swept_now sweeps
  let event : Event := ⟨.release id, now, world.swept sweeps, files⟩
  unfold World.releases
  cases done : release host id now (world.swept sweeps) files world.kept with
  | mk result after =>
    have stepped (dates : Dates) (store : Store) : event.step dates store host world.kept = after :=
      congrArg Prod.snd done
    have lost : ∀ other, after.holds other = true → world.kept.holds other = true := by
      intro other holds
      rw [← stepped undated edge] at holds
      rcases step_holds holds with same | ⟨_, _, change⟩
      · exact same
      · cases change
    have stands : ∀ j holding, (world.senders j).reserved = some holding → world.clock < holding.deadline →
        after.Stands holding := by
      intro j holding reserved unexpired
      rw [← stepped undated edge]
      refine step_stands (Or.inr ⟨id, rfl, ?_⟩) before swept unexpired (safe.stands j holding reserved unexpired)
      exact fun same => apart j holding reserved same.symm
    have updated : ∀ {ended : List String}, (∀ other ∈ ended, other ∈ world.ended ∨ other ∈ world.drawn ∧
        after.holds other = false) → World.Safe ⟨after, world.clock,
          Function.update world.senders i { world.senders i with doing := .idle }, world.drawn, ended, world.sent⟩ := by
      intro ended settled
      refine safe.updated (fun _ known => known) (fun id _ => lost id) (fun id holds => safe.named id (lost id holds))
        (fun j holding _ => stands j holding) ?_ settled (fun _ listed => Or.inl listed) ?_
      · exact fun holding reserved => ⟨Or.inl reserved, stands i holding reserved⟩
      · trivial
    cases result with
    | error fault => exact updated fun _ listed => Or.inl listed
    | ok released =>
      apply updated
      intro other settled
      rcases List.mem_cons.mp settled with rfl | before
      · exact Or.inr ⟨listed, release_settles done⟩
      · exact Or.inl before

theorem World.Safe.drops (safe : world.Safe) (i : ι) (id : String) : (world.drops i (world.senders i) id).Safe := by
  unfold World.drops
  split
  · rename_i held
    obtain ⟨own, owned, rfl⟩ := Option.map_eq_some_iff.mp held
    refine safe.moved (Or.inl rfl) ⟨le_refl _, safe.drawn i own owned, ?_⟩
    intro j holding reserved same
    by_cases self : j = i
    · subst self
      change (Function.update world.senders j _ j).reserved = some holding at reserved
      rw [Function.update_self] at reserved
      cases reserved
    · change (Function.update world.senders i _ j).reserved = some holding at reserved
      rw [Function.update_of_ne self] at reserved
      exact self (safe.apart j i holding own reserved owned same)
  · exact safe

def World.Admits (world : World ι) : Act ι → Prop
  | .reserves _ id _ _ _ => id ∉ world.drawn
  | .records i _ files => ∀ status retryAfter now reservation early,
    (world.senders i).doing = .recording status retryAfter now reservation early → isFailure status = false →
      ∀ error, files ≠ .write error true
  | _ => True

theorem World.Safe.step (safe : world.Safe) {act : Act ι} (admits : world.Admits act) :
    (world.step dates store host pace act).Safe := by
  unfold World.step
  cases act with
  | tick duration => exact safe.ticked duration
  | sweep => exact safe.swept
  | begins i timeout allowance =>
    dsimp only
    split
    · exact safe.moved (Or.inr rfl) trivial
    · exact safe
  | reads i =>
    dsimp only
    split
    · exact safe.reads i _ _
    · exact safe
  | decides i left =>
    dsimp only
    split
    · exact safe.decides i ‹_› left
    · exact safe
  | reserves i id left sweeps files =>
    dsimp only
    split
    · exact safe.reserves i ‹_› admits left sweeps files
    · exact safe
  | answered i status retryAfter =>
    dsimp only
    split
    · exact safe.moved (Or.inr rfl) ⟨le_refl _, rfl⟩
    · exact safe
  | looksEarly i =>
    dsimp only
    split
    · rename_i doing
      have placed := safe.placed i
      unfold World.Place at placed
      rw [doing] at placed
      exact safe.moved (Or.inr rfl) ⟨placed.1, placed.2, fun _ _ quiet => quiet⟩
    · exact safe
  | records i sweeps files =>
    dsimp only
    split
    · rename_i doing
      exact safe.records i doing sweeps (admits _ _ _ _ _ doing)
    · exact safe
  | drops i id =>
    dsimp only
    split
    · exact safe.drops i id
    · exact safe
  | releases i sweeps files =>
    dsimp only
    split
    · exact safe.releases i ‹_› sweeps files
    · exact safe

/-- In any order of the senders' steps, wherever the clock moves on. -/
theorem senders_exclude (dates : Dates) (store : Store) (host : String) (pace : Pace) {start : World ι}
    (starts : start.Starts) {acts : List (Act ι)}
    (along : AlongRun (World.step dates store host pace) World.Admits start acts) :
    (runWith (World.step dates store host pace) start acts).Exclusive := by
  have safe : (runWith (World.step dates store host pace) start acts).Safe :=
    runWith_keeps (I := World.Safe) (fun _ _ safe admits => World.Safe.step safe admits) starts.safe along
  exact safe.exclusive

end

/-! ### Two senders -/

def afterFailure : World Bool :=
  ⟨.backoff (failedAt 0), seconds 10, fun _ => ⟨none, WAIT_BUDGET, .idle, none⟩, [], [], []⟩

/-- Both senders read the record before either takes the host; the second waits for the first one's answer. -/
def bothSend : List (Act Bool) :=
  [.begins false (some (seconds 5)) WAIT_BUDGET, .begins true (some (seconds 5)) WAIT_BUDGET, .reads false, .reads true,
    .decides false (seconds 600), .decides true (seconds 600), .reserves false "first" (seconds 600) true .done,
    .reserves true "second" (seconds 600) true .done, .tick 1000000, .reads true, .decides true (seconds 600),
    .answered false 200 none, .looksEarly false, .records false false .done, .reads true, .decides true (seconds 600)]

example : ((runWith (World.step undated edge "publisher.example" .own) afterFailure bothSend).sent.map
    fun sent => (sent.sender, sent.at_, sent.lastRead)) =
      [(false, 10000000000, some 10000000000), (true, 10001000000, none)] := by
  decide

theorem senders_exclude_both :
    (runWith (World.step undated edge "publisher.example" .own) afterFailure bothSend).Exclusive := by
  apply senders_exclude
  · refine ⟨?_, fun _ => ⟨rfl, rfl⟩, rfl, rfl⟩
    intro id named
    cases named
  · unfold bothSend
    simp only [AlongRun, World.Admits, and_true, true_and]
    refine ⟨by decide, by decide, ?_⟩
    rintro status retryAfter now reservation early _ _ error written
    cases written

end CommonMeasure.CrawlDelay
