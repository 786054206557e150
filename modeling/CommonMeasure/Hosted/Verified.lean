import CommonMeasure.Hosted.Tokens

/-!
# What a verification finds

A token is accepted from its issue to its revocation, and neither is undone.
-/

namespace CommonMeasure.Hosted

open Json Locked

variable (L : Libraries) (home : String)

def Change.issues : Change → Option String
  | .issue label _ _ _ => some label
  | .revoke _ _ => none

def Change.secret : Change → Option Bytes
  | .issue _ _ secret _ => some secret
  | .revoke _ _ => none

def New (log : List Change) (change : Change) : Prop := change.secret = none ∨ change.secret ∉ log.map Change.secret

def Kept (tokens : List EdgeToken) : Change → Prop
  | .issue label host secret _ =>
    ∃ held ∈ tokens, held.label = label ∧ held.host = host ∧ held.sha256 = L.sha256_digest (utf8 (tokenOf L secret))
  | .revoke label now => ∃ held ∈ tokens, held.label = label ∧ held.revoked_at = some now

structure Tracks (log : List Change) (file : Option Bytes) (tokens : List EdgeToken) : Prop where
  loads : load L home file = .ok tokens
  labels : tokens.map EdgeToken.label = log.filterMap Change.issues
  unique : (tokens.map EdgeToken.label).Nodup
  hashed : (tokens.map EdgeToken.sha256).Nodup
  made : ∀ held ∈ tokens, ∃ secret, some secret ∈ log.map Change.secret ∧
    held.sha256 = L.sha256_digest (utf8 (tokenOf L secret))
  revoked : ∀ held ∈ tokens, ∀ now, held.revoked_at = some now → .revoke held.label now ∈ log
  kept : ∀ change ∈ log, Kept L tokens change

variable {L} {home} {log : List Change} {file : Option Bytes} {tokens : List EdgeToken}

theorem tracks_start : Tracks L home [] none [] := by
  refine ⟨rfl, rfl, List.nodup_nil, List.nodup_nil, ?_, ?_, ?_⟩ <;> simp

theorem Kept.append {change : Change} (kept : Kept L tokens change) (more : List EdgeToken) :
    Kept L (tokens ++ more) change := by
  cases change with
  | issue label host secret now =>
    obtain ⟨held, listed, named⟩ := kept
    exact ⟨held, List.mem_append_left _ listed, named⟩
  | revoke label now =>
    obtain ⟨held, listed, named⟩ := kept
    exact ⟨held, List.mem_append_left _ listed, named⟩

theorem tracks_issue (lawful : L.Lawful) (tracks : Tracks L home log file tokens) {label : String} {host : Option String}
    {secret : Bytes} {now : String} (new : New log (.issue label host secret now)) (absent : ∀ held ∈ tokens, held.label ≠ label) :
    Tracks L home (log ++ [.issue label host secret now]) (stored (tokens ++ [issued L label host secret now]))
      (tokens ++ [issued L label host secret now]) := by
  have drawn : some secret ∉ log.map Change.secret := new.resolve_left (by simp [Change.secret])
  refine ⟨load_stored lawful _, ?_, ?_, ?_, ?_, ?_, ?_⟩
  · simp [tracks.labels, Change.issues, issued]
  · rw [List.map_append, List.nodup_append]
    refine ⟨tracks.unique, List.nodup_singleton _, ?_⟩
    rintro _ listed _ here rfl
    obtain ⟨held, member, named⟩ := List.mem_map.mp listed
    simp only [List.map_cons, List.map_nil, List.mem_singleton, issued] at here
    exact absent held member (named.trans here)
  · rw [List.map_append, List.nodup_append]
    refine ⟨tracks.hashed, List.nodup_singleton _, ?_⟩
    rintro _ listed _ here rfl
    obtain ⟨held, member, named⟩ := List.mem_map.mp listed
    simp only [List.map_cons, List.map_nil, List.mem_singleton, issued] at here
    obtain ⟨other, among, made⟩ := tracks.made held member
    have same := utf8_injective (lawful.hashed (made.symm.trans (named.trans here)))
    exact drawn (tokenOf_injective lawful same ▸ among)
  · intro held member
    rcases List.mem_append.mp member with before | here
    · obtain ⟨other, among, made⟩ := tracks.made held before
      exact ⟨other, by simp only [List.map_append, List.mem_append, among, true_or], made⟩
    · rw [List.mem_singleton.mp here]
      exact ⟨secret, by simp [Change.secret], rfl⟩
  · intro held member at_ revoked
    rcases List.mem_append.mp member with before | here
    · exact List.mem_append_left _ (tracks.revoked held before at_ revoked)
    · rw [List.mem_singleton.mp here] at revoked
      cases revoked
  · intro change listed
    rcases List.mem_append.mp listed with before | here
    · exact (tracks.kept change before).append _
    · rw [List.mem_singleton.mp here]
      exact ⟨_, List.mem_append_right _ (List.mem_singleton_self _), rfl, rfl, rfl⟩

/-! ### Revoking the first of a label -/

theorem revokeFirst_map {α : Type} (tokens : List EdgeToken) (f : EdgeToken → α) (label now : String)
    (same : ∀ held, f { held with revoked_at := some now } = f held) :
    (revokeFirst label now tokens).map f = tokens.map f := by
  induction tokens with
  | nil => rfl
  | cons token more ih =>
    rw [revokeFirst]
    split
    · rw [List.map_cons, List.map_cons, same]
    · rw [List.map_cons, List.map_cons, ih]

theorem mem_revokeFirst {label now : String} {held : EdgeToken} (member : held ∈ revokeFirst label now tokens) :
    held ∈ tokens ∨ ∃ before ∈ tokens, before.label = label ∧ held = { before with revoked_at := some now } := by
  induction tokens with
  | nil => cases member
  | cons token more ih =>
    rw [revokeFirst] at member
    split at member
    · rename_i named
      rcases List.mem_cons.mp member with rfl | later
      · exact .inr ⟨token, List.mem_cons_self, named, rfl⟩
      · exact .inl (List.mem_cons_of_mem _ later)
    · rcases List.mem_cons.mp member with rfl | later
      · exact .inl List.mem_cons_self
      · rcases ih later with before | ⟨before, listed, named, is⟩
        · exact .inl (List.mem_cons_of_mem _ before)
        · exact .inr ⟨before, List.mem_cons_of_mem _ listed, named, is⟩

theorem revokeFirst_mem (label now : String) {held : EdgeToken} (member : held ∈ tokens) :
    held ∈ revokeFirst label now tokens ∨
      held.label = label ∧ { held with revoked_at := some now } ∈ revokeFirst label now tokens := by
  induction tokens with
  | nil => cases member
  | cons token more ih =>
    rw [revokeFirst]
    split
    · rename_i named
      rcases List.mem_cons.mp member with rfl | later
      · exact .inr ⟨named, List.mem_cons_self⟩
      · exact .inl (List.mem_cons_of_mem _ later)
    · rcases List.mem_cons.mp member with rfl | later
      · exact .inl List.mem_cons_self
      · exact (ih later).imp (List.mem_cons_of_mem _) (And.imp_right (List.mem_cons_of_mem _))

theorem revokeFirst_found {label : String} (now : String) {held : EdgeToken} (member : held ∈ tokens)
    (named : held.label = label) :
    ∃ before ∈ tokens, before.label = label ∧ { before with revoked_at := some now } ∈ revokeFirst label now tokens := by
  induction tokens with
  | nil => cases member
  | cons token more ih =>
    rw [revokeFirst]
    split
    · rename_i first
      exact ⟨token, List.mem_cons_self, first, List.mem_cons_self⟩
    · rename_i other
      rcases List.mem_cons.mp member with rfl | later
      · exact absurd named other
      · obtain ⟨before, listed, rest⟩ := ih later
        exact ⟨before, List.mem_cons_of_mem _ listed, rest.1, List.mem_cons_of_mem _ rest.2⟩

theorem tracks_revoke (lawful : L.Lawful) (tracks : Tracks L home log file tokens) {label now : String} {held : EdgeToken}
    (member : held ∈ tokens) (named : held.label = label) (standing : held.revoked_at = none) :
    Tracks L home (log ++ [.revoke label now]) (stored (revokeFirst label now tokens)) (revokeFirst label now tokens) := by
  have labels := revokeFirst_map tokens EdgeToken.label label now fun _ => rfl
  have hashes := revokeFirst_map tokens EdgeToken.sha256 label now fun _ => rfl
  have one : ∀ other ∈ tokens, other.label = label → other = held := fun other listed same =>
    List.inj_on_of_nodup_map tracks.unique listed member (same.trans named.symm)
  refine ⟨load_stored lawful _, ?_, labels ▸ tracks.unique, hashes ▸ tracks.hashed, ?_, ?_, ?_⟩
  · simp [labels, tracks.labels, Change.issues]
  · intro token among
    have made : ∃ before ∈ tokens, token.sha256 = before.sha256 := by
      rcases mem_revokeFirst among with before | ⟨before, listed, _, rfl⟩
      · exact ⟨token, before, rfl⟩
      · exact ⟨before, listed, rfl⟩
    obtain ⟨before, listed, same⟩ := made
    obtain ⟨secret, drawn, made⟩ := tracks.made before listed
    exact ⟨secret, by simp only [List.map_append, List.mem_append, drawn, true_or], same.trans made⟩
  · intro token among at_ revoked
    rcases mem_revokeFirst among with before | ⟨before, listed, same, rfl⟩
    · exact List.mem_append_left _ (tracks.revoked token before at_ revoked)
    · cases revoked
      rw [same]
      exact List.mem_append_right _ (List.mem_singleton_self _)
  · intro change listed
    rcases List.mem_append.mp listed with before | here
    · have kept := tracks.kept change before
      cases change with
      | issue other host secret at_ =>
        obtain ⟨token, among, rest⟩ := kept
        rcases revokeFirst_mem label now among with stays | ⟨_, changed⟩
        · exact ⟨token, stays, rest⟩
        · exact ⟨_, changed, rest⟩
      | revoke other at_ =>
        obtain ⟨token, among, same, revoked⟩ := kept
        rcases revokeFirst_mem label now among with stays | ⟨again, _⟩
        · exact ⟨token, stays, same, revoked⟩
        · rw [one token among again, standing] at revoked
          cases revoked
    · rw [List.mem_singleton.mp here]
      obtain ⟨before, _, same, changed⟩ := revokeFirst_found now member named
      exact ⟨_, changed, same, rfl⟩

theorem tracks_rewrite (lawful : L.Lawful) (tracks : Tracks L home log file tokens) {change : Change} (new : New log change)
    {stages : List (Option Bytes)} {answer : Option String} (rewrote : (rewriter L home).rewrite change file = .ok (stages, answer)) :
    ∃ next tokens', stages = [next] ∧ Tracks L home (log ++ [change]) next tokens' ∧
      answer = change.secret.map (tokenOf L) := by
  cases change with
  | issue label host secret now =>
    simp only [rewriter, issue, tracks.loads, bind, Except.bind] at rewrote
    split at rewrote
    · cases rewrote
    · rename_i absent
      cases rewrote
      exact ⟨_, _, rfl, tracks_issue lawful tracks new (by simpa using absent), rfl⟩
  | revoke label now =>
    simp only [rewriter, revoke, tracks.loads, bind, Except.bind] at rewrote
    split at rewrote
    · cases rewrote
    · rename_i held found
      split at rewrote
      · cases rewrote
      · rename_i standing
        cases rewrote
        exact ⟨_, _, rfl, tracks_revoke lawful tracks (List.mem_of_find?_eq_some found)
          (by simpa using List.find?_some found) standing, rfl⟩

theorem tracks_replay (lawful : L.Lawful) (replay : Replay (rewriter L home) New none log file) :
    ∃ tokens, Tracks L home log file tokens := by
  refine replay.keeps (I := fun log file => ∃ tokens, Tracks L home log file tokens) ⟨[], tracks_start⟩ ?_
  intro log base change before next after answer ⟨tokens, tracks⟩ new rewrote
  obtain ⟨only, tokens', is, tracks', _⟩ := tracks_rewrite lawful tracks new rewrote
  obtain ⟨rfl, rfl, rfl⟩ : before = [] ∧ next = only ∧ after = [] := by
    cases before with
    | nil => simpa using is
    | cons => simp at is
  exact ⟨tokens', tracks'⟩

theorem answered_logged (lawful : L.Lawful) {stages : List (Option Bytes)} {change : Change} {answer : Option String}
    (wrote : Wrote (rewriter L home) New none log change stages answer stages.length) :
    change ∈ log ∧ answer = change.secret.map (tokenOf L) := by
  obtain ⟨earlier, base, replay, new, rewrote, logged⟩ := wrote
  obtain ⟨tokens, tracks⟩ := tracks_replay lawful replay
  obtain ⟨_, _, rfl, _, told⟩ := tracks_rewrite lawful tracks new rewrote
  exact ⟨logged.subset (by simp), told⟩

theorem find_of_nodup {held : EdgeToken} (hashed : (tokens.map EdgeToken.sha256).Nodup) (member : held ∈ tokens) :
    tokens.find? (fun token => token.sha256 = held.sha256) = some held := by
  induction tokens with
  | nil => cases member
  | cons token more ih =>
    rw [List.map_cons, List.nodup_cons] at hashed
    rcases List.mem_cons.mp member with rfl | later
    · simp
    · have other : token.sha256 ≠ held.sha256 := fun same => hashed.1 (same ▸ List.mem_map_of_mem later)
      rw [List.find?_cons_of_neg (by simpa using other), ih hashed.2 later]

theorem verify_issued (tracks : Tracks L home log file tokens) {label : String} {bound : Option String} {secret : Bytes}
    {now : String} (issued : .issue label bound secret now ∈ log) (host : String) :
    ∃ held ∈ tokens, held.label = label ∧ held.host = bound ∧
      verify_edge_token L home file (tokenOf L secret) host = verifyHeld L held host := by
  obtain ⟨held, member, named, bound_, made⟩ := tracks.kept _ issued
  refine ⟨held, member, named, bound_, ?_⟩
  have found := find_of_nodup tracks.hashed member
  rw [made] at found
  simp only [verify_edge_token, tracks.loads, found]

theorem verify_revoked (tracks : Tracks L home log file tokens) {label now : String} (revoked : .revoke label now ∈ log)
    (token host : String) : verify_edge_token L home file token host ≠ .ok (.edgeToken label) := by
  obtain ⟨held, member, named, revoked_⟩ := tracks.kept _ revoked
  intro accepted
  simp only [verify_edge_token, tracks.loads] at accepted
  split at accepted
  · cases accepted
  · rename_i other found
    have listed := List.mem_of_find?_eq_some found
    unfold verifyHeld at accepted
    split at accepted
    · cases accepted
    · rename_i standing
      have same : other.label = label := by
        split at accepted
        · split at accepted
          · cases accepted
          · cases accepted
            rfl
        · cases accepted
          rfl
      rw [List.inj_on_of_nodup_map tracks.unique listed member (same.trans named.symm), revoked_] at standing
      cases standing

/-- Whatever processes issue and revoke, and wherever they fail or stop: after `acts`, and then after `more`. -/
theorem tokens_kept (lawful : L.Lawful) {Pid : Type} [DecidableEq Pid] (acts more : List (Act Pid Change String))
    (drawn : AlongRun (step (rewriter L home)) (Drawn New) (System.start none) (acts ++ more)) :
    let s := runWith (step (rewriter L home)) (System.start none) acts
    let t := runWith (step (rewriter L home)) s more
    (∀ label now answer, (.revoke label now, .ok answer) ∈ s.answers →
      ∀ token host, verify_edge_token L home t.content token host ≠ .ok (.edgeToken label)) ∧
    (∀ label bound secret now answer, (.issue label bound secret now, .ok answer) ∈ s.answers →
      answer = some (tokenOf L secret) ∧ ∀ host,
        ((∀ at_, .revoke label at_ ∉ t.log) → verify_edge_token L home t.content (tokenOf L secret) host =
          if bound.all (· = host) then .ok (.edgeToken label)
          else .error ("edge token " ++ L.debug label ++ " is bound to the endpoint /mcp/" ++ bound.getD "" ++
            " and was presented on /mcp/" ++ host)) ∧
        ∀ at_, .revoke label at_ ∈ t.log → verify_edge_token L home t.content (tokenOf L secret) host =
          .error ("edge token " ++ L.debug label ++ " was revoked at " ++ at_)) ∧
    (t.log.filterMap Change.issues).Nodup ∧ s.log <+: t.log ∧
    ∃ tokens, load L home t.content = .ok tokens ∧
      ∀ change answer, (change, .ok answer) ∈ s.answers → Kept L tokens change := by
  intro s t
  have before : Sound (rewriter L home) New none s := sound_run (AlongRun.append.mp drawn).1
  have after : Sound (rewriter L home) New none t := by
    have sound := sound_run drawn
    rwa [runWith_append] at sound
  have grows := run_grows (R := rewriter L home) s more
  obtain ⟨tokens, tracks⟩ := tracks_replay lawful after.replay
  have logged : ∀ change answer, (change, .ok answer) ∈ s.answers →
      change ∈ t.log ∧ answer = change.secret.map (tokenOf L) := by
    intro change answer told
    obtain ⟨stages, wrote⟩ := before.answered change answer told
    obtain ⟨among, is⟩ := answered_logged lawful wrote
    exact ⟨grows.1.subset among, is⟩
  refine ⟨fun label now answer told => verify_revoked tracks (logged _ _ told).1, ?_, tracks.labels ▸ tracks.unique, grows.1,
    tokens, tracks.loads, fun change answer told => tracks.kept change (logged _ _ told).1⟩
  intro label bound secret now answer told
  obtain ⟨among, is⟩ := logged _ _ told
  refine ⟨is, fun host => ?_⟩
  obtain ⟨held, member, rfl, rfl, verified⟩ := verify_issued tracks among host
  rw [verified]
  constructor
  · intro standing
    have unrevoked : held.revoked_at = none := by
      cases revoked : held.revoked_at with
      | none => rfl
      | some at_ => exact absurd (tracks.revoked held member at_ revoked) (standing at_)
    unfold verifyHeld
    rw [unrevoked]
    cases bound : held.host with
    | none => simp
    | some endpoint => by_cases same : endpoint = host <;> simp [same]
  · intro at_ revoked
    obtain ⟨other, listed, named, revoked⟩ := tracks.kept _ revoked
    rw [List.inj_on_of_nodup_map tracks.unique listed member named] at revoked
    rw [verifyHeld, revoked]

def sampleSecret : Bytes := List.replicate 32 0

def sampleEncoded : String := "AAAAAAAAAAAAAAAAAAAAAAAAAAAAAAAAAAAAAAAAAAA"

def sampleHash : String := "sha256:fbc9285ba6866780ec8428b494f7cb0222cdff3d12498c5d3b84b37c25fe970a"

def sampleLibraries : Libraries where
  encode := patched [(sampleSecret, sampleEncoded)] marked
  sha256_digest := patched [(utf8 (EDGE_TOKEN_PREFIX ++ sampleEncoded), sampleHash)] marked
  debug s := "\"" ++ s ++ "\""
  from_slice bytes := match readDocument recursionLimit bytes with
    | some value => .ok value
    | none => .error "expected value"
  mismatch _ := "missing field"

theorem sampleLibraries_lawful : sampleLibraries.Lawful := by
  refine ⟨patched_injective marked_injective (List.nodup_singleton _) ?_,
    patched_injective marked_injective (List.nodup_singleton _) ?_, fun value shallow => ?_⟩
  · intro value listed
    rw [List.map_singleton, List.mem_singleton] at listed
    exact marked_ne (by rw [listed]; decide)
  · intro value listed
    rw [List.map_singleton, List.mem_singleton] at listed
    exact marked_ne (by rw [listed]; decide)
  · simp only [sampleLibraries, readDocument_pretty, if_pos shallow]

instance (log : List Change) (change : Change) : Decidable (New log change) := by unfold New; infer_instance

instance {Pid : Type} [DecidableEq Pid] (s : System Pid Change (Option Bytes) String (Option String))
    (act : Act Pid Change String) : Decidable (Drawn New s act) := by
  cases act with
  | reads pid =>
    unfold Drawn
    dsimp only
    split <;> infer_instance
  | _ => exact isTrue trivial

def sampleIssue : List (Act Bool Change String) :=
  [.begins false (.issue "laptop" (some "chatgpt") sampleSecret "2026-01-01T00:00:00Z"), .locks false, .reads false,
    .begins true (.revoke "laptop" "2026-01-02T00:00:00Z"), .locks true, .writes false, .returns false]

def sampleRevoke : List (Act Bool Change String) := [.locks true, .reads true, .writes true, .stops true]

theorem tokens_kept_sample : verify_edge_token sampleLibraries "/edge"
    (runWith (step (rewriter sampleLibraries "/edge")) (runWith (step (rewriter sampleLibraries "/edge"))
      (System.start none) sampleIssue) sampleRevoke).content ("cmet_" ++ sampleEncoded) "chatgpt" =
    .error "edge token \"laptop\" was revoked at 2026-01-02T00:00:00Z" := by
  have kept := @tokens_kept sampleLibraries "/edge" sampleLibraries_lawful Bool _ sampleIssue sampleRevoke (by decide)
  have told := (kept.2.1 "laptop" (some "chatgpt") sampleSecret "2026-01-01T00:00:00Z" (some ("cmet_" ++ sampleEncoded))
    (by decide)).2 "chatgpt"
  have revoked := told.2 "2026-01-02T00:00:00Z" (by decide +kernel)
  exact revoked

end CommonMeasure.Hosted
