import MiningAgent.Proofs.Session.Notices
import MiningAgent.Proofs.Run.Silence

/-!
# Sessions without a hashrate

A session whose hashrate is zero refuses every start and never mines.  Between its requests its
agent is as it was created, around the tracker and the counters of the moment.
-/

namespace MiningAgent

/-- When the run in the slot began, or zero. -/
def Engine.startedAt (engine : Engine) : UInt64 :=
  match engine.slot.active with
  | some run => run.started.wall
  | none => 0

/-- An agent without a hashrate that has never had a run. -/
def Engine.hashless (identity : Identity) (logarithm : Rat → Rat) (stream : Generator)
    (tracker : Tracker) (tally : Tally) (path : Option String) (callers : Nat → Activity) :
    Engine :=
  { created ⟨identity, ⟨0⟩, logarithm⟩ stream tracker tally path with callers := callers }

/-- A log entry or a report. -/
def Event.isNote : Event → Bool
  | .logged _ => true
  | .wrote _ _ => true
  | _ => false

/-- The host gets from its activity to the end of its call, and shows notes on the way. -/
def Engine.Ends (engine : Engine) (activity : Activity) (circumstances : Circumstances)
    (result : Result) (after : (Nat → Activity) → Engine) : Prop :=
  ∃ later notes, (engine.setCaller Session.host activity).runCaller Session.host circumstances =
    (after later, notes ++ [.returned result]) ∧ ∀ event ∈ notes, event.isNote = true

namespace Engine

variable (identity : Identity) (logarithm : Rat → Rat) (stream : Generator) (tracker : Tracker)
  (tally : Tally) (path : Option String) (callers : Nat → Activity)
  (circumstances : Circumstances)

theorem follow_idle {engine : Engine} {number : Nat} (idle : engine.callers number = .idle)
    (bound : Nat) :
    follow (.caller number) (fun _ => circumstances) bound engine = (engine, []) :=
  follow_blocked (by simp [step, stepCaller, idle]) bound

/-- An accepted update finds nobody to interrupt. -/
theorem hashless_interrupt (reason : Interruption) (bound : Nat) :
    ∃ later, follow (.caller Session.host) (fun _ => circumstances) (bound + 3)
        ((hashless identity logarithm stream tracker tally path callers).setCaller Session.host
          (.interruptClaiming reason true)) =
      (hashless identity logarithm stream tracker tally path later,
        [.returned (.noted true false)]) := by
  let engine := hashless identity logarithm stream tracker tally path callers
  let waiting := engine.setCaller Session.host (.interruptClaiming reason true)
  let looking := { waiting with slotHolder := some (.caller Session.host) }.setCaller Session.host
    (.interruptSending reason true)
  let leaving := looking.setCaller Session.host (.interruptReleasing true false)
  let done := leaving.releaseSlot.setCaller Session.host .idle
  have claims : waiting.stepCaller Session.host circumstances = some (looking, []) := rfl
  have looks : looking.stepCaller Session.host circumstances = some (leaving, []) := rfl
  have leaves : leaving.stepCaller Session.host circumstances =
      some (done, [.returned (.noted true false)]) := rfl
  refine ⟨done.callers, ?_⟩
  rw [follow_succ claims, follow_succ looks, follow_succ leaves,
    follow_idle circumstances (setCaller_self _ _ _)]
  rfl

theorem hashless_updating (reason : Interruption) (announcement : Announcement) (bound : Nat) :
    ∃ later entries result, follow (.caller Session.host) (fun _ => circumstances) (bound + 4)
        ((hashless identity logarithm stream tracker tally path callers).setCaller Session.host
          (.updating reason announcement)) =
      (hashless identity logarithm stream (tracker.update announcement).2 tally path later,
        entries ++ [.returned result]) ∧
      ∀ event ∈ entries, event.isNote = true := by
  let engine := (hashless identity logarithm stream tracker tally path callers).setCaller
    Session.host (.updating reason announcement)
  have standing : engine.callers Session.host = .updating reason announcement :=
    setCaller_self _ _ _
  obtain ⟨entries, logged, judged⟩ := applyUpdate_cases engine Session.host reason announcement
  have notes : ∀ event ∈ entries, event.isNote = true := by
    intro event member
    obtain ⟨entry, rfl⟩ := logged event member
    rfl
  rcases judged with ⟨accepted, result⟩ | ⟨refused, result⟩
  · let updated := (hashless identity logarithm stream ⟨some announcement⟩ tally path
      engine.callers).setCaller Session.host (.interruptClaiming reason true)
    have taken : engine.stepCaller Session.host circumstances = some (updated, entries) := by
      simp only [stepCaller, standing, result]
      rfl
    have update : (tracker.update announcement).2 = ⟨some announcement⟩ := by
      have judged : tracker.judge announcement = .accepted := accepted
      rw [Tracker.update, judged]
    obtain ⟨later, follows⟩ := hashless_interrupt identity logarithm stream ⟨some announcement⟩
      tally path engine.callers circumstances reason bound
    exact ⟨later, entries, .noted true false, by rw [follow_succ taken, follows, update], notes⟩
  · let updated := engine.setCaller Session.host .idle
    have taken : engine.stepCaller Session.host circumstances =
        some (updated, entries ++ [.returned (.noted false false)]) := by
      simp only [stepCaller, standing, result]
      rfl
    have update : (tracker.update announcement).2 = tracker := Tracker.update_of_refused refused
    refine ⟨updated.callers, entries, .noted false false, ?_, notes⟩
    rw [follow_succ taken, follow_idle circumstances (setCaller_self _ _ _), update,
      List.append_nil]
    rfl

variable {identity logarithm stream tracker tally path callers circumstances}

theorem hashless_start (context : Context) :
    (hashless identity logarithm stream tracker tally path callers).Ends (.startLocking context)
      circumstances (.refused (.invalidRate 0 tracker.current.difficulty))
      (hashless identity logarithm stream tracker tally.countError path) := by
  cases path with
  | none => exact ⟨_, [_], rfl, by simp [Event.isNote]⟩
  | some path =>
      obtain ⟨now, delayOver, answer, failure⟩ := circumstances
      cases failure with
      | none =>
          refine ⟨_, [_, .wrote path (.ofTally identity.agentId 0 tally.countError),
            .logged (.reportWritten path)], rfl, ?_⟩
          simp [Event.isNote]
      | some reason =>
          refine ⟨_, [_, .logged (.errorReportFailed path (.io reason))], rfl, ?_⟩
          simp [Event.isNote]

theorem hashless_stop :
    (hashless identity logarithm stream tracker tally path callers).Ends .stopLocking
      circumstances .notActive (hashless identity logarithm stream tracker tally path) :=
  ⟨_, [.logged .notActive], rfl, by simp [Event.isNote]⟩

theorem hashless_export :
    (hashless identity logarithm stream tracker tally path callers).Ends (.exporting [])
      circumstances (.exported tally) (hashless identity logarithm stream tracker tally path) :=
  ⟨_, [], rfl, by simp⟩

theorem hashless_difficultyChange (announcement : Announcement) :
    ∃ result, (hashless identity logarithm stream tracker tally path callers).Ends
      (.updating .difficultyChange announcement) circumstances result
      (hashless identity logarithm stream (tracker.update announcement).2 tally path) := by
  obtain ⟨later, entries, result, follows, notes⟩ := hashless_updating identity logarithm stream
    tracker tally path callers circumstances .difficultyChange announcement 16
  exact ⟨result, later, entries, follows, notes⟩

theorem hashless_peerBlock (announcement : Announcement) :
    ∃ result, (hashless identity logarithm stream tracker tally path callers).Ends
      (.peerCounting announcement) circumstances result
      (hashless identity logarithm stream (tracker.update announcement).2 tally.countPeerBlock
        path) := by
  let told := (hashless identity logarithm stream tracker tally path callers).setCaller
    Session.host (.peerCounting announcement)
  let counted := (hashless identity logarithm stream tracker tally.countPeerBlock path
    told.callers).setCaller Session.host (.updating .peerBlock announcement)
  have counts : told.stepCaller Session.host circumstances =
      some (counted, [.logged (.peerBlockReceived announcement)]) := rfl
  obtain ⟨later, entries, result, follows, notes⟩ := hashless_updating identity logarithm stream
    tracker tally.countPeerBlock path told.callers circumstances .peerBlock announcement 15
  refine ⟨result, later, .logged (.peerBlockReceived announcement) :: entries, ?_, ?_⟩
  · rw [runCaller]
    exact (follow_succ counts).trans (by rw [follows]; rfl)
  · intro event member
    rcases List.mem_cons.mp member with rfl | old
    · rfl
    · exact notes event old

end Engine

/-- Whether a request asks for a run. -/
def Request.isStart : Request → Bool
  | .start _ => true
  | .requestStart _ => true
  | _ => false

/-- What the host is told by a session without a hashrate: a start fails for the difficulty of
the moment, and a stop finds nothing to stop. -/
def Request.refusal? (difficulty : UInt64) : Request → Option Reply
  | .start _ => some (.result (.refused (.invalidRate 0 difficulty)))
  | .requestStart _ => some (.handled false)
  | .stop => some (.result .notActive)
  | .requestStop => some (.handled true)
  | _ => none

/-- A request is refused, and nobody draws or calls the broadcaster. -/
structure Exchange.Fruitless (exchange : Exchange) : Prop where
  refusal : ∀ reply,
    exchange.request.refusal? exchange.before.engine.tracker.current.difficulty = some reply →
      exchange.reply = reply
  quiet : ∀ event ∈ exchange.events, event.isWork = false

/-- The counters of an agent that has refused a number of starts and done no work. -/
structure Tally.Idle (tally : Tally) (starts : Nat) : Prop where
  iterations : tally.iterations = 0
  blocksFound : tally.blocksFound = 0
  miningTime : tally.miningTime = 0
  errors : tally.errors = UInt64.ofNat starts

/-- A session that has never mined, and whose stream is as it was given. -/
structure Session.Unmined (session : Session) (stream : Generator) : Prop where
  idle : session.engine.isMining = false
  startedAt : session.engine.startedAt = 0
  stream : session.engine.stream = stream
  iterations : session.engine.tally.iterations = 0
  blocksFound : session.engine.tally.blocksFound = 0
  miningTime : session.engine.tally.miningTime = 0

theorem Tally.Idle.countError {tally : Tally} {starts : Nat} (idle : tally.Idle starts) :
    tally.countError.Idle (starts + 1) := by
  refine ⟨idle.iterations, idle.blocksFound, idle.miningTime, ?_⟩
  rw [UInt64.ofNat_add, ← idle.errors]
  rfl

namespace Session

/-- A session without a hashrate that has refused a number of starts. -/
inductive Unrated (identity : Identity) (logarithm : Rat → Rat) (stream : Generator)
    (starts : Nat) : Session → Prop
  | intro {tracker : Tracker} {tally : Tally} {path : Option String} {callers : Nat → Activity}
      {patience : UInt64} (idle : tally.Idle starts) :
      Unrated identity logarithm stream starts
        ⟨.hashless identity logarithm stream tracker tally path callers, patience⟩

variable {session : Session} {circumstances : Circumstances} {identity : Identity}
  {logarithm : Rat → Rat} {stream : Generator} {starts : Nat} {tracker : Tracker} {tally : Tally}
  {path : Option String}

theorem result?_of_notes {notes : List Event} (result : Result)
    (shown : ∀ event ∈ notes, event.isNote = true) :
    Event.result? (notes ++ [.returned result]) = some result := by
  have silent : Event.result? notes = none := by
    apply List.findSome?_eq_none_iff.mpr
    intro event member
    have note := shown event member
    cases event with
    | returned other => cases note
    | _ => rfl
  rw [Event.result?] at silent ⊢
  rw [List.findSome?_append, silent]
  rfl

/-- A call that the host ends by itself, without a worker. -/
theorem call_of_ends {call : Call} {result : Result}
    (ends : session.engine.Ends call.entry circumstances result
      (.hashless identity logarithm stream tracker tally path)) :
    ∃ later own, session.call call circumstances =
      ⟨⟨.hashless identity logarithm stream tracker tally path later, session.patience⟩, result,
        own, []⟩ ∧
      ∀ event ∈ own, event.isWork = false := by
  obtain ⟨later, notes, runs, shown⟩ := ends
  have alone : (Engine.hashless identity logarithm stream tracker tally path later).workers = [] :=
    rfl
  refine ⟨later, notes ++ [.returned result], ?_, ?_⟩
  · simp only [Session.call, perform, complete, runs, result?_of_notes result shown, Engine.settle,
      alone, List.length_nil, List.range_zero, List.foldl_nil]
  · intro event member
    rcases List.mem_append.mp member with note | last
    · have shown := shown event note
      cases event with
      | logged entry | wrote path report => rfl
      | _ => cases shown
    · cases List.mem_singleton.mp last
      rfl

theorem serve_of_ends {request : Request} {call : Call} {result : Result}
    (ends : session.engine.Ends call.entry circumstances result
      (.hashless identity logarithm stream tracker tally path))
    (refusal : ∀ reply, request.refusal? session.engine.tracker.current.difficulty = some reply →
      .result result = reply)
    (idle : tally.Idle starts) :
    (serve.ofResult session request (session.call call circumstances)).Fruitless ∧
      (serve.ofResult session request (session.call call circumstances)).after.Unrated identity
        logarithm stream starts := by
  obtain ⟨later, own, same, quiet⟩ := call_of_ends ends
  simp only [serve.ofResult, same]
  exact ⟨⟨refusal, by simpa using quiet⟩, .intro idle⟩

/-- An export writes a report or fails, and does no other work. -/
theorem exportTo_quiet {target : String} :
    ∀ event ∈ (session.exportTo target circumstances).2, event.isWork = false := by
  unfold exportTo
  cases circumstances.writeFailure with
  | none => simp [Event.isWork]
  | some reason => simp

theorem Unrated.serve (unrated : session.Unrated identity logarithm stream starts)
    (request : Request) :
    (session.serve circumstances request).Fruitless ∧
      (session.serve circumstances request).after.Unrated identity logarithm stream
        (starts + request.isStart.toNat) := by
  obtain @⟨tracker, tally, path, callers, patience, idle⟩ := unrated
  let session : Session :=
    ⟨.hashless identity logarithm stream tracker tally path callers, patience⟩
  cases request with
  | start context =>
      exact serve_of_ends (Engine.hashless_start context) (fun _ => Option.some.inj) idle.countError
  | stop => exact serve_of_ends Engine.hashless_stop (fun _ => Option.some.inj) idle
  | peerBlock announcement =>
      obtain ⟨result, ends⟩ := Engine.hashless_peerBlock announcement
      exact serve_of_ends ends (by simp [Request.refusal?]) ⟨idle.1, idle.2, idle.3, idle.4⟩
  | difficultyChange announcement =>
      obtain ⟨result, ends⟩ := Engine.hashless_difficultyChange announcement
      exact serve_of_ends ends (by simp [Request.refusal?]) idle
  | counters => exact serve_of_ends Engine.hashless_export (by simp [Request.refusal?]) idle
  | requestStart context =>
      obtain ⟨later, own, same, quiet⟩ := @call_of_ends session circumstances _ _ _ _ _ _
        (.start context) _ (Engine.hashless_start context)
      simp only [Session.serve, serve.ofRequest, requestStart, session, same]
      refine ⟨⟨fun _ => Option.some.inj, ?_⟩, .intro idle.countError⟩
      intro event member
      simp only [List.append_nil, List.mem_append, List.mem_cons, List.not_mem_nil,
        or_false] at member
      rcases member with (rfl | shown) | rfl
      · rfl
      · exact quiet event shown
      · rfl
  | requestStop =>
      obtain ⟨later, own, same, quiet⟩ := @call_of_ends session circumstances _ _ _ _ _ _ .stop _
        Engine.hashless_stop
      simp only [Session.serve, serve.ofRequest, requestStop, session, same]
      refine ⟨⟨fun _ => Option.some.inj, ?_⟩, .intro idle⟩
      intro event member
      rw [List.append_nil] at member
      rcases List.mem_cons.mp member with rfl | shown
      · rfl
      · exact quiet event shown
  | exportTo path =>
      exact ⟨⟨by simp [Request.refusal?, Session.serve], exportTo_quiet⟩, .intro idle⟩
  | reportErrorsTo path =>
      exact ⟨⟨by simp [Request.refusal?, Session.serve], by simp [Session.serve]⟩, .intro idle⟩

theorem serve_request (request : Request) :
    (session.serve circumstances request).before = session ∧
      (session.serve circumstances request).request = request := by
  cases request <;> exact ⟨rfl, rfl⟩

/-- What holds of the sessions before and after one exchange, with every exchange in between. -/
theorem Unrated.serveAll (unrated : session.Unrated identity logarithm stream starts)
    (requests : List (Request × Circumstances)) :
    (∀ exchange ∈ (session.serveAll requests).1, exchange.Fruitless ∧
        ∃ starts, exchange.after.Unrated identity logarithm stream starts) ∧
      (session.serveAll requests).1.map Exchange.request = requests.map Prod.fst ∧
      (session.serveAll requests).2.Unrated identity logarithm stream
        (starts + requests.countP fun request => request.1.isStart) := by
  induction requests generalizing session starts with
  | nil => exact ⟨by simp [Session.serveAll], rfl, unrated⟩
  | cons request rest inductionHypothesis =>
      obtain ⟨request, circumstances⟩ := request
      obtain ⟨fruitless, served⟩ := @Unrated.serve _ circumstances _ _ _ _ unrated request
      obtain ⟨later, requested, last⟩ := inductionHypothesis served
      refine ⟨?_, ?_, ?_⟩
      · intro exchange member
        rcases List.mem_cons.mp member with rfl | old
        · exact ⟨fruitless, _, served⟩
        · exact later exchange old
      · simp only [Session.serveAll, List.map_cons, requested, (serve_request request).2]
      · have counts : starts + (List.countP (fun request => request.1.isStart)
            ((request, circumstances) :: rest)) = starts + request.isStart.toNat +
            rest.countP fun request => request.1.isStart := by
          rw [List.countP_cons]
          cases request.isStart with
          | true =>
              simp only [if_true, Bool.toNat_true]
              omega
          | false => rfl
        rw [counts]
        exact last

theorem Unrated.unmined (unrated : session.Unrated identity logarithm stream starts) :
    session.Unmined stream := by
  obtain ⟨idle⟩ := unrated
  exact ⟨rfl, rfl, rfl, idle.iterations, idle.blocksFound, idle.miningTime⟩

theorem Unrated.errors (unrated : session.Unrated identity logarithm stream starts) :
    session.engine.tally.errors = UInt64.ofNat starts := by
  obtain ⟨idle⟩ := unrated
  exact idle.errors

/-- A session without a hashrate refuses every start and never mines, whatever its host asks for
in whatever order.  It hears what any other session hears that gets the same notifications. -/
theorem zero_hashrate_never_mines (identity : Identity) (logarithm : Rat → Rat)
    (patience : UInt64) (requests : List (Request × Circumstances)) :
    let session := (ofAgent ⟨identity, ⟨0⟩, logarithm⟩ patience).1
    (session.serveAll requests).1.map Exchange.request = requests.map Prod.fst ∧
      (∀ exchange ∈ (session.serveAll requests).1,
        exchange.Fruitless ∧ exchange.after.Unmined session.engine.stream) ∧
      (session.serveAll requests).2.Unmined session.engine.stream ∧
      (session.serveAll requests).2.engine.tally.errors =
        UInt64.ofNat (requests.countP fun request => request.1.isStart) ∧
      ∀ (agent : Agent) (waits : UInt64) (others : List (Request × Circumstances)),
        (requests.filterMap fun request => request.1.notice?) =
            others.filterMap (fun request => request.1.notice?) →
          (session.serveAll requests).2.engine.heard =
            ((ofAgent agent waits).1.serveAll others).2.engine.heard := by
  intro session
  have unrated : session.Unrated identity logarithm session.engine.stream 0 :=
    .intro ⟨rfl, rfl, rfl, rfl⟩
  obtain ⟨exchanges, requested, last⟩ := unrated.serveAll requests
  rw [Nat.zero_add] at last
  refine ⟨requested, ?_, last.unmined, last.errors, ?_⟩
  · intro exchange member
    obtain ⟨fruitless, starts, after⟩ := exchanges exchange member
    exact ⟨fruitless, after.unmined⟩
  · intro agent waits others same
    rw [serveAll_heard, serveAll_heard, same]
    rfl

end Session

/-- A host tries to start three times, and hears of two blocks in the meantime. -/
def vainRequests : List (Request × Circumstances) :=
  [.start (.ofWallet ""), .peerBlock ⟨7, 3⟩, .reportErrorsTo (some "error.json"),
    .requestStart (.ofWallet ""), .difficultyChange ⟨9, 2⟩, .stop, .peerBlock ⟨0, 8⟩, .counters,
    .start (.ofWallet ""), .requestStop].map (·, Engine.calm)

/-- The same notifications to an agent that mines. -/
def busyRequests : List (Request × Circumstances) :=
  [.start (.ofWallet ""), .peerBlock ⟨7, 3⟩, .stop, .difficultyChange ⟨9, 2⟩,
    .peerBlock ⟨0, 8⟩].map (·, Engine.calm)

theorem vainRequests_heard_alike :
    let unrated := ((Session.ofAgent ⟨⟨5, 5⟩, ⟨0⟩, fun _ => 0⟩ 0).1.serveAll vainRequests).2
    let rated := ((Session.ofAgent ⟨⟨5, 5⟩, ⟨1000⟩, fun _ => 0⟩ 0).1.serveAll busyRequests).2
    (vainRequests.filterMap fun request => request.1.notice?) =
        busyRequests.filterMap (fun request => request.1.notice?) ∧
      unrated.engine.heard = rated.engine.heard ∧ unrated.engine.tally.errors = 3 := by
  obtain ⟨_, _, _, errors, alike⟩ :=
    Session.zero_hashrate_never_mines ⟨5, 5⟩ (fun _ => 0) 0 vainRequests
  exact ⟨rfl, alike _ 0 busyRequests rfl, errors⟩

end MiningAgent
