import MiningAgent.Proofs.Run.Thinning
import MiningAgent.Session

/-!
# What a session has heard

A host asks one thing after the other.  What its session has heard of the network, the tracker
and the number of peer blocks, comes from the host's notifications alone: neither the hashrate
nor anything else that the host asks for has a part in it.
-/

namespace MiningAgent

/-- What the host of a session asks for. -/
inductive Request
  | start (context : Context)
  | stop
  | requestStart (context : Context)
  | requestStop
  | peerBlock (announcement : Announcement)
  | difficultyChange (announcement : Announcement)
  | counters
  /-- A report of the counters in a file. -/
  | exportTo (path : String)
  /-- Changes where a fatal error leaves a report. -/
  | reportErrorsTo (path : Option String)
deriving DecidableEq, Repr

/-- What the host is told in return. -/
inductive Reply
  | result (result : Result)
  | handled (handled : Bool)
  | report (result : Except Fault Report)
  | nothing
deriving DecidableEq, Repr

/-- One request, from the session that it found to the session that it left. -/
structure Exchange where
  before : Session
  request : Request
  reply : Reply
  events : List Event
  after : Session

namespace Session

def serve (session : Session) (circumstances : Circumstances) (request : Request) : Exchange :=
  match request with
  | .start context => ofResult (session.call (.start context) circumstances)
  | .stop => ofResult (session.call .stop circumstances)
  | .requestStart context => ofRequest (session.requestStart context circumstances)
  | .requestStop => ofRequest (session.requestStop circumstances)
  | .peerBlock announcement => ofResult (session.call (.peerBlock announcement) circumstances)
  | .difficultyChange announcement =>
      ofResult (session.call (.difficultyChange announcement) circumstances)
  | .counters => ofResult (session.call .export circumstances)
  | .exportTo path =>
      let exported := session.exportTo path circumstances
      ⟨session, request, .report exported.1, exported.2, session⟩
  | .reportErrorsTo path => ⟨session, request, .nothing, [], session.setReportPath path⟩
where
  ofResult (turn : Turn Result) : Exchange :=
    ⟨session, request, .result turn.result, turn.own ++ turn.workers, turn.session⟩
  ofRequest (turn : Turn Bool) : Exchange :=
    ⟨session, request, .handled turn.result, turn.own ++ turn.workers, turn.session⟩

/-- A session through a list of requests, each with the circumstances it meets. -/
def serveAll (session : Session) : List (Request × Circumstances) → List Exchange × Session
  | [] => ([], session)
  | (request, circumstances) :: rest =>
      let exchange := session.serve circumstances request
      let (later, last) := exchange.after.serveAll rest
      (exchange :: later, last)

end Session

/-- What somebody was told of the network. -/
inductive Notice
  | peerBlock (announcement : Announcement)
  | difficultyChange (announcement : Announcement)
deriving DecidableEq, Repr

def Request.notice? : Request → Option Notice
  | .peerBlock announcement => some (.peerBlock announcement)
  | .difficultyChange announcement => some (.difficultyChange announcement)
  | _ => none

/-- What an agent has heard: what its tracker says, and how many peer blocks there were. -/
structure Heard where
  tracker : Tracker
  peerBlocks : UInt64
deriving DecidableEq, Repr

def Heard.add (heard : Heard) : Notice → Heard
  | .peerBlock announcement =>
      ⟨(heard.tracker.update announcement).2, heard.peerBlocks + 1⟩
  | .difficultyChange announcement =>
      ⟨(heard.tracker.update announcement).2, heard.peerBlocks⟩

def Engine.heard (engine : Engine) : Heard := ⟨engine.tracker, engine.tally.peerBlocks⟩

namespace Engine

variable {engine next : Engine} {number : Nat} {circumstances : Circumstances}
  {events : List Event}

theorem stepWorker_heard (taken : engine.stepWorker number circumstances = some (next, events)) :
    next.heard = engine.heard ∧ next.callers = engine.callers := by
  obtain ⟨worker, found⟩ := exists_of_stepWorker taken
  obtain ⟨callers, _, tracker, _⟩ := stepWorker_frame taken
  refine ⟨?_, callers⟩
  simp only [heard, tracker, Heard.mk.injEq, true_and]
  rw [(stepWorker_leaves taken found).tally]
  exact record_peerBlocks_worker _ _ _

/-- A caller that is not inside a notification hears nothing. -/
theorem stepCaller_heard (taken : engine.stepCaller number circumstances = some (next, events))
    (deaf : (engine.callers number).isNotifying = false) :
    next.heard = engine.heard ∧ (next.callers number).isNotifying = false := by
  have untold : (engine.callers number).isTold = false := by
    cases standing : engine.callers number with
    | peerCounting announcement =>
        rw [standing] at deaf
        cases deaf
    | _ => rfl
  have tally := congrArg Tally.peerBlocks (stepCaller_tally taken)
  rw [record_peerBlocks, untold] at tally
  have same : next.tracker = engine.tracker ∧ (next.callers number).isNotifying = false := by
    cases stepCaller_cases taken with
    | peerCounting standing | updating_accepted standing | updating_refused standing =>
        rw [standing] at deaf
        cases deaf
    | retiring standing given =>
        exact ⟨(stepRetirement_frame given).2.2.1, by rw [setCaller_self]; rfl⟩
    | _ =>
        refine ⟨by simp [spawn, releaseSlot], ?_⟩
        rw [setCaller_self]
        rfl
  refine ⟨?_, same.2⟩
  simp only [heard, same.1, Heard.mk.injEq, true_and]
  exact tally.trans (UInt64.add_zero _)

theorem follow_succ {bound : Nat}
    (taken : engine.stepCaller number circumstances = some (next, events)) :
    follow (.caller number) (fun _ => circumstances) (bound + 1) engine =
      ((follow (.caller number) (fun _ => circumstances) bound next).1,
        events ++ (follow (.caller number) (fun _ => circumstances) bound next).2) :=
  follow_step taken

/-- What every step of an actor keeps is kept while the actor is followed. -/
theorem follow_keeps {invariant : Engine → Prop} {actor : Actor}
    {circumstancesAt : Engine → Circumstances}
    (kept : ∀ {engine next events}, invariant engine →
      engine.step actor (circumstancesAt engine) = some (next, events) → invariant next)
    (bound : Nat) (holds : invariant engine) :
    invariant (follow actor circumstancesAt bound engine).1 := by
  induction bound generalizing engine with
  | zero => exact holds
  | succ bound inductionHypothesis =>
      simp only [follow]
      split
      · exact holds
      · exact inductionHypothesis (kept holds ‹_›)

theorem follow_heard {circumstancesAt : Engine → Circumstances} (bound : Nat)
    (deaf : (engine.callers number).isNotifying = false) :
    (follow (.caller number) circumstancesAt bound engine).1.heard = engine.heard ∧
      ((follow (.caller number) circumstancesAt bound engine).1.callers number).isNotifying =
        false := by
  apply @follow_keeps engine fun later =>
    later.heard = engine.heard ∧ (later.callers number).isNotifying = false
  · rintro earlier next events ⟨same, deaf⟩ taken
    obtain ⟨kept, still⟩ := stepCaller_heard taken deaf
    exact ⟨kept.trans same, still⟩
  · exact ⟨rfl, deaf⟩

theorem runWorker_heard (patience : UInt64) :
    (engine.runWorker number patience circumstances).1.heard = engine.heard ∧
      (engine.runWorker number patience circumstances).1.callers = engine.callers := by
  unfold runWorker
  split
  · exact ⟨rfl, rfl⟩
  · apply @follow_keeps engine fun later =>
      later.heard = engine.heard ∧ later.callers = engine.callers
    · rintro earlier next events ⟨same, callers⟩ taken
      obtain ⟨kept, unmoved⟩ := stepWorker_heard taken
      exact ⟨kept.trans same, unmoved.trans callers⟩
    · exact ⟨rfl, rfl⟩

theorem settle_heard (patience : UInt64) :
    (engine.settle patience circumstances).1.heard = engine.heard ∧
      (engine.settle patience circumstances).1.callers = engine.callers := by
  unfold settle
  refine List.foldlRecOn
    (motive := fun (done : Engine × List Event) =>
      done.1.heard = engine.heard ∧ done.1.callers = engine.callers) _ _ ⟨rfl, rfl⟩ ?_
  rintro ⟨current, events⟩ ⟨heard, callers⟩ number _
  obtain ⟨kept, unmoved⟩ := @runWorker_heard current number circumstances patience
  exact ⟨kept.trans heard, unmoved.trans callers⟩

end Engine

namespace Session

variable {session : Session} {circumstances : Circumstances}

/-- The workers run on, and then the caller, if it stands outside a notification. -/
theorem resumed_heard {begun answered : Engine} (patience : UInt64)
    (heard : answered.heard = begun.heard) (callers : answered.callers = begun.callers)
    (deaf : (begun.callers host).isNotifying = false) :
    ((answered.settle patience circumstances).1.runCaller host circumstances).1.heard =
      begun.heard := by
  obtain ⟨settled, unmoved⟩ := @Engine.settle_heard answered circumstances patience
  have still : ((answered.settle patience circumstances).1.callers host).isNotifying = false := by
    rw [unmoved, callers]
    exact deaf
  exact (Engine.follow_heard _ still).1.trans (settled.trans heard)

/-- A call has heard all that it will hear once its caller stands outside a notification. -/
theorem complete_heard {begun : Engine} {events : List Event}
    (runs : session.engine.runCaller host circumstances = (begun, events))
    (deaf : (begun.callers host).isNotifying = false) :
    (session.complete circumstances).session.engine.heard = begun.heard := by
  simp only [complete, runs]
  cases Event.result? events with
  | some result => exact (Engine.settle_heard _).1
  | none =>
      cases begun.announcing? with
      | none => exact resumed_heard _ rfl rfl deaf
      | some announcing =>
          obtain ⟨number, _⟩ := announcing
          cases taken : begun.stepWorker number circumstances with
          | none =>
              simp only [taken, Option.getD_none]
              exact resumed_heard _ rfl rfl deaf
          | some answered =>
              obtain ⟨heard, callers⟩ := Engine.stepWorker_heard taken
              simp only [taken, Option.getD_some]
              exact resumed_heard _ heard callers deaf

/-- A request that is no notification is deaf. -/
theorem call_heard {call : Call} (deaf : call.entry.isNotifying = false) :
    (session.call call circumstances).session.engine.heard = session.engine.heard := by
  have begins : ((session.engine.setCaller host call.entry).callers host).isNotifying = false := by
    rw [Engine.setCaller_self]
    exact deaf
  obtain ⟨heard, still⟩ := Engine.follow_heard _ begins
  exact (complete_heard rfl still).trans heard

/-- An update is heard, and nothing after it. -/
theorem updating_heard {engine : Engine} {reason : Interruption} {announcement : Announcement}
    (standing : engine.callers host = .updating reason announcement) (bound : Nat) :
    (Engine.follow (.caller host) (fun _ => circumstances) (bound + 1) engine).1.heard =
        ⟨(engine.tracker.update announcement).2, engine.tally.peerBlocks⟩ ∧
      ((Engine.follow (.caller host) (fun _ => circumstances) (bound + 1) engine).1.callers
        host).isNotifying = false := by
  obtain ⟨⟨next, events⟩, taken⟩ :
      ∃ result, engine.stepCaller host circumstances = some result := by
    simp [Engine.stepCaller, standing]
  have heard : next.heard = ⟨(engine.tracker.update announcement).2, engine.tally.peerBlocks⟩ ∧
      (next.callers host).isNotifying = false := by
    cases Engine.stepCaller_cases taken with
    | updating_accepted stands accepted entries =>
        cases stands.symm.trans standing
        refine ⟨?_, by rw [Engine.setCaller_self]; rfl⟩
        simp [Engine.heard, Tracker.update, accepted]
    | updating_refused stands refused entries =>
        cases stands.symm.trans standing
        refine ⟨?_, by rw [Engine.setCaller_self]; rfl⟩
        simp [Engine.heard, Tracker.update_of_refused refused]
    | _ => cases (‹engine.callers host = _›).symm.trans standing
  rw [Engine.follow_succ taken]
  obtain ⟨same, deaf⟩ := @Engine.follow_heard next host (fun _ => circumstances) bound heard.2
  exact ⟨same.trans heard.1, deaf⟩

theorem difficultyChange_heard (announcement : Announcement) :
    (session.call (.difficultyChange announcement) circumstances).session.engine.heard =
      session.engine.heard.add (.difficultyChange announcement) := by
  obtain ⟨heard, deaf⟩ := @updating_heard circumstances
    (session.engine.setCaller host (.updating .difficultyChange announcement))
    .difficultyChange announcement (Engine.setCaller_self _ _ _) 19
  exact (complete_heard rfl deaf).trans heard

theorem peerBlock_heard (announcement : Announcement) :
    (session.call (.peerBlock announcement) circumstances).session.engine.heard =
      session.engine.heard.add (.peerBlock announcement) := by
  let told := session.engine.setCaller host (.peerCounting announcement)
  let counted := ({ told with tally := told.tally.countPeerBlock }).setCaller host
    (.updating .peerBlock announcement)
  have counts : told.stepCaller host circumstances =
      some (counted, [.logged (.peerBlockReceived announcement)]) := by
    simp [Engine.stepCaller, told, counted]
  obtain ⟨heard, deaf⟩ := @updating_heard circumstances counted .peerBlock announcement
    (Engine.setCaller_self _ _ _) 18
  have runs : told.runCaller host circumstances =
      ((Engine.follow (.caller host) (fun _ => circumstances) 19 counted).1,
        [.logged (.peerBlockReceived announcement)] ++
          (Engine.follow (.caller host) (fun _ => circumstances) 19 counted).2) := by
    rw [← Engine.follow_succ counts]
    simp [Engine.runCaller, told, Activity.remaining]
  exact (complete_heard runs deaf).trans heard

theorem serve_heard (request : Request) :
    (session.serve circumstances request).after.engine.heard =
      request.notice?.toList.foldl Heard.add session.engine.heard := by
  cases request with
  | start context | stop | counters =>
      simp only [serve, serve.ofResult]
      exact call_heard rfl
  | requestStart context =>
      simp only [serve, serve.ofRequest, requestStart]
      split <;> exact call_heard rfl
  | requestStop => exact call_heard rfl
  | peerBlock announcement => exact peerBlock_heard announcement
  | difficultyChange announcement => exact difficultyChange_heard announcement
  | exportTo path | reportErrorsTo path => rfl

/-- What a session hears comes from the notifications among the requests. -/
theorem serveAll_heard (requests : List (Request × Circumstances)) :
    (session.serveAll requests).2.engine.heard =
      (requests.filterMap fun request => request.1.notice?).foldl Heard.add
        session.engine.heard := by
  induction requests generalizing session with
  | nil => rfl
  | cons request rest inductionHypothesis =>
      obtain ⟨request, circumstances⟩ := request
      simp only [serveAll, inductionHypothesis, serve_heard, List.filterMap_cons]
      cases request.notice? <;> rfl

end Session

end MiningAgent
