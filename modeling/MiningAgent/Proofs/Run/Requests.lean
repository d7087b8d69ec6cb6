import MiningAgent.Proofs.Run.Generation

/-!
# The start behind a worker

Every worker was spawned by one call of `start`, with the context that was asked for there.
That call returns that it has started a run, whatever other starts return in the meantime.
-/

namespace MiningAgent

/-- The context of a start that has not been decided. -/
def Activity.requested? : Activity → Option Context
  | .startLocking context => some context
  | .startChecking context => some context
  | .startClaiming context => some context
  | .startDeciding context => some context
  | _ => none

/-- Whether a start has spawned a worker and has yet to return. -/
def Activity.isStarting : Activity → Bool
  | .startFilling _ _ => true
  | .startReleasing .started => true
  | .leaving .started => true
  | _ => false

theorem Worker.Advance.context {engine : Engine} {circumstances : Circumstances}
    {worker later : Worker} (advance : worker.Advance engine circumstances later) :
    later.context = worker.context := by
  cases advance with
  | _ => rfl

namespace Engine

/-- A call of some caller returns. -/
structure Moment.Returns (moment : Moment) (caller : Nat) (result : Result) : Prop where
  own : ∃ circumstances, moment.move = .step (.caller caller) circumstances
  shown : .returned result ∈ moment.events

/-- The last call that a caller has begun is a start with some context. -/
def Asked (history : History) (caller : Nat) (context : Context) : Prop :=
  ∃ early asking between, history = early ++ asking :: between ∧
    asking.move = .call caller (.start context) ∧
    ∀ moment ∈ between, ∀ call, moment.move ≠ .call caller call

/-- A worker was spawned by the last call that a caller had begun, a start with the context of
the worker. -/
def Spawned (history : History) (number : Nat) (worker : Worker) (caller : Nat)
    (late : History) : Prop :=
  ∃ before spawning, history = before ++ spawning :: late ∧
    Asked before caller worker.context ∧ spawning.before.workers.length = number ∧
    spawning.after.callers caller = .startFilling worker.generation number

/-- The call of a caller is going to return that it has started a run, or was the first to
return since, and did so. -/
def ReturnsStarted (caller : Nat) (late : History) (finish : Engine) : Prop :=
  (finish.callers caller).isStarting = true ∧
      (∀ moment ∈ late, ∀ result, ¬ moment.Returns caller result) ∨
    ∃ middle returning rest, late = middle ++ returning :: rest ∧
      (∀ moment ∈ middle, ∀ result, ¬ moment.Returns caller result) ∧
      returning.Returns caller .started

variable {start finish engine next : Engine} {history late : History} {moment : Moment}
  {move : Move} {number caller : Nat} {circumstances : Circumstances} {events : List Event}
  {context : Context}

theorem Asked.extend (asked : Asked history caller context)
    (other : ∀ call, moment.move ≠ .call caller call) :
    Asked (history ++ [moment]) caller context := by
  obtain ⟨early, asking, between, rfl, own, none⟩ := asked
  refine ⟨early, asking, between ++ [moment], by simp, own, ?_⟩
  intro later member
  rcases List.mem_append.mp member with old | new
  · exact none later old
  · rw [List.mem_singleton.mp new]
    exact other

theorem stepCaller_requested
    (taken : engine.stepCaller caller circumstances = some (next, events))
    (given : (next.callers caller).requested? = some context) :
    (engine.callers caller).requested? = some context := by
  cases stepCaller_cases taken with
  | startLocking | startChecking | startClaiming =>
      rw [‹engine.callers caller = _›]
      rw [setCaller_self] at given
      exact given
  | _ =>
      rw [setCaller_self] at given
      cases given

theorem asked_kept (asked : ∀ caller context,
      (engine.callers caller).requested? = some context → Asked history caller context)
    (made : engine.move? move = some (next, events))
    (given : (next.callers caller).requested? = some context) :
    Asked (history ++ [⟨engine, move, events, next⟩]) caller context := by
  cases move?_cases made with
  | @call number call idle =>
      by_cases same : caller = number
      · subst same
        rw [setCaller_self] at given
        cases call with
        | start wanted =>
            cases given
            exact ⟨history, _, [], rfl, rfl, by simp⟩
        | _ => cases given
      · simp only [setCaller_callers, same, if_false] at given
        apply (asked caller context given).extend
        intro other own
        cases own
        exact same rfl
  | @failSpawn number reason wanted fault standing vacant =>
      by_cases same : caller = number
      · subst same
        rw [setCaller_self] at given
        cases given
      · simp only [setCaller_callers, same, if_false] at given
        exact (asked caller context given).extend (by simp)
  | setReportPath => exact (asked caller context given).extend (by simp)
  | worker taken =>
      rw [(stepWorker_frame taken).1] at given
      exact (asked caller context given).extend (by simp)
  | @caller number circumstances _ _ taken =>
      by_cases same : caller = number
      · subst same
        exact (asked caller context (stepCaller_requested taken given)).extend (by simp)
      · rw [stepCaller_others taken same] at given
        exact (asked caller context given).extend (by simp)

theorem Reaches.asked (reached : start.Reaches history finish)
    (idle : ∀ caller, (start.callers caller).requested? = none) :
    ∀ caller context, (finish.callers caller).requested? = some context →
      Asked history caller context := by
  induction reached with
  | refl =>
      intro caller context given
      rw [idle caller] at given
      cases given
  | move _ made inductionHypothesis =>
      intro caller context given
      exact asked_kept inductionHypothesis made given

theorem spawned_newcomer {worker : Worker}
    (asked : ∀ caller context,
      (engine.callers caller).requested? = some context → Asked history caller context)
    (made : engine.move? move = some (next, events)) (absent : engine.workers[number]? = none)
    (found : next.workers[number]? = some worker) :
    ∃ caller, Spawned (history ++ [⟨engine, move, events, next⟩]) number worker caller [] := by
  obtain ⟨last, caller, circumstances, context, own, standing, rfl⟩ :=
    move?_newcomer made absent found
  rcases move?_workers_length made with same | ⟨other, _, _, stepped, _, _, after⟩
  · have inside := (List.getElem?_eq_some_iff.mp found).1
    omega
  · cases own.symm.trans stepped
    refine ⟨caller, history, _, rfl, ?_, last.symm, ?_⟩
    · apply asked
      rw [standing]
      rfl
    · rw [after, setCaller_self, last]

theorem Spawned.extend {worker later : Worker} (spawned : Spawned history number worker caller late)
    (generation : later.generation = worker.generation) (context : later.context = worker.context) :
    Spawned (history ++ [moment]) number later caller (late ++ [moment]) := by
  obtain ⟨before, spawning, rfl, asked, first, fills⟩ := spawned
  refine ⟨before, spawning, by simp, ?_, first, ?_⟩
  · rw [context]
    exact asked
  · rw [generation]
    exact fills

/-- Every worker was spawned by a start that was asked for with its context. -/
theorem Reaches.spawned (reached : start.Reaches history finish)
    (idle : ∀ caller, (start.callers caller).requested? = none) (none : start.workers = []) :
    ∀ (number : Nat) worker, finish.workers[number]? = some worker →
      ∃ caller late, Spawned history number worker caller late := by
  induction reached with
  | refl =>
      intro number worker found
      rw [none] at found
      cases found
  | @move history engine next move events reached made inductionHypothesis =>
      intro number later there
      cases found : engine.workers[number]? with
      | none =>
          obtain ⟨caller, spawned⟩ := spawned_newcomer (reached.asked idle) made found there
          exact ⟨caller, [], spawned⟩
      | some worker =>
          obtain ⟨caller, late, spawned⟩ := inductionHypothesis number worker found
          obtain ⟨after, present, step⟩ := move?_worker made found
          cases Option.some.inj (present.symm.trans there)
          refine ⟨caller, _, spawned.extend ?_ ?_⟩
          · rcases step with ⟨_, _, advance⟩ | ⟨_, touched⟩
            · exact advance.generation
            · exact touched.generation
          · rcases step with ⟨_, _, advance⟩ | ⟨_, touched⟩
            · exact advance.context
            · exact touched.context

theorem stepCaller_starting
    (taken : engine.stepCaller caller circumstances = some (next, events))
    (starting : (engine.callers caller).isStarting = true) :
    (next.callers caller).isStarting = true ∧ (∀ result, .returned result ∉ events) ∨
      .returned .started ∈ events := by
  cases stepCaller_cases taken with
  | startFilling standing =>
      left
      rw [setCaller_self]
      exact ⟨rfl, by simp⟩
  | @startReleasing result standing =>
      left
      rw [setCaller_self]
      rw [standing] at starting
      cases result with
      | started => exact ⟨rfl, by simp⟩
      | _ => cases starting
  | @leaving result standing =>
      right
      rw [standing] at starting
      cases result with
      | started => simp
      | _ => cases starting
  | _ =>
      rw [‹engine.callers caller = _›] at starting
      cases starting

theorem ReturnsStarted.kept (returns : ReturnsStarted caller late engine)
    (made : engine.move? move = some (next, events)) :
    ReturnsStarted caller (late ++ [⟨engine, move, events, next⟩]) next := by
  rcases returns with ⟨starting, silent⟩ | ⟨middle, returning, rest, rfl, silent, started⟩
  · have other (same : next.callers caller = engine.callers caller)
        (others : ∀ circumstances, move ≠ .step (.caller caller) circumstances) :
        ReturnsStarted caller (late ++ [⟨engine, move, events, next⟩]) next := by
      left
      rw [same]
      refine ⟨starting, ?_⟩
      intro moment member result returned
      rcases List.mem_append.mp member with old | new
      · exact silent moment old result returned
      · cases List.mem_singleton.mp new
        obtain ⟨circumstances, own⟩ := returned.own
        exact others circumstances own
    cases move?_cases made with
    | @call number call idle =>
        have different : caller ≠ number := by
          intro same
          rw [same, idle] at starting
          cases starting
        exact other (by simp [different]) (by simp)
    | @failSpawn number reason wanted fault standing vacant =>
        have different : caller ≠ number := by
          intro same
          rw [same, standing] at starting
          cases starting
        exact other (by simp [different]) (by simp)
    | setReportPath => exact other rfl (by simp)
    | worker taken => exact other (by rw [(stepWorker_frame taken).1]) (by simp)
    | @caller number circumstances _ _ taken =>
        by_cases same : caller = number
        · subst same
          rcases stepCaller_starting taken starting with ⟨still, unheard⟩ | started
          · left
            refine ⟨still, ?_⟩
            intro moment member result returned
            rcases List.mem_append.mp member with old | new
            · exact silent moment old result returned
            · cases List.mem_singleton.mp new
              exact unheard result returned.shown
          · right
            exact ⟨late, _, [], rfl, silent, ⟨_, rfl⟩, started⟩
        · apply other (stepCaller_others taken same)
          intro circumstances own
          cases own
          exact same rfl
  · right
    refine ⟨middle, returning, rest ++ [⟨engine, move, events, next⟩], ?_, silent, started⟩
    rw [List.append_assoc, List.cons_append]

theorem Reaches.returnsStarted (reached : start.Reaches late finish)
    (starting : (start.callers caller).isStarting = true) :
    ReturnsStarted caller late finish := by
  induction reached with
  | refl => exact .inl ⟨starting, by simp⟩
  | move _ made inductionHypothesis => exact inductionHypothesis.kept made

end Engine

end MiningAgent
