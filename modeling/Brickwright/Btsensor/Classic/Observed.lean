import Brickwright.Btsensor.Classic.Degrees
import Brickwright.Btsensor.Classic.Runs

/-!
# What the thread of the host keeps of the observer's books

A request begins with a line of which nothing is written down; the baseline of its run is the one
position that the thread takes.
-/

namespace Brickwright.Btsensor.Classic

open Backend Unwrapped
open List

variable {σ : Type*} {env : IoCall → σ → IoResult × σ} {s : System σ} {w : Watch} {p : Int}

def System.Watched (s : System σ) (w : Watch) : Prop :=
  Classic.Watched w s.pending s.host s.timer s.received

/-! ## The thread of the host -/

theorem along_start (asked : Asked) (operation : Operation) (angle : Int) (endState : UInt8)
    (token : UInt32) :
    Along [p] operation angle (Run.start asked
      { operation with speed := if angle < 0 then -operation.speed else operation.speed }
      (.degrees angle) endState (Int32.ofInt p) token) where
  degrees := rfl
  target := rfl
  direction := by
    rw [sense, apply_ite Int64.ofInt]
    rfl
  begun := cons_ne_nil _ _
  few := (by decide : 1 ≤ 3001)
  position _ := ⟨p, [], rfl, rfl⟩
  displacement _ := by
    rw [travelled, getLastD_nil, Int.sub_self]
    rfl

variable {port : Port} {goal : Goal} {asked : Asked} {host : Host}

theorem watched_tag (h : Classic.Watched w s.pending host s.timer s.received) (a : Answers)
    {operation operation' : Operation} {endState : UInt8}
    (htodo : w.todo asked.line = some (.start port operation goal endState))
    (hmatches : ∀ token, Matches (w.readings asked.line) operation goal
      (Run.start asked operation' goal endState a.degrees token))
    (hread : ∀ angle, goal = .degrees angle → ∃ p, w.readings asked.line = [p])
    (hrefused : ∀ rc, rc ≠ 0 → Refused w s.pending asked.line rc) :
    (s.tag env a asked port operation' goal endState).1.Watched w := by
  have hasked (token : UInt32) :
      (Run.start asked operation' goal endState a.degrees token).asked = asked := by
    cases goal <;> rfl
  unfold System.tag
  dsimp only
  split
  · refine h.of_host ⟨operation, endState, ?_⟩
    rw [hasked]
    exact ⟨htodo, hmatches _, hread⟩
  next hrc => exact h.of_host (hrefused _ hrc)

variable {a : Answers}

/-- `start_timed` and `start_degrees`, up to the operation: a run by an angle has its baseline. -/
theorem System.Watched.starting (h : s.Watched w)
    (hdegrees : a.degrees = Int32.ofInt p) {operation : Operation} {endState : UInt8}
    (hhost : s.host = .starting asked port operation goal endState) :
    (s.hostStep env a).1.Watched (w.after env s (.host a) p) := by
  have hok := h.host
  rw [hhost] at hok
  obtain ⟨htodo, hfirst⟩ := hok
  have hasks : s.asks (.host a) = none := rfl
  have hends : s.ends env (.host a) = none := rfl
  have hfresh (hangle : w.AsksDegrees asked.line) (port : Port) (run : Run)
      (hrun : s.pending port = some run) : run.asked.line ≠ asked.line :=
    (h.tracked port run hrun).line_ne hfirst hangle
  have hunread (rc : Int) (hrc : rc ≠ 0) : Refused w s.pending asked.line rc := by
    refine fun hangle => ⟨hrc, ?_, hfresh hangle⟩
    rw [hfirst]
    exact isChain_nil
  have hstep : s.hostStep env a = s.start env a asked port operation goal endState := by
    rw [System.hostStep, hhost]
  rw [hstep]
  cases goal with
  | timed timeMs =>
    have hreads : s.reads (.host a) = none := by
      rw [System.reads, hhost]
    rw [Watch.after_eq_self hasks hreads hends]
    unfold System.start
    split
    · exact h.of_host (hunread _ (by decide))
    · split
      · exact h.of_host (hunread _ (by decide))
      · exact watched_tag h a htodo (fun token => rfl) (fun angle hgoal => nomatch hgoal) hunread
  | degrees angle =>
    have hreads : s.reads (.host a) =
        if (s.pending port).isSome ∨ a.now > maxClock - (Goal.degrees angle).span ∨ a.encoderRc ≠ 0
        then none else some asked.line := by
      rw [System.reads, hhost]
    unfold System.start
    split
    next hbusy =>
      rw [if_pos (.inl hbusy)] at hreads
      rw [Watch.after_eq_self hasks hreads hends]
      exact h.of_host (hunread _ (by decide))
    next hfree =>
      split
      next hlate =>
        rw [if_pos (.inr (.inl hlate))] at hreads
        rw [Watch.after_eq_self hasks hreads hends]
        exact h.of_host (hunread _ (by decide))
      next htime =>
        dsimp only
        split
        next herror =>
          rw [if_pos (.inr (.inr herror))] at hreads
          rw [Watch.after_eq_self hasks hreads hends]
          exact h.of_host (hunread _ herror)
        next hencoder =>
          have hno : ¬ ((s.pending port).isSome ∨
              a.now > maxClock - (Goal.degrees angle).span ∨ a.encoderRc ≠ 0) := by
            rintro (hbusy | hlate | herror)
            · exact hfree hbusy
            · exact htime hlate
            · exact hencoder herror
          rw [if_neg hno] at hreads
          rw [Watch.after_eq_read hasks hreads hends]
          have hreadings : (w.read asked.line p).readings asked.line = [p] := by
            rw [Watch.readings_read_self, hfirst]
          refine watched_tag (s := s.encode a) (h.first hfirst (h.todo _ _ htodo).1) a htodo
            (fun token => ?_) (fun _ _ => ⟨p, hreadings⟩) fun rc hrc hangle => ⟨hrc, ?_, ?_⟩
          · rw [hreadings, hdegrees]
            exact along_start asked operation angle endState token
          · rw [hreadings]
            exact isChain_singleton _
          · exact hfresh hangle

variable {run : Run}

theorem Matches.startAt {ps : List Int} {operation : Operation}
    (h : Matches ps operation goal run) (generation : UInt32) (now : UInt64) :
    Matches ps operation goal (run.startAt goal generation now) := by
  cases goal with
  | timed timeMs => exact h
  | degrees angle =>
    exact ⟨h.degrees, h.target, h.direction, h.begun, h.few, h.position, h.displacement⟩

theorem System.Sound.not_at (h : s.Sound)
    (hhost : s.host = .arming port run goal) : ¬ s.timer.At port := by
  rintro ⟨completed, hcompleting⟩
  rw [System.Sound, hhost] at h
  have hwaits := (h.completing port completed hcompleting).2 (h.free port rfl)
  rcases hwaits with hwaits | hwaits <;> cases hwaits

/-- A run that is armed waits from the reading that its start was given. -/
theorem System.Watched.arm (h : s.Watched w) (hsound : s.Sound)
    (hclock : a.now ≤ maxClock - encoderPollMs)
    (hhost : s.host = .arming port run goal) : (s.arm a port run goal).1.Watched w := by
  have hok := h.host
  rw [hhost] at hok
  obtain ⟨operation, endState, htodo, hmatches, hread⟩ := hok
  have hnot := hsound.not_at hhost
  have hstarted := hmatches.startAt (s.generation + 1) a.now
  have hasked := (Effect.startAt_fields run goal (s.generation + 1) a.now).1
  have hwaits : (run.startAt goal (s.generation + 1) a.now).degrees = true →
      Waits (w.readings run.asked.line) (run.startAt goal (s.generation + 1) a.now) := by
    intro hdegrees
    cases goal with
    | timed timeMs =>
      rw [hstarted] at hdegrees
      cases hdegrees
    | degrees angle =>
      obtain ⟨q, hq⟩ := hread angle rfl
      rw [hq]
      exact waits_startAt angle _ q run hclock
  unfold System.arm
  dsimp only
  split
  next hrc =>
    rw [System.Sound, hhost] at hsound
    refine h.of_host fun hangle => ⟨ne_of_lt hrc, ?_, fun port' run' hrun' => ?_⟩
    · rw [hasked] at hangle ⊢
      obtain ⟨_, _, angle, _, hangle⟩ := hangle
      rw [htodo] at hangle
      cases hangle
      obtain ⟨q, hq⟩ := hread angle rfl
      rw [hq]
      exact isChain_singleton _
    · rw [hasked]
      intro hline
      obtain ⟨_, _, _, htodo', -⟩ := h.tracked port' run' hrun'
      rw [hline, htodo] at htodo'
      cases htodo'
      rw [hsound.free port rfl] at hrun'
      cases hrun'
  · refine ⟨h.todo, h.unread, ?_, ?_, ?_, trivial, h.timer⟩
    · intro port' run' hrun'
      change Function.update s.pending port _ port' = some run' at hrun'
      rw [Function.update_apply] at hrun'
      split at hrun'
      next heq =>
        cases hrun'
        subst heq
        refine ⟨operation, goal, endState, ?_, ?_⟩
        · rw [hasked]
          exact htodo
        · rw [hasked]
          exact hstarted
      · exact h.tracked port' run' hrun'
    · intro port' run' hrun' hdegrees hat
      change Function.update s.pending port _ port' = some run' at hrun'
      rw [Function.update_apply] at hrun'
      split at hrun'
      · cases hrun'
        rw [hasked]
        exact hwaits hdegrees
      · exact h.waits port' run' hrun' hdegrees hat
    · intro port' completed run' hcompleting hrun'
      -- the thread of the scheduler is not at the port that is armed
      have hne : port' ≠ port := by
        rintro rfl
        exact hnot ⟨completed, hcompleting⟩
      change Function.update s.pending port _ port' = some run' at hrun'
      rw [Function.update_of_ne hne] at hrun'
      exact h.same port' completed run' hcompleting hrun'

theorem System.Watched.cancel (h : s.Watched w)
    (hhost : s.host = .canceling asked port) : (s.cancel asked port).1.Watched w := by
  have hok := h.host
  rw [hhost] at hok
  unfold System.cancel
  split
  · exact h.of_host (refused_of_not_asks hok)
  · exact h.of_subset (fun _ _ => Effect.update_none_some) hok

theorem Watched.unambiguous {pending : Table} {timer : Timer} {received : Nat}
    (h : Classic.Watched w pending host timer received)
    (hrun : pending port = some run) (hat : ¬ timer.At port)
    (hasks : w.AsksDegrees run.asked.line) : Unambiguous (w.readings run.asked.line) := by
  obtain ⟨operation, goal, endState, htodo, hmatches⟩ := h.tracked port run hrun
  obtain ⟨port', operation', angle, endState', htodo'⟩ := hasks
  rw [htodo] at htodo'
  cases htodo'
  exact (h.waits port run hrun hmatches.degrees hat).unambiguous

theorem givenUp_runs {pending : Table} {timer : Timer} {received : Nat}
    (h : Classic.Watched w pending host timer received) (htimer : timer.completing = none)
    {rc : Int} (hrc : rc < 0) : GivenUp w ⟨pending.runs, rc, none⟩ := by
  refine fun _ => ⟨hrc, fun r hr hasks => ?_⟩
  refine h.unambiguous (Table.mem_runs.mp hr) ?_ hasks
  rintro ⟨completed, hat⟩
  rw [htimer] at hat
  cases hat

theorem abort_subset {failed failed' : Abort} {notes : List Note} {s' : System σ}
    (h : s.abort env failed = some (notes, failed', s')) :
    failed'.error = failed.error ∧ ∀ r ∈ failed'.failed, r ∈ failed.failed := by
  unfold System.abort at h
  split at h
  · cases h
  · cases h
    exact ⟨rfl, fun _ => id⟩
  next hfailed _ =>
    cases h
    rw [hfailed]
    exact ⟨rfl, fun _ => mem_cons_of_mem _⟩

theorem System.Watched.rearm (h : s.Watched w) (hsound : s.Sound) (a : Answers)
    {canceled : Run} (hhost : s.host = .rearming asked canceled) :
    (s.rearm a asked canceled).1.Watched w := by
  have hok := h.host
  rw [hhost] at hok
  have hidle : s.timer.completing = none := by
    rw [System.Sound, hhost] at hsound
    rw [(hsound.quiet rfl).1]
    rfl
  unfold System.rearm
  dsimp only
  split
  next hrc =>
    exact h.of_subset (fun _ _ hrun => by cases hrun)
      ⟨hok, givenUp_runs h hidle hrc, fun _ => rfl⟩
  · exact h.of_host ⟨hok, GivenUp.nil w _, fun hne => absurd rfl hne⟩

theorem System.Watched.disconnect (h : s.Watched w) (link : Nat) (connected : Bool) :
    (s.disconnect link connected).1.Watched w := by
  unfold System.disconnect
  split
  · exact h
  · exact h.of_subset (fun _ _ hrun => nomatch hrun) trivial

theorem System.Watched.operated (h : s.Watched w) (a : Answers) (operation : Operation)
    (hok : HostOk w s.pending host) :
    { (s.operate env a operation).2.2 with host := host }.Watched w := by
  show Classic.Watched w (s.operate env a operation).2.2.pending host
    (s.operate env a operation).2.2.timer (s.operate env a operation).2.2.received
  rw [operate_pending, operate_timer, operate_received]
  exact h.of_host hok

/-- Away from the start of a run, no step of the host reads an encoder. -/
theorem System.Watched.hostStep_of_ne (h : s.Watched w) (hsound : s.Sound)
    (hclock : a.now ≤ maxClock - encoderPollMs) (hne : ∀ asked port operation goal endState,
      s.host ≠ .starting asked port operation goal endState) : (s.hostStep env a).1.Watched w := by
  have hok := h.host
  cases hhost : s.host with
  | starting asked port operation goal endState => exact absurd hhost (hne _ _ _ _ _)
  | idle =>
    rw [System.hostStep, hhost]
    exact h
  | sounding operation =>
    rw [System.hostStep, hhost]
    exact h.operated a operation trivial
  | snapshot asked =>
    rw [hhost] at hok
    rw [System.hostStep, hhost]
    exact h.of_host (refused_of_not_asks hok)
  | checking asked port operation =>
    rw [hhost] at hok
    rw [System.hostStep, hhost]
    dsimp only
    split
    · exact h.of_host (refused_of_not_asks hok)
    · exact h.of_host hok
  | operating asked operation cancel =>
    rw [hhost] at hok
    rw [System.hostStep, hhost]
    cases cancel with
    | none => exact h.operated a operation (refused_of_not_asks hok)
    | some port =>
      refine h.operated a operation ?_
      split
      · exact hok
      · exact refused_of_not_asks hok
  | arming port run goal =>
    rw [System.hostStep, hhost]
    exact h.arm hsound hclock hhost
  | ending port run endState rc =>
    rw [hhost] at hok
    rw [System.hostStep, hhost]
    exact h.of_host hok
  | canceling asked port =>
    rw [System.hostStep, hhost]
    exact h.cancel hhost
  | stopping asked canceled =>
    rw [hhost] at hok
    rw [System.hostStep, hhost]
    dsimp only
    split
    · exact h.of_host hok
    · exact h
  | rearming asked canceled =>
    rw [System.hostStep, hhost]
    exact h.rearm hsound a hhost
  | resolving asked canceled failed =>
    rw [hhost] at hok
    rw [System.hostStep, hhost]
    exact h.of_host hok
  | aborting asked failed =>
    rw [hhost] at hok
    obtain ⟨hasks, hgiven, hempty⟩ := hok
    rw [System.hostStep, hhost]
    dsimp only
    split
    · exact h.of_host (refused_of_not_asks hasks)
    next habort =>
      obtain ⟨hpending, -, -, htimer, hreceived⟩ := abort_table habort
      obtain ⟨herror, hsub⟩ := abort_subset habort
      show Classic.Watched w _ _ _ _
      rw [hpending, htimer, hreceived]
      refine h.of_host ⟨hasks, hgiven.of_subset herror hsub, fun hleft => hempty ?_⟩
      -- what is left to abort was there to abort before
      obtain ⟨r, hr⟩ := exists_mem_of_ne_nil _ hleft
      exact ne_nil_of_mem (hsub r hr)
  | replying asked rc =>
    rw [System.hostStep, hhost]
    exact h.of_host trivial
  | disconnecting canceled =>
    rw [System.hostStep, hhost]
    dsimp only
    split
    · exact h.of_host trivial
    · exact h
  | releasing canceled =>
    rw [System.hostStep, hhost]
    cases canceled with
    | nil => exact h.of_host trivial
    | cons first rest => exact h.of_host trivial

theorem System.Watched.hostStep (h : s.Watched w) (hsound : s.Sound)
    (hdegrees : a.degrees = Int32.ofInt p) (hclock : a.now ≤ maxClock - encoderPollMs) :
    (s.hostStep env a).1.Watched (w.after env s (.host a) p) := by
  by_cases hstart : ∃ asked port operation goal endState,
      s.host = .starting asked port operation goal endState
  · obtain ⟨asked, port, operation, goal, endState, hhost⟩ := hstart
    exact h.starting hdegrees hhost
  · have hne (asked : Asked) (port : Port) (operation : Operation) (goal : Goal)
        (endState : UInt8) : s.host ≠ .starting asked port operation goal endState :=
      fun hhost => hstart ⟨asked, port, operation, goal, endState, hhost⟩
    have hreads : s.reads (.host a) = none := by
      rw [System.reads]
      split
      next hhost => exact absurd hhost (hne _ _ _ _ _)
      · rfl
    rw [Watch.after_eq_self rfl hreads rfl]
    exact h.hostStep_of_ne hsound hclock hne

theorem System.Watched.receive (h : s.Watched w) (link : Nat) (line : List UInt8) :
    (s.step env (.receive link line)).1.Watched (w.after env s (.receive link line) p) := by
  cases hhost : s.host with
  | idle =>
    have hidle := h
    rw [System.Watched, hhost] at hidle
    have hstep : s.step env (.receive link line) = s.receive link line := by
      rw [System.step, hhost]
    rw [hstep]
    unfold System.receive
    split
    next hlink =>
      have hasks : s.asks (.receive link line) = none := by
        unfold System.asks
        rw [hhost]
        exact if_pos hlink
      rw [Watch.after_eq_self hasks rfl rfl]
      exact h
    next hlink =>
      split
      next hsound =>
        have hasks : s.asks (.receive link line) = none := by
          unfold System.asks
          rw [hhost]
          dsimp only
          rw [if_neg hlink, hsound]
        rw [Watch.after_eq_self hasks rfl rfl]
        exact h.of_host trivial
      next hsound =>
        have hasks : s.asks (.receive link line) = (parseRequest line).map Request.todo := by
          unfold System.asks
          rw [hhost]
          dsimp only
          rw [if_neg hlink, hsound]
        split
        next hparse =>
          rw [hparse] at hasks
          rw [Watch.after_eq_self hasks rfl rfl]
          exact h
        next request hparse =>
          rw [hparse] at hasks
          rw [Watch.after_eq_ask hasks rfl rfl]
          exact hidle.ask (short_todo request) request.id
  | _ =>
    have hasks : s.asks (.receive link line) = none := by
      rw [System.asks, hhost]
    rw [Watch.after_eq_self hasks rfl rfl, System.step, hhost]
    exact h

end Brickwright.Btsensor.Classic

/-!
## What a firing keeps of the observer's books

A poll takes a position while no run is being ended and the thread of the host does not hold the
lock. Its line is that of the port's run: no other run has it, and the host is about to answer it
with nothing that depends on the position.
-/

namespace Brickwright.Btsensor.Classic

open Backend Unwrapped

variable {σ : Type*} {env : IoCall → σ → IoResult × σ} {s : System σ} {w : Watch} {p : Int}

/-! ### A poll -/

section

variable {pending : Table} {host : Host} {timer' : Timer} {n received : Nat} {port : Port}
  {run moved : Run}

theorem Refused.poll {line : Nat} {rc : Int} (h : Refused w pending line rc)
    (hrun : pending port = some run) (hasked : moved.asked = run.asked) :
    Refused (w.read run.asked.line p) (Function.update pending port (some moved)) line rc := by
  intro hasks
  obtain ⟨hrc, hunambiguous, hfresh⟩ := h hasks
  refine ⟨hrc, ?_, fun port' run' hrun' => ?_⟩
  · rw [Watch.readings_read_of_ne (hfresh port run hrun).symm]
    exact hunambiguous
  · rw [Function.update_apply] at hrun'
    split at hrun'
    · cases hrun'
      rw [hasked]
      exact hfresh port run hrun
    · exact hfresh port' run' hrun'

theorem HostOk.poll (h : HostOk w pending host) (hlock : ¬ host.HoldsLock)
    (hrun : pending port = some run) (hbegun : w.readings run.asked.line ≠ [])
    (hasked : moved.asked = run.asked) :
    HostOk (w.read run.asked.line p) (Function.update pending port (some moved)) host := by
  have hnone {failed : Abort} (hempty : failed.failed ≠ [] → pending = .empty) :
      failed.failed = [] := by
    by_contra hne
    rw [hempty hne] at hrun
    cases hrun
  cases host with
  | starting asked port' operation goal endState =>
    obtain ⟨htodo, hfirst⟩ := h
    refine ⟨htodo, ?_⟩
    rw [Watch.readings_read_of_ne, hfirst]
    intro hline
    exact hbegun (hline ▸ hfirst)
  | arming port' run' goal => exact absurd trivial hlock
  | ending port' run' endState rc => exact absurd trivial hlock
  | replying asked rc => exact Refused.poll h hrun hasked
  | resolving asked canceled failed =>
    have hfailed := hnone h.2.2
    exact ⟨h.1, fun hne => absurd hfailed hne, fun hne => absurd hfailed hne⟩
  | aborting asked failed =>
    have hfailed := hnone h.2.2
    exact ⟨h.1, fun hne => absurd hfailed hne, fun hne => absurd hfailed hne⟩
  | _ => exact h

theorem Watched.poll (h : Classic.Watched w pending host (.visiting n) received)
    (hlock : ¬ host.HoldsLock) (hrun : pending port = some run) (hdegrees : run.degrees = true)
    (hasked : moved.asked = run.asked) (htracked : Tracked (w.read run.asked.line p) port moved)
    (hwaits : ¬ timer'.At port → Waits (p :: w.readings run.asked.line) moved)
    (hsame : ∀ port' completed, timer'.completing = some (port', completed) →
      port' = port ∧ moved.generation = completed.generation)
    (htimer : TimerOk (w.read run.asked.line p) timer') :
    Classic.Watched (w.read run.asked.line p) (Function.update pending port (some moved)) host
      timer' received := by
  have hbefore := h.tracked port run hrun
  have hother {port' : Port} {run' : Run} (hrun' : pending port' = some run') (hne : port' ≠ port) :
      run'.asked.line ≠ run.asked.line :=
    (h.tracked port' run' hrun').line_ne_of_ne hbefore hne
  have hline : run.asked.line < received := by
    obtain ⟨_, _, _, htodo, -⟩ := hbefore
    exact (h.todo _ _ htodo).1
  refine ⟨h.todo, fun line hle => ?_, fun port' run' hrun' => ?_,
    fun port' run' hrun' hdegrees' hat => ?_, fun port' completed run' hcompleting hrun' => ?_,
    h.host.poll hlock hrun (hbefore.begun hdegrees) hasked, htimer⟩
  · rw [Watch.readings_read_of_ne (by omega)]
    exact h.unread line hle
  · rw [Function.update_apply] at hrun'
    split at hrun'
    next heq =>
      cases hrun'
      subst heq
      exact htracked
    next hne => exact (h.tracked port' run' hrun').read_of_ne (hother hrun' hne)
  · rw [Function.update_apply] at hrun'
    split at hrun'
    next heq =>
      cases hrun'
      subst heq
      rw [hasked, Watch.readings_read_self]
      exact hwaits hat
    next hne =>
      rw [Watch.readings_read_of_ne (hother hrun' hne)]
      exact h.waits port' run' hrun' hdegrees' fun ⟨_, hno⟩ => nomatch hno
  · obtain ⟨rfl, hgeneration⟩ := hsame port' completed hcompleting
    rw [Function.update_self] at hrun'
    cases hrun'
    exact hgeneration

theorem Watched.complete (h : Classic.Watched w pending host (.visiting n) received)
    (hrun : pending port = some run) {rc : Int} (hsettled : Settled w False run.asked.line rc) :
    Classic.Watched w pending host (.ending port run rc) received := by
  refine ⟨h.todo, h.unread, h.tracked, fun port' run' hrun' hdegrees hat => ?_,
    fun port' completed run' hcompleting hrun' => ?_, h.host, hsettled⟩
  · exact h.waits port' run' hrun' hdegrees fun ⟨_, hno⟩ => nomatch hno
  · cases hcompleting
    rw [hrun] at hrun'
    cases hrun'
    rfl

end

/-! ### The head of the loop -/

theorem System.reads_visiting {n : Nat} (htimer : s.timer = .visiting n)
    (hlock : ¬ s.host.HoldsLock) (hport : n < 6) {run : Run}
    (hrun : s.pending ⟨n, hport⟩ = some run) (a : Answers) : s.reads (.timer a) =
      if run.deadlineMs > a.now ∨ run.degrees = false ∨ ¬ (a.encoderRc = 0 ∨ a.encoderRc = -EAGAIN)
      then none else some run.asked.line := by
  rw [System.reads, htimer]
  dsimp only
  rw [if_neg hlock, dif_pos hport, hrun]

variable {port : Port} {rc : Int}

/-- **A poll.** What follows is for a run by an angle that is due and an encoder that answers. -/
theorem System.Watched.polled (h : s.Watched w) {n : Nat} (htimer : s.timer = .visiting n)
    {run : Run} (hrun : s.pending port = some run) (hdegrees : run.degrees = true)
    (hrc : rc = 0 ∨ rc = -EAGAIN) (p : Int) (now : UInt64) :
    ∃ operation angle endState,
      w.todo run.asked.line = some (.start port operation (.degrees angle) endState) ∧
      Waits (w.readings run.asked.line) run ∧
      Along (p :: w.readings run.asked.line) operation angle
        (run.measure rc (Int32.ofInt p) now).2 ∧
      ((run.measure rc (Int32.ofInt p) now).1 = 0 ∧
          Unambiguous (p :: w.readings run.asked.line) ∨
        (run.measure rc (Int32.ofInt p) now).1 = -EOVERFLOW ∧
          ¬ Unambiguous (p :: w.readings run.asked.line)) := by
  have hwaits : Waits (w.readings run.asked.line) run := by
    refine h.waits port run hrun hdegrees ?_
    rintro ⟨_, hat⟩
    rw [htimer] at hat
    cases hat
  obtain ⟨operation, goal, endState, htodo, hmatches⟩ := h.tracked port run hrun
  cases goal with
  | timed timeMs =>
    rw [hmatches] at hdegrees
    cases hdegrees
  | degrees angle => exact ⟨operation, angle, endState, htodo, hwaits,
      Along.measure hmatches hwaits hrc⟩

/-- What ends a run: it has made the angle, or has seen a step without a direction. -/
theorem settled_poll {ps : List Int} {operation : Operation} {angle : Int} {moved : Run}
    (hangle : angle.natAbs ≤ 1000000) (halong : Along (p :: ps) operation angle moved)
    (hresult : rc = 0 ∧ Unambiguous (p :: ps) ∨ rc = -EOVERFLOW ∧ ¬ Unambiguous (p :: ps)) :
    ((if rc = 0 ∧ ¬ moved.Reached then -ETIMEDOUT else rc) = 0 → Steady (p :: ps) →
      angle.natAbs ≤ sense operation angle * travelled (p :: ps)) ∧
    (¬ Unambiguous (p :: ps) →
      (if rc = 0 ∧ ¬ moved.Reached then -ETIMEDOUT else rc) = -EOVERFLOW) := by
  rcases hresult with ⟨rfl, hunambiguous⟩ | ⟨rfl, -⟩
  · refine ⟨fun hzero hsteady => halong.reached hsteady hangle ?_,
      fun hno => absurd hunambiguous hno⟩
    by_contra hnot
    rw [if_pos ⟨rfl, hnot⟩] at hzero
    cases hzero
  · have hne : (-EOVERFLOW : Int) ≠ 0 := by decide
    exact ⟨fun hzero => absurd hzero hne, fun _ => rfl⟩

theorem System.Watched.failed (h : s.Watched w) {n : Nat} (htimer : s.timer = .visiting n)
    {run : Run} (hrun : s.pending port = some run) (hdegrees : run.degrees = true) (hrc : rc ≠ 0) :
    Classic.Watched w s.pending s.host (.ending port run rc) s.received := by
  have hvisiting := h
  rw [System.Watched, htimer] at hvisiting
  have hwaits := hvisiting.waits port run hrun hdegrees fun ⟨_, hno⟩ => nomatch hno
  have hbegun := (h.tracked port run hrun).begun hdegrees
  obtain ⟨operation, goal, endState, htodo, -⟩ := h.tracked port run hrun
  refine hvisiting.complete hrun ⟨_, htodo, fun _ _ _ _ _ => ⟨hbegun, ?_, ?_⟩⟩
  · exact fun hzero => absurd hzero hrc
  · exact fun hno => absurd hwaits.unambiguous hno

/-- **A visit to one port**: what the watch has read is what the run has counted. -/
theorem System.Watched.visit (h : s.Watched w) {n : Nat} (htimer : s.timer = .visiting n)
    (hlock : ¬ s.host.HoldsLock) (hport : n < 6) {a : Answers}
    (hmeasured : a.degrees = Int32.ofInt p)
    (hclock : a.now ≤ a.again ∧ a.again ≤ maxClock - encoderPollMs) :
    (s.visit a ⟨n, hport⟩).1.Watched (w.after env s (.timer a) p) := by
  have hvisiting := h
  rw [System.Watched, htimer] at hvisiting
  have hends : s.ends env (.timer a) = none := by
    rw [System.ends, htimer]
  have hnext : Classic.Watched w s.pending s.host (.visiting (n + 1)) s.received :=
    hvisiting.of_timer rfl rfl trivial
  cases hrun : s.pending ⟨n, hport⟩ with
  | none =>
    have hreads : s.reads (.timer a) = none := by
      rw [System.reads, htimer]
      dsimp only
      rw [if_neg hlock, dif_pos hport, hrun]
    rw [Watch.after_eq_self rfl hreads hends, System.visit, hrun]
    exact hnext
  | some run =>
    have hreads := s.reads_visiting htimer hlock hport hrun a
    rw [System.visit, hrun]
    dsimp only
    split
    next hearly =>
      rw [if_pos (.inl hearly)] at hreads
      rw [Watch.after_eq_self rfl hreads hends]
      exact hnext
    next hdue =>
      split
      next htimed =>
        rw [if_pos (.inr (.inl htimed))] at hreads
        rw [Watch.after_eq_self rfl hreads hends]
        refine hvisiting.complete hrun ?_
        obtain ⟨operation, goal, endState, htodo, hmatches⟩ := h.tracked _ run hrun
        refine ⟨_, htodo, fun port' operation' angle endState' heq => ?_⟩
        cases heq
        have hdegrees := Along.degrees hmatches
        rw [htimed] at hdegrees
        cases hdegrees
      next hdegrees =>
        rw [Bool.not_eq_false] at hdegrees
        obtain ⟨hasked, hgeneration, hexpires, -, -⟩ :=
          measure_fields run a.encoderRc a.degrees a.again
        -- only an answer without an error, or without a new frame, is a reading
        by_cases hrc : a.encoderRc = 0 ∨ a.encoderRc = -EAGAIN
        · have hno : ¬ (run.deadlineMs > a.now ∨ run.degrees = false ∨
              ¬ (a.encoderRc = 0 ∨ a.encoderRc = -EAGAIN)) := by
            rintro (hearly | htimed | herror)
            · exact hdue hearly
            · rw [hdegrees] at htimed
              cases htimed
            · exact herror hrc
          rw [if_neg hno] at hreads
          rw [Watch.after_eq_read rfl hreads hends]
          obtain ⟨operation, angle, endState, htodo, hwaits, halong, hresult⟩ :=
            h.polled htimer hrun hdegrees hrc p a.again
          rw [← hmeasured] at halong hresult
          split
          next hgoes =>
            -- a run that goes on has had no overflow
            have hunambiguous : Unambiguous (p :: w.readings run.asked.line) := by
              rcases hresult with ⟨-, hunambiguous⟩ | ⟨hoverflow, -⟩
              · exact hunambiguous
              · have hzero := hgoes.1
                rw [hoverflow] at hzero
                cases hzero
            refine hvisiting.poll hlock hrun hdegrees hasked
              ⟨operation, .degrees angle, endState, ?_, ?_⟩
              (fun _ => hwaits.goesOn hunambiguous hexpires hdue hclock hgoes)
              (fun _ _ hcompleting => nomatch hcompleting) trivial
            · rw [hasked]
              exact htodo
            · rw [hasked, Watch.readings_read_self]
              exact ⟨halong.degrees, halong.target, halong.direction, halong.begun, halong.few,
                halong.position, halong.displacement⟩
          next hends =>
            refine hvisiting.poll hlock hrun hdegrees hasked
              ⟨operation, .degrees angle, endState, ?_, ?_⟩ (fun hat => absurd ⟨_, rfl⟩ hat)
              (fun port' completed hcompleting => ?_) ⟨_, htodo, fun _ _ _ _ heq => ?_⟩
            · rw [hasked]
              exact htodo
            · rw [hasked, Watch.readings_read_self]
              exact halong
            · cases hcompleting
              exact ⟨rfl, hgeneration⟩
            · cases heq
              rw [Watch.readings_read_self]
              obtain ⟨hreached, hoverflow⟩ := settled_poll (h.todo _ _ htodo).2 halong hresult
              exact ⟨List.cons_ne_nil _ _, hreached, fun hno => .inl (hoverflow hno)⟩
        · rw [if_pos (.inr (.inr hrc))] at hreads
          have hzero : a.encoderRc ≠ 0 := fun hzero => hrc (.inl hzero)
          rw [Watch.after_eq_self rfl hreads hends, measure_of_error _ hrc]
          rw [if_neg (fun hgoes => hzero hgoes.1), if_neg (fun hno => hzero hno.1)]
          show Classic.Watched w (Function.update s.pending _ _) _ _ _
          rw [← hrun, Function.update_eq_self]
          exact h.failed htimer hrun hdegrees hzero

/-! ### The rest of a firing -/

theorem System.Watched.fired (h : s.Watched w) (htimer : s.timer.completing = none) (a : Answers) :
    (s.fired a).1.Watched w := by
  unfold System.fired
  dsimp only
  split
  next hrc =>
    have hempty : HostOk w .empty s.host := h.host.of_subset fun _ _ hrun => nomatch hrun
    refine Watched.of_timer (h.of_subset (fun _ _ hrun => nomatch hrun) hempty) htimer rfl ?_
    exact givenUp_runs h htimer hrc
  · exact h.of_timer htimer rfl trivial

theorem System.Watched.finish (h : s.Watched w) {completed : Run}
    (htimer : s.timer = .finishing port completed rc) :
    (s.finish port completed rc).1.Watched w := by
  have hfinishing := h
  rw [System.Watched, htimer] at hfinishing
  have hother {pending' : Table} (hnone : pending' port = none)
      (hsub : ∀ port run, pending' port = some run → s.pending port = some run)
      {timer' : Timer} (hcompleting : timer'.completing = none) (hok : TimerOk w timer') :
      Classic.Watched w pending' s.host timer' s.received := by
    refine ⟨h.todo, h.unread, fun port' run' hrun' => h.tracked port' run' (hsub _ _ hrun'),
      fun port' run' hrun' hdegrees _ => ?_, fun _ _ _ hno => ?_, h.host.of_subset hsub, hok⟩
    · refine hfinishing.waits port' run' (hsub _ _ hrun') hdegrees ?_
      rintro ⟨_, hat⟩
      cases hat
      rw [hnone] at hrun'
      cases hrun'
    · rw [hcompleting] at hno
      cases hno
  unfold System.finish
  split
  next hnone => exact hother hnone (fun _ _ => id) rfl trivial
  next run hrun =>
    rw [if_pos (hfinishing.same port completed run rfl hrun)]
    refine hother (Function.update_self ..) (fun _ _ => Effect.update_none_some) rfl ?_
    exact hfinishing.timer

/-- The observer is told how a run could be ended. -/
def Watch.noteEnd (w : Watch) (line : Nat) (result : Int) : Watch :=
  { w with ended := Function.update w.ended line (some result) }

theorem Settled.noteEnd {line : Nat} (h : Settled w False line rc) (result : Int) :
    let rc' := if result = 0 then rc else result
    Settled (w.noteEnd line result) ((w.noteEnd line result).EndFailed line rc') line rc' := by
  obtain ⟨todo, htodo, hall⟩ := h
  refine ⟨todo, htodo, fun port operation angle endState heq => ?_⟩
  obtain ⟨hbegun, hreached, hoverflow⟩ := hall port operation angle endState heq
  refine ⟨hbegun, ?_, ?_⟩
  · split
    · exact hreached
    next hresult => exact fun hzero => absurd hzero hresult
  · split
    · exact fun hno => .inl ((hoverflow hno).resolve_right id)
    next hresult => exact fun _ => .inr ⟨hresult, Function.update_self ..⟩

theorem System.Watched.ended (h : s.Watched w) {completed : Run} {motionResult : Int}
    (htimer : s.timer = .ending port completed motionResult) (a : Answers) :
    (s.timerStep env a).1.Watched (w.after env s (.timer a) p) := by
  have hending := h
  rw [System.Watched, htimer] at hending
  have hreads : s.reads (.timer a) = none := by
    rw [System.reads, htimer]
  rw [Watch.after, hreads, System.ends, htimer, System.timerStep, htimer]
  exact ⟨h.todo, h.unread, h.tracked, hending.waits, hending.same, h.host,
    Settled.noteEnd hending.timer _⟩

theorem Watch.after_timer_eq_self (a : Answers) (hvisiting : ∀ n, s.timer ≠ .visiting n)
    (hending : ∀ port completed rc, s.timer ≠ .ending port completed rc) :
    w.after env s (.timer a) p = w := by
  refine Watch.after_eq_self rfl ?_ ?_
  · rw [System.reads]
    split
    next hno => exact absurd hno (hvisiting _)
    · rfl
  · rw [System.ends]
    split
    next hno => exact absurd hno (hending _ _ _)
    · rfl

/-- Only a visit reads an encoder, and only an end settles a run. -/
theorem System.Watched.timerStep (h : s.Watched w) {a : Answers}
    (hmeasured : a.degrees = Int32.ofInt p)
    (hclock : a.now ≤ a.again ∧ a.again ≤ maxClock - encoderPollMs) :
    (s.timerStep env a).1.Watched (w.after env s (.timer a) p) := by
  cases htimer : s.timer with
  | idle =>
    rw [Watch.after_timer_eq_self a (by rw [htimer]; exact fun _ => Timer.noConfusion)
      (by rw [htimer]; exact fun _ _ _ => Timer.noConfusion), System.timerStep, htimer]
    exact h
  | visiting n =>
    have hends : s.ends env (.timer a) = none := by
      rw [System.ends, htimer]
    rw [System.timerStep, htimer]
    dsimp only
    split
    next hlock =>
      have hreads : s.reads (.timer a) = none := by
        rw [System.reads, htimer]
        exact if_pos hlock
      rw [Watch.after_eq_self rfl hreads hends]
      exact h
    next hlock =>
      split
      next hport => exact h.visit htimer hlock hport hmeasured hclock
      next hport =>
        have hreads : s.reads (.timer a) = none := by
          rw [System.reads, htimer]
          dsimp only
          rw [if_neg hlock, dif_neg hport]
        rw [Watch.after_eq_self rfl hreads hends]
        exact h.fired (by rw [htimer]; rfl) a
  | ending port completed motionResult => exact h.ended htimer a
  | finishing port completed rc =>
    rw [Watch.after_timer_eq_self a (by rw [htimer]; exact fun _ => Timer.noConfusion)
      (by rw [htimer]; exact fun _ _ _ => Timer.noConfusion), System.timerStep, htimer]
    dsimp only
    split
    · exact h
    · exact h.finish htimer
  | replying port completed rc =>
    rw [Watch.after_timer_eq_self a (by rw [htimer]; exact fun _ => Timer.noConfusion)
      (by rw [htimer]; exact fun _ _ _ => Timer.noConfusion), System.timerStep, htimer]
    exact h.of_timer (by rw [htimer]; rfl) rfl trivial
  | aborting failed =>
    have hok := h.timer
    rw [htimer] at hok
    rw [Watch.after_timer_eq_self a (by rw [htimer]; exact fun _ => Timer.noConfusion)
      (by rw [htimer]; exact fun _ _ _ => Timer.noConfusion), System.timerStep, htimer]
    dsimp only
    split
    · exact h.of_timer (by rw [htimer]; rfl) rfl trivial
    next habort =>
      obtain ⟨hpending, -, hhost, -, hreceived⟩ := System.abort_table habort
      obtain ⟨herror, hsub⟩ := abort_subset habort
      show Classic.Watched w _ _ _ _
      rw [hpending, hhost, hreceived]
      exact h.of_timer (by rw [htimer]; rfl) rfl (GivenUp.of_subset hok herror hsub)

/-! ### One step -/

theorem System.Watched.step (h : s.Watched w) (hsound : s.Sound) (event : Event × Int)
    (hfits : Fits event) :
    (s.step env event.1).1.Watched (w.after env s event.1 event.2) := by
  obtain ⟨event, p⟩ := event
  cases event with
  | receive link line => exact h.receive link line
  | linkState link connected =>
    simp only [System.step]
    split
    · exact h.disconnect link connected
    · exact h
  | host a =>
    obtain ⟨hmeasured, hagain, hclock⟩ := hfits a rfl
    exact h.hostStep hsound hmeasured (UInt64.le_trans hagain hclock)
  | fire =>
    simp only [System.step]
    split
    next hidle _ => exact h.of_timer (by rw [hidle]; rfl) rfl trivial
    · exact h
  | timer a =>
    obtain ⟨hmeasured, hclock⟩ := hfits a rfl
    exact h.timerStep hmeasured hclock
  | other request =>
    exact h

theorem System.watched_boot (context : σ) : (boot context).Watched Watch.new where
  todo _ _ htodo := nomatch htodo
  unread _ _ := rfl
  tracked _ _ hrun := nomatch hrun
  waits _ _ hrun := nomatch hrun
  same _ _ _ hcompleting := nomatch hcompleting
  host := trivial
  timer := trivial

end Brickwright.Btsensor.Classic
